import ComponentMarkup.Files.Path

set_option autoImplicit false

namespace ComponentMarkup

/-- Puts a file where its path belongs. A path that stands there already gets the new time. -/
def insertFile (p : Path) (modified : Nat) : List (Path × Nat) → List (Path × Nat)
  | [] => [(p, modified)]
  | f :: fs =>
    if p.before f.1 then (p, modified) :: f :: fs
    else if p.same f.1 then (f.1, modified) :: fs
    else f :: insertFile p modified fs

theorem mem_insertFile {p : Path} {modified : Nat} {fs : List (Path × Nat)} {g : Path × Nat}
    (h : g ∈ insertFile p modified fs) : g.1 = p ∨ ∃ f ∈ fs, g.1 = f.1 := by
  induction fs with
  | nil =>
    obtain rfl := List.mem_singleton.1 h
    exact .inl rfl
  | cons f fs ih =>
    unfold insertFile at h
    split at h
    · rcases List.mem_cons.1 h with rfl | h
      · exact .inl rfl
      · exact .inr ⟨g, h, rfl⟩
    · split at h
      · rcases List.mem_cons.1 h with rfl | h
        · exact .inr ⟨f, List.mem_cons_self, rfl⟩
        · exact .inr ⟨g, List.mem_cons_of_mem _ h, rfl⟩
      · rcases List.mem_cons.1 h with rfl | h
        · exact .inr ⟨g, List.mem_cons_self, rfl⟩
        · rcases ih h with h | ⟨f', hf', h⟩
          · exact .inl h
          · exact .inr ⟨f', List.mem_cons_of_mem _ hf', h⟩

theorem pairwise_insertFile (p : Path) (modified : Nat) {fs : List (Path × Nat)}
    (h : fs.Pairwise fun f g => f.1.before g.1 = true) :
    (insertFile p modified fs).Pairwise fun f g => f.1.before g.1 = true := by
  induction fs with
  | nil => exact List.pairwise_singleton _ _
  | cons f fs ih =>
    have hf : ∀ g ∈ fs, f.1.before g.1 = true := (List.pairwise_cons.1 h).1
    unfold insertFile
    split
    · rename_i hpf
      refine List.pairwise_cons.2 ⟨fun g hg => ?_, h⟩
      rcases List.mem_cons.1 hg with rfl | hg
      · exact hpf
      · exact Path.before_trans hpf (hf g hg)
    · rename_i hpf
      split
      · exact List.pairwise_cons.2 ⟨hf, h.of_cons⟩
      · rename_i hsame
        refine List.pairwise_cons.2 ⟨fun g hg => ?_, ih h.of_cons⟩
        rcases mem_insertFile hg with hg | ⟨f', hf', hg⟩
        · rw [hg]
          exact Path.before_of_not hsame hpf
        · rw [hg]
          exact hf f' hf'

structure Snapshot where
  files : List (Path × Nat)
  ascending : files.Pairwise fun f g => f.1.before g.1 = true
  deriving DecidableEq, Repr

def Snapshot.empty : Snapshot := ⟨[], .nil⟩

def Snapshot.insert (s : Snapshot) (p : Path) (modified : Nat) : Snapshot :=
  ⟨insertFile p modified s.files, pairwise_insertFile p modified s.ascending⟩

def Snapshot.ofFiles (fs : List (Path × Nat)) : Snapshot :=
  fs.foldl (fun s f => s.insert f.1 f.2) .empty

def Snapshot.modified? (s : Snapshot) (p : Path) : Option Nat :=
  (s.files.find? (·.1.same p)).map Prod.snd

def Snapshot.keyed (s : Snapshot) : List (List PathPart × Nat) :=
  s.files.map fun f => (f.1.parts, f.2)

def Snapshot.agrees (s s' : Snapshot) : Bool := s.keyed == s'.keyed

def Snapshot.renewed (before after : Snapshot) : List Path :=
  (after.files.filter fun f => before.modified? f.1 != some f.2).map Prod.fst

def Snapshot.gone (before after : Snapshot) : List Path :=
  (before.files.filter fun f => (after.modified? f.1).isNone).map Prod.fst

def Snapshot.changes (before after : Snapshot) : List Path :=
  before.renewed after ++ before.gone after

end ComponentMarkup
