import ComponentMarkup.Proofs.Files.PathParts
import ComponentMarkup.Watch

/-!
The walk that a watcher takes through the files. Main statement: `FileTree.mem_filesUnder`, it finds
just the files that directories lead to step by step.
-/

set_option autoImplicit false

namespace ComponentMarkup

variable {t : FileTree} {root : Path} {names : List (List Char)} {place : Place}

theorem FileTree.mem_namesIn {dir : Place} {name : List Char} :
    name ∈ t.namesIn dir ↔ isName name = true ∧ ∃ e, (dir ++ [name], e) ∈ t.entries := by
  unfold namesIn
  rw [List.mem_filterMap]
  constructor
  · rintro ⟨⟨q, e⟩, he, hname⟩
    obtain ⟨last, -, hlast⟩ := Option.bind_eq_some_iff.1 hname
    split at hlast
    · rename_i hgood
      obtain rfl := Option.some.inj hlast
      obtain ⟨rfl, hproper⟩ := hgood
      exact ⟨hproper, e, he⟩
    · cases hlast
  · rintro ⟨hproper, e, he⟩
    exact ⟨_, he, by simp [hproper]⟩

theorem Path.byteLength_join_lt (p : Path) {s : List Char} (hs : isName s = true) :
    byteLength p.chars < byteLength (p.join ⟨s⟩).chars := by
  have hne : byteLength s ≠ 0 := fun h => (isName_ne hs).1 (byteLength_eq_zero.1 h)
  unfold join
  rw [not_isAbsolute_of_isName hs, if_neg Bool.false_ne_true]
  split
  · dsimp only
    rw [byteLength_append]
    omega
  · dsimp only
    rw [byteLength_append, byteLength_cons]
    omega

theorem Path.length_le_byteLength_below (p : Path) (h : names.all isName = true) :
    names.length ≤ byteLength (p.below names).chars := by
  suffices hgrow : byteLength p.chars + names.length ≤ byteLength (p.below names).chars by omega
  induction names generalizing p with
  | nil => exact Nat.le_refl _
  | cons s names ih =>
    simp only [List.all_cons, Bool.and_eq_true] at h
    have hrest := ih (p.join ⟨s⟩) h.2
    have hjoin := p.byteLength_join_lt h.1
    rw [List.length_cons]
    change _ ≤ byteLength ((p.join ⟨s⟩).below names).chars
    omega

theorem Path.below_concat (p : Path) (names : List (List Char)) (name : List Char) :
    p.below (names ++ [name]) = (p.below names).join ⟨name⟩ := by
  simp [below]

namespace FileTree

theorem fits_of_reach {p : Path} (h : t.reach p = .ok place) : p.fits = true := by
  unfold reach Path.checkWhole at h
  cases hc : p.check with
  | error e => rw [hc] at h; cases h
  | ok u =>
    rw [hc] at h
    cases hfits : p.fits with
    | true => rfl
    | false =>
      rw [hfits] at h
      cases h

inductive Walks (t : FileTree) (root : Path) : List (List Char) → Place → List Place → Prop
  | start {place : Place} (reached : t.reach root = .ok place)
      (directory : t.entry? place = some .directory) : t.Walks root [] place []
  | down {names : List (List Char)} {name : List Char} {place found : Place} {above : List Place}
      (walked : t.Walks root names place above) (listed : name ∈ t.namesIn place)
      (reached : t.reach (root.below (names ++ [name])) = .ok found)
      (directory : t.entry? found = some .directory)
      (forward : t.isLink (place ++ [name]) = true → found ∉ place :: above) :
      t.Walks root (names ++ [name]) found (place :: above)

/-- A walk from a path finds these names, each in the directory that those before it lead to. -/
inductive Visits (t : FileTree) (root : Path) : List (List Char) → Prop
  | root : t.Visits root []
  | listed {names : List (List Char)} {name : List Char} {place : Place} {above : List Place}
      (walked : t.Walks root names place above) (listed : name ∈ t.namesIn place) :
      t.Visits root (names ++ [name])

def Finds (t : FileTree) (root : Path) (names : List (List Char)) (modified : Nat) : Prop :=
  t.Visits root names ∧ ∃ place content, t.reach (root.below names) = .ok place ∧
    t.entry? place = some (.file content modified)

theorem Walks.isName {above : List Place} (h : t.Walks root names place above) :
    names.all isName = true := by
  induction h with
  | start => rfl
  | down walked listed _ _ _ ih => simp [ih, (mem_namesIn.1 listed).1]

theorem Visits.isName (h : t.Visits root names) : names.all isName = true := by
  cases h with
  | root => rfl
  | listed walked listed => simp [walked.isName, (mem_namesIn.1 listed).1]

theorem mem_filesBelow_succ {depth : Nat} {path : Path} {above : List Place} {f : Path × Nat} :
    f ∈ t.filesBelow (depth + 1) path place above ↔ ∃ name ∈ t.namesIn place, ∃ found,
      t.reach (path.join ⟨name⟩) = .ok found ∧
      ((path.join ⟨name⟩ = f.1 ∧ ∃ content, t.entry? found = some (.file content f.2)) ∨
        t.entry? found = some .directory ∧
          (t.isLink (place ++ [name]) = true → found ∉ place :: above) ∧
          f ∈ t.filesBelow depth (path.join ⟨name⟩) found (place :: above)) := by
  rw [filesBelow, List.mem_flatMap]
  refine exists_congr fun name => and_congr_right fun _ => ?_
  dsimp only
  cases t.reach (path.join ⟨name⟩) with
  | error e => simp
  | ok found =>
    simp only [Except.ok.injEq, exists_eq_left']
    cases t.entry? found with
    | none => simp
    | some e =>
      cases e with
      | directory =>
        by_cases hback : t.isLink (place ++ [name]) = true ∧ found ∈ place :: above
        · rw [if_pos hback]
          simp [hback.1, hback.2]
        · rw [if_neg hback]
          rw [not_and] at hback
          simpa using fun _ => hback
      | file content modified =>
        simp only [List.mem_singleton, Prod.ext_iff, Option.some.injEq, FileEntry.file.injEq,
          exists_and_right, exists_eq', true_and, reduceCtorEq, false_and, or_false]
        exact and_congr eq_comm eq_comm
      | sink => simp
      | link target => simp

theorem finds_of_mem_filesBelow {depth : Nat} {above : List Place} {f : Path × Nat}
    (hwalk : t.Walks root names place above)
    (h : f ∈ t.filesBelow depth (root.below names) place above) :
    ∃ names, t.Finds root names f.2 ∧ root.below names = f.1 := by
  induction depth generalizing names place above with
  | zero => cases h
  | succ depth ih =>
    obtain ⟨name, hname, found, hreach, hfound⟩ := mem_filesBelow_succ.1 h
    rw [← Path.below_concat] at hreach hfound
    rcases hfound with ⟨hpath, content, hfile⟩ | ⟨hdir, hforward, hbelow⟩
    · exact ⟨_, ⟨.listed hwalk hname, found, content, hreach, hfile⟩, hpath⟩
    · exact ih (.down hwalk hname hreach hdir hforward) hbelow

theorem Walks.exists_room {above : List Place} {name : List Char} {found : Place}
    (h : t.Walks root names place above) (listed : name ∈ t.namesIn place)
    (reached : t.reach (root.below (names ++ [name])) = .ok found) :
    ∃ left, pathLimit - names.length = left + 1 ∧ pathLimit - (names ++ [name]).length = left := by
  have hlong := root.length_le_byteLength_below (Visits.listed h listed).isName
  have hfits := of_decide_eq_true (fits_of_reach reached)
  rw [List.length_append, List.length_singleton] at hlong ⊢
  exact ⟨pathLimit - names.length - 1, by omega, by omega⟩

theorem Walks.filesBelow_subset {above : List Place} (h : t.Walks root names place above) :
    t.filesBelow (pathLimit - names.length) (root.below names) place above ⊆ t.filesUnder root := by
  induction h with
  | start reached directory =>
    simp only [filesUnder, reached, directory]
    exact List.Subset.refl _
  | @down names name place found above walked listed reached directory forward ih =>
    refine List.Subset.trans (fun f hf => ?_) ih
    obtain ⟨left, hleft, hinner⟩ := walked.exists_room listed reached
    rw [Path.below_concat] at reached hf
    rw [hinner] at hf
    rw [hleft]
    exact mem_filesBelow_succ.2 ⟨name, listed, found, reached, .inr ⟨directory, forward, hf⟩⟩

theorem mem_filesUnder {f : Path × Nat} :
    f ∈ t.filesUnder root ↔ ∃ names, t.Finds root names f.2 ∧ root.below names = f.1 := by
  constructor
  · intro h
    unfold filesUnder at h
    split at h
    · cases h
    · rename_i place hreach
      split at h
      · rename_i content modified hfile
        obtain rfl := List.mem_singleton.1 h
        exact ⟨[], ⟨.root, place, content, hreach, hfile⟩, rfl⟩
      · rename_i hdir
        exact finds_of_mem_filesBelow (.start hreach hdir) h
      · cases h
  · rintro ⟨names, ⟨hvisit, place, content, hreach, hfile⟩, hpath⟩
    cases hvisit with
    | root =>
      change t.reach root = .ok place at hreach
      simp only [filesUnder, hreach, hfile]
      exact List.mem_singleton.2 (Prod.ext hpath.symm rfl)
    | @listed names name dir above walked listed =>
      obtain ⟨left, hleft, -⟩ := walked.exists_room listed hreach
      refine walked.filesBelow_subset ?_
      rw [Path.below_concat] at hreach hpath
      rw [hleft]
      exact mem_filesBelow_succ.2 ⟨name, listed, place, hreach, .inl ⟨hpath, content, hfile⟩⟩

theorem modified_of_same {f g : Path × Nat} (hf : f ∈ t.filesUnder root)
    (hg : g ∈ t.filesUnder root) (h : f.1.same g.1 = true) : f.2 = g.2 := by
  obtain ⟨names, ⟨hvisit, place, content, hreach, hfile⟩, hpath⟩ := mem_filesUnder.1 hf
  obtain ⟨names', ⟨hvisit', place', content', hreach', hfile'⟩, hpath'⟩ := mem_filesUnder.1 hg
  rw [← hpath, ← hpath', Path.same_below hvisit.isName hvisit'.isName] at h
  subst h
  obtain rfl := Except.ok.inj (hreach.symm.trans hreach')
  exact (FileEntry.file.inj (Option.some.inj (hfile.symm.trans hfile'))).2

end FileTree

end ComponentMarkup
