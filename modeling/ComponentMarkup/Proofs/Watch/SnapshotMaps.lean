import Mathlib.Data.List.Basic
import ComponentMarkup.Files.Snapshot

set_option autoImplicit false

namespace ComponentMarkup

namespace Snapshot

theorem of_find?_eq_some {fs : List (Path × Nat)} {p : Path} {f : Path × Nat}
    (h : fs.find? (·.1.same p) = some f) : f ∈ fs ∧ f.1.same p = true :=
  ⟨List.mem_of_find?_eq_some h, List.find?_some (p := fun f : Path × Nat => f.1.same p) h⟩

theorem modified?_congr (s : Snapshot) {p q : Path} (h : p.same q = true) :
    s.modified? p = s.modified? q := by
  rw [modified?, modified?]
  congr 2
  funext f
  rw [Path.same, Path.same, beq_iff_eq.1 h]

theorem eq_of_same {s : Snapshot} {f g : Path × Nat} (hf : f ∈ s.files) (hg : g ∈ s.files)
    (h : f.1.same g.1 = true) : f = g := by
  have hne : ∀ {f g : Path × Nat}, f.1.before g.1 = true → f.1.same g.1 = true → False := by
    intro f g hb hs
    rw [Path.not_same_of_before hb] at hs
    cases hs
  have hasc := s.ascending
  generalize s.files = fs at hf hg hasc
  induction fs with
  | nil => cases hf
  | cons a fs ih =>
    obtain ⟨ha, hrest⟩ := List.pairwise_cons.1 hasc
    rcases List.mem_cons.1 hf with hfa | hf'
    · rcases List.mem_cons.1 hg with hga | hg'
      · exact hfa.trans hga.symm
      · exact (hne (hfa ▸ ha g hg') h).elim
    · rcases List.mem_cons.1 hg with hga | hg'
      · exact (hne (hga ▸ ha f hf') (Path.same_symm h)).elim
      · exact ih hf' hg' hrest

theorem modified?_eq_some {s : Snapshot} {p : Path} {m : Nat} :
    s.modified? p = some m ↔ ∃ f ∈ s.files, f.1.same p = true ∧ f.2 = m := by
  constructor
  · intro h
    obtain ⟨f, hfind, rfl⟩ := Option.map_eq_some_iff.1 h
    obtain ⟨hf, hsame⟩ := of_find?_eq_some hfind
    exact ⟨f, hf, hsame, rfl⟩
  · rintro ⟨f, hf, hsame, rfl⟩
    cases hfind : s.files.find? (·.1.same p) with
    | none => exact absurd hsame (List.find?_eq_none.1 hfind f hf)
    | some g =>
      obtain ⟨hg, hsame'⟩ := of_find?_eq_some hfind
      obtain rfl := eq_of_same hg hf (Path.same_trans hsame' (Path.same_symm hsame))
      rw [modified?, hfind]
      rfl

theorem modified?_of_mem {s : Snapshot} {f : Path × Nat} (h : f ∈ s.files) :
    s.modified? f.1 = some f.2 :=
  modified?_eq_some.2 ⟨f, h, Path.same_refl f.1, rfl⟩

theorem find?_insertFile (p : Path) (m : Nat) (fs : List (Path × Nat)) (q : Path) :
    ((insertFile p m fs).find? (·.1.same q)).map Prod.snd =
      if p.same q = true then some m else (fs.find? (·.1.same q)).map Prod.snd := by
  induction fs with
  | nil => by_cases hp : p.same q = true <;> simp [insertFile, hp]
  | cons f fs ih =>
    unfold insertFile
    split
    · by_cases hp : p.same q = true <;> simp [List.find?_cons, hp]
    · split
      · rename_i hsame
        rw [Path.same_congr_left hsame]
        by_cases hf : f.1.same q = true <;> simp [hf]
      · rename_i hsame
        by_cases hf : f.1.same q = true
        · have hp : ¬p.same q = true :=
            fun hp => hsame (Path.same_trans hp (Path.same_symm hf))
          simp [hf, hp]
        · simpa [hf] using ih

theorem modified?_insert (s : Snapshot) (p : Path) (m : Nat) (q : Path) :
    (s.insert p m).modified? q = if p.same q = true then some m else s.modified? q :=
  find?_insertFile p m s.files q

/-- Of several files with one path the last counts. -/
theorem modified?_ofFiles (fs : List (Path × Nat)) (p : Path) :
    (ofFiles fs).modified? p = (fs.reverse.find? (·.1.same p)).map Prod.snd := by
  have hfold : ∀ s : Snapshot, (fs.foldl (fun s f => s.insert f.1 f.2) s).modified? p =
      ((fs.reverse.find? (·.1.same p)).map Prod.snd).or (s.modified? p) := by
    induction fs with
    | nil => exact fun s => rfl
    | cons f fs ih =>
      intro s
      rw [List.foldl_cons, ih, modified?_insert, List.reverse_cons, List.find?_append]
      by_cases hf : f.1.same p = true
      · cases fs.reverse.find? (·.1.same p) <;> simp [hf]
      · simp [hf]
  rw [ofFiles, hfold]
  exact Option.or_none

theorem modified?_ofFiles_eq_some {fs : List (Path × Nat)}
    (hone : ∀ f ∈ fs, ∀ g ∈ fs, f.1.same g.1 = true → f.2 = g.2) {p : Path} {m : Nat} :
    (ofFiles fs).modified? p = some m ↔ ∃ f ∈ fs, f.1.same p = true ∧ f.2 = m := by
  rw [modified?_ofFiles]
  constructor
  · intro h
    obtain ⟨f, hfind, rfl⟩ := Option.map_eq_some_iff.1 h
    obtain ⟨hf, hsame⟩ := of_find?_eq_some hfind
    exact ⟨f, List.mem_reverse.1 hf, hsame, rfl⟩
  · rintro ⟨f, hf, hsame, rfl⟩
    cases hfind : fs.reverse.find? (·.1.same p) with
    | none => exact absurd hsame (List.find?_eq_none.1 hfind f (List.mem_reverse.2 hf))
    | some g =>
      obtain ⟨hg, hsame'⟩ := of_find?_eq_some hfind
      rw [Option.map_some, hone g (List.mem_reverse.1 hg) f hf
        (Path.same_trans hsame' (Path.same_symm hsame))]

theorem exists_of_mem_ofFiles {fs : List (Path × Nat)} {f : Path × Nat}
    (h : f ∈ (ofFiles fs).files) : ∃ g ∈ fs, f.1 = g.1 := by
  have hfold : ∀ s : Snapshot, f ∈ (fs.foldl (fun s f => s.insert f.1 f.2) s).files →
      (∃ g ∈ fs, f.1 = g.1) ∨ ∃ g ∈ s.files, f.1 = g.1 := by
    clear h
    induction fs with
    | nil => exact fun s h => .inr ⟨f, h, rfl⟩
    | cons a fs ih =>
      intro s h
      rcases ih _ h with ⟨g, hg, hfg⟩ | ⟨g, hg, hfg⟩
      · exact .inl ⟨g, List.mem_cons_of_mem _ hg, hfg⟩
      · rcases mem_insertFile hg with hga | ⟨b, hb, hgb⟩
        · exact .inl ⟨a, List.mem_cons_self, hfg.trans hga⟩
        · exact .inr ⟨b, hb, hfg.trans hgb⟩
  rcases hfold empty h with hfs | ⟨g, hg, -⟩
  · exact hfs
  · cases hg

theorem pairwise_keyed (s : Snapshot) :
    s.keyed.Pairwise fun a b => partsBefore a.1 b.1 = true :=
  List.pairwise_map.2 s.ascending

theorem mem_keyed {s : Snapshot} {p : Path} {m : Nat} :
    (p.parts, m) ∈ s.keyed ↔ s.modified? p = some m := by
  rw [modified?_eq_some, keyed, List.mem_map]
  constructor
  · rintro ⟨f, hf, hkey⟩
    obtain ⟨hparts, hm⟩ := Prod.mk.inj hkey
    exact ⟨f, hf, beq_iff_eq.2 hparts, hm⟩
  · rintro ⟨f, hf, hsame, rfl⟩
    exact ⟨f, hf, by rw [beq_iff_eq.1 hsame]⟩

theorem agrees_iff {s s' : Snapshot} :
    s.agrees s' = true ↔ ∀ p, s.modified? p = s'.modified? p := by
  rw [agrees, beq_iff_eq]
  constructor
  · intro h p
    ext m
    rw [← mem_keyed, ← mem_keyed, h]
  · intro h
    have hirrefl : ∀ {s : Snapshot}, s.keyed.Nodup := by
      intro s
      refine (pairwise_keyed s).imp fun {a b} hab heq => ?_
      rw [heq, partsBefore_irrefl] at hab
      cases hab
    have hmem : ∀ {s s' : Snapshot}, (∀ p, s.modified? p = s'.modified? p) →
        ∀ k ∈ s.keyed, k ∈ s'.keyed := by
      intro s s' h k hk
      obtain ⟨f, -, rfl⟩ := List.mem_map.1 hk
      exact mem_keyed.2 (h f.1 ▸ mem_keyed.1 hk)
    have hperm : s.keyed.Perm s'.keyed :=
      (List.perm_ext_iff_of_nodup hirrefl hirrefl).2
        fun k => ⟨hmem h k, hmem (fun p => (h p).symm) k⟩
    refine hperm.eq_of_pairwise (fun a b _ _ hab hba => ?_) (pairwise_keyed s) (pairwise_keyed s')
    have hcircle := partsBefore_trans hab hba
    rw [partsBefore_irrefl] at hcircle
    cases hcircle

variable {before after : Snapshot}

theorem exists_renewed_iff {p : Path} : (∃ q ∈ before.renewed after, q.same p = true) ↔
    ∃ m, after.modified? p = some m ∧ before.modified? p ≠ some m := by
  constructor
  · rintro ⟨q, hq, hsame⟩
    obtain ⟨f, hf, rfl⟩ := List.mem_map.1 hq
    obtain ⟨hmem, hnew⟩ := List.mem_filter.1 hf
    rw [bne_iff_ne, modified?_congr before hsame] at hnew
    exact ⟨f.2, by rw [← modified?_congr after hsame, modified?_of_mem hmem], hnew⟩
  · rintro ⟨m, hm, hnew⟩
    obtain ⟨f, hf, hsame, rfl⟩ := modified?_eq_some.1 hm
    rw [← modified?_congr before hsame] at hnew
    exact ⟨f.1, List.mem_map_of_mem (List.mem_filter.2 ⟨hf, bne_iff_ne.2 hnew⟩), hsame⟩

theorem exists_gone_iff {p : Path} : (∃ q ∈ before.gone after, q.same p = true) ↔
    (∃ m, before.modified? p = some m) ∧ after.modified? p = none := by
  constructor
  · rintro ⟨q, hq, hsame⟩
    obtain ⟨f, hf, rfl⟩ := List.mem_map.1 hq
    obtain ⟨hmem, hgone⟩ := List.mem_filter.1 hf
    rw [Option.isNone_iff_eq_none, modified?_congr after hsame] at hgone
    exact ⟨⟨f.2, by rw [← modified?_congr before hsame, modified?_of_mem hmem]⟩, hgone⟩
  · rintro ⟨⟨m, hm⟩, hgone⟩
    obtain ⟨f, hf, hsame, rfl⟩ := modified?_eq_some.1 hm
    rw [← modified?_congr after hsame] at hgone
    exact ⟨f.1, List.mem_map_of_mem (List.mem_filter.2 ⟨hf, Option.isNone_iff_eq_none.2 hgone⟩),
      hsame⟩

theorem pairwise_renewed (before after : Snapshot) :
    (before.renewed after).Pairwise fun p q => p.before q = true :=
  List.pairwise_map.2 (after.ascending.filter _)

theorem pairwise_gone (before after : Snapshot) :
    (before.gone after).Pairwise fun p q => p.before q = true :=
  List.pairwise_map.2 (before.ascending.filter _)

theorem pairwise_changes (before after : Snapshot) :
    (before.changes after).Pairwise fun p q => p.same q = false := by
  refine List.pairwise_append.2 ⟨?_, ?_, fun p hp q hq => ?_⟩
  · exact (pairwise_renewed before after).imp Path.not_same_of_before
  · exact (pairwise_gone before after).imp Path.not_same_of_before
  · rw [← Bool.not_eq_true]
    intro hsame
    obtain ⟨m, hm, -⟩ := exists_renewed_iff.1 ⟨p, hp, hsame⟩
    obtain ⟨-, hnone⟩ := exists_gone_iff.1 ⟨q, hq, Path.same_refl q⟩
    rw [hm] at hnone
    cases hnone

theorem changes_ne_nil (h : ¬after.agrees before = true) : before.changes after ≠ [] := by
  rw [agrees_iff] at h
  intro hnil
  obtain ⟨hrenewed, hgone⟩ := List.append_eq_nil_iff.1 hnil
  have hkept : ∀ p m, after.modified? p = some m → before.modified? p = some m := by
    intro p m hm
    by_contra hne
    obtain ⟨q, hq, -⟩ := exists_renewed_iff.2 ⟨m, hm, hne⟩
    rw [hrenewed] at hq
    cases hq
  have hstill : ∀ p m, before.modified? p = some m → after.modified? p ≠ none := by
    intro p m hm hnone
    obtain ⟨q, hq, -⟩ := exists_gone_iff.2 ⟨⟨m, hm⟩, hnone⟩
    rw [hgone] at hq
    cases hq
  refine h fun p => ?_
  cases hafter : after.modified? p with
  | some m => exact (hkept p m hafter).symm
  | none =>
    cases hbefore : before.modified? p with
    | some m => exact absurd hafter (hstill p m hbefore)
    | none => rfl

end Snapshot

end ComponentMarkup
