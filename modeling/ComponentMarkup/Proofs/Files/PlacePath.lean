import ComponentMarkup.Files.FileTree

set_option autoImplicit false

namespace ComponentMarkup

theorem Path.same_comm (p q : Path) : p.same q = q.same p := Bool.beq_comm

theorem not_mem_of_isName {s : List Char} (h : isName s = true) : '/' ∉ s := by
  simp only [isName, Bool.and_eq_true, Bool.not_eq_true', List.contains_eq_mem,
    decide_eq_false_iff_not] at h
  exact h.1

theorem ofSegment_of_isName {s : List Char} (h : isName s = true) :
    PathPart.ofSegment s = some (.name s) := by
  simp only [isName, Bool.and_eq_true] at h
  exact eq_of_beq h.2

theorem isName_of_segment {s : List Char} (hc : '/' ∉ s) (he : ¬(s = [] ∨ s = ['.']))
    (hu : s ≠ ['.', '.']) : isName s = true := by
  simp [isName, PathPart.ofSegment, hc, he, hu]

theorem segments_slash (cs : List Char) : segments ('/' :: cs) = [] :: segments cs := by
  simp [segments]

theorem segments_ne_nil (cs : List Char) : segments cs ≠ [] := by
  cases cs with
  | nil => simp [segments]
  | cons c cs =>
    unfold segments
    split
    · simp
    · split <;> simp

theorem segments_char {c : Char} {cs s : List Char} {ss : List (List Char)} (hc : c ≠ '/')
    (h : segments cs = s :: ss) : segments (c :: cs) = (c :: s) :: ss := by
  simp [segments, hc, h]

theorem segments_name {s : List Char} (h : '/' ∉ s) : segments s = [s] := by
  induction s with
  | nil => rfl
  | cons c s ih =>
    rw [List.mem_cons, not_or] at h
    exact segments_char (Ne.symm h.1) (ih h.2)

theorem segments_name_slash {s : List Char} (h : '/' ∉ s) (cs : List Char) :
    segments (s ++ '/' :: cs) = s :: segments cs := by
  induction s with
  | nil => exact segments_slash cs
  | cons c s ih =>
    rw [List.mem_cons, not_or] at h
    exact segments_char (Ne.symm h.1) (ih h.2)

theorem not_slash_of_mem_segments {cs s : List Char} (h : s ∈ segments cs) : '/' ∉ s := by
  induction cs generalizing s with
  | nil => simp_all [segments]
  | cons c cs ih =>
    obtain ⟨t, ts, ht⟩ := List.exists_cons_of_ne_nil (segments_ne_nil cs)
    by_cases hc : c = '/'
    · subst hc
      rw [segments_slash, List.mem_cons] at h
      rcases h with rfl | h
      · simp
      · exact ih h
    · rw [segments_char hc ht, List.mem_cons] at h
      rcases h with rfl | h
      · have := ih (s := t) (by simp [ht])
        simp [this, Ne.symm hc]
      · exact ih (by simp [ht, h])

theorem segments_place {place : Place} (h : place.all isName = true) (hn : place ≠ []) :
    segments (place.flatMap ('/' :: ·)) = [] :: place := by
  induction place with
  | nil => exact absurd rfl hn
  | cons a as ih =>
    simp only [List.all_cons, Bool.and_eq_true] at h
    have ha := not_mem_of_isName h.1
    rw [List.flatMap_cons, List.cons_append, segments_slash]
    cases as with
    | nil => simp [segments_name ha]
    | cons b bs =>
      have hb := ih h.2 (by simp)
      rw [List.flatMap_cons, List.cons_append] at hb ⊢
      rw [segments_slash] at hb
      rw [segments_name_slash ha, (List.cons.inj hb).2]

theorem filterMap_ofSegment {place : Place} (h : place.all isName = true) :
    place.filterMap PathPart.ofSegment = place.map PathPart.name := by
  induction place with
  | nil => rfl
  | cons a as ih =>
    simp only [List.all_cons, Bool.and_eq_true] at h
    simp [ofSegment_of_isName h.1, ih h.2]

theorem parts_ofPlace {place : Place} (h : place.all isName = true) :
    (Path.ofPlace place).parts = .root :: place.map .name := by
  cases place with
  | nil => rfl
  | cons a as =>
    have hs := segments_place h (by simp)
    have hf := filterMap_ofSegment h
    have ha : (Path.ofPlace (a :: as)).isAbsolute = true := rfl
    simp only [Path.parts, ha, if_true]
    simp only [Path.ofPlace, hs, List.filterMap_cons, hf]
    rfl

theorem name_injective : Function.Injective PathPart.name := fun _ _ h => PathPart.name.inj h

theorem same_ofPlace {a b : Place} (ha : a.all isName = true) (hb : b.all isName = true) :
    (Path.ofPlace a).same (.ofPlace b) = true ↔ a = b := by
  rw [Path.same, beq_iff_eq, parts_ofPlace ha, parts_ofPlace hb, List.cons_inj_right]
  constructor
  · intro h
    exact (List.map_inj_right fun _ _ h => name_injective h).1 h
  · rintro rfl
    rfl

namespace FileTree

variable {t : FileTree} {how : Following} {place found : Place}

theorem walkWith_cons {follow : Place → List (List Char) → Except FileError Place} {s : List Char}
    {ss : List (List Char)} (h : t.walkWith how follow place (s :: ss) = .ok found) :
    t.entry? place = some .directory ∧
      (PathPart.ofSegment s = none ∧ t.walkWith how follow place ss = .ok found ∨
        PathPart.ofSegment s = some .up ∧ t.walkWith how follow place.dropLast ss = .ok found ∨
        PathPart.ofSegment s = some (.name s) ∧ how.refusal? place s ss = none ∧
          (how = .creating ∧ found = place ++ [s] ∨
            (∃ e, t.entry? (place ++ [s]) = some e ∧ (∀ target, e ≠ .link target) ∧
              t.walkWith how follow (place ++ [s]) ss = .ok found) ∨
            ∃ target, t.entry? (place ++ [s]) = some (.link target) ∧
              follow (target.startFrom place) (segments target.chars ++ ss) = .ok found)) := by
  unfold PathPart.ofSegment
  unfold walkWith at h
  split at h
  · cases h
  · rename_i hdir
    refine ⟨hdir, ?_⟩
    split at h
    · rename_i hdot
      exact .inl ⟨if_pos hdot, h⟩
    · rename_i hdot
      rw [if_neg hdot]
      split at h
      · rename_i hup
        exact .inr (.inl ⟨if_pos hup, h⟩)
      · rename_i hup
        split at h
        · cases h
        · rename_i htaken
          refine .inr (.inr ⟨if_neg hup, htaken, ?_⟩)
          split at h
          · split at h
            · rename_i hnew
              exact .inl ⟨hnew.1, (Except.ok.inj h).symm⟩
            · cases h
          · rename_i target hlink
            exact .inr (.inr ⟨target, hlink, h⟩)
          · rename_i e hother he
            exact .inr (.inl ⟨e, he, fun target ht => hother target ht, h⟩)
  · cases h

theorem startFrom_named (p : Path) (hp : place.all isName = true) :
    (p.startFrom place).all isName = true := by
  unfold Path.startFrom
  split
  · rfl
  · exact hp

theorem walkWith_named {follow : Place → List (List Char) → Except FileError Place}
    (hfollow : ∀ {place found : Place} {ss}, place.all isName = true → (∀ s ∈ ss, '/' ∉ s) →
      follow place ss = .ok found → found.all isName = true)
    {ss : List (List Char)} (hp : place.all isName = true) (hs : ∀ s ∈ ss, '/' ∉ s)
    (h : t.walkWith how follow place ss = .ok found) : found.all isName = true := by
  induction ss generalizing place with
  | nil =>
    simp only [walkWith, Except.ok.injEq] at h
    rwa [← h]
  | cons s ss ih =>
    have hrest : ∀ s ∈ ss, '/' ∉ s := fun s hm => hs s (List.mem_cons_of_mem _ hm)
    rcases (walkWith_cons h).2 with ⟨-, h⟩ | ⟨-, h⟩ | ⟨hname, -, hstep⟩
    · exact ih hp hrest h
    · refine ih ?_ hrest h
      rw [List.all_eq_true] at hp ⊢
      exact fun n hn => hp n (List.dropLast_subset _ hn)
    · have hproper : (place ++ [s]).all isName = true := by
        simp [hp, isName, hname, hs s List.mem_cons_self]
      rcases hstep with ⟨-, rfl⟩ | ⟨-, -, -, h⟩ | ⟨target, -, h⟩
      · exact hproper
      · exact ih hproper hrest h
      · refine hfollow (startFrom_named target hp) (fun s hm => ?_) h
        rcases List.mem_append.1 hm with hm | hm
        · exact not_slash_of_mem_segments hm
        · exact hrest s hm

theorem walk_named {links : Nat} {ss : List (List Char)} (hp : place.all isName = true)
    (hs : ∀ s ∈ ss, '/' ∉ s) (h : t.walk how links place ss = .ok found) :
    found.all isName = true := by
  induction links generalizing place found ss with
  | zero =>
    refine walkWith_named (fun _ _ hnever => ?_) hp hs h
    cases hnever
  | succ links ih => exact walkWith_named ih hp hs h

theorem follow_named {dir : Place} {p : Path} (hdir : dir.all isName = true)
    (h : t.follow how dir p = .ok found) : found.all isName = true :=
  walk_named (startFrom_named p hdir) (fun _ hs => not_slash_of_mem_segments hs) h

theorem follow_of_locate {p : Path} (h : t.locate p = .ok place) :
    t.follow .stepwise t.workDir p = .ok place := by
  unfold locate at h
  cases hc : p.check with
  | error e => rw [hc] at h; cases h
  | ok u => rwa [hc] at h

theorem follow_of_reach {p : Path} (h : t.reach p = .ok place) :
    t.follow .whole t.workDir p = .ok place := by
  unfold reach at h
  cases hc : p.checkWhole with
  | error e => rw [hc] at h; cases h
  | ok u => rwa [hc] at h

theorem locate_named {p : Path} (h : t.locate p = .ok place) : place.all isName = true :=
  follow_named t.named (follow_of_locate h)

end FileTree

end ComponentMarkup
