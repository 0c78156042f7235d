import ComponentMarkup.Proofs.Files.PathParts

/-!
Paths over links. Main statement: `FileTree.place_of_reach`, a path of names alone leads to the place
that it names, if no link leads to that place or above it.
-/

set_option autoImplicit false

namespace ComponentMarkup

variable {t : FileTree} {how : Following} {place found : Place} {ss : List (List Char)}

/-- A name that is taken on some way is taken on every way that creates nothing, unless it is asked
for by the path of its place. -/
theorem Following.refusal?_whole {dir : Place} {name : List Char} {behind : List (List Char)}
    (h : how.refusal? dir name behind = none) (behind' : List (List Char)) :
    Following.whole.refusal? dir name behind' = none := by
  unfold refusal? at h ⊢
  split at h
  · cases h
  · split at h
    · cases h
    · rename_i hshort
      simp [hshort]

namespace FileTree

/-! ## Ways put together -/

variable {follow : Place → List (List Char) → Except FileError Place} {s : List Char}

theorem walkWith_stay (hdir : t.entry? place = some .directory)
    (hs : PathPart.ofSegment s = none) :
    t.walkWith how follow place (s :: ss) = t.walkWith how follow place ss := by
  have hdot : s = [] ∨ s = ['.'] := by
    unfold PathPart.ofSegment at hs
    split at hs
    · assumption
    · split at hs <;> cases hs
  simp only [walkWith, hdir, hdot, if_true]

theorem walkWith_up (hdir : t.entry? place = some .directory)
    (hs : PathPart.ofSegment s = some .up) :
    t.walkWith how follow place (s :: ss) = t.walkWith how follow place.dropLast ss := by
  obtain rfl : s = ['.', '.'] := by
    unfold PathPart.ofSegment at hs
    split at hs
    · cases hs
    · split at hs
      · assumption
      · cases hs
  rw [walkWith, hdir]
  rfl

theorem not_dots_of_ofSegment (hs : PathPart.ofSegment s = some (.name s)) :
    ¬(s = [] ∨ s = ['.']) ∧ s ≠ ['.', '.'] := by
  unfold PathPart.ofSegment at hs
  split at hs
  · cases hs
  · rename_i hdot
    split at hs
    · cases hs
    · rename_i hup
      exact ⟨hdot, hup⟩

theorem walkWith_enter (hdir : t.entry? place = some .directory)
    (hs : PathPart.ofSegment s = some (.name s)) (htaken : how.refusal? place s ss = none)
    {e : FileEntry} (he : t.entry? (place ++ [s]) = some e) (hother : ∀ target, e ≠ .link target) :
    t.walkWith how follow place (s :: ss) = t.walkWith how follow (place ++ [s]) ss := by
  obtain ⟨hdot, hup⟩ := not_dots_of_ofSegment hs
  cases e with
  | link target => exact absurd rfl (hother target)
  | _ => simp only [walkWith, hdir, hdot, hup, htaken, he, if_false]

theorem walkWith_link (hdir : t.entry? place = some .directory)
    (hs : PathPart.ofSegment s = some (.name s)) (htaken : how.refusal? place s ss = none)
    {target : Path} (he : t.entry? (place ++ [s]) = some (.link target)) :
    t.walkWith how follow place (s :: ss) =
      follow (target.startFrom place) (segments target.chars ++ ss) := by
  obtain ⟨hdot, hup⟩ := not_dots_of_ofSegment hs
  simp only [walkWith, hdir, hdot, hup, htaken, he, if_false]

theorem walkWith_append {follow' : Place → List (List Char) → Except FileError Place}
    {q : Place → Prop} {bs : List (List Char)} (hnew : how ≠ .creating)
    (hlast : ∀ mid, t.walkWith how follow mid bs = .ok found → q mid)
    (hfollow : ∀ start as, follow start (as ++ bs) = .ok found →
      ∃ mid, follow' start as = .ok mid ∧ q mid)
    {as : List (List Char)} (h : t.walkWith how follow place (as ++ bs) = .ok found) :
    ∃ mid, t.walkWith .whole follow' place as = .ok mid ∧ q mid := by
  induction as generalizing place with
  | nil => exact ⟨place, rfl, hlast place h⟩
  | cons s as ih =>
    obtain ⟨hdir, ⟨hs, h⟩ | ⟨hs, h⟩ | ⟨hs, htaken, hstep⟩⟩ := walkWith_cons h
    · rw [walkWith_stay hdir hs]
      exact ih h
    · rw [walkWith_up hdir hs]
      exact ih h
    · have htaken' := Following.refusal?_whole htaken as
      rcases hstep with ⟨hnew', -⟩ | ⟨e, he, hother, h⟩ | ⟨target, he, h⟩
      · exact absurd hnew' hnew
      · rw [walkWith_enter hdir hs htaken' he hother]
        exact ih h
      · rw [walkWith_link hdir hs htaken' he]
        refine hfollow _ _ ?_
        rwa [List.append_assoc]

theorem walk_append {links room : Nat} {as bs : List (List Char)} (hnew : how ≠ .creating)
    (hroom : links ≤ room) (h : t.walk how links place (as ++ bs) = .ok found) :
    ∃ mid, t.walk .whole room place as = .ok mid ∧
      ∃ left ≤ links, t.walk how left mid bs = .ok found := by
  induction links generalizing place room as with
  | zero =>
    have hlast : ∀ mid, t.walk how 0 mid bs = .ok found →
        ∃ left ≤ 0, t.walk how left mid bs = .ok found := fun mid h => ⟨0, Nat.le_refl 0, h⟩
    cases room with
    | zero => exact walkWith_append hnew hlast (fun _ _ hnever => nomatch hnever) h
    | succ room => exact walkWith_append hnew hlast (fun _ _ hnever => nomatch hnever) h
  | succ links ih =>
    cases room with
    | zero => exact absurd hroom (Nat.not_succ_le_zero links)
    | succ room =>
      refine walkWith_append hnew (fun mid h => ⟨links + 1, Nat.le_refl _, h⟩)
        (fun start as h => ?_) h
      obtain ⟨mid, hmid, left, hleft, hrest⟩ := ih (Nat.le_of_succ_le_succ hroom) h
      exact ⟨mid, hmid, left, Nat.le_succ_of_le hleft, hrest⟩

/-! ## Places that no link leads to -/

/-- No link of the tree leads to a place or to a directory above it. -/
def Unlinked (t : FileTree) (place : Place) : Prop :=
  ∀ dir name target found, t.entry? (dir ++ [name]) = some (.link target) →
    t.follow .whole dir target = .ok found → ¬found <+: place

theorem walkWith_names {names : List (List Char)} (hnew : how ≠ .creating)
    (hfollow : ∀ dir name target ss (names : List (List Char)),
      t.entry? (dir ++ [name]) = some (.link target) →
      ss.filterMap PathPart.ofSegment = names.map .name →
      follow (target.startFrom dir) (segments target.chars ++ ss) ≠ .ok found)
    (hs : ss.filterMap PathPart.ofSegment = names.map .name)
    (h : t.walkWith how follow place ss = .ok found) : found = place ++ names := by
  induction ss generalizing place names with
  | nil =>
    obtain rfl := List.map_eq_nil_iff.1 hs.symm
    rw [List.append_nil]
    exact (Except.ok.inj h).symm
  | cons s ss ih =>
    obtain ⟨-, ⟨hseg, h⟩ | ⟨hseg, h⟩ | ⟨hseg, -, hstep⟩⟩ := walkWith_cons h
    · rw [List.filterMap_cons_none hseg] at hs
      exact ih hs h
    · rw [List.filterMap_cons_some hseg] at hs
      cases names <;> cases hs
    · rw [List.filterMap_cons_some hseg] at hs
      obtain ⟨name, names, rfl, hname, hrest⟩ := List.map_eq_cons_iff.1 hs.symm
      obtain rfl := PathPart.name.inj hname
      rcases hstep with ⟨hnew', -⟩ | ⟨-, -, -, h⟩ | ⟨target, he, h⟩
      · exact absurd hnew' hnew
      · rw [ih hrest.symm h, List.append_assoc, List.singleton_append]
      · exact absurd h (hfollow _ _ _ _ _ he hrest.symm)

/-- What is left of the links bounds the walk behind each of them. -/
theorem walk_names {links : Nat} {names : List (List Char)} (hnew : how ≠ .creating)
    (hlinks : links ≤ linkLimit) (hu : t.Unlinked found)
    (hs : ss.filterMap PathPart.ofSegment = names.map .name)
    (h : t.walk how links place ss = .ok found) : found = place ++ names := by
  induction links using Nat.strongRecOn generalizing place ss names with
  | ind links ih =>
    cases links with
    | zero =>
      refine walkWith_names hnew (fun _ _ _ _ _ _ _ hnever => ?_) hs h
      cases hnever
    | succ links =>
      refine walkWith_names hnew (fun dir name target ss names he hs h => ?_) hs h
      obtain ⟨mid, hmid, left, hleft, hrest⟩ :=
        walk_append hnew (Nat.le_of_succ_le hlinks) h
      have hfound := ih left (by omega) (by omega) hs hrest
      exact hu dir name target mid he hmid ⟨names, hfound.symm⟩

theorem place_of_reach {p : Path} {names : Place} (hp : p.parts = .root :: names.map .name)
    (h : t.reach p = .ok place) (hu : t.Unlinked place) : place = names := by
  have hroot := p.parts_root hp
  have hwalk := follow_of_reach h
  rw [follow, Path.startFrom, if_pos hroot.1] at hwalk
  exact walk_names (by decide) (Nat.le_refl _) hu hroot.2 hwalk

end FileTree

end ComponentMarkup
