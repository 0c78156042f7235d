import ComponentMarkup.Proofs.Files.Links
import ComponentMarkup.Proofs.Watch.Polling

/-!
Files that a watcher is to leave out. Main statement: `ignored_never_told`, no poll tells of such a
file if it was known which place is meant, both when watching began and when the file was left out.
-/

set_option autoImplicit false

namespace ComponentMarkup

/-! ## The place that is meant -/

/-- A path by which it can be told at once which place is meant: it leads to something, or the
directory before its last name is there, or it goes from the root down by names alone. -/
def FileTree.Settles (t : FileTree) (p : Path) : Prop :=
  (∃ place, t.locate p = .ok place) ∨
    (∃ dir name place, p.parent? = some dir ∧ p.fileName? = some name ∧
      t.locate dir.orHere = .ok place) ∨
    ∃ place : Place, p.parts = .root :: place.map .name

theorem FileTree.Settles.exists_names {t : FileTree} {p : Path} (h : t.Settles p) {e : FileError}
    (hp : t.locate p = .error e)
    (hdir : ∀ dir name place, p.parent? = some dir → p.fileName? = some name →
      t.locate dir.orHere ≠ .ok place) : ∃ place : Place, p.parts = .root :: place.map .name := by
  rcases h with ⟨place, h⟩ | ⟨dir, name, place, hparent, hname, h⟩ | h
  · rw [hp] at h
    cases h
  · exact absurd h (hdir dir name place hparent hname)
  · exact h

theorem FileTree.absolute_spec (t : FileTree) (p : Path) :
    (t.Settles p ∧ (t.absolute p).parts = .root :: (t.placeMeant p).map .name) ∨
      (t.absolute p = p ∧ t.placeMeant p = t.placeOf p ∧
        (t.Settles p → ∃ place : Place, p.parts = .root :: place.map .name)) := by
  unfold absolute canonicalize placeMeant
  cases hp : t.locate p with
  | ok place => exact .inl ⟨.inl ⟨place, hp⟩, parts_ofPlace (locate_named hp)⟩
  | error e =>
    dsimp only [Except.map]
    cases hdir : p.parent? with
    | none => exact .inr ⟨rfl, rfl, fun h => h.exists_names hp (by simp [hdir])⟩
    | some dir =>
      cases hname : p.fileName? with
      | none => exact .inr ⟨rfl, rfl, fun h => h.exists_names hp (by simp [hname])⟩
      | some name =>
        dsimp only
        cases hplace : t.locate dir.orHere with
        | ok place =>
          obtain ⟨-, hproper⟩ := Path.parts_parent hdir hname
          refine .inl ⟨.inr (.inl ⟨dir, name, place, hdir, hname, hplace⟩), ?_⟩
          simp [Path.parts_join hproper, parts_ofPlace (locate_named hplace)]
        | error e' =>
          refine .inr ⟨rfl, rfl, fun h => h.exists_names hp fun dir' name' place hdir' _ h => ?_⟩
          rw [← Option.some.inj (hdir.symm.trans hdir'), hplace] at h
          cases h

theorem FileTree.Settles.parts_absolute {t : FileTree} {p : Path} (h : t.Settles p) :
    (t.absolute p).parts = .root :: (t.placeMeant p).map .name := by
  rcases t.absolute_spec p with ⟨-, hparts⟩ | ⟨hsame, hmeant, hnames⟩
  · exact hparts
  · obtain ⟨place, hplace⟩ := hnames h
    rw [hsame, hmeant, placeOf_of_parts t hplace, hplace]

theorem FileTree.absolute_of_not_settles {t : FileTree} {p : Path} (h : ¬t.Settles p) :
    t.absolute p = p := by
  rcases t.absolute_spec p with ⟨hsettles, -⟩ | ⟨hsame, -⟩
  · exact absurd hsettles h
  · exact hsame

/-! ## What can be told -/

def Watcher.Watches (w : Watcher) (q : Path) : Prop :=
  (∃ names, names.all isName = true ∧ q = w.root.below names) ∧ ∀ i ∈ w.ignored, i.same q = false

namespace Watcher

variable {w : Watcher}

theorem watches_of_mem_scan {t : FileTree} {f : Path × Nat} (h : f ∈ (w.scan t).files) :
    w.Watches f.1 := by
  obtain ⟨g, hg, hfg⟩ := Snapshot.exists_of_mem_ofFiles h
  obtain ⟨hfile, hnot⟩ := List.mem_filter.1 hg
  obtain ⟨names, hfinds, hpath⟩ := FileTree.mem_filesUnder.1 hfile
  rw [hfg]
  refine ⟨⟨names, hfinds.1.isName, hpath.symm⟩, fun i hi => ?_⟩
  simp only [Bool.not_eq_true', List.any_eq_false, Bool.not_eq_true] at hnot
  exact hnot i hi

def Tidy (w : Watcher) : Prop := ∀ f ∈ w.snapshot.files, w.Watches f.1

theorem tidy_ignore (w : Watcher) (t : FileTree) (p : Path) : (w.ignore t p).Tidy :=
  fun _ hf => watches_of_mem_scan (w := { w with ignored := w.ignored ++ [t.absolute p] }) hf

theorem tidy_start (t : FileTree) (root : Path) : (start t root).Tidy :=
  fun _ hf => watches_of_mem_scan (w := ⟨t.absolute root, [], .empty⟩) hf

theorem tidy_poll (h : w.Tidy) (t : FileTree) : (w.poll t).2.Tidy := by
  unfold poll
  dsimp only
  split
  · exact h
  · exact fun f hf => watches_of_mem_scan (w := w) hf

theorem perform_keeps (h : w.Tidy) (step : WatchStep) :
    (w.perform step).Tidy ∧ (w.perform step).root = w.root ∧
      w.ignored ⊆ (w.perform step).ignored := by
  cases step with
  | ignore t p => exact ⟨tidy_ignore w t p, rfl, List.subset_append_left _ _⟩
  | poll t => exact ⟨tidy_poll h t, root_poll w t, (ignored_poll w t).symm ▸ List.Subset.refl _⟩

theorem after_keeps (h : w.Tidy) (steps : List WatchStep) :
    (w.after steps).Tidy ∧ (w.after steps).root = w.root ∧
      w.ignored ⊆ (w.after steps).ignored := by
  induction steps generalizing w with
  | nil => exact ⟨h, rfl, List.Subset.refl _⟩
  | cons step steps ih =>
    obtain ⟨htidy, hroot, hignored⟩ := perform_keeps h step
    obtain ⟨htidy', hroot', hignored'⟩ := ih htidy
    exact ⟨htidy', hroot'.trans hroot, List.Subset.trans hignored hignored'⟩

theorem watches_of_told (h : w.Tidy) {t : FileTree} {told : List Path}
    (htold : (w.poll t).1 = some told) {r : Path} (hr : r ∈ told) : w.Watches r := by
  obtain ⟨-, rfl⟩ := poll_eq_some htold
  rcases List.mem_append.1 hr with hr | hr
  · obtain ⟨f, hf, rfl⟩ := List.mem_map.1 hr
    exact watches_of_mem_scan (List.mem_of_mem_filter hf)
  · obtain ⟨f, hf, rfl⟩ := List.mem_map.1 hr
    exact h f (List.mem_of_mem_filter hf)

/-! ## Files that are never told -/

/-- Whatever happens after a tree, as long as no link leads to the place or above it, no poll tells of
the file at the place: no path that is told leads there, nor did it when the files were last looked
at. -/
def NeverTells (w : Watcher) (last : FileTree) (place : Place) : Prop :=
  last.Unlinked place → ∀ steps : List WatchStep, (∀ step ∈ steps, step.tree.Unlinked place) →
    ∀ t : FileTree, t.Unlinked place → ∀ told, ((w.after steps).poll t).1 = some told →
      ∀ r ∈ told, t.reach r ≠ .ok place ∧ (lastTree last steps).reach r ≠ .ok place

def NeverTellsPath (w : Watcher) (p : Path) : Prop :=
  ∀ steps t told, ((w.after steps).poll t).1 = some told → ∀ r ∈ told, r.same p = false

theorem unlinked_lastTree {place : Place} {last : FileTree} (hlast : last.Unlinked place)
    {steps : List WatchStep} (h : ∀ step ∈ steps, step.tree.Unlinked place) :
    (lastTree last steps).Unlinked place := by
  induction steps generalizing last with
  | nil => exact hlast
  | cons step steps ih =>
    exact ih (h step List.mem_cons_self) fun step' h' => h step' (List.mem_cons_of_mem _ h')

theorem neverTells_of_ignored (h : w.Tidy) {dir place : Place}
    (hroot : w.root.parts = .root :: dir.map .name) {i : Path} (hi : i ∈ w.ignored)
    (hplace : i.parts = .root :: place.map .name) (last : FileTree) : w.NeverTells last place := by
  intro hlast steps hsteps t ht told htold r hr
  obtain ⟨htidy, hroot', hignored⟩ := after_keeps h steps
  obtain ⟨⟨names, hnames, hpath⟩, hnot⟩ := watches_of_told htidy htold hr
  have hr : r.parts = .root :: (dir ++ names).map .name := by
    rw [hpath, hroot', Path.parts_below hnames, hroot, List.map_append, List.cons_append]
  have hother : dir ++ names ≠ place := by
    rintro rfl
    have hsame : i.same r = true := beq_iff_eq.2 (hplace.trans hr.symm)
    rw [hnot i (hignored hi)] at hsame
    cases hsame
  exact ⟨fun hreach => hother (FileTree.place_of_reach hr hreach ht).symm,
    fun hreach => hother
      (FileTree.place_of_reach hr hreach (unlinked_lastTree hlast hsteps)).symm⟩

theorem neverTellsPath_of_ignored (h : w.Tidy) {i p : Path} (hi : i ∈ w.ignored)
    (hsame : i.same p = true) : w.NeverTellsPath p := by
  intro steps t told htold r hr
  obtain ⟨htidy, -, hignored⟩ := after_keeps h steps
  obtain ⟨-, hnot⟩ := watches_of_told htidy htold hr
  rw [← Bool.not_eq_true]
  intro hrp
  have hir := hnot i (hignored hi)
  rw [Path.same_trans hsame (Path.same_symm hrp)] at hir
  cases hir

theorem told_of_sees {t₀ t : FileTree} {r : Path} {m : Nat} (hholds : w.Holds t₀)
    (hbefore : ∀ m, ¬w.Sees t₀ r m) (hsees : w.Sees t r m) :
    ∃ told, (w.poll t).1 = some told ∧ ∃ q ∈ told, q.same r = true := by
  cases hpoll : (w.poll t).1 with
  | none => exact absurd (((poll_eq_none_iff hholds t).1 hpoll r m).2 hsees) (hbefore m)
  | some told =>
    obtain ⟨-, rfl⟩ := poll_eq_some hpoll
    have hnew : w.snapshot.modified? r ≠ some m := fun h => hbefore m ((hholds r m).1 h)
    obtain ⟨q, hq, hqr⟩ := Snapshot.exists_renewed_iff.2 ⟨m, modified?_scan.2 hsees, hnew⟩
    exact ⟨_, rfl, q, List.mem_append_left _ hq, hqr⟩

end Watcher

def FileTree.bare : FileTree := ⟨[], [], rfl⟩

theorem Watcher.not_sees_bare (w : Watcher) (p : Path) (m : Nat) : ¬w.Sees .bare p m := by
  rintro ⟨names, ⟨-, place, content, -, hfile⟩, -⟩
  exact List.not_mem_nil (FileTree.mem_entries_of_entry? hfile nofun)

/-- Leaving out a file keeps a path from being told, by which a file is found, if this is the path kept
for the file, and only then. -/
theorem Watcher.neverTellsPath_ignore_iff {w : Watcher} {t t' : FileTree} {p r : Path} {m : Nat}
    (hsees : w.Sees t' r m) :
    (w.ignore t p).NeverTellsPath r ↔ (t.absolute p).same r = true := by
  constructor
  · intro hnever
    by_contra hother
    -- the file is told when it comes back after everything was gone
    have hsees' : ((w.ignore t p).poll .bare).2.Sees t' r m := by
      rw [sees_poll]
      obtain ⟨names, hfinds, hr, hnot⟩ := hsees
      refine ⟨names, hfinds, hr, fun i hi => ?_⟩
      rcases List.mem_append.1 hi with hi | hi
      · exact hnot i hi
      · rw [List.mem_singleton.1 hi]
        exact Bool.not_eq_true _ ▸ hother
    obtain ⟨told, htold, q, hq, hqr⟩ := told_of_sees
      (holds_poll _ _) (fun m => not_sees_bare _ r m) hsees'
    rw [hnever [.poll .bare] t' told htold q hq] at hqr
    cases hqr
  · exact neverTellsPath_of_ignored (tidy_ignore w t p) (List.mem_append_right _ List.mem_cons_self)

/-! ## Leaving out a file by a path -/

theorem exists_names_of_append {ps : List PathPart} {names : List (List Char)} {place : Place}
    (h : ps ++ names.map .name = .root :: place.map .name) :
    ∃ place : Place, ps = .root :: place.map .name := by
  cases ps with
  | nil => cases names <;> simp at h
  | cons a ps =>
    obtain ⟨rfl, hrest⟩ := List.cons.inj h
    obtain ⟨place', -, rfl, hps, -⟩ := List.map_eq_append_iff.1 hrest.symm
    exact ⟨place', by rw [← hps]⟩

/-- The path kept for a file and the one that it is found by are one path when it is known for both
which place they mean and this is one place, or when both are taken as they are written. -/
theorem FileTree.absolute_same_iff {t₀ t : FileTree} {root p r : Path} {names : List (List Char)}
    (hnames : names.all isName = true) (hr : ((t₀.absolute root).below names).same r = true) :
    (t.absolute p).same r = true ↔
      (t₀.Settles root ∧ t.Settles p ∧ r.parts = .root :: (t.placeMeant p).map .name) ∨
        (¬t₀.Settles root ∧ ¬t.Settles p ∧ p.same r = true) := by
  have hparts : r.parts = (t₀.absolute root).parts ++ names.map .name := by
    rw [← Path.parts_below hnames, beq_iff_eq.1 hr]
  by_cases hroot : t₀.Settles root
  · have hdown : r.parts = .root :: (t₀.placeMeant root ++ names).map .name := by
      rw [hparts, hroot.parts_absolute, List.map_append, List.cons_append]
    by_cases hp : t.Settles p
    · simp only [hroot, hp, true_and, not_true_eq_false, false_and, or_false, Path.same,
        hp.parts_absolute, beq_iff_eq]
      exact eq_comm
    · have hother : ¬p.same r = true := fun h =>
        hp (.inr (.inr ⟨_, (beq_iff_eq.1 h).trans hdown⟩))
      simp [hroot, hp, absolute_of_not_settles hp, hother]
  · by_cases hp : t.Settles p
    · have hother : ¬(t.absolute p).same r = true := fun h => by
        rw [Path.same, beq_iff_eq, hp.parts_absolute, hparts, absolute_of_not_settles hroot] at h
        exact hroot (.inr (.inr (exists_names_of_append h.symm)))
      simp [hroot, hp, hother]
    · simp [hroot, hp, absolute_of_not_settles hp]

/-- No poll tells of a file that was left out by a path if it was known which place is meant, by the
root when watching began and by the path when the file was left out, and if no link leads to that
place; the file need not have been there. Of a path by which the watcher finds a file, links or not,
this is the only way for it never to be told, that it goes straight to the place that is meant, but
for one: the root and the path are both taken as they are written, and the path is written like the
one that the file is found by. -/
theorem ignored_never_told (t₀ : FileTree) (root : Path) (steps : List WatchStep) (t : FileTree)
    (p : Path) :
    let w := (Watcher.start t₀ root).after steps
    (t₀.Settles root → t.Settles p → (w.ignore t p).NeverTells t (t.placeMeant p)) ∧
      ∀ t' r m, w.Sees t' r m → ((w.ignore t p).NeverTellsPath r ↔
        (t₀.Settles root ∧ t.Settles p ∧ r.parts = .root :: (t.placeMeant p).map .name) ∨
          (¬t₀.Settles root ∧ ¬t.Settles p ∧ p.same r = true)) := by
  intro w
  have hroot : w.root = t₀.absolute root :=
    (Watcher.after_keeps (Watcher.tidy_start t₀ root) steps).2.1
  refine ⟨fun hsettled hp => ?_, fun t' r m hsees => ?_⟩
  · have hdown : (w.ignore t p).root.parts = .root :: (t₀.placeMeant root).map .name := by
      change w.root.parts = _
      rw [hroot, hsettled.parts_absolute]
    exact Watcher.neverTells_of_ignored (Watcher.tidy_ignore w t p) hdown
      (List.mem_append_right _ List.mem_cons_self) hp.parts_absolute t
  · rw [Watcher.neverTellsPath_ignore_iff hsees]
    obtain ⟨names, hfinds, hr, -⟩ := hsees
    rw [hroot] at hr
    exact FileTree.absolute_same_iff hfinds.1.isName hr

theorem FileTree.unlinked_of_isLink {t : FileTree} (h : ∀ e ∈ t.entries, t.isLink e.1 = false)
    (place : Place) : t.Unlinked place := by
  intro dir name target _ he
  have hnot := h _ (FileTree.mem_entries_of_entry? he nofun)
  rw [isLink, he] at hnot
  cases hnot

/-- A file left out before it is there is not told when it comes. -/
theorem ignored_never_told_before_written :
    let t : FileTree := ⟨[([['w']], .directory)], [['w']], rfl⟩
    t.Settles ⟨['.']⟩ ∧ t.Settles ⟨['o']⟩ ∧
      ((Watcher.start t ⟨['.']⟩).ignore t ⟨['o']⟩).NeverTells t [['w'], ['o']] ∧
      ((Watcher.start t ⟨['.']⟩).poll (t.putFile [['w'], ['o']] (.text []) 1)).1 =
        some [⟨"/w/o".toList⟩] := by
  intro t
  have hroot : t.Settles ⟨['.']⟩ := .inl ⟨[['w']], rfl⟩
  have hp : t.Settles ⟨['o']⟩ := .inr (.inl ⟨⟨[]⟩, ['o'], [['w']], rfl, rfl, rfl⟩)
  exact ⟨hroot, hp, (ignored_never_told t ⟨['.']⟩ [] t ⟨['o']⟩).1 hroot hp, by decide⟩

/-- A file below a directory that is not there yet is told when it comes, though it was left out. -/
theorem told_below_missing_directory :
    let t : FileTree := ⟨[([['w']], .directory)], [['w']], rfl⟩
    let t' := t.putFile [['w'], ['d'], ['o']] (.text []) 1
    let w := (Watcher.start t ⟨['.']⟩).ignore t ⟨"d/o".toList⟩
    t'.locate ⟨"d/o".toList⟩ = .ok [['w'], ['d'], ['o']] ∧
      (w.poll t').1 = some [⟨"/w/d/o".toList⟩] ∧
      ¬w.NeverTells t (t.placeMeant ⟨"d/o".toList⟩) := by
  intro t t' w
  have htold : (w.poll t').1 = some [⟨"/w/d/o".toList⟩] := by decide
  have hnone : t.Unlinked (t.placeMeant ⟨"d/o".toList⟩) :=
    FileTree.unlinked_of_isLink (by decide) _
  have hnone' : t'.Unlinked (t.placeMeant ⟨"d/o".toList⟩) :=
    FileTree.unlinked_of_isLink (by decide) _
  refine ⟨by decide, htold, fun hnever => ?_⟩
  exact (hnever hnone [] (by simp) t' hnone' _ htold _ List.mem_cons_self).1 (by decide)

/-- A file behind a link is told, though it was left out by the path that it is found by. -/
theorem told_behind_link :
    let t : FileTree := ⟨[([['w']], .directory), ([['d']], .directory),
      ([['w'], ['l']], .link ⟨"/d".toList⟩)], [['w']], rfl⟩
    let t' := t.putFile [['d'], ['o']] (.text []) 1
    let w := (Watcher.start t ⟨['.']⟩).ignore t ⟨"/w/l/o".toList⟩
    t.Settles ⟨['.']⟩ ∧ t.Settles ⟨"/w/l/o".toList⟩ ∧
      t'.locate ⟨"/w/l/o".toList⟩ = .ok (t.placeMeant ⟨"/w/l/o".toList⟩) ∧
      (w.poll t').1 = some [⟨"/w/l/o".toList⟩] := by
  intro t t' w
  exact ⟨.inl ⟨[['w']], rfl⟩, .inr (.inr ⟨[['w'], ['l'], ['o']], by decide⟩), by decide, by decide⟩

end ComponentMarkup
