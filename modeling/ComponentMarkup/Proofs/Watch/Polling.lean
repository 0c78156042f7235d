import ComponentMarkup.Proofs.Watch.SnapshotMaps
import ComponentMarkup.Proofs.Watch.Walking

set_option autoImplicit false

namespace ComponentMarkup

/-- A watcher finds a file of a tree by a path, and the file has this time of modification. -/
def Watcher.Sees (w : Watcher) (t : FileTree) (p : Path) (modified : Nat) : Prop :=
  ∃ names, t.Finds w.root names modified ∧ (w.root.below names).same p = true ∧
    ∀ i ∈ w.ignored, i.same p = false

namespace Watcher

theorem modified?_scan {w : Watcher} {t : FileTree} {p : Path} {m : Nat} :
    (w.scan t).modified? p = some m ↔ w.Sees t p m := by
  have hkept : ∀ {f : Path × Nat}, f.1.same p = true →
      ((!w.ignored.any (·.same f.1)) = true ↔ ∀ i ∈ w.ignored, i.same p = false) := by
    intro f hf
    simp only [Bool.not_eq_true', List.any_eq_false, Bool.not_eq_true]
    refine forall₂_congr fun i _ => ?_
    rw [Path.same_comm i f.1, Path.same_congr_left hf, Path.same_comm p i]
  rw [scan, Snapshot.modified?_ofFiles_eq_some fun f hf g hg =>
    FileTree.modified_of_same (List.mem_of_mem_filter hf) (List.mem_of_mem_filter hg)]
  constructor
  · rintro ⟨f, hf, hsame, rfl⟩
    obtain ⟨hfile, hnot⟩ := List.mem_filter.1 hf
    obtain ⟨names, hfinds, hpath⟩ := FileTree.mem_filesUnder.1 hfile
    exact ⟨names, hfinds, hpath ▸ hsame, (hkept hsame).1 hnot⟩
  · rintro ⟨names, hfinds, hsame, hnot⟩
    refine ⟨(w.root.below names, m), List.mem_filter.2 ⟨?_, (hkept hsame).2 hnot⟩, hsame, rfl⟩
    exact FileTree.mem_filesUnder.2 ⟨names, hfinds, rfl⟩

def Holds (w : Watcher) (t : FileTree) : Prop :=
  ∀ p m, w.snapshot.modified? p = some m ↔ w.Sees t p m

theorem holds_start (t : FileTree) (root : Path) : (start t root).Holds t :=
  fun _ _ => modified?_scan

theorem holds_ignore (w : Watcher) (t : FileTree) (p : Path) : (w.ignore t p).Holds t :=
  fun _ _ => modified?_scan

theorem root_poll (w : Watcher) (t : FileTree) : (w.poll t).2.root = w.root := by
  unfold poll
  dsimp only
  split <;> rfl

theorem ignored_poll (w : Watcher) (t : FileTree) : (w.poll t).2.ignored = w.ignored := by
  unfold poll
  dsimp only
  split <;> rfl

theorem modified?_poll (w : Watcher) (t : FileTree) (p : Path) :
    (w.poll t).2.snapshot.modified? p = (w.scan t).modified? p := by
  unfold poll
  dsimp only
  split
  · rename_i hagrees
    exact (Snapshot.agrees_iff.1 hagrees p).symm
  · rfl

theorem sees_poll (w : Watcher) (t t' : FileTree) (p : Path) (m : Nat) :
    (w.poll t).2.Sees t' p m ↔ w.Sees t' p m := by
  rw [Sees, root_poll, ignored_poll, Sees]

theorem holds_poll (w : Watcher) (t : FileTree) : (w.poll t).2.Holds t := by
  intro p m
  rw [modified?_poll, sees_poll]
  exact modified?_scan

end Watcher

/-- What a watcher is asked for, with the files as they are by then. -/
inductive WatchStep where
  | ignore (t : FileTree) (p : Path)
  | poll (t : FileTree)

def WatchStep.tree : WatchStep → FileTree
  | .ignore t _ => t
  | .poll t => t

def Watcher.perform (w : Watcher) : WatchStep → Watcher
  | .ignore t p => w.ignore t p
  | .poll t => (w.poll t).2

def Watcher.after (w : Watcher) (steps : List WatchStep) : Watcher := steps.foldl perform w

def lastTree (t : FileTree) (steps : List WatchStep) : FileTree :=
  steps.foldl (fun _ step => step.tree) t

theorem Watcher.holds_perform (w : Watcher) (step : WatchStep) : (w.perform step).Holds step.tree := by
  cases step with
  | ignore t p => exact holds_ignore w t p
  | poll t => exact holds_poll w t

theorem Watcher.holds_after {w : Watcher} {t : FileTree} (h : w.Holds t) (steps : List WatchStep) :
    (w.after steps).Holds (lastTree t steps) := by
  induction steps generalizing w t with
  | nil => exact h
  | cons step steps ih => exact ih (holds_perform w step)

theorem Watcher.poll_eq_none_iff {w : Watcher} {last : FileTree} (h : w.Holds last) (t : FileTree) :
    (w.poll t).1 = none ↔ ∀ p m, w.Sees last p m ↔ w.Sees t p m := by
  have hagrees : (w.poll t).1 = none ↔ (w.scan t).agrees w.snapshot = true := by
    unfold poll
    dsimp only
    split <;> simp_all
  rw [hagrees, Snapshot.agrees_iff]
  constructor
  · intro heq p m
    rw [← h p m, ← modified?_scan, heq]
  · intro hsees p
    ext m
    rw [h p m, modified?_scan, hsees]

theorem Watcher.poll_eq_some {w : Watcher} {t : FileTree} {told : List Path}
    (h : (w.poll t).1 = some told) :
    ¬(w.scan t).agrees w.snapshot = true ∧ told = w.snapshot.changes (w.scan t) := by
  unfold poll at h
  dsimp only at h
  split at h
  · cases h
  · rename_i hagrees
    exact ⟨hagrees, (Option.some.inj h).symm⟩

/-- Over any history of polls and ignored files, the next poll compares what the watcher finds with
what it would have found when it last looked. It tells nothing when both are the same. Otherwise it
tells first, in order, the paths that are new or have a new time, then, in order, those that are gone,
and none of them twice. What it finds is then what the poll after it compares with. -/
theorem poll_tells_changes (t₀ : FileTree) (root : Path) (steps : List WatchStep) (t : FileTree) :
    let w := (Watcher.start t₀ root).after steps
    let last := lastTree t₀ steps
    ((w.poll t).1 = none ↔ ∀ p m, w.Sees last p m ↔ w.Sees t p m) ∧
      (∀ told, (w.poll t).1 = some told →
        told ≠ [] ∧ told.Pairwise (fun p q => p.same q = false) ∧
          ∃ standing gone, told = standing ++ gone ∧
            standing.Pairwise (fun p q => p.before q = true) ∧
            gone.Pairwise (fun p q => p.before q = true) ∧
            (∀ p, (∃ q ∈ standing, q.same p = true) ↔ ∃ m, w.Sees t p m ∧ ¬w.Sees last p m) ∧
            ∀ p, (∃ q ∈ gone, q.same p = true) ↔
              (∃ m, w.Sees last p m) ∧ ∀ m, ¬w.Sees t p m) ∧
      ∀ p m, (w.poll t).2.snapshot.modified? p = some m ↔ w.Sees t p m := by
  intro w last
  have hlast : w.Holds last := Watcher.holds_after (Watcher.holds_start t₀ root) steps
  refine ⟨Watcher.poll_eq_none_iff hlast t, fun told htold => ?_, fun p m => ?_⟩
  · obtain ⟨hdiffers, rfl⟩ := Watcher.poll_eq_some htold
    refine ⟨Snapshot.changes_ne_nil hdiffers, Snapshot.pairwise_changes _ _,
      w.snapshot.renewed (w.scan t), w.snapshot.gone (w.scan t), rfl,
      Snapshot.pairwise_renewed _ _, Snapshot.pairwise_gone _ _, fun p => ?_, fun p => ?_⟩
    · rw [Snapshot.exists_renewed_iff]
      exact exists_congr fun m => and_congr Watcher.modified?_scan (hlast p m).not
    · rw [Snapshot.exists_gone_iff, Option.eq_none_iff_forall_ne_some]
      exact and_congr (exists_congr fun m => hlast p m)
        (forall_congr' fun m => Watcher.modified?_scan.not)
  · rw [Watcher.modified?_poll]
    exact Watcher.modified?_scan

end ComponentMarkup
