import ComponentMarkup.Files.FileTree
import ComponentMarkup.Files.Snapshot

set_option autoImplicit false

namespace ComponentMarkup

structure Watcher where
  root : Path
  ignored : List Path
  snapshot : Snapshot
  deriving DecidableEq, Repr

/-- The path of the place that a path leads to, or would lead to if its last name stood in the
directory before it; as it is written where neither can be told. -/
def FileTree.absolute (t : FileTree) (p : Path) : Path :=
  match t.canonicalize p with
  | .ok found => found
  | .error _ =>
    match p.parent?, p.fileName? with
    | some parent, some name =>
      match t.canonicalize parent.orHere with
      | .ok dir => dir.join ⟨name⟩
      | .error _ => p
    | _, _ => p

def FileTree.namesIn (t : FileTree) (dir : Place) : List (List Char) :=
  t.entries.filterMap fun e => e.1.getLast?.bind fun name =>
    if e.1 = dir ++ [name] ∧ isName name = true then some name else none

def FileTree.isLink (t : FileTree) (place : Place) : Bool :=
  match t.entry? place with
  | some (.link _) => true
  | _ => false

/-- The files below a path that leads to the directory `place`, under paths that begin with it. Links
are followed, but not back to `place` or to a directory `above` that the walk has come through. What
cannot be reached by its path is passed over. -/
def FileTree.filesBelow (t : FileTree) :
    Nat → Path → (place : Place) → (above : List Place) → List (Path × Nat)
  | 0, _, _, _ => []
  | depth + 1, path, place, above =>
    (t.namesIn place).flatMap fun name =>
      let inner := path.join ⟨name⟩
      match t.reach inner with
      | .error _ => []
      | .ok found =>
        match t.entry? found with
        | some (.file _ modified) => [(inner, modified)]
        | some .directory =>
          if t.isLink (place ++ [name]) ∧ found ∈ place :: above then []
          else t.filesBelow depth inner found (place :: above)
        | _ => []

/-- The file at a path, or the files below it. A path that fits has no more names than bytes. -/
def FileTree.filesUnder (t : FileTree) (root : Path) : List (Path × Nat) :=
  match t.reach root with
  | .error _ => []
  | .ok place =>
    match t.entry? place with
    | some (.file _ modified) => [(root, modified)]
    | some .directory => t.filesBelow pathLimit root place []
    | _ => []

def Watcher.scan (w : Watcher) (t : FileTree) : Snapshot :=
  .ofFiles ((t.filesUnder w.root).filter fun f => !w.ignored.any (·.same f.1))

def Watcher.start (t : FileTree) (root : Path) : Watcher :=
  let w : Watcher := ⟨t.absolute root, [], .empty⟩
  { w with snapshot := w.scan t }

def Watcher.ignore (w : Watcher) (t : FileTree) (p : Path) : Watcher :=
  let w := { w with ignored := w.ignored ++ [t.absolute p] }
  { w with snapshot := w.scan t }

def Watcher.poll (w : Watcher) (t : FileTree) : Option (List Path) × Watcher :=
  let current := w.scan t
  if current.agrees w.snapshot then (none, w)
  else (some (w.snapshot.changes current), { w with snapshot := current })

end ComponentMarkup
