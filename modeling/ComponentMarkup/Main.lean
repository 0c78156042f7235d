import ComponentMarkup.CommandLine.Job
import ComponentMarkup.Watch

/-!
The command. What stands on the disk is put into a file tree as far as a job asks for it, the job is
run on the tree, and its outcome is printed and written.
-/

set_option autoImplicit false

namespace ComponentMarkup

def Path.toString (p : Path) : String := String.ofList p.chars

def Content.ofBytes (bytes : ByteArray) : Content :=
  match String.fromUTF8? bytes with
  | some s => .text s.toList
  | none => .binary bytes.toList

/-- The entry on the disk for a place, with the content of a file if that is wanted. A link goes to
where it leads in the end. -/
def diskEntry? (withContent : Bool) (place : Place) : IO (Option FileEntry) := do
  try
    let found := (← IO.currentDir) / (Path.ofPlace place).toString
    let data ← found.symlinkMetadata
    match data.type with
    | .dir => return some .directory
    | .file =>
      let bytes ← if withContent then IO.FS.readBinFile found else pure .empty
      let modified := data.modified.sec.toNat * 1000000000 + data.modified.nsec.toNat
      return some (.file (.ofBytes bytes) modified)
    | .symlink => return some (.link ⟨(← IO.FS.realPath found).toString.toList⟩)
    | .other => return some .sink
  catch _ => return none

def diskNames (place : Place) : IO (List (List Char)) := do
  try
    let found ← ((← IO.currentDir) / (Path.ofPlace place).toString).readDir
    return found.toList.map (·.fileName.toList)
  catch _ => return []

partial def addPath (t : FileTree) (p : Path) : IO FileTree := do
  let ss := segments p.chars
  let ways := (List.range ss.length).map fun n =>
    (⟨['/'].intercalate (ss.take (n + 1))⟩ : Path)
  ways.foldlM (fun t way => do
    let place := t.placeMeant way
    if (t.entry? place).isSome then return t
    match ← diskEntry? true place with
    | some (.link target) => addPath (t.set place (.link target)) target
    | some e => return t.set place e
    | none => return t) t

partial def addBelow (t : FileTree) (done : List Place) (place : Place) :
    IO (FileTree × List Place) := do
  if done.contains place then return (t, done)
  let done := place :: done
  match ← diskEntry? false place with
  | none => return (t, done)
  | some .directory =>
    let t := if place.isEmpty then t else t.set place .directory
    (← diskNames place).foldlM (fun (t, done) name => addBelow t done (place ++ [name])) (t, done)
  | some (.link target) =>
    let t ← addPath (t.set place (.link target)) target
    match t.locate target with
    | .ok found => addBelow t done found
    | .error _ => return (t, done)
  | some e => return (t.set place e, done)

def workTree : IO FileTree := do
  let here : Path := ⟨(← IO.currentDir).toString.toList⟩
  let t : FileTree := ⟨[], (segments here.chars).filter isName, by simp⟩
  addPath t here

def CompileError.missingFile? (e : CompileError) : Option Path :=
  match e.cause with
  | .unreadable p .notFound | .importedFileNotFound p => some p
  | _ => none

/-- Adds the files that a job asks for, one after the other, until it asks for none that is there. -/
partial def addAsked (j : Job) (t : FileTree) : IO FileTree := do
  match ((Session.start j.options).compileFiles t j.inputs).1 with
  | .ok _ => return t
  | .error e =>
    match e.missingFile? with
    | none => return t
    | some p =>
      let more ← addPath t p
      if more.entries.length = t.entries.length then return t else addAsked j more

def Outcome.perform (o : Outcome) : IO Unit := do
  for (p, chars) in o.written do
    IO.FS.writeFile p.toString (String.ofList chars)
  (← IO.getStdout).putStr (String.ofList o.stdout)
  (← IO.getStderr).putStr (String.ofList o.stderr)

def Job.perform (j : Job) (s : Session) : IO (UInt32 × Session) := do
  let t ← (j.output.toList ++ j.stylesOutput.toList).foldlM addPath (← workTree)
  let (o, s) := j.run (← addAsked j t) s
  o.perform
  return (o.exitCode.toUInt32, s)

def watchTree (dir : Path) : IO FileTree := do
  let t ← addPath (← workTree) dir
  match t.locate dir with
  | .ok place => return (← addBelow t [] place).1
  | .error _ => return t

partial def Job.watchFrom (j : Job) (dir : Path) (w : Watcher) (s : Session) : IO UInt32 := do
  IO.sleep 500
  let (changed, w) := w.poll (← watchTree dir)
  let s ← if changed.isSome then pure (← j.perform s).2 else pure s
  j.watchFrom dir w s

def Job.watchAt (j : Job) (dir : Path) (s : Session) : IO UInt32 := do
  let t ← watchTree dir
  let w := (j.output.toList ++ j.stylesOutput.toList).foldl (fun w p => w.ignore t p)
    (Watcher.start t dir)
  j.watchFrom dir w (← j.perform s).2

def execute (words : List (List Char)) : IO UInt32 := do
  let request := Request.ofWords words
  let named := match request with
    | some (.run a) => a.config.getD settingsFile
    | _ => settingsFile
  match Plan.ofRequest (← addPath (← workTree) named) request with
  | .done o =>
    o.perform
    return o.exitCode.toUInt32
  | .job j =>
    let s := Session.start j.options
    match j.watch with
    | none => return (← j.perform s).1
    | some dir => j.watchAt dir s

end ComponentMarkup

def main (words : List String) : IO UInt32 :=
  ComponentMarkup.execute (words.map String.toList)
