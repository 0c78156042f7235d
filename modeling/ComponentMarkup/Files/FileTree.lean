import ComponentMarkup.Error
import ComponentMarkup.Text.Bytes

/-!
A file tree as a value: what stands at each place, and the directory in which relative paths begin.
A path is followed step by step, and each step needs a directory to start from.
-/

set_option autoImplicit false

namespace ComponentMarkup

abbrev Place := List (List Char)

def Path.ofPlace (place : Place) : Path :=
  match place with
  | [] => ⟨['/']⟩
  | _ :: _ => ⟨place.flatMap ('/' :: ·)⟩

inductive Content where
  | text (chars : List Char)
  /-- Bytes that are no UTF-8 text. -/
  | binary (bytes : List UInt8)
  deriving DecidableEq, Repr

inductive FileEntry where
  | directory
  | file (content : Content) (modified : Nat)
  /-- Reads as empty and takes what is written without keeping it. -/
  | sink
  /-- Stands for what its target leads to from the directory of the link. -/
  | link (target : Path)
  deriving DecidableEq, Repr

/-- Of several entries for one place the first counts; the root is always a directory. -/
structure FileTree where
  entries : List (Place × FileEntry)
  workDir : Place
  /-- No file system has a directory by another name. -/
  named : workDir.all isName = true := by decide
  deriving DecidableEq, Repr

def FileTree.entry? (t : FileTree) (place : Place) : Option FileEntry :=
  match place with
  | [] => some .directory
  | _ :: _ => t.entries.lookup place

theorem FileTree.mem_entries_of_entry? {t : FileTree} {place : Place} {e : FileEntry}
    (h : t.entry? place = some e) (he : e ≠ .directory) : (place, e) ∈ t.entries := by
  cases place with
  | nil => exact absurd (Option.some.inj h).symm he
  | cons a as =>
    obtain ⟨before, after, hentries, -⟩ := List.lookup_eq_some_iff.1 h
    rw [hentries]
    exact List.mem_append_right _ List.mem_cons_self

def nameLimit : Nat := 255

/-- The longest path, in bytes, by which a file can be opened or looked for. -/
def pathLimit : Nat := 4095

def Path.check (p : Path) : Except FileError Unit :=
  if p.chars.contains '\x00' then .error .nulInName
  else if p.chars.isEmpty then .error .notFound
  else .ok ()

def Path.fits (p : Path) : Bool := byteLength p.chars ≤ pathLimit

/-- A path that the system takes in one piece, as it does to open a file or to look for one. -/
def Path.checkWhole (p : Path) : Except FileError Unit := do
  p.check
  if p.fits then .ok () else .error .nameTooLong

def linkLimit : Nat := 40

inductive Following where
  /-- Name by name, where each place on the way is asked for by its own path. -/
  | stepwise
  | whole
  /-- In one piece too, but the last name may be that of something new. -/
  | creating
  deriving DecidableEq, Repr

/-- Why a name with these segments behind it is not even looked for in a directory. -/
def Following.refusal? (how : Following) (dir : Place) (name : List Char)
    (behind : List (List Char)) : Option FileError :=
  if how = .creating ∧ behind ≠ [] ∧ behind.all List.isEmpty = true then some .isDirectory
  else if nameLimit < byteLength name then some .nameTooLong
  else if how = .stepwise ∧ (Path.ofPlace (dir ++ [name])).fits = false then some .nameTooLong
  else none

def Path.startFrom (p : Path) (dir : Place) : Place := if p.isAbsolute then [] else dir

def FileTree.walkWith (t : FileTree) (how : Following)
    (follow : Place → List (List Char) → Except FileError Place) (place : Place) :
    List (List Char) → Except FileError Place
  | [] => .ok place
  | s :: ss =>
    match t.entry? place with
    | none => .error .notFound
    | some .directory =>
      if s = [] ∨ s = ['.'] then t.walkWith how follow place ss
      else if s = ['.', '.'] then t.walkWith how follow place.dropLast ss
      else match how.refusal? place s ss with
        | some e => .error e
        | none => match t.entry? (place ++ [s]) with
          | none => if how = .creating ∧ ss = [] then .ok (place ++ [s]) else .error .notFound
          | some (.link target) => follow (target.startFrom place) (segments target.chars ++ ss)
          | some _ => t.walkWith how follow (place ++ [s]) ss
    | some _ => .error .notDirectory

def FileTree.walk (t : FileTree) (how : Following) :
    Nat → Place → List (List Char) → Except FileError Place
  | 0 => t.walkWith how fun _ _ => .error .tooManyLinks
  | links + 1 => t.walkWith how (t.walk how links)

def FileTree.follow (t : FileTree) (how : Following) (dir : Place) (p : Path) :
    Except FileError Place := t.walk how linkLimit (p.startFrom dir) (segments p.chars)

/-- The place that a path leads to. The path itself may be of any length. -/
def FileTree.locate (t : FileTree) (p : Path) : Except FileError Place := do
  p.check
  t.follow .stepwise t.workDir p

def FileTree.reach (t : FileTree) (p : Path) : Except FileError Place := do
  p.checkWhole
  t.follow .whole t.workDir p

def FileTree.canonicalize (t : FileTree) (p : Path) : Except FileError Path :=
  (t.locate p).map Path.ofPlace

def FileTree.readAt (t : FileTree) (place : Place) : Except FileError (List Char) :=
  match t.entry? place with
  | none => .error .notFound
  | some .directory => .error .isDirectory
  | some (.file (.text chars) _) => .ok chars
  | some (.file (.binary _) _) => .error .notText
  | some .sink => .ok []
  | some (.link _) => .error .tooManyLinks

def FileTree.readText (t : FileTree) (p : Path) : Except FileError (List Char) := do
  let place ← t.reach p
  t.readAt place

def FileTree.isFile (t : FileTree) (p : Path) : Bool :=
  match t.reach p with
  | .error _ => false
  | .ok place => match t.entry? place with
    | some (.file _ _) => true
    | _ => false

def FileTree.set (t : FileTree) (place : Place) (e : FileEntry) : FileTree :=
  { t with entries := (place, e) :: t.entries.filter (·.1 != place) }

def FileTree.writeText (t : FileTree) (p : Path) (chars : List Char) : Except FileError FileTree := do
  p.checkWhole
  let place ← t.follow .creating t.workDir p
  match t.entry? place with
  | some .directory => .error .isDirectory
  | some .sink => .ok t
  | _ => .ok (t.set place (.file (.text chars) 0))

/-- Puts directories where there are none on the way to a place, which becomes one itself. -/
def FileTree.makeDirs (t : FileTree) (place : Place) : FileTree :=
  ((List.range place.length).map fun n => place.take (n + 1)).foldl
    (fun t p => if (t.entry? p).isSome then t else t.set p .directory) t

def FileTree.putFile (t : FileTree) (place : Place) (content : Content) (modified : Nat) : FileTree :=
  (t.makeDirs place.dropLast).set place (.file content modified)

def FileTree.remove (t : FileTree) (place : Place) : FileTree :=
  { t with entries := t.entries.filter (!place.isPrefixOf ·.1) }

/-- The place that a path names if every name on it stood for a directory. -/
def FileTree.placeOf (t : FileTree) (p : Path) : Place :=
  p.parts.foldl (fun place part =>
    match part with
    | .root => []
    | .here => place
    | .up => place.dropLast
    | .name s => place ++ [s]) t.workDir

/-- The place that is meant by a path: where it leads, or else the place of its last name in the
directory before it, or else the place that it names by its text. -/
def FileTree.placeMeant (t : FileTree) (p : Path) : Place :=
  match t.locate p with
  | .ok place => place
  | .error _ =>
    match p.parent?, p.fileName? with
    | some dir, some name =>
      match t.locate dir.orHere with
      | .ok place => place ++ [name]
      | .error _ => t.placeOf p
    | _, _ => t.placeOf p

def FileTree.workPath (t : FileTree) : Path := .ofPlace t.workDir

/-- What stands on every system: some directories, and the sink. -/
def FileTree.system (workDir : Place) (named : workDir.all isName = true := by decide) : FileTree :=
  let dirs := ["bin", "dev", "etc", "home", "root", "tmp", "usr", "var"].map fun d => [d.toList]
  let t := FileTree.makeDirs ⟨dirs.map fun d => (d, FileEntry.directory), workDir, named⟩ workDir
  t.set ["dev".toList, "null".toList] .sink

end ComponentMarkup
