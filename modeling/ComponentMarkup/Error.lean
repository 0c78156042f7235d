import ComponentMarkup.Files.Path

set_option autoImplicit false

namespace ComponentMarkup

inductive FileError where
  | notFound
  | notDirectory
  | isDirectory
  | nameTooLong
  | nulInName
  | notText
  | tooManyLinks
  | other (message : List Char)
  deriving DecidableEq, Repr

def FileError.message : FileError → List Char
  | .notFound => "No such file or directory (os error 2)".toList
  | .notDirectory => "Not a directory (os error 20)".toList
  | .isDirectory => "Is a directory (os error 21)".toList
  | .nameTooLong => "File name too long (os error 36)".toList
  | .nulInName => "file name contained an unexpected NUL byte".toList
  | .notText => "stream did not contain valid UTF-8".toList
  | .tooManyLinks => "Too many levels of symbolic links (os error 40)".toList
  | .other message => message

inductive Cause where
  /-- A tag lacks an attribute that it cannot work without. -/
  | missingAttribute (tag attr : List Char)
  /-- Two imports of one file go by one alias. -/
  | duplicateAlias (name : List Char)
  /-- A file imports itself, directly or through others. -/
  | importCycle (route : List Path)
  | importedFileNotFound (path : Path)
  | unreadable (path : Path) (reason : FileError)
  | disallowedTopLevelTag (tag : List Char)
  | multipleTopLevelTags (tag : List Char) (lines : List Nat)
  | reservedArgument
  /-- A usage gives attributes that its component does not declare; the names are sorted. -/
  | extraArguments (names : List (List Char))
  | missingArgument (tag arg : List Char)
  deriving DecidableEq, Repr

structure Location where
  file : Option Path
  line : Option Nat
  deriving DecidableEq, Repr

structure CompileError where
  cause : Cause
  location : Location
  deriving DecidableEq, Repr

def Cause.nowhere (c : Cause) : CompileError := ⟨c, ⟨none, none⟩⟩

/-- Fills in what is missing of the location. A location that is known is kept, and a line is only
added to an error of the same file. -/
def CompileError.withLocation (e : CompileError) (file : Path) (line : Option Nat) : CompileError :=
  match e.location.file with
  | none => ⟨e.cause, ⟨some file, e.location.line.or line⟩⟩
  | some known =>
    if known.same file then ⟨e.cause, ⟨some known, e.location.line.or line⟩⟩ else e

def Cause.at (c : Cause) (file : Path) (line : Option Nat) : CompileError :=
  c.nowhere.withLocation file line

@[simp] theorem CompileError.cause_withLocation (e : CompileError) (file : Path)
    (line : Option Nat) : (e.withLocation file line).cause = e.cause := by
  unfold withLocation
  split
  · rfl
  · split <;> rfl

@[simp] theorem Cause.cause_at (c : Cause) (file : Path) (line : Option Nat) :
    (c.at file line).cause = c :=
  CompileError.cause_withLocation c.nowhere file line

def decimal (n : Nat) : List Char := Nat.toDigits 10 n

def joinWith (separator : List Char) (parts : List (List Char)) : List Char :=
  separator.intercalate parts

def quoted (s : List Char) : List Char := '\'' :: (s ++ ['\''])

def Cause.message (dir : Path) : Cause → List Char
  | .missingAttribute tag attr =>
    "Can't find '".toList ++ attr ++ "' attribute of <".toList ++ tag ++ "/>".toList
  | .duplicateAlias name =>
    "Can't use same alias ".toList ++ name ++ " on different imports in the same file".toList
  | .importCycle route =>
    "Import recursion. Route:\n\t".toList ++
      joinWith " -> \n\t".toList (route.map (Path.shownFrom dir))
  | .importedFileNotFound path =>
    "Cannot import component from non-existent file ".toList ++ dir.shownFrom path
  | .unreadable path reason =>
    "Can't read file ".toList ++ dir.shownFrom path ++ ". ".toList ++ reason.message
  | .disallowedTopLevelTag tag =>
    "Tag <".toList ++ tag ++ "> is not allowed at top-level".toList
  | .multipleTopLevelTags tag lines =>
    "Multiple <".toList ++ tag ++
      "> tags are not allowed within single component. Lines: ".toList ++
      joinWith [','] (lines.map decimal)
  | .reservedArgument =>
    "'children' can't be used as an argument of component. It's reserved for inner children".toList
  | .extraArguments [name] => "Extra argument ".toList ++ quoted name
  | .extraArguments names =>
    "Extra arguments: [".toList ++ joinWith [','] (names.map quoted) ++ [']']
  | .missingArgument tag arg =>
    "Can't find required argument '".toList ++ arg ++ "' of <".toList ++ tag ++ "/>".toList

def Location.message (dir : Path) (l : Location) : List Char :=
  match l.file with
  | none => "Error".toList
  | some file =>
    "Error in file ".toList ++ dir.shownFrom file ++ ", on line ".toList ++
      match l.line with
      | some line => decimal line
      | none => "Unknown".toList

def CompileError.message (dir : Path) (e : CompileError) : List Char :=
  e.location.message dir ++ ":\n".toList ++ e.cause.message dir ++ ['.']

end ComponentMarkup
