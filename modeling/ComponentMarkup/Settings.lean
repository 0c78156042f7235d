import ComponentMarkup.Files.FileTree
import ComponentMarkup.Number.Shortest
import ComponentMarkup.Text.Spelling
import ComponentMarkup.Toml.Document

set_option autoImplicit false

namespace ComponentMarkup

open Toml

structure Settings where
  /-- The directory that import paths are relative to. -/
  includeDir : Option Path
  /-- Where the result is written. -/
  output : Option Path
  minify : Bool
  /-- The directory to watch. -/
  watch : Option Path
  /-- Where the stylesheets of the components are written. -/
  stylesOutput : Option Path
  deriving DecidableEq, Repr

def Settings.standard : Settings := ⟨none, none, false, none, none⟩

inductive SettingKind where
  | path
  | flag
  deriving DecidableEq, Repr

inductive SettingsError where
  | unreadable (reason : FileError)
  | malformed
  | unknownField (name : List Char)
  /-- A value, told by its description, where another kind is asked for. -/
  | wrongKind (found : List Char) (asked : SettingKind)
  deriving DecidableEq, Repr

def inBackticks (s : List Char) : List Char := '\x60' :: (s ++ ['\x60'])

def intText (n : Int) : List Char :=
  if n < 0 then '-' :: decimal n.natAbs else decimal n.natAbs

def describe : Value → List Char
  | .text s => "string ".toList ++ spelled s
  | .integer n => "integer ".toList ++ inBackticks (intText n)
  | .float f => "floating point ".toList ++ inBackticks (floatText f)
  | .boolean b => "boolean ".toList ++ inBackticks (if b then "true".toList else "false".toList)
  | .array _ | .tables _ => "sequence".toList
  | .table _ _ | .moment _ => "map".toList

def SettingKind.name : SettingKind → List Char
  | .path => "path string".toList
  | .flag => "a boolean".toList

def fieldNames : List (List Char) :=
  ["include_dir", "output", "minify", "watch", "styles_output"].map String.toList

def SettingsError.detail? : SettingsError → Option (List Char)
  | .unreadable _ | .malformed => none
  | .unknownField name =>
    some ("unknown field ".toList ++ inBackticks name ++ ", expected one of ".toList ++
      joinWith ", ".toList (fieldNames.map inBackticks))
  | .wrongKind found asked =>
    some ("invalid type: ".toList ++ found ++ ", expected ".toList ++ asked.name)

def SettingsError.message (e : SettingsError) : List Char :=
  match e with
  | .unreadable reason => "Failed to read config file: ".toList ++ reason.message
  | _ => "Failed to parse config TOML: ".toList ++ e.detail?.getD []

def asPath : Value → Except SettingsError (Option Path)
  | .text s => .ok (some ⟨s⟩)
  | v => .error (.wrongKind (describe v) .path)

def asFlag : Value → Except SettingsError Bool
  | .boolean b => .ok b
  | v => .error (.wrongKind (describe v) .flag)

def Settings.set (s : Settings) (entry : List Char × Value) : Except SettingsError Settings :=
  let (name, v) := entry
  if name = "include_dir".toList then (asPath v).map fun p => { s with includeDir := p }
  else if name = "output".toList then (asPath v).map fun p => { s with output := p }
  else if name = "minify".toList then (asFlag v).map fun b => { s with minify := b }
  else if name = "watch".toList then (asPath v).map fun p => { s with watch := p }
  else if name = "styles_output".toList then (asPath v).map fun p => { s with stylesOutput := p }
  else .error (.unknownField name)

def Settings.ofText (chars : List Char) : Except SettingsError Settings :=
  match Toml.parse chars with
  | none => .error .malformed
  | some table => table.foldlM Settings.set .standard

def FileTree.loadSettings (t : FileTree) (p : Path) : Except SettingsError Settings :=
  match t.readText p with
  | .error reason => .error (.unreadable reason)
  | .ok chars => Settings.ofText chars

def settingsFile : Path := ⟨"htmlp.toml".toList⟩

/-- The settings of a directory, the standard ones where it has no settings file. -/
def FileTree.directorySettings (t : FileTree) (dir : Path) : Except SettingsError Settings :=
  let p := dir.join settingsFile
  if t.isFile p then t.loadSettings p else .ok .standard

end ComponentMarkup
