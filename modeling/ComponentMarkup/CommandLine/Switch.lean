import ComponentMarkup.Error

set_option autoImplicit false

namespace ComponentMarkup

inductive Switch where
  | output
  | watch
  | minify
  | includeDir
  | config
  | stylesOutput
  | verbose
  | help
  deriving DecidableEq, Repr

inductive SwitchValue where
  | none
  | required
  /-- Stands for the default where it is left out. -/
  | optional (default : List Char)
  deriving DecidableEq, Repr

namespace Switch

def all : List Switch :=
  [.output, .watch, .minify, .includeDir, .config, .stylesOutput, .verbose, .help]

def longName : Switch → List Char
  | .output => "output-file".toList
  | .watch => "watch".toList
  | .minify => "minify".toList
  | .includeDir => "include-dir".toList
  | .config => "config".toList
  | .stylesOutput => "styles-out".toList
  | .verbose => "verbose".toList
  | .help => "help".toList

def letter? : Switch → Option Char
  | .output => some 'o'
  | .watch => some 'w'
  | .minify => some 'm'
  | .includeDir => some 'I'
  | .config => some 'c'
  | .stylesOutput => none
  | .verbose => some 'v'
  | .help => some 'h'

def value : Switch → SwitchValue
  | .output | .includeDir | .config | .stylesOutput => .required
  | .watch => .optional ['.']
  | .minify | .verbose | .help => .none

def ofLongName? (name : List Char) : Option Switch := all.find? (·.longName == name)

def ofLetter? (c : Char) : Option Switch := all.find? (·.letter? == some c)

def about : Switch → List Char
  | .output => "Output file (writes to stdout if not provided)".toList
  | .watch => "Watch a directory and recompile on changes".toList
  | .minify => "Minify the output".toList
  | .includeDir => "Directory import paths are relative to".toList
  | .config => "Project config file (TOML format)".toList
  | .stylesOutput => "Write the bundled component stylesheets to this file".toList
  | .verbose => "Increase logging verbosity".toList
  | .help => "Print help".toList

def placeholder (s : Switch) : List Char :=
  '<' :: (s.longName.map fun c => if c = '-' then '_' else c.toUpper) ++ ['>']

def usage (s : Switch) : List Char :=
  (match s.letter? with
    | some c => ['-', c, ',', ' ']
    | none => "    ".toList) ++
  "--".toList ++ s.longName ++
  match s.value with
  | .required => ' ' :: s.placeholder
  | .optional _ => ' ' :: '[' :: s.placeholder ++ [']']
  | .none => if s = .verbose then "...".toList else []

end Switch

def usageWidth : Nat := (Switch.all.map fun s => s.usage.length).foldl max 0

def Switch.helpLine (s : Switch) : List Char :=
  "  ".toList ++ s.usage ++ List.replicate (usageWidth - s.usage.length) ' ' ++ "  ".toList ++
    s.about ++ ['\n']

def usageText : List Char := "Usage: htmlp [OPTIONS] <INPUTS>...\n".toList

def helpText : List Char :=
  "Compile HTML components into plain HTML\n\n".toList ++ usageText ++
    "\nArguments:\n  <INPUTS>...  Input files, compiled in order\n\nOptions:\n".toList ++
    Switch.all.flatMap Switch.helpLine

end ComponentMarkup
