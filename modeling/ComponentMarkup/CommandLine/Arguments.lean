import ComponentMarkup.CommandLine.Switch

set_option autoImplicit false

namespace ComponentMarkup

structure Arguments where
  inputs : List Path
  output : Option Path
  watch : Option Path
  minify : Bool
  includeDir : Option Path
  config : Option Path
  stylesOutput : Option Path
  verbosity : Nat
  deriving DecidableEq, Repr

def Arguments.empty : Arguments := ⟨[], none, none, false, none, none, none, 0⟩

inductive Request where
  | run (a : Arguments)
  | help
  deriving DecidableEq, Repr

def firstPath (before : Option Path) (value : List Char) : Option (Option Path) :=
  if before.isSome || value.isEmpty then none else some (some ⟨value⟩)

def Arguments.give (a : Arguments) (s : Switch) (value : List Char) : Option Arguments :=
  match s with
  | .output => (firstPath a.output value).map fun p => { a with output := p }
  | .watch => (firstPath a.watch value).map fun p => { a with watch := p }
  | .includeDir => (firstPath a.includeDir value).map fun p => { a with includeDir := p }
  | .config => (firstPath a.config value).map fun p => { a with config := p }
  | .stylesOutput => (firstPath a.stylesOutput value).map fun p => { a with stylesOutput := p }
  | .minify | .verbose | .help => none

/-- A switch without a value; only the one for verbosity may be repeated. -/
def Arguments.turnOn (a : Arguments) (s : Switch) : Option Arguments :=
  match s with
  | .minify => if a.minify then none else some { a with minify := true }
  | .verbose => some { a with verbosity := a.verbosity + 1 }
  | _ => none

def Arguments.addInput (a : Arguments) (word : List Char) : Option Arguments :=
  if word.isEmpty then none else some { a with inputs := a.inputs ++ [⟨word⟩] }

inductive Reading where
  | settled (a : Arguments)
  /-- The next word may be the value of a switch. -/
  | awaiting (a : Arguments) (s : Switch)
  | help

def Reading.settle : Reading → Option Arguments
  | .settled a => some a
  | .awaiting a s =>
    match s.value with
    | .optional default => a.give s default
    | .required | .none => none
  | .help => none

def Arguments.readSwitch (a : Arguments) (s : Switch) (attached : Option (List Char)) :
    Option Reading :=
  match s.value, attached with
  | .none, none => if s = .help then some .help else (a.turnOn s).map .settled
  | .none, some _ => none
  | _, none => some (.awaiting a s)
  | _, some value => (a.give s value).map .settled

/-- Letters after one dash. A switch that takes a value takes the rest of the word, with or without an
equals sign before it. -/
def Arguments.readLetters (a : Arguments) : List Char → Option Reading
  | [] => some (.settled a)
  | c :: r => do
    let s ← Switch.ofLetter? c
    match s.value, r with
    | .none, _ =>
      match ← a.readSwitch s none with
      | .settled a => a.readLetters r
      | reading => some reading
    | _, [] => a.readSwitch s none
    | _, '=' :: value => a.readSwitch s (some value)
    | _, value => a.readSwitch s (some value)

def Arguments.readName (a : Arguments) (word : List Char) : Option Reading := do
  let (name, value) := word.span (· ≠ '=')
  let s ← Switch.ofLongName? name
  a.readSwitch s (value.head?.map fun _ => value.tail)

def Arguments.finish (a : Arguments) : Option Request :=
  if a.inputs.isEmpty then none else some (.run a)

/-- Reads the words from left to right. Asking for help ends the reading. -/
def Reading.readWords (reading : Reading) : List (List Char) → Option Request
  | [] => do (← reading.settle).finish
  | word :: words =>
    match word with
    | ['-', '-'] => do
      let a ← words.foldlM Arguments.addInput (← reading.settle)
      a.finish
    | '-' :: '-' :: name => do
      match ← (← reading.settle).readName name with
      | .help => some .help
      | reading => reading.readWords words
    | '-' :: c :: letters => do
      match ← (← reading.settle).readLetters (c :: letters) with
      | .help => some .help
      | reading => reading.readWords words
    | _ => do
      let a ← match reading with
        | .awaiting a s => a.give s word
        | .settled a => a.addInput word
        | .help => none
      (Reading.settled a).readWords words

def Request.ofWords (words : List (List Char)) : Option Request :=
  (Reading.settled .empty).readWords words

end ComponentMarkup
