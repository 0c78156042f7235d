import ComponentMarkup.Error
import ComponentMarkup.Files.FileTree
import ComponentMarkup.Text.Lines
import ComponentMarkup.Text.ShownLines

set_option autoImplicit false

namespace ComponentMarkup

inductive Ink where
  | plain
  /-- What is marked, and the marks. -/
  | marked
  /-- The margin beside lines of the source. -/
  | margin
  /-- The margin where no line of the source stands. -/
  | gap
  /-- Source that is not marked. -/
  | unmarked
  deriving DecidableEq, Repr

def Ink.code : Ink → List Char
  | .plain => []
  | .marked => "31".toList
  | .margin => "38;5;246".toList
  | .gap => "38;5;240".toList
  | .unmarked => "38;5;249".toList

def Ink.paint (ink : Ink) (s : List Char) : List Char :=
  if ink = .plain then s
  else "\x1b[".toList ++ ink.code ++ 'm' :: s ++ "\x1b[0m".toList

def Ink.paintEach (ink : Ink) (s : List Char) : List Char := s.flatMap fun c => ink.paint [c]

def spaces (n : Nat) : List Char := List.replicate n ' '

structure Label where
  start : Nat
  stop : Nat
  note : List Char
  deriving DecidableEq, Repr

def Label.last (l : Label) : Nat := max (l.stop - 1) l.start

def Label.covers (l : Label) (position : Nat) : Bool := l.start ≤ position && position < l.stop

def numberedMargin (width index : Nat) : List Char :=
  let number := decimal (index + 1)
  ' ' :: Ink.margin.paint (spaces (width - number.length) ++ number ++ " │".toList) ++ [' ']

def emptyMargin (width : Nat) (bar : Char) : List Char :=
  ' ' :: Ink.gap.paint (spaces (width + 1) ++ [bar]) ++ [' ']

def paintLine (label : Label) (line : ShownLine) : List Char :=
  line.text.zipIdx.flatMap fun (c, i) =>
    let ink := if label.covers (line.start + i) then Ink.marked else Ink.unmarked
    let (shown, columns) := shownChar i c
    if isBlank c then ink.paintEach (List.replicate columns shown) else ink.paint [shown]

/-- What a row under a source line holds below one character: a mark for its first column, and one
for its other columns. -/
structure Mark where
  ink : Ink
  first : Char
  others : Char

def Mark.none : Mark := ⟨.plain, ' ', ' '⟩

def paintMarks (line : ShownLine) (count : Nat) (mark : Nat → Mark) : List Char :=
  (List.range count).flatMap fun i =>
    let m := mark i
    let columns := match line.text[i]? with
      | some c => (shownChar i c).2
      | Option.none => 1
    match columns with
    | 0 => []
    | n + 1 => m.ink.paintEach (m.first :: List.replicate n m.others)

def arrowReach : Nat := 2

def paintInline (width index : Nat) (line : ShownLine) (label : Label) : List Char :=
  if label.stop ≤ line.stop then
    let middle := (label.start + label.stop) / 2 - line.start
    let count := label.stop - line.start + arrowReach
    let underlined := fun i => label.covers (line.start + i)
    numberedMargin width index ++ paintLine label line ++ '\n' ::
      (emptyMargin width '│' ++ paintMarks line count (fun i =>
        if i = middle then if underlined i then ⟨.marked, '┬', '─'⟩ else ⟨.marked, '│', ' '⟩
        else if underlined i then ⟨.marked, '─', '─'⟩ else .none) ++ '\n' ::
      (emptyMargin width '│' ++ paintMarks line count (fun i =>
        if i = middle then ⟨.marked, '╰', '─'⟩
        else if middle < i then ⟨.marked, '─', '─'⟩ else .none) ++ ' ' :: label.note ++ ['\n']))
  else emptyMargin width '│' ++ ['\n']

/-- A label over several lines: its first and last line, what lies between them left out, and the
note below. A label that ends after the text has no last line. -/
def paintMultiline (width : Nat) (first last : Nat × ShownLine) (label : Label) : List Char :=
  let ended := decide (label.last < last.2.stop)
  let opening := numberedMargin width first.1 ++ Ink.marked.paintEach "╭─▶ ".toList ++
    paintLine label first.2 ++ ['\n']
  let between := if ended && last.1 = first.1 + 1 then [] else
    emptyMargin width '┆' ++ Ink.marked.paint ['┆'] ++ "   \n".toList
  let closing := if !ended then [] else
    let count := last.2.chars.length + arrowReach
    numberedMargin width last.1 ++ Ink.marked.paintEach "├─▶ ".toList ++
      paintLine label last.2 ++ '\n' ::
      (emptyMargin width '│' ++ Ink.marked.paint ['│'] ++ spaces 3 ++
        paintMarks last.2 count (fun _ => .none) ++ '\n' ::
      (emptyMargin width '│' ++ Ink.marked.paintEach "╰───".toList ++
        paintMarks last.2 count (fun _ => ⟨.marked, '─', '─'⟩) ++ ' ' :: label.note ++ ['\n']))
  opening ++ between ++ closing

/-- The part of a source that a label marks, in its frame; nothing if the label reaches beyond the
source. -/
def paintSource (file source : List Char) (label : Label) : List Char :=
  match lineAt? source label.start, lineAt? source label.last with
  | some first, some last =>
    let width := (decimal (last.1 + 1)).length
    let place := ':' :: decimal (first.1 + 1) ++ ':' :: decimal (label.start - first.2.start + 1)
    spaces (width + 2) ++ Ink.margin.paintEach "╭─[".toList ++ file ++ place ++
      Ink.margin.paint [']'] ++ '\n' ::
      (spaces (width + 2) ++ Ink.margin.paint ['│'] ++ '\n' ::
      ((if first.1 = last.1 then paintInline width first.1 first.2 label
        else paintMultiline width first last label) ++
      Ink.margin.paint (List.replicate (width + 2) '─' ++ ['╯']) ++ ['\n']))
  | _, _ => []

/-- What an error marks in the source of its file: the bytes of its line. They are taken for
characters, so behind a character of several bytes the mark stands further on. -/
def CompileError.labelSpan? (e : CompileError) (source : List Char) : Option (Nat × Nat) :=
  e.location.line.bind (LineIndex.ofText source).lineSpan?

def CompileError.format (dir : Path) (e : CompileError) (source : List Char) : List Char :=
  let file := (e.location.file.map dir.shownFrom).getD []
  Ink.marked.paint "Error:".toList ++ ' ' :: e.cause.message dir ++ '\n' ::
    match e.labelSpan? source with
    | none => []
    | some (start, stop) => paintSource file source ⟨start, stop, "while compiling this".toList⟩

def CompileError.report (t : FileTree) (e : CompileError) : List Char :=
  match e.location.file.map t.readText with
  | some (.ok source) => e.format t.workPath source
  | _ => e.message t.workPath

end ComponentMarkup
