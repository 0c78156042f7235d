import ComponentMarkup.Text.Blank
import ComponentMarkup.Text.Width

set_option autoImplicit false

namespace ComponentMarkup

/-- A line with the position of its first character; its line end belongs to it. -/
structure ShownLine where
  start : Nat
  chars : List Char
  deriving DecidableEq, Repr

def ShownLine.stop (l : ShownLine) : Nat := l.start + l.chars.length

def ShownLine.text (l : ShownLine) : List Char := trimRight l.chars

def isLineEnd (c : Char) : Bool :=
  ['\r', '\n', '\x0b', '\x0c', '\u0085', '\u2028', '\u2029'].contains c

def shownLinesFrom (start : Nat) (current : List Char) : List Char → List ShownLine
  | [] => if current.isEmpty then [] else [⟨start, current.reverse⟩]
  | '\r' :: '\n' :: cs =>
    ⟨start, current.reverse ++ ['\r', '\n']⟩ :: shownLinesFrom (start + current.length + 2) [] cs
  | c :: cs =>
    if isLineEnd c then
      ⟨start, current.reverse ++ [c]⟩ :: shownLinesFrom (start + current.length + 1) [] cs
    else shownLinesFrom start (c :: current) cs

def shownLines (s : List Char) : List ShownLine := shownLinesFrom 0 [] s

/-- The line, with its number from 0, that a position of the text is on. The position after the last
character is on the last line. -/
def lineAt? (s : List Char) (position : Nat) : Option (Nat × ShownLine) :=
  if position ≤ s.length then
    (((shownLines s).zipIdx.filter (·.1.start ≤ position)).getLast?).map fun (l, i) => (i, l)
  else none

def tabWidth : Nat := 4

def shownChar (index : Nat) (c : Char) : Char × Nat :=
  if c = '\t' then (' ', tabWidth - index % tabWidth)
  else if isBlank c then (' ', 1)
  else (c, columnWidth c)

end ComponentMarkup
