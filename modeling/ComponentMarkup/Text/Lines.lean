import ComponentMarkup.Text.Bytes

set_option autoImplicit false

namespace ComponentMarkup

def lineFeeds (s : List Char) : Nat := s.count '\n'

@[simp] theorem lineFeeds_append (s t : List Char) :
    lineFeeds (s ++ t) = lineFeeds s + lineFeeds t := List.count_append

structure LineIndex where
  starts : List Nat
  length : Nat
  deriving DecidableEq, Repr

/-- The starts of the lines that follow those line feeds that stand at byte `offset` or after. -/
def startsAfter (offset : Nat) : List Char → List Nat
  | [] => []
  | c :: cs =>
    if c = '\n' then (offset + 1) :: startsAfter (offset + 1) cs
    else startsAfter (offset + c.utf8Size) cs

def LineIndex.ofText (s : List Char) : LineIndex := ⟨0 :: startsAfter 0 s, byteLength s⟩

/-- What the search for a number in an ascending list comes to: the index at which it stands, or the
one at which it would have to be put in. -/
inductive Bisection where
  | hit (i : Nat)
  | miss (i : Nat)
  deriving DecidableEq, Repr

def bisect (xs : List Nat) (x lo hi : Nat) : Bisection :=
  if lo < hi then
    let mid := lo + (hi - lo) / 2
    match xs[mid]? with
    | none => .miss lo
    | some y =>
      if y = x then .hit mid
      else if y < x then bisect xs x (mid + 1) hi
      else bisect xs x lo mid
  else .miss lo
termination_by hi - lo

/-- The line that holds byte `offset`: the one that starts there, or else the one before the first
that starts behind it. -/
def LineIndex.lineOf (ix : LineIndex) (offset : Nat) : Nat :=
  match bisect ix.starts offset 0 ix.starts.length with
  | .hit i => i + 1
  | .miss i => i

def LineIndex.lineSpan? (ix : LineIndex) (line : Nat) : Option (Nat × Nat) :=
  if line = 0 then none
  else
    (ix.starts[line - 1]?).map fun start =>
      (start, match ix.starts[line]? with
        | some next => next - 1
        | none => ix.length)

end ComponentMarkup
