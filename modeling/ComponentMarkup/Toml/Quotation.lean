import ComponentMarkup.Text.Split

set_option autoImplicit false

namespace ComponentMarkup.Toml

def isPlain (c : Char) : Bool := c = '\t' || ' ' ≤ c && c ≠ '\x7f'

def isGap (c : Char) : Bool := c = ' ' || c = '\t'

def digitValue? (c : Char) : Option Nat :=
  if c.isDigit then some (c.toNat - '0'.toNat)
  else if 'a' ≤ c ∧ c ≤ 'f' then some (c.toNat - 'a'.toNat + 10)
  else if 'A' ≤ c ∧ c ≤ 'F' then some (c.toNat - 'A'.toNat + 10)
  else none

def numeral? (base : Nat) (digits : List Char) : Option Nat :=
  digits.foldlM (fun n c => do
    let d ← digitValue? c
    if d < base then some (n * base + d) else none) 0

def numbered? (n : Nat) (s : List Char) : Option Char := do
  let digits := s.take n
  let code ← numeral? 16 digits
  if digits.length = n ∧ code.isValidChar then some (Char.ofNat code) else none

def escape? : List Char → Option (Char × Nat)
  | 'b' :: _ => some ('\x08', 1)
  | 't' :: _ => some ('\t', 1)
  | 'n' :: _ => some ('\n', 1)
  | 'f' :: _ => some ('\x0c', 1)
  | 'r' :: _ => some ('\r', 1)
  | '"' :: _ => some ('"', 1)
  | '\\' :: _ => some ('\\', 1)
  | 'u' :: s => (numbered? 4 s).map fun c => (c, 5)
  | 'U' :: s => (numbered? 8 s).map fun c => (c, 9)
  | _ => none

def readEscaped (s : List Char) : Option (List Char × List Char) :=
  match s with
  | [] => none
  | '"' :: r => some ([], r)
  | '\\' :: r => do
    let (c, n) ← escape? r
    let (text, rest) ← readEscaped (r.drop n)
    some (c :: text, rest)
  | c :: r => do
    if isPlain c then
      let (text, rest) ← readEscaped r
      some (c :: text, rest)
    else none
termination_by s.length
decreasing_by
  · simp only [List.length_cons, List.length_drop]
    omega
  · simp only [List.length_cons]
    omega

def readVerbatim : List Char → Option (List Char × List Char)
  | [] => none
  | '\'' :: r => some ([], r)
  | c :: r => do
    if isPlain c then
      let (text, rest) ← readVerbatim r
      some (c :: text, rest)
    else none

def readLineText : List Char → Option (List Char × List Char)
  | '"' :: r => readEscaped r
  | '\'' :: r => readVerbatim r
  | _ => none

/-- What follows a backslash at the end of its line, with the next blanks and line breaks left out. -/
def joinLines? (s : List Char) : Option (List Char) :=
  match s.dropWhile isGap with
  | '\n' :: r => some (r.dropWhile fun c => isGap c || c = '\n')
  | _ => none

theorem length_joinLines? {s r : List Char} (h : joinLines? s = some r) : r.length ≤ s.length := by
  have hs := length_dropWhile_le isGap s
  unfold joinLines? at h
  split at h
  · rename_i t ht
    cases h
    rw [ht, List.length_cons] at hs
    have hr := length_dropWhile_le (fun c => isGap c || c = '\n') t
    omega
  · cases h

/-- The text up to three quotes. Up to two more before those belong to the text. Where there are
escapes, a backslash may also join lines. -/
def readBlock (quote : Char) (escapes : Bool) (s : List Char) : Option (List Char × List Char) :=
  match s with
  | [] => none
  | c :: r =>
    if c = quote then
      let run := min 5 ((c :: r).takeWhile (· = quote)).length
      if 3 ≤ run then some (List.replicate (run - 3) quote, r.drop (run - 1))
      else do
        let (text, rest) ← readBlock quote escapes r
        some (c :: text, rest)
    else if escapes && c = '\\' then
      match h : joinLines? r with
      | some t =>
        have := length_joinLines? h
        readBlock quote escapes t
      | none => do
        let (x, n) ← escape? r
        let (text, rest) ← readBlock quote escapes (r.drop n)
        some (x :: text, rest)
    else if c = '\n' || isPlain c then do
      let (text, rest) ← readBlock quote escapes r
      some (c :: text, rest)
    else none
termination_by s.length
decreasing_by
  · simp only [List.length_cons]
    omega
  · simp only [List.length_cons]
    omega
  · simp only [List.length_cons, List.length_drop]
    omega
  · simp only [List.length_cons]
    omega

def dropBreak : List Char → List Char
  | '\n' :: r => r
  | r => r

def readText : List Char → Option (List Char × List Char)
  | '"' :: '"' :: '"' :: r => readBlock '"' true (dropBreak r)
  | '\'' :: '\'' :: '\'' :: r => readBlock '\'' false (dropBreak r)
  | r => readLineText r

end ComponentMarkup.Toml
