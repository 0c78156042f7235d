import ComponentMarkup.Toml.Value
import ComponentMarkup.Toml.Quotation

set_option autoImplicit false

namespace ComponentMarkup.Toml

/-- Digits that may stand in groups: an underscore only between two of them. -/
def ungroup? (digit : Char → Bool) : List Char → Option (List Char)
  | [] => none
  | [c] => if digit c then some [c] else none
  | c :: '_' :: r => if digit c then (ungroup? digit r).map (c :: ·) else none
  | c :: r => if digit c then (ungroup? digit r).map (c :: ·) else none

def takeSign : List Char → Bool × List Char
  | '-' :: r => (true, r)
  | '+' :: r => (false, r)
  | r => (false, r)

def signed (negative : Bool) (n : Nat) : Int := if negative then -(n : Int) else n

def wholeDigits? (s : List Char) : Option (List Char) := do
  let digits ← ungroup? Char.isDigit s
  if digits.head? = some '0' && digits.length ≠ 1 then none else some digits

def withinWord (n : Int) : Bool := -0x8000000000000000 ≤ n && n < 0x8000000000000000

/-- A whole number of 64 bits. Only to the base ten does it have a sign. -/
def integer? (s : List Char) : Option Int := do
  let n ← match s with
    | '0' :: 'x' :: r => based 16 r
    | '0' :: 'o' :: r => based 8 r
    | '0' :: 'b' :: r => based 2 r
    | _ =>
      let (negative, r) := takeSign s
      (wholeDigits? r >>= numeral? 10).map (signed negative)
  if withinWord n then some n else none
where
  based (base : Nat) (s : List Char) : Option Int := do
    let digits ← ungroup? (fun c => (digitValue? c).any (· < base)) s
    (numeral? base digits).map Int.ofNat

/-- The number of 64 bits next to `m * 10 ^ e`. Powers beyond the bounds go to infinity or to zero as
the bounds do. -/
def nearest (m : Nat) (e : Int) : Float :=
  let e := min 400 (max (-400 - (Nat.log2 m : Int)) e)
  Float.ofScientific m (e < 0) e.natAbs

def splitExponent (s : List Char) : List Char × Option (List Char) :=
  let (before, after) := s.span fun c => c ≠ 'e' && c ≠ 'E'
  (before, after.head?.map fun _ => after.tail)

def exponent? (s : List Char) : Option Int := do
  let (negative, r) := takeSign s
  let n ← ungroup? Char.isDigit r >>= numeral? 10
  some (signed negative n)

/-- A number with a fraction or an exponent or both. One that is too great is refused, and one that
is too far below zero is minus infinity. -/
def decimal? (s : List Char) : Option Float := do
  let (negative, r) := takeSign s
  let (before, power) := splitExponent r
  let (whole, after) := before.span (· ≠ '.')
  if after.isEmpty && power.isNone then none
  else do
    let digits ← wholeDigits? whole
    let fraction ← if after.isEmpty then some [] else ungroup? Char.isDigit after.tail
    let m ← numeral? 10 (digits ++ fraction)
    let e ← match power with
      | none => some 0
      | some p => exponent? p
    let f := nearest m (e - fraction.length)
    if negative then some (-f) else if f.isInf then none else some f

def infinity : Float := Float.ofBits 0x7ff0000000000000

def notANumber : Float := Float.ofBits 0x7ff8000000000000

def float? (s : List Char) : Option Float :=
  let (negative, r) := takeSign s
  if r = "inf".toList then some (if negative then -infinity else infinity)
  else if r = "nan".toList then some notANumber
  else decimal? s

def readFixed (n : Nat) (s : List Char) : Option (Nat × List Char) := do
  let digits := s.take n
  let value ← numeral? 10 digits
  if digits.length = n then some (value, s.drop n) else none

def expect (c : Char) : List Char → Option (List Char)
  | [] => none
  | d :: r => if d = c then some r else none

def daysIn (year month : Nat) : Nat :=
  if month = 2 then
    if year % 4 = 0 ∧ (year % 100 ≠ 0 ∨ year % 400 = 0) then 29 else 28
  else if month = 4 ∨ month = 6 ∨ month = 9 ∨ month = 11 then 30
  else 31

def dropDate? (s : List Char) : Option (List Char) := do
  let (year, s) ← readFixed 4 s
  let s ← expect '-' s
  let (month, s) ← readFixed 2 s
  let s ← expect '-' s
  let (day, s) ← readFixed 2 s
  if 1 ≤ month ∧ month ≤ 12 ∧ 1 ≤ day ∧ day ≤ daysIn year month then some s else none

def dropFraction? : List Char → Option (List Char)
  | '.' :: c :: r => if c.isDigit then some (r.dropWhile Char.isDigit) else none
  | ['.'] => none
  | r => some r

/-- What follows a time of day; a minute may have a leap second. -/
def dropTime? (s : List Char) : Option (List Char) := do
  let (hour, s) ← readFixed 2 s
  let s ← expect ':' s
  let (minute, s) ← readFixed 2 s
  let s ← expect ':' s
  let (second, s) ← readFixed 2 s
  let s ← dropFraction? s
  if hour ≤ 23 ∧ minute ≤ 59 ∧ second ≤ 60 then some s else none

def isOffset : List Char → Bool
  | ['Z'] | ['z'] => true
  | c :: r => (c = '+' || c = '-') && Option.isSome do
      let (hour, r) ← readFixed 2 r
      let r ← expect ':' r
      let (minute, r) ← readFixed 2 r
      if hour ≤ 23 ∧ minute ≤ 59 ∧ r = [] then some () else none
  | [] => false

def isMoment (s : List Char) : Bool :=
  match dropDate? s with
  | none => dropTime? s = some []
  | some [] => true
  | some (c :: r) =>
    (c = 'T' || c = 't' || c = ' ') &&
      match dropTime? r with
      | none => false
      | some r => r.isEmpty || isOffset r

def isBareChar (c : Char) : Bool :=
  c.isAlphanum || c = '_' || c = '+' || c = '-' || c = '.' || c = ':'

def scalar? (s : List Char) : Option Value :=
  if s = "true".toList then some (.boolean true)
  else if s = "false".toList then some (.boolean false)
  else if isMoment s then some (.moment s)
  else (integer? s).map Value.integer <|> (float? s).map Value.float

/-- A value of one word, or a date and a time with a space between them. -/
def readScalar (s : List Char) : Option (Value × List Char) :=
  let word := s.takeWhile isBareChar
  let rest := s.dropWhile isBareChar
  let longer := word ++ ' ' :: rest.tail.takeWhile isBareChar
  if rest.head? = some ' ' && isMoment word && isMoment longer then
    some (.moment longer, rest.tail.dropWhile isBareChar)
  else (scalar? word).map fun v => (v, rest)

end ComponentMarkup.Toml
