set_option autoImplicit false

namespace ComponentMarkup

structure Binary where
  m : Nat
  q : Int
  deriving DecidableEq, Repr

def fullFraction : Nat := 0x10000000000000

def Binary.ofBits (bits : UInt64) : Binary :=
  let exponent := ((bits >>> 52) &&& 0x7ff).toNat
  let fraction := (bits &&& 0xfffffffffffff).toNat
  if exponent = 0 then ⟨fraction, -1074⟩ else ⟨fullFraction + fraction, (exponent : Int) - 1075⟩

def power (base : Nat) (e : Int) : Nat := Nat.pow base e.toNat

def compareScaled (a : Nat) (i : Int) (d : Nat) (p : Int) : Ordering :=
  compare (a * power 2 i * power 10 (-p)) (d * power 10 p * power 2 (-i))

/-- Whether `d * 10 ^ p` is among the reals that round to `x`. These end halfway to the two neighbours
of `x`, and the ends belong to them when `m` is even. Just above a power of two the neighbour below is
only half as far as the one above. -/
def Binary.readsAs (x : Binary) (d : Nat) (p : Int) : Bool :=
  let low := compareScaled (if x.m = fullFraction then 4 * x.m - 1 else 4 * x.m - 2) (x.q - 2) d p
  let high := compareScaled (4 * x.m + 2) (x.q - 2) d p
  (low = .lt || x.m % 2 = 0 && low = .eq) && (high = .gt || x.m % 2 = 0 && high = .eq)

def Binary.floorAt (x : Binary) (p : Int) : Nat :=
  x.m * power 2 x.q * power 10 (-p) / (power 10 p * power 2 (-x.q))

/-- The multiple of `10 ^ p` next to `x` that reads as `x`; of two the nearer one, or else the upper. -/
def Binary.onGrid? (x : Binary) (p : Int) : Option (Nat × Int) :=
  let d := x.floorAt p
  match x.readsAs d p, x.readsAs (d + 1) p with
  | false, false => none
  | true, false => some (d, p)
  | false, true => some (d + 1, p)
  | true, true =>
    if compareScaled (2 * x.m) x.q (2 * d + 1) p = .lt then some (d, p) else some (d + 1, p)

/-- From a grid that is coarser than every number of 64 bits is great down to one that is finer than
the distance between any two of them. -/
def gridExponents : List Int := (List.range 634).map fun (k : Nat) => (309 : Int) - k

/-- Digits and the power of ten that they count. The coarsest grid that has a hit has the fewest
digits; the exact value stands in where no grid has one. -/
def Binary.shortest (x : Binary) : Nat × Int :=
  (gridExponents.findSome? x.onGrid?).getD
    (x.m * power 2 x.q * power 5 (-x.q), min x.q 0)

def positional (d : Nat) (p : Int) : List Char :=
  let digits := Nat.toDigits 10 d
  if 0 ≤ p then digits ++ List.replicate p.toNat '0' ++ ['.', '0']
  else
    let places := (-p).toNat
    let padded := List.replicate (places + 1 - digits.length) '0' ++ digits
    padded.take (padded.length - places) ++ '.' :: padded.drop (padded.length - places)

def floatText (f : Float) : List Char :=
  let bits := f.toBits
  let sign := if bits >>> 63 = 0 then [] else ['-']
  if f.isNaN then "NaN".toList
  else if f.isInf then sign ++ "inf".toList
  else
    let x := Binary.ofBits bits
    let (d, p) := if x.m = 0 then (0, 0) else x.shortest
    sign ++ positional d p

end ComponentMarkup
