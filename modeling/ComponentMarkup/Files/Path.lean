/-!
Paths as they are written, and the parts they are made of. Two paths name the same place by their
text when their parts are equal: repeated and trailing slashes and inner `.` do not count, a leading
`.` and every `..` do.
-/

set_option autoImplicit false

namespace ComponentMarkup

structure Path where
  chars : List Char
  deriving DecidableEq, Inhabited, Repr

/-- The characters between slashes; there is always one more segment than slashes. -/
def segments : List Char → List (List Char)
  | [] => [[]]
  | c :: cs =>
    if c = '/' then [] :: segments cs
    else match segments cs with
      | [] => [[c]]
      | s :: ss => (c :: s) :: ss

inductive PathPart where
  | root
  | here
  | up
  | name (chars : List Char)
  deriving DecidableEq, Repr

def PathPart.ofSegment (s : List Char) : Option PathPart :=
  if s = [] ∨ s = ['.'] then none else if s = ['.', '.'] then some .up else some (.name s)

def isName (s : List Char) : Bool := !s.contains '/' && PathPart.ofSegment s == some (.name s)

def Path.isAbsolute (p : Path) : Bool := p.chars.head? == some '/'

def Path.parts (p : Path) : List PathPart :=
  let ss := segments p.chars
  let body := ss.filterMap PathPart.ofSegment
  if p.isAbsolute then .root :: body else if ss.head? = some ['.'] then .here :: body else body

def Path.same (p q : Path) : Bool := p.parts == q.parts

theorem Path.same_refl (p : Path) : p.same p = true := beq_self_eq_true p.parts

theorem Path.same_symm {p q : Path} (h : p.same q = true) : q.same p = true :=
  beq_iff_eq.2 (beq_iff_eq.1 h).symm

theorem Path.same_trans {p q r : Path} (h : p.same q = true) (h' : q.same r = true) :
    p.same r = true :=
  beq_iff_eq.2 ((beq_iff_eq.1 h).trans (beq_iff_eq.1 h'))

/-- An absolute path replaces what it is joined to. -/
def Path.join (p q : Path) : Path :=
  if q.isAbsolute then q
  else if p.chars = [] ∨ p.chars.getLast? = some '/' then ⟨p.chars ++ q.chars⟩
  else ⟨p.chars ++ '/' :: q.chars⟩

def Path.fileName? (p : Path) : Option (List Char) :=
  match p.parts.getLast? with
  | some (.name s) => some s
  | _ => none

/-- A name without its last dot and what follows it; a dot at the front does not count. -/
def stemOf (name : List Char) : List Char :=
  match name.reverse.dropWhile (· != '.') with
  | [] | [_] => name
  | _ :: before => before.reverse

def Path.fileStem (p : Path) : List Char :=
  match p.fileName? with
  | none => []
  | some name => stemOf name

def PathPart.chars : PathPart → List Char
  | .root => []
  | .here => ['.']
  | .up => ['.', '.']
  | .name s => s

def Path.ofParts : List PathPart → Path
  | [.root] => ⟨['/']⟩
  | parts => ⟨['/'].intercalate (parts.map PathPart.chars)⟩

def Path.parent? (p : Path) : Option Path :=
  match p.parts.getLast? with
  | some (.name _) => some (.ofParts p.parts.dropLast)
  | _ => none

/-- An empty path before a last name stands for the working directory. -/
def Path.orHere (p : Path) : Path := if p.chars.isEmpty then ⟨['.']⟩ else p

/-- The path as seen from a directory: what follows it, if the path leads into it, and otherwise the
path as it is written. -/
def Path.shownFrom (dir p : Path) : List Char :=
  if dir.parts.isPrefixOf p.parts then (Path.ofParts (p.parts.drop dir.parts.length)).chars
  else p.chars

def PathPart.rank : PathPart → Nat
  | .root => 0
  | .here => 1
  | .up => 2
  | .name _ => 3

def PathPart.before (a b : PathPart) : Bool :=
  match a, b with
  | .name s, .name t => decide (s < t)
  | a, b => decide (a.rank < b.rank)

/-- The order of paths by their parts: a directory comes before what is in it. -/
def partsBefore : List PathPart → List PathPart → Bool
  | [], ps => !ps.isEmpty
  | _ :: _, [] => false
  | a :: as, b :: bs => a.before b || (a == b && partsBefore as bs)

def Path.before (p q : Path) : Bool := partsBefore p.parts q.parts

theorem PathPart.before_irrefl (a : PathPart) : a.before a = false := by
  cases a with
  | name s => exact decide_eq_false (List.lt_irrefl s)
  | _ => rfl

theorem PathPart.before_trans {a b c : PathPart} (hab : a.before b = true)
    (hbc : b.before c = true) : a.before c = true := by
  cases a with
  | name s =>
    cases b with
    | name t =>
      cases c with
      | name u =>
        exact decide_eq_true (List.lt_trans (of_decide_eq_true hab) (of_decide_eq_true hbc))
      | _ => exact absurd hbc Bool.false_ne_true
    | _ => exact absurd hab Bool.false_ne_true
  | _ =>
    cases b <;> cases c <;>
      first | rfl | exact absurd hab Bool.false_ne_true | exact absurd hbc Bool.false_ne_true

theorem PathPart.eq_or_before (a b : PathPart) :
    a = b ∨ a.before b = true ∨ b.before a = true := by
  cases a with
  | name s =>
    cases b with
    | name t =>
      by_cases hst : s < t
      · exact .inr (.inl (decide_eq_true hst))
      · by_cases hts : t < s
        · exact .inr (.inr (decide_eq_true hts))
        · exact .inl (congrArg name (List.le_antisymm hts hst))
    | _ => exact .inr (.inr rfl)
  | _ => cases b <;> first | exact .inl rfl | exact .inr (.inl rfl) | exact .inr (.inr rfl)

theorem partsBefore_irrefl (ps : List PathPart) : partsBefore ps ps = false := by
  induction ps with
  | nil => rfl
  | cons a ps ih => simp [partsBefore, PathPart.before_irrefl, ih]

theorem partsBefore_trans {ps qs rs : List PathPart} (hpq : partsBefore ps qs = true)
    (hqr : partsBefore qs rs = true) : partsBefore ps rs = true := by
  induction ps generalizing qs rs with
  | nil =>
    cases rs with
    | nil => cases qs <;> simp [partsBefore] at hqr
    | cons => rfl
  | cons a ps ih =>
    cases qs with
    | nil => simp [partsBefore] at hpq
    | cons b qs =>
      cases rs with
      | nil => simp [partsBefore] at hqr
      | cons c rs =>
        simp only [partsBefore, Bool.or_eq_true, Bool.and_eq_true, beq_iff_eq] at hpq hqr ⊢
        rcases hpq with hab | ⟨rfl, hps⟩
        · rcases hqr with hbc | ⟨rfl, -⟩
          · exact .inl (PathPart.before_trans hab hbc)
          · exact .inl hab
        · rcases hqr with hbc | ⟨rfl, hqs⟩
          · exact .inl hbc
          · exact .inr ⟨rfl, ih hps hqs⟩

theorem eq_or_partsBefore (ps qs : List PathPart) :
    ps = qs ∨ partsBefore ps qs = true ∨ partsBefore qs ps = true := by
  induction ps generalizing qs with
  | nil => cases qs <;> simp [partsBefore]
  | cons a ps ih =>
    cases qs with
    | nil => simp [partsBefore]
    | cons b qs =>
      rcases PathPart.eq_or_before a b with rfl | hab | hba
      · rcases ih qs with rfl | hps | hqs
        · exact .inl rfl
        · exact .inr (.inl (by simp [partsBefore, hps]))
        · exact .inr (.inr (by simp [partsBefore, hqs]))
      · exact .inr (.inl (by simp [partsBefore, hab]))
      · exact .inr (.inr (by simp [partsBefore, hba]))

theorem Path.before_trans {p q r : Path} (hpq : p.before q = true) (hqr : q.before r = true) :
    p.before r = true := partsBefore_trans hpq hqr

theorem Path.not_same_of_before {p q : Path} (h : p.before q = true) : p.same q = false := by
  rw [← Bool.not_eq_true]
  intro hs
  rw [before, beq_iff_eq.1 hs, partsBefore_irrefl] at h
  cases h

theorem Path.before_of_not {p q : Path} (hs : ¬p.same q = true) (hb : ¬p.before q = true) :
    q.before p = true := by
  rcases eq_or_partsBefore p.parts q.parts with h | h | h
  · exact absurd (beq_iff_eq.2 h) hs
  · exact absurd h hb
  · exact h

theorem Path.same_congr_left {p q r : Path} (h : p.same q = true) : p.same r = q.same r := by
  rw [same, same, beq_iff_eq.1 h]

def Path.below (p : Path) (names : List (List Char)) : Path :=
  names.foldl (fun p name => p.join ⟨name⟩) p

end ComponentMarkup
