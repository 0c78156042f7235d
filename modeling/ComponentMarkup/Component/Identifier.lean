import ComponentMarkup.Markup.Node
import ComponentMarkup.Text.Blank

/-!
Generated identifiers. A counter numbers them; a site remembers which identifier stands for which
token, so that within one usage of a component equal tokens are replaced alike.
-/

set_option autoImplicit false

namespace ComponentMarkup

/-- The digits run from `A` to the character before `z`. -/
def identifierRadix : Nat := 57

def identifierDigit (d : Nat) : Char := Char.ofNat ('A'.toNat + d)

def identifierDigits (n : Nat) : List Char :=
  if h : n = 0 then []
  else
    have : n / identifierRadix < n := Nat.div_lt_self (Nat.pos_of_ne_zero h) (by decide)
    identifierDigit (n % identifierRadix) :: identifierDigits (n / identifierRadix)

def identifier (n : Nat) : List Char := if n = 0 then [identifierDigit 0] else identifierDigits n

/-- The identifiers given to the tokens of one usage, latest first. -/
abbrev Site := List (List Char × List Char)

structure Drawing where
  site : Site
  next : Nat
  deriving DecidableEq, Repr

def Drawing.identify (token : List Char) (d : Drawing) : List Char × Drawing :=
  match d.site.lookup token with
  | some known => (known, d)
  | none => (identifier d.next, ⟨(token, identifier d.next) :: d.site, d.next + 1⟩)

def isTokenChar (c : Char) : Bool := c.isAlpha || c == '_' || c == '-'

def endsToken : List Char → Bool
  | [] => true
  | c :: _ => isBlank c

/-- Replaces every `!` with a name behind it that ends before a blank or at the end of the value. -/
def identifyTokens (value : List Char) (d : Drawing) : List Char × Drawing :=
  match value with
  | [] => ([], d)
  | '!' :: c :: cs =>
    if c.isAlpha then
      let token := '!' :: c :: cs.takeWhile isTokenChar
      let rest := cs.dropWhile isTokenChar
      have := length_dropWhile_le isTokenChar cs
      let (written, d) := if endsToken rest then d.identify token else (token, d)
      let (rest, d) := identifyTokens rest d
      (written ++ rest, d)
    else
      let (rest, d) := identifyTokens (c :: cs) d
      ('!' :: rest, d)
  | c :: cs =>
    let (rest, d) := identifyTokens cs d
    (c :: rest, d)
termination_by value.length

def identifyAttributes : List Attribute → Drawing → List Attribute × Drawing
  | [], d => ([], d)
  | ⟨name, none⟩ :: as, d =>
    let (as, d) := identifyAttributes as d
    (⟨name, none⟩ :: as, d)
  | ⟨name, some value⟩ :: as, d =>
    let (value, d) := identifyTokens value d
    let (as, d) := identifyAttributes as d
    (⟨name, some value⟩ :: as, d)

/-- Replaces the tokens in the attribute values of a template's body; `next` is the number of the
next new identifier, before and after. -/
def identifyBody (body : List Node) (next : Nat) : List Node × Nat :=
  let (body, d) := visitTags (fun tag d =>
    let (attrs, d) := identifyAttributes tag.attrs d
    ({ tag with attrs }, d)) body ⟨[], next⟩
  (body, d.next)

end ComponentMarkup
