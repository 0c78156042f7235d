import ComponentMarkup.Text.CaseTables

/-!
Lower case: over ASCII, letter by letter, and over Unicode, where a capital sigma at the end of a
word and the dotted capital I have forms of their own.
-/

set_option autoImplicit false

namespace ComponentMarkup

def lowerAscii (s : List Char) : List Char := s.map Char.toLower

@[simp] theorem lowerAscii_nil : lowerAscii [] = [] := rfl

@[simp] theorem lowerAscii_cons (c : Char) (s : List Char) :
    lowerAscii (c :: s) = c.toLower :: lowerAscii s := rfl

@[simp] theorem lowerAscii_append (s t : List Char) :
    lowerAscii (s ++ t) = lowerAscii s ++ lowerAscii t := List.map_append

@[simp] theorem length_lowerAscii (s : List Char) : (lowerAscii s).length = s.length :=
  List.length_map _

def isCased (c : Char) : Bool := casedRanges.any fun r => r.1 ≤ c.toNat && c.toNat ≤ r.2

def isCaseIgnorable (c : Char) : Bool :=
  caseIgnorableRanges.any fun r => r.1 ≤ c.toNat && c.toNat ≤ r.2

def meetsCased (s : List Char) : Bool :=
  match s.dropWhile isCaseIgnorable with
  | [] => false
  | c :: _ => isCased c

def lowerChar (c : Char) : List Char :=
  if c == 'İ' then ['i', '\u0307']
  else match lowercaseRuns.find? (·.covers c.toNat) with
    | some r => [Char.ofNat (c.toNat + r.shift).toNat]
    | none => [c]

/-- `before` holds the characters already read, nearest first: a sigma is final when a cased letter
stands before it and none after it. -/
def lowercaseAfter (before : List Char) : List Char → List Char
  | [] => []
  | c :: cs =>
    (if c == 'Σ' then (if meetsCased before && !meetsCased cs then ['ς'] else ['σ'])
      else lowerChar c) ++ lowercaseAfter (c :: before) cs

def lowercase (s : List Char) : List Char := lowercaseAfter [] s

end ComponentMarkup
