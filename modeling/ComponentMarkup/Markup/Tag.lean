import ComponentMarkup.Markup.TagToken
import ComponentMarkup.Text.Lines

set_option autoImplicit false

namespace ComponentMarkup

/-- `value` is absent for an attribute written without one, as in `<input disabled>`. -/
structure Attribute where
  name : List Char
  value : Option (List Char)
  deriving DecidableEq, Repr

/-- An open tag; `line` is the line of its bracket. -/
structure Tag where
  name : List Char
  attrs : List Attribute
  line : Nat
  deriving DecidableEq, Repr

/-- Elements without children or close tag. An import is one of them. -/
def voidNames : List (List Char) :=
  ["area", "base", "br", "col", "embed", "hr", "img", "input", "link", "meta", "param", "source",
    "track", "wbr", "import"].map String.toList

def rawTextNames : List (List Char) := ["script", "style", "textarea", "title"].map String.toList

def isVoid (name : List Char) : Bool := voidNames.contains name

def isRawText (name : List Char) : Bool := rawTextNames.contains name

def Attribute.text (a : Attribute) : List Char := a.value.getD []

def Tag.attr? (t : Tag) (name : List Char) : Option (List Char) :=
  (t.attrs.find? (·.name == name)).map Attribute.text

def Tag.hasAttr (t : Tag) (name : List Char) : Bool := t.attrs.any (·.name == name)

def setAttribute (a : Attribute) : List Attribute → List Attribute
  | [] => [a]
  | b :: bs => if b.name = a.name then a :: bs else b :: setAttribute a bs

def Tag.setAttr (t : Tag) (name value : List Char) : Tag :=
  { t with attrs := setAttribute ⟨name, some value⟩ t.attrs }

/-- Also gives the value of the attribute removed, if it had one. -/
def Tag.removeAttr (t : Tag) (name : List Char) : Option (List Char) × Tag :=
  ((t.attrs.find? (·.name == name)).bind Attribute.value,
    { t with attrs := t.attrs.eraseP (·.name == name) })

def addAttribute (attrs : List Attribute) (a : Attribute) : List Attribute :=
  if attrs.any (·.name == a.name) then attrs else attrs ++ [a]

/-- What has been read of a tag: its attributes, the name that waits for its value, and whether a
quoted value is due. -/
structure TagReader where
  attrs : List Attribute
  pending : Option (List Char)
  quoteDue : Bool
  deriving DecidableEq, Repr

def TagReader.start : TagReader := ⟨[], none, false⟩

def TagReader.finish (r : TagReader) (value : Option (List Char)) : TagReader :=
  match r.pending with
  | none => r
  | some name => { r with attrs := addAttribute r.attrs ⟨name, value⟩, pending := none }

def TagReader.quoted (r : TagReader) (value : List Char) : TagReader :=
  if r.quoteDue then { r.finish (some value) with quoteDue := false } else r

structure TagInside where
  attrs : List Attribute
  selfClosing : Bool
  chars : List Char
  rest : List Char
  deriving DecidableEq, Repr

def TagInside.after (inside : TagInside) (passed : List Char) : TagInside :=
  { inside with chars := passed ++ inside.chars }

def readUnquoted (s : List Char) : Option (List Char × List Char × List Char) :=
  let gap := s.takeWhile isSpace
  let after := s.dropWhile isSpace
  if after.head? = some '"' ∨ after.head? = some '\'' then none
  else
    let more := fun c => !(isSpace c || c == '>')
    some (gap, after.takeWhile more, after.dropWhile more)

theorem readUnquoted_append {s gap value rest : List Char}
    (h : readUnquoted s = some (gap, value, rest)) : gap ++ (value ++ rest) = s := by
  unfold readUnquoted at h
  dsimp only at h
  split at h
  · cases h
  · simp only [Option.some.injEq, Prod.mk.injEq] at h
    obtain ⟨rfl, rfl, rfl⟩ := h
    rw [List.takeWhile_append_dropWhile, List.takeWhile_append_dropWhile]

theorem length_readUnquoted {s gap value rest : List Char}
    (h : readUnquoted s = some (gap, value, rest)) : rest.length ≤ s.length := by
  rw [← readUnquoted_append h]
  simp
  omega

/-- Reads attributes up to the end of the tag or of the text; `r` has been read so far. Slashes,
equals signs and quotes that belong to no attribute are passed over. -/
def readAttributes (r : TagReader) (s : List Char) : TagInside :=
  match h : TagToken.next s with
  | none => ⟨(r.finish none).attrs, false, s, []⟩
  | some (l, rest) =>
    have := TagToken.length_next h
    match l.token with
    | .close => ⟨(r.finish none).attrs, false, l.source, rest⟩
    | .selfClose => ⟨(r.finish none).attrs, true, l.source, rest⟩
    | .equals =>
      if r.pending.isSome then
        match h' : readUnquoted rest with
        | none => (readAttributes { r with quoteDue := true } rest).after l.source
        | some (gap, value, rest') =>
          have := length_readUnquoted h'
          (readAttributes (r.finish (some value)) rest').after (l.source ++ (gap ++ value))
      else (readAttributes r rest).after l.source
    | .quoted value => (readAttributes (r.quoted value) rest).after l.source
    | .name name =>
      (readAttributes { r.finish none with pending := some name } rest).after l.source
    | .slash | .error => (readAttributes r rest).after l.source
termination_by s.length

theorem readAttributes_append (r : TagReader) (s : List Char) :
    (readAttributes r s).chars ++ (readAttributes r s).rest = s := by
  fun_induction readAttributes r s with
  | case1 => simp
  | case2 r s l rest h => simpa using TagToken.next_append h
  | case3 r s l rest h => simpa using TagToken.next_append h
  | case4 r s l rest h _ _ _ _ ih => simpa [TagInside.after, ih] using TagToken.next_append h
  | case5 r s l rest h _ _ _ gap value rest' h' _ ih =>
    simpa [TagInside.after, ih, readUnquoted_append h'] using TagToken.next_append h
  | case6 r s l rest h _ _ _ ih => simpa [TagInside.after, ih] using TagToken.next_append h
  | case7 r s l rest h _ _ _ ih => simpa [TagInside.after, ih] using TagToken.next_append h
  | case8 r s l rest h _ _ _ ih => simpa [TagInside.after, ih] using TagToken.next_append h
  | case9 r s l rest h _ _ ih => simpa [TagInside.after, ih] using TagToken.next_append h
  | case10 r s l rest h _ _ ih => simpa [TagInside.after, ih] using TagToken.next_append h

theorem length_readAttributes (r : TagReader) (s : List Char) :
    (readAttributes r s).rest.length ≤ s.length := by
  have h := congrArg List.length (readAttributes_append r s)
  rw [List.length_append] at h
  omega

end ComponentMarkup
