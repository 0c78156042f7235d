import ComponentMarkup.Markup.Node
import ComponentMarkup.Proofs.Markup.TagReading
import ComponentMarkup.Proofs.Markup.TokenReading
import Mathlib

set_option autoImplicit false

namespace ComponentMarkup

/-- A lower-case letter with characters of tag names behind it, none of which is a capital. -/
def IsElementName : List Char → Prop
  | [] => False
  | c :: cs => c.isLower = true ∧ ∀ d ∈ cs, isTagNameChar d = true ∧ d.isUpper = false

structure Tag.Shaped (t : Tag) : Prop where
  name : IsElementName t.name
  attrs : ∀ a ∈ t.attrs, IsAttributeName a.name
  distinct : (t.attrs.map Attribute.name).Nodup

def Node.isText : Node → Bool
  | .text _ => true
  | .element _ _ | .comment _ | .doctype _ => false

def startsWithText (ns : List Node) : Bool := ns.head?.any Node.isText

mutual

def Node.Shaped : Node → Prop
  | .element tag children =>
    tag.Shaped ∧ (isVoid tag.name = true → children = []) ∧ Shaped children
  | .text chars => chars ≠ []
  | .comment body => ¬"-->".toList <:+: body
  | .doctype body => startsWithCaseless "doctype".toList body = true ∧ '>' ∉ body

/-- Every node has its shape, and no two texts are neighbours. -/
def Shaped : List Node → Prop
  | [] => True
  | n :: ns => n.Shaped ∧ ¬(n.isText = true ∧ startsWithText ns = true) ∧ Shaped ns

end

theorem Shaped.tag {nodes : List Node} (h : Shaped nodes) : ∀ tag ∈ tags nodes, tag.Shaped := by
  induction nodes using nodes_induction with
  | nil => simp [tags]
  | element tag children rest hc hr =>
    obtain ⟨⟨htag, -, hchildren⟩, -, hrest⟩ := h
    intro t hm
    simp only [tags, Node.tags, List.cons_append, List.mem_cons, List.mem_append] at hm
    rcases hm with rfl | hm | hm
    · exact htag
    · exact hc hchildren t hm
    · exact hr hrest t hm
  | text chars rest hr => exact hr h.2.2
  | comment body rest hr => exact hr h.2.2
  | doctype body rest hr => exact hr h.2.2

theorem IsElementName.startsWithLetter {name : List Char} (h : IsElementName name) :
    startsWithLetter name = true := by
  cases name with
  | nil => cases h
  | cons c cs => simp [ComponentMarkup.startsWithLetter, Char.isAlpha, h.1]

theorem isTagNameChar_of_isAlpha {c : Char} (h : c.isAlpha = true) : isTagNameChar c = true := by
  have hother : ∀ d ∈ [' ', '\t', '\r', '\n', '\x0c', '/', '<', '>'], d.isAlpha = false := by
    simp
  have hne : ∀ d ∈ [' ', '\t', '\r', '\n', '\x0c', '/', '<', '>'], c ≠ d := by
    rintro d hd rfl
    rw [hother c hd] at h
    cases h
  simpa [isTagNameChar, isSpace, and_assoc] using hne

theorem isTagNameChar_of_isLower {c : Char} (h : c.isLower = true) : isTagNameChar c = true :=
  isTagNameChar_of_isAlpha (by simp [Char.isAlpha, h])

theorem IsElementName.chars {name : List Char} (h : IsElementName name) :
    ∀ c ∈ name, isTagNameChar c = true := by
  cases name with
  | nil => cases h
  | cons c cs =>
    exact List.forall_mem_cons.2 ⟨isTagNameChar_of_isLower h.1, fun d hd => (h.2 d hd).1⟩

theorem IsElementName.lowerAscii_eq {name : List Char} (h : IsElementName name) :
    lowerAscii name = name := by
  cases name with
  | nil => cases h
  | cons c cs =>
    have hlower : ∀ d ∈ c :: cs, d.toLower = d := by
      refine List.forall_mem_cons.2 ⟨?_, fun d hd => ?_⟩
      · exact Char.toLower_eq_of_not_isUpper (Char.not_isUpper_of_isLower h.1)
      · exact Char.toLower_eq_of_not_isUpper (by simp [(h.2 d hd).2])
    exact (List.map_congr_left hlower).trans (List.map_id _)

end ComponentMarkup
