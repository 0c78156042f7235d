import ComponentMarkup.Proofs.Markup.Rereading

set_option autoImplicit false

namespace ComponentMarkup

mutual

/-- Markup says what the node holds as it stands: no value has a quote to be escaped, no text
outside of raw text has a bracket, and raw text is one text without its close tag. -/
def Node.Verbatim : Node → Prop
  | .element tag children =>
    (∀ c ∈ tag.name.getLast?, isBlank c = false) ∧
      (∀ a ∈ tag.attrs, ∀ value ∈ a.value, '"' ∉ value) ∧
      if isRawText tag.name then
        children = [] ∨ ∃ chars, children = [.text chars] ∧ ¬closing tag.name <:+: lowerAscii chars
      else Verbatim children
  | .text chars => '<' ∉ chars
  | .comment _ | .doctype _ => True

def Verbatim : List Node → Prop
  | [] => True
  | n :: ns => n.Verbatim ∧ Verbatim ns

end

mutual

def Node.numbered (line : Nat) : Node → Node
  | .element tag children =>
    .element { tag with line } (numbered (line + lineFeeds tag.renderOpen) children)
  | n@(.text _) | n@(.comment _) | n@(.doctype _) => n

/-- The line of every element is that of its bracket in the markup. -/
def numbered (line : Nat) : List Node → List Node
  | [] => []
  | n :: ns => n.numbered line :: numbered (line + lineFeeds n.markup) ns

end

theorem Tag.written_eq {tag : Tag} (h : ∀ a ∈ tag.attrs, ∀ value ∈ a.value, '"' ∉ value)
    (line : Nat) : tag.written line = { tag with line } := by
  have hattr : ∀ a ∈ tag.attrs, a.written = a := by
    intro a ha
    obtain ⟨name, value⟩ := a
    cases value with
    | none => rfl
    | some value => simp [Attribute.written, escapeQuotes_eq_self (h _ ha value rfl)]
  rw [Tag.written, List.map_congr_left hattr, List.map_id']

theorem Verbatim.legible {ns : List Node} (h : Verbatim ns) (atEnd : Bool) : Legible atEnd ns := by
  induction ns using nodes_induction generalizing atEnd with
  | nil => rw [Legible]; trivial
  | element tag children rest hchildren hrest =>
    obtain ⟨⟨hlast, -, hinside⟩, hr⟩ := h
    rw [Legible]
    refine ⟨hlast, ?_, hrest hr atEnd⟩
    by_cases hraw : isRawText tag.name = true
    · rw [if_pos hraw] at hinside ⊢
      rcases hinside with rfl | ⟨chars, rfl, hchars⟩
      · rw [LegibleRaw]; trivial
      · rw [LegibleRaw, fromClosing, if_pos (splitWhere_caseless_of_absent hchars), LegibleRaw]
        trivial
    · rw [if_neg hraw] at hinside ⊢
      exact hchildren hinside false
  | text chars rest hrest =>
    rw [Legible]
    exact ⟨isPlain_of_noBracket h.1, hrest h.2 atEnd⟩
  | comment body rest hrest =>
    rw [Legible]
    exact hrest h.2 atEnd
  | doctype body rest hrest =>
    rw [Legible]
    exact hrest h.2 atEnd

theorem Verbatim.reread_eq {ns : List Node} (h : Verbatim ns) (hs : Shaped ns) (line : Nat) :
    reread line ns = numbered line ns := by
  induction ns using nodes_induction generalizing line with
  | nil => rw [reread, numbered]
  | element tag children rest hchildren hrest =>
    obtain ⟨⟨-, hvalues, hinside⟩, hr⟩ := h
    obtain ⟨⟨-, hvoid, hshaped⟩, -, hshaped'⟩ := hs
    rw [reread, numbered, Node.numbered, Tag.written_eq hvalues, hrest hr hshaped']
    congr 2
    by_cases hv : isVoid tag.name = true
    · rw [if_pos hv, hvoid hv, numbered]
    · rw [if_neg hv]
      by_cases hraw : isRawText tag.name = true
      · rw [if_pos hraw] at hinside ⊢
        rcases hinside with rfl | ⟨chars, rfl, hchars⟩
        · rw [rereadRaw, if_pos rfl, numbered]
        · have hne : chars ≠ [] := hshaped.1
          rw [rereadRaw, fromClosing, if_pos (splitWhere_caseless_of_absent hchars), rereadRaw,
            List.nil_append, if_neg hne]
          rfl
      · rw [if_neg hraw] at hinside ⊢
        exact hchildren hinside hshaped _
  | text chars rest hrest => simp [reread, numbered, Node.numbered, hrest h.2 hs.2.2]
  | comment body rest hrest => simp [reread, numbered, Node.numbered, hrest h.2 hs.2.2]
  | doctype body rest hrest => simp [reread, numbered, Node.numbered, hrest h.2 hs.2.2]

/-- Reading undoes writing, but for the lines, which are those of the markup. -/
theorem parse_render_verbatim {ns : List Node} (hs : Shaped ns) (hv : Verbatim ns) :
    parse (render false ns) = numbered 1 ns := by
  rw [parse_render hs (hv.legible true), hv.reread_eq hs]

/-- One name inside of itself, raw text with brackets, a void element, and attributes with an empty
value and with none. -/
theorem parse_render_verbatim_page :
    let nodes : List Node := [.doctype "DOCTYPE html".toList, .text ['\n'],
      .element ⟨['p'], [⟨['a'], none⟩, ⟨['b'], some []⟩], 0⟩
        [.element ⟨['p'], [⟨['a'], some ['\n', '>']⟩], 0⟩ [], .element ⟨['b', 'r'], [], 0⟩ [],
          .comment ['-'], .text ['x', '>']],
      .element ⟨['s', 'c', 'r', 'i', 'p', 't'], [], 0⟩ [.text "a</b".toList]]
    render false nodes =
      ("<!DOCTYPE html>\n<p a b=\"\"><p a=\"\n>\"></p><br><!----->x></p>" ++
        "<script>a</b</script>").toList ∧
    parse (render false nodes) = [.doctype "DOCTYPE html".toList, .text ['\n'],
      .element ⟨['p'], [⟨['a'], none⟩, ⟨['b'], some []⟩], 2⟩
        [.element ⟨['p'], [⟨['a'], some ['\n', '>']⟩], 2⟩ [], .element ⟨['b', 'r'], [], 3⟩ [],
          .comment ['-'], .text ['x', '>']],
      .element ⟨"script".toList, [], 3⟩ [.text "a</b".toList]] := by
  have hp : ∀ attrs, (∀ a ∈ attrs, IsAttributeName a.name) → (attrs.map Attribute.name).Nodup →
      (⟨['p'], attrs, 0⟩ : Tag).Shaped :=
    fun attrs ha hd => ⟨⟨by decide, by simp⟩, ha, hd⟩
  have hname : IsAttributeName ['a'] ∧ IsAttributeName ['b'] := by
    simp [IsAttributeName, isAttributeNameChar, isSpace]
  have hbr : (⟨['b', 'r'], [], 0⟩ : Tag).Shaped :=
    ⟨⟨by decide, by simp [isTagNameChar, isSpace]⟩, by simp, by simp⟩
  have hscript : (⟨['s', 'c', 'r', 'i', 'p', 't'], [], 0⟩ : Tag).Shaped :=
    ⟨⟨by decide, by simp [isTagNameChar, isSpace]⟩, by simp, by simp⟩
  have hlast : ∀ d ∈ ['p', 'r', 't'], ∀ c ∈ some d, isBlank c = false := by
    simp [isBlank, blanks]
  refine ⟨by rfl, (parse_render_verbatim ?_ ?_).trans ?_⟩
  · refine ⟨⟨by decide, by decide⟩, by decide, by simp [Node.Shaped], by decide, ?_, by decide, ?_,
      by decide, trivial⟩
    · refine ⟨hp _ (by simp [hname]) (by simp), by decide, ?_⟩
      refine ⟨⟨hp _ (by simp [hname]) (by simp), by decide, trivial⟩, by decide,
        ⟨hbr, by simp, trivial⟩, by decide, ?_, by decide, by simp [Node.Shaped], by decide,
        trivial⟩
      · unfold Node.Shaped
        decide
    · exact ⟨hscript, by decide, by simp [Node.Shaped], by decide, trivial⟩
  · refine ⟨trivial, by simp [Node.Verbatim], ⟨hlast _ (by simp), by simp, ?_⟩,
      ⟨hlast _ (by simp), by simp, ?_⟩, trivial⟩
    · refine ⟨⟨hlast _ (by simp), by simp, trivial⟩, ⟨hlast _ (by simp), by simp, trivial⟩, trivial,
        ?_, trivial⟩
      simp [Node.Verbatim]
    · exact .inr ⟨_, rfl, by decide⟩
  · rfl

end ComponentMarkup
