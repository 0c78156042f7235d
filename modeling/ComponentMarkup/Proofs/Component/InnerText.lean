import ComponentMarkup.Proofs.Component.Acceptance
import ComponentMarkup.Proofs.Markup.RawText
import ComponentMarkup.Proofs.Markup.ReadInside
import ComponentMarkup.Proofs.Markup.RoundTrip

set_option autoImplicit false

namespace ComponentMarkup

def inTags (name : String) (text : List Char) : List Char :=
  '<' :: (name.toList ++ '>' :: (text ++ '<' :: '/' :: (name.toList ++ ['>'])))

def plainTag (name : String) : Tag := ⟨name.toList, [], 1⟩

theorem inTags_eq (name : String) (text : List Char) :
    inTags name text = (plainTag name).renderOpen ++ (text ++ (plainTag name).renderClose) := by
  simp [inTags, plainTag, Tag.renderOpen, Tag.renderClose]

theorem shaped_plainTag {name : String} (hne : name.toList ≠ [])
    (hn : ∀ c ∈ name.toList, c.isLower = true) : (plainTag name).Shaped := by
  refine ⟨?_, List.forall_mem_nil _, List.nodup_nil⟩
  change IsElementName name.toList
  cases hname : name.toList with
  | nil => exact absurd hname hne
  | cons c cs =>
    rw [hname] at hn
    obtain ⟨hc, hcs⟩ := List.forall_mem_cons.1 hn
    exact ⟨hc, fun d hd => ⟨isTagNameChar_of_isLower (hcs d hd),
      by simpa using Char.not_isUpper_of_isLower (hcs d hd)⟩⟩

theorem render_textNodes (text : List Char) : render false (textNodes text) = text := by
  unfold textNodes
  split
  · rename_i h
    rw [List.isEmpty_iff.1 h, render_nil]
  · rw [render_cons, markup_text, render_nil, List.append_nil]

theorem parse_inTags_of_raw {name : String} (hraw : isRawText name.toList = true)
    (hn : ∀ c ∈ name.toList, c.isLower = true) {text : List Char}
    (h : ¬closing name.toList <:+: lowerAscii text) :
    parse (inTags name text) = [.element (plainTag name) (textNodes text)] := by
  have hv := isVoid_of_isRawText hraw
  have htag := shaped_plainTag (isAlpha_of_isRawText hraw).1 hn
  have hinside : Shaped (textNodes text) ∧
      (textNodes text = [] ∨ ∃ chars, textNodes text = [.text chars] ∧
        ¬closing name.toList <:+: lowerAscii chars) := by
    unfold textNodes
    split
    · exact ⟨trivial, .inl rfl⟩
    · rename_i hne
      exact ⟨⟨by simpa [Node.Shaped] using hne, by simp [startsWithText], trivial⟩,
        .inr ⟨text, rfl, h⟩⟩
  have hshaped : Shaped [.element (plainTag name) (textNodes text)] :=
    ⟨⟨htag, fun hvoid => absurd (hv.symm.trans hvoid) Bool.false_ne_true, hinside.1⟩,
      by simp [Node.isText], trivial⟩
  have hlast : ∀ c ∈ name.toList.getLast?, isBlank c = false := fun c hc =>
    isBlank_of_isAlpha (by simp [Char.isAlpha, hn c (List.mem_of_getLast? hc)])
  have hverbatim : Verbatim [.element (plainTag name) (textNodes text)] := by
    refine ⟨⟨hlast, List.forall_mem_nil _, ?_⟩, trivial⟩
    rw [if_pos (show isRawText (plainTag name).name = true from hraw)]
    exact hinside.2
  have hwrite : render false [.element (plainTag name) (textNodes text)] = inTags name text := by
    rw [render_cons, markup_element hv, render_nil, List.append_nil, render_textNodes, inTags_eq]
  have hnumbered : ∀ line, numbered line (textNodes text) = textNodes text := by
    intro line
    unfold textNodes
    split
    · rfl
    · rfl
  rw [← hwrite, parse_render hshaped (hverbatim.legible true), hverbatim.reread_eq hshaped]
  simp only [numbered, Node.numbered, hnumbered]
  rfl

/-- The stylesheet and the script of a component are the texts between their tags, character for
character. What stands in the tags `scripts` is read as markup: it is the script where the markup comes
back as it was read and does not break off in a doctype, and otherwise not. -/
theorem ofSource_inner_text (path : Path) (imports : Imports) (text : List Char) :
    (¬"</style".toList <:+: lowerAscii text →
      Definition.ofSource (Source.ofText path (inTags "style" text)) imports = .ok {
        path, imports, template := none, parameters := [], script := [], stylesheet := text }) ∧
    (¬"</script".toList <:+: lowerAscii text →
      Definition.ofSource (Source.ofText path (inTags "script" text)) imports = .ok {
        path, imports, template := none, parameters := [], script := text, stylesheet := [] }) ∧
    (¬"</scripts".toList <:+: lowerAscii text →
      ∃ script, Definition.ofSource (Source.ofText path (inTags "scripts" text)) imports = .ok {
          path, imports, template := none, parameters := [], script, stylesheet := [] } ∧
        (script = text ↔ render false (parse text) = text ∧ ¬BreaksOffInDoctype text)) := by
  refine ⟨fun h => ?_, fun h => ?_, fun h => ?_⟩
  · have hparse := @parse_inTags_of_raw "style" (by decide) (by simp [Char.isLower]) text h
    rw [Source.ofText, hparse]
    refine Eq.trans ?_ (congrArg (fun s => Except.ok (Definition.mk path imports none [] [] s))
      (render_textNodes text))
    rfl
  · have hparse := @parse_inTags_of_raw "script" (by decide) (by simp [Char.isLower]) text h
    rw [Source.ofText, hparse]
    refine Eq.trans ?_ (congrArg (fun s => Except.ok (Definition.mk path imports none [] s []))
      (render_textNodes text))
    rfl
  · have htag : (plainTag "scripts").Shaped := shaped_plainTag (by decide) (by simp [Char.isLower])
    obtain ⟨children, hparse, hiff⟩ :=
      reproduced_inside_iff htag rfl rfl (by decide) (by decide) h
    rw [Source.ofText, inTags_eq, hparse]
    exact ⟨render false children, rfl, hiff⟩

/-- Brackets, a comment that does not end, and what begins as a close tag does. -/
theorem ofSource_inner_text_brackets :
    let path : Path := ⟨['/', 'c']⟩
    Definition.ofSource (Source.ofText path (inTags "style" "a>b<!--</b".toList)) [] = .ok {
      path, imports := [], template := none, parameters := [], script := []
      stylesheet := "a>b<!--</b".toList } ∧
    Definition.ofSource (Source.ofText path (inTags "script" "a<b '</scrip".toList)) [] = .ok {
      path, imports := [], template := none, parameters := []
      script := "a<b '</scrip".toList, stylesheet := [] } ∧
    Definition.ofSource (Source.ofText path (inTags "scripts" "a < b".toList)) [] = .ok {
      path, imports := [], template := none, parameters := [], script := "a < b".toList
      stylesheet := [] } := by
  intro path
  refine ⟨(ofSource_inner_text path [] _).1 (by decide),
    (ofSource_inner_text path [] _).2.1 (by decide), ?_⟩
  obtain ⟨script, hof, hiff⟩ := (ofSource_inner_text path [] "a < b".toList).2.2 (by decide)
  have hback : render false (parse "a < b".toList) = "a < b".toList := by cbv
  have hend : ¬BreaksOffInDoctype "a < b".toList := by
    rintro ⟨before, body, heq, -⟩
    have hmem : '!' ∈ "a < b".toList := heq ▸ by simp
    simp at hmem
  rw [hof, hiff.2 ⟨hback, hend⟩]

/-- A close tag without an open one is dropped from the text between the tags `scripts`. -/
theorem ofSource_scripts_dropped :
    ¬"</scripts".toList <:+: lowerAscii "</b>".toList ∧
    Definition.ofSource (Source.ofText ⟨['/', 'c']⟩ (inTags "scripts" "</b>".toList)) [] = .ok {
      path := ⟨['/', 'c']⟩, imports := [], template := none, parameters := [], script := []
      stylesheet := [] } := by
  refine ⟨by decide, ?_⟩
  have h₁ : Token.next (inTags "scripts" "</b>".toList) =
      some (⟨[], .tagOpen "scripts".toList, "<scripts".toList⟩, "></b></scripts>".toList) := by cbv
  have ha : readAttributes .start "></b></scripts>".toList =
      ⟨[], false, ['>'], "</b></scripts>".toList⟩ := by cbv
  have h₂ : Token.next "</b></scripts>".toList =
      some (⟨[], .tagClose ['b'], "</b>".toList⟩, "</scripts>".toList) := by cbv
  have h₃ : Token.next "</scripts>".toList =
      some (⟨[], .tagClose "scripts".toList, "</scripts>".toList⟩, []) := by cbv
  have hparse : parse (inTags "scripts" "</b>".toList) = [.element (plainTag "scripts") []] := by
    rw [parse, pieces, TreeBuilder.readPieces_open h₁ ha rfl, TreeBuilder.readPieces_next h₂,
      TreeBuilder.readPieces_next h₃, TreeBuilder.readPieces_nil]
    rfl
  rw [Source.ofText, hparse]
  rfl

end ComponentMarkup
