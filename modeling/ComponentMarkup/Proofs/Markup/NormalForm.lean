import ComponentMarkup.Proofs.Markup.ParsedShape
import ComponentMarkup.Proofs.Markup.Rereading

set_option autoImplicit false

namespace ComponentMarkup

theorem Tag.renderOpen_written (line : Nat) (tag : Tag) :
    (tag.written line).renderOpen = tag.renderOpen := by
  have hattr : ∀ a : Attribute, a.written.render = a.render := by
    rintro ⟨name, value⟩
    cases value with
    | none => rfl
    | some value =>
      have h := escapeQuotes_eq_self (quote_notMem_escapeQuotes value)
      simp [Attribute.written, Attribute.render, h]
  simp [Tag.renderOpen, Tag.written, List.flatMap_map, hattr]

/-- What has been read back is written as before. -/
theorem render_reread (ns : List Node) :
    (∀ line, render false (reread line ns) = render false ns) ∧
      ∀ name line before,
        render false (rereadRaw name line before ns) = before ++ render false ns := by
  -- the parts that are read differently, quotes and raw text, are written as they were read
  induction ns using nodes_induction with
  | nil =>
    refine ⟨fun line => by rw [reread], fun name line before => ?_⟩
    rw [rereadRaw]
    by_cases h : before = []
    · simp [h]
    · simp [h]
  | element tag children rest hchildren hrest =>
    refine ⟨fun line => ?_, fun name line before => ?_⟩
    · rw [reread, render_cons, render_cons, hrest.1]
      congr 1
      by_cases hv : isVoid tag.name = true
      · have hw : isVoid (tag.written line).name = true := hv
        rw [if_pos hv, markup_void hv, markup_void hw, Tag.renderOpen_written]
      · have hv' : isVoid tag.name = false := by simpa using hv
        have hw : isVoid (tag.written line).name = false := hv'
        rw [if_neg hv, markup_element hv', markup_element hw, Tag.renderOpen_written]
        by_cases hraw : isRawText tag.name = true
        · rw [if_pos hraw, hchildren.2]
          rfl
        · rw [if_neg hraw, hchildren.1]
          rfl
    · simp [rereadRaw, hrest.2]
  | text chars rest hrest =>
    refine ⟨fun line => by simp [reread, hrest.1], fun name line before => ?_⟩
    rw [rereadRaw]
    by_cases h : fromClosing name chars = []
    · simp [h, hrest.2]
    · simp [h, hrest.1]
  | comment body rest hrest =>
    exact ⟨fun line => by simp [reread, hrest.1],
      fun name line before => by simp [rereadRaw, hrest.2]⟩
  | doctype body rest hrest =>
    exact ⟨fun line => by simp [reread, hrest.1],
      fun name line before => by simp [rereadRaw, hrest.2]⟩

/-- Writing, reading and writing again changes nothing more. -/
theorem render_parse_render {source : List Char} (h : Legible true (parse source)) :
    render false (parse (render false (parse source))) = render false (parse source) := by
  rw [parse_render (shaped_parse source) h]
  exact (render_reread _).1 1

/-- An attribute quoted the other way, brackets that open nothing, a close tag without its end, one
without an open tag, and a comment without its end. -/
theorem render_parse_render_malformed :
    render false (parse "<p x='\"'>< a </p</p></q><!--x".toList) =
        "<p x=\"&quot;\">< a </p</p><!--x-->".toList ∧
      render false (parse (render false (parse "<p x='\"'>< a </p</p></q><!--x".toList))) =
        render false (parse "<p x='\"'>< a </p</p></q><!--x".toList) := by
  have hparse : parse "<p x='\"'>< a </p</p></q><!--x".toList =
      [.element ⟨['p'], [⟨['x'], some ['"']⟩], 1⟩ [.text "< a </p".toList], .comment ['x']] := by
    have h₁ : Token.next "<p x='\"'>< a </p</p></q><!--x".toList =
        some (⟨[], .tagOpen ['p'], "<p".toList⟩, " x='\"'>< a </p</p></q><!--x".toList) := by cbv
    have ha : readAttributes .start " x='\"'>< a </p</p></q><!--x".toList =
        ⟨[⟨['x'], some ['"']⟩], false, " x='\"'>".toList, "< a </p</p></q><!--x".toList⟩ := by cbv
    have hr : splitRawText ['p'] false "< a </p</p></q><!--x".toList =
        ([], "< a </p</p></q><!--x".toList) := rfl
    have h₂ : Token.next "< a </p</p></q><!--x".toList =
        some (⟨[], .text, ['<']⟩, " a </p</p></q><!--x".toList) := by cbv
    have h₃ : Token.next " a </p</p></q><!--x".toList =
        some (⟨[], .text, " a ".toList⟩, "</p</p></q><!--x".toList) := by cbv
    have h₄ : Token.next "</p</p></q><!--x".toList =
        some (⟨[], .error, "</p".toList⟩, "</p></q><!--x".toList) := by cbv
    have h₅ : Token.next "</p></q><!--x".toList =
        some (⟨[], .tagClose ['p'], "</p>".toList⟩, "</q><!--x".toList) := by cbv
    have h₆ : Token.next "</q><!--x".toList =
        some (⟨[], .tagClose ['q'], "</q>".toList⟩, "<!--x".toList) := by cbv
    have h₇ : Token.next "<!--x".toList = some (⟨[], .comment ['x'], "<!--x".toList⟩, []) := by cbv
    rw [parse, pieces, TreeBuilder.readPieces_open h₁ ha hr, TreeBuilder.readPieces_next h₂,
      TreeBuilder.readPieces_next h₃, TreeBuilder.readPieces_next h₄,
      TreeBuilder.readPieces_next h₅, TreeBuilder.readPieces_next h₆,
      TreeBuilder.readPieces_next h₇, TreeBuilder.readPieces_nil]
    rfl
  have hlegible : Legible true (parse "<p x='\"'>< a </p</p></q><!--x".toList) := by
    have hplain : isPlain false "< a </p".toList = true := by decide
    have hblank : isBlank 'p' = false := by decide
    have hname : isRawText ['p'] = false := by decide
    rw [hparse]
    simpa [Legible, hname, hblank] using hplain
  exact ⟨by rw [hparse]; rfl, render_parse_render hlegible⟩

theorem parse_joined_text :
    parse "<</x>p>".toList = [.text "<p>".toList] ∧
    parse "<p>".toList = [.element ⟨['p'], [], 1⟩ []] := by
  constructor
  · have h₁ : Token.next "<</x>p>".toList = some (⟨[], .text, ['<']⟩, "</x>p>".toList) := by cbv
    have h₂ : Token.next "</x>p>".toList =
        some (⟨[], .tagClose ['x'], "</x>".toList⟩, "p>".toList) := by cbv
    have h₃ : Token.next "p>".toList = some (⟨[], .text, "p>".toList⟩, []) := by cbv
    rw [parse, pieces, TreeBuilder.readPieces_next h₁, TreeBuilder.readPieces_next h₂,
      TreeBuilder.readPieces_next h₃, TreeBuilder.readPieces_nil]
    rfl
  · have h₁ : Token.next "<p>".toList = some (⟨[], .tagOpen ['p'], "<p".toList⟩, ['>']) := by cbv
    have ha : readAttributes .start ['>'] = ⟨[], false, ['>'], []⟩ := by cbv
    rw [parse, pieces, TreeBuilder.readPieces_open h₁ ha rfl, TreeBuilder.readPieces_nil]
    rfl

theorem parse_broken_doctype :
    parse "<p><!doctype x".toList = [.element ⟨['p'], [], 1⟩ [.text "<!doctype x".toList]] ∧
    parse "<p><!doctype x</p>".toList =
      [.element ⟨['p'], [], 1⟩ [.doctype "doctype x</p".toList]] := by
  constructor
  · have h₁ : Token.next "<p><!doctype x".toList =
        some (⟨[], .tagOpen ['p'], "<p".toList⟩, "><!doctype x".toList) := by cbv
    have ha : readAttributes .start "><!doctype x".toList =
        ⟨[], false, ['>'], "<!doctype x".toList⟩ := by cbv
    have hr : splitRawText ['p'] false "<!doctype x".toList = ([], "<!doctype x".toList) := rfl
    have h₂ : Token.next "<!doctype x".toList =
        some (⟨[], .error, "<!doctype x".toList⟩, []) := by cbv
    rw [parse, pieces, TreeBuilder.readPieces_open h₁ ha hr, TreeBuilder.readPieces_next h₂,
      TreeBuilder.readPieces_nil]
    rfl
  · have h₁ : Token.next "<p><!doctype x</p>".toList =
        some (⟨[], .tagOpen ['p'], "<p".toList⟩, "><!doctype x</p>".toList) := by cbv
    have ha : readAttributes .start "><!doctype x</p>".toList =
        ⟨[], false, ['>'], "<!doctype x</p>".toList⟩ := by cbv
    have hr : splitRawText ['p'] false "<!doctype x</p>".toList =
        ([], "<!doctype x</p>".toList) := rfl
    have h₂ : Token.next "<!doctype x</p>".toList =
        some (⟨[], .doctype "doctype x</p".toList, "<!doctype x</p>".toList⟩, []) := by cbv
    rw [parse, pieces, TreeBuilder.readPieces_open h₁ ha hr, TreeBuilder.readPieces_next h₂,
      TreeBuilder.readPieces_nil]
    rfl

/-- A name that ends in a blank is not the one that its close tag gives. -/
theorem parse_blank_name :
    parse "<a\u00a0/>y".toList = [.element ⟨['a', '\u00a0'], [], 1⟩ [], .text ['y']] ∧
    parse "<a\u00a0></a\u00a0>y".toList = [.element ⟨['a', '\u00a0'], [], 1⟩ [.text ['y']]] := by
  have hy : Token.next ['y'] = some (⟨[], .text, ['y']⟩, []) := by cbv
  constructor
  · have h₁ : Token.next "<a\u00a0/>y".toList =
        some (⟨[], .tagOpen ['a', '\u00a0'], "<a\u00a0".toList⟩, "/>y".toList) := by cbv
    have ha : readAttributes .start "/>y".toList = ⟨[], true, "/>".toList, ['y']⟩ := by cbv
    have hr : splitRawText ['a', '\u00a0'] true ['y'] = ([], ['y']) := rfl
    rw [parse, pieces, TreeBuilder.readPieces_open h₁ ha hr, TreeBuilder.readPieces_next hy,
      TreeBuilder.readPieces_nil]
    rfl
  · have h₁ : Token.next "<a\u00a0></a\u00a0>y".toList =
        some (⟨[], .tagOpen ['a', '\u00a0'], "<a\u00a0".toList⟩, "></a\u00a0>y".toList) := by cbv
    have ha : readAttributes .start "></a\u00a0>y".toList =
        ⟨[], false, ['>'], "</a\u00a0>y".toList⟩ := by cbv
    have hr : splitRawText ['a', '\u00a0'] false "</a\u00a0>y".toList =
        ([], "</a\u00a0>y".toList) := rfl
    have h₂ : Token.next "</a\u00a0>y".toList =
        some (⟨[], .tagClose ['a'], "</a\u00a0>".toList⟩, ['y']) := by cbv
    rw [parse, pieces, TreeBuilder.readPieces_open h₁ ha hr, TreeBuilder.readPieces_next h₂,
      TreeBuilder.readPieces_next hy, TreeBuilder.readPieces_nil]
    rfl

theorem parse_raw_child :
    parse "<title></titlex><!--</title-->".toList =
      [.element ⟨"title".toList, [], 1⟩ [.comment "</title".toList]] ∧
    parse "<title><!--</title--></title>".toList =
      [.element ⟨"title".toList, [], 1⟩ [.text "<!--".toList]] := by
  constructor
  · have h₁ : Token.next "<title></titlex><!--</title-->".toList =
        some (⟨[], .tagOpen "title".toList, "<title".toList⟩,
          "></titlex><!--</title-->".toList) := by cbv
    have ha : readAttributes .start "></titlex><!--</title-->".toList =
        ⟨[], false, ['>'], "</titlex><!--</title-->".toList⟩ := by cbv
    have hr : splitRawText "title".toList false "</titlex><!--</title-->".toList =
        ([], "</titlex><!--</title-->".toList) := rfl
    have h₂ : Token.next "</titlex><!--</title-->".toList =
        some (⟨[], .tagClose "titlex".toList, "</titlex>".toList⟩, "<!--</title-->".toList) := by
      cbv
    have h₃ : Token.next "<!--</title-->".toList =
        some (⟨[], .comment "</title".toList, "<!--</title-->".toList⟩, []) := by cbv
    rw [parse, pieces, TreeBuilder.readPieces_open h₁ ha hr, TreeBuilder.readPieces_next h₂,
      TreeBuilder.readPieces_next h₃, TreeBuilder.readPieces_nil]
    rfl
  · have h₁ : Token.next "<title><!--</title--></title>".toList =
        some (⟨[], .tagOpen "title".toList, "<title".toList⟩,
          "><!--</title--></title>".toList) := by cbv
    have ha : readAttributes .start "><!--</title--></title>".toList =
        ⟨[], false, ['>'], "<!--</title--></title>".toList⟩ := by cbv
    have hr : splitRawText "title".toList false "<!--</title--></title>".toList =
        ("<!--".toList, "</title--></title>".toList) := rfl
    have h₂ : Token.next "</title--></title>".toList =
        some (⟨[], .tagClose "title--".toList, "</title-->".toList⟩, "</title>".toList) := by cbv
    have h₃ : Token.next "</title>".toList =
        some (⟨[], .tagClose "title".toList, "</title>".toList⟩, []) := by cbv
    rw [parse, pieces, TreeBuilder.readPieces_open h₁ ha hr, TreeBuilder.readPieces_next h₂,
      TreeBuilder.readPieces_next h₃, TreeBuilder.readPieces_nil]
    rfl

/-- What is not legible may be read as something else. -/
theorem render_parse_not_normal :
    render false (parse (render false (parse "<</x>p>".toList))) ≠
        render false (parse "<</x>p>".toList) ∧
      render false (parse (render false (parse "<p><!doctype x".toList))) ≠
        render false (parse "<p><!doctype x".toList) ∧
      render false (parse (render false (parse "<a\u00a0/>y".toList))) ≠
        render false (parse "<a\u00a0/>y".toList) ∧
      render false (parse (render false (parse "<title></titlex><!--</title-->".toList))) ≠
        render false (parse "<title></titlex><!--</title-->".toList) := by
  have hne : ∀ {source written : List Char} {ns ms : List Node},
      parse source = ns ∧ parse written = ms → render false ns = written →
        render false ms ≠ written →
        render false (parse (render false (parse source))) ≠ render false (parse source) := by
    rintro source written ns ms ⟨hns, hms⟩ hw hneq
    rw [hns, hw, hms]
    exact hneq
  exact ⟨hne parse_joined_text rfl (by decide), hne parse_broken_doctype rfl (by decide),
    hne parse_blank_name rfl (by decide), hne parse_raw_child rfl (by decide)⟩

end ComponentMarkup
