import ComponentMarkup.Proofs.Markup.DocumentOrder
import ComponentMarkup.Proofs.Markup.NormalForm

set_option autoImplicit false

namespace ComponentMarkup

def IsGap (s : List Char) : Prop := ∀ c ∈ s, isSpace c = true

theorem isGap_nil : IsGap [] := fun _ hc => absurd hc List.not_mem_nil

inductive SpelledValue : Option (List Char) → List Char → Prop
  | bare : SpelledValue none []
  | quoted {before behind value : List Char} {quote : Char} : IsGap before → IsGap behind →
      quote = '"' ∨ quote = '\'' → quote ∉ value →
      SpelledValue (some value) (before ++ '=' :: (behind ++ quote :: (value ++ [quote])))
  | unquoted {before behind value : List Char} : IsGap before → IsGap behind → value ≠ [] →
      (∀ c ∈ value, isSpace c = false ∧ c ≠ '>') → (∀ c ∈ value.head?, c ≠ '"' ∧ c ≠ '\'') →
      SpelledValue (some value) (before ++ '=' :: (behind ++ value))

/-- Attributes one behind the other, each with white space before it. -/
inductive SpelledAttributes : List Attribute → List Char → Prop
  | nil : SpelledAttributes [] []
  | cons {gap name written rest : List Char} {value : Option (List Char)}
      {attrs : List Attribute} : gap ≠ [] → IsGap gap → IsAttributeName name →
      SpelledValue value written → SpelledAttributes attrs rest →
      SpelledAttributes (⟨name, value⟩ :: attrs) (gap ++ (name ++ (written ++ rest)))

inductive SpelledEnd : Bool → List Char → Prop
  | close {gap : List Char} : IsGap gap → SpelledEnd false (gap ++ ['>'])
  | selfClose {gap : List Char} : gap ≠ [] → IsGap gap → SpelledEnd true (gap ++ ['/', '>'])

def firstOfEachName (attrs : List Attribute) : List Attribute :=
  attrs.eraseDupsBy fun a b => a.name == b.name

theorem foldl_addAttribute_eq (attrs before : List Attribute) :
    attrs.foldl addAttribute before =
      before ++ firstOfEachName (attrs.filter fun a => !before.any (·.name == a.name)) := by
  induction attrs generalizing before with
  | nil => simp [firstOfEachName]
  | cons a attrs ih =>
    rw [List.foldl_cons, ih, addAttribute]
    by_cases h : before.any (·.name == a.name) = true
    · simp [h]
    · rw [if_neg h, List.filter_cons_of_pos (by simpa using h), firstOfEachName, firstOfEachName,
        List.eraseDupsBy_cons, List.filter_filter, List.append_assoc, List.singleton_append]
      congr 4
      funext b
      by_cases hb : b.name = a.name
      · simp [hb]
      · simp [hb, Ne.symm hb]

def AtBreak (s : List Char) : Prop := ∃ c t, s = c :: t ∧ (isSpace c = true ∨ c = '>')

theorem atBreak_gap {gap : List Char} (hne : gap ≠ []) (hg : IsGap gap) (rest : List Char) :
    AtBreak (gap ++ rest) := by
  obtain ⟨c, cs, rfl⟩ := List.exists_cons_of_ne_nil hne
  exact ⟨c, cs ++ rest, rfl, .inl (hg c List.mem_cons_self)⟩

theorem AtBreak.stopsAt_name {s : List Char} (h : AtBreak s) : StopsAt isAttributeNameChar s := by
  obtain ⟨c, t, rfl, hc | rfl⟩ := h
  · exact stopsAt_cons.2 (by simp [isAttributeNameChar, hc])
  · exact stopsAt_cons.2 (by decide)

theorem AtBreak.stopsAt_value {s : List Char} (h : AtBreak s) :
    StopsAt (fun c => !(isSpace c || c == '>')) s := by
  obtain ⟨c, t, rfl, hc | rfl⟩ := h
  · exact stopsAt_cons.2 (by simp [hc])
  · exact stopsAt_cons.2 (by decide)

theorem AtBreak.stopsAt_tagName {s : List Char} (h : AtBreak s) : StopsAt isTagNameChar s := by
  obtain ⟨c, t, rfl, hc | rfl⟩ := h
  · exact stopsAt_cons.2 (by simp [isTagNameChar, hc])
  · exact stopsAt_cons.2 (by decide)

theorem IsGap.stopsAt_name {gap s : List Char} (hg : IsGap gap)
    (hs : StopsAt isAttributeNameChar s) : StopsAt isAttributeNameChar (gap ++ s) := by
  cases gap with
  | nil => exact hs
  | cons c cs => exact (atBreak_gap (List.cons_ne_nil c cs) hg s).stopsAt_name

theorem SpelledValue.stopsAt_name {value : Option (List Char)} {written rest : List Char}
    (h : SpelledValue value written) (hr : AtBreak rest) :
    StopsAt isAttributeNameChar (written ++ rest) := by
  have hequals : ∀ s, StopsAt isAttributeNameChar ('=' :: s) := fun s =>
    stopsAt_cons.2 (by decide)
  cases h with
  | bare => exact hr.stopsAt_name
  | quoted hb _ _ _ =>
    rw [List.append_assoc]
    exact hb.stopsAt_name (hequals _)
  | unquoted hb _ _ _ _ =>
    rw [List.append_assoc]
    exact hb.stopsAt_name (hequals _)

theorem SpelledEnd.atBreak {selfClosing : Bool} {ending : List Char}
    (h : SpelledEnd selfClosing ending) (rest : List Char) : AtBreak (ending ++ rest) := by
  cases h with
  | @close gap hg =>
    rw [List.append_assoc]
    cases gap with
    | nil => exact ⟨'>', rest, rfl, .inr rfl⟩
    | cons c cs => exact atBreak_gap (List.cons_ne_nil c cs) hg _
  | selfClose hne hg =>
    rw [List.append_assoc]
    exact atBreak_gap hne hg _

theorem SpelledAttributes.atBreak {attrs : List Attribute} {written rest : List Char}
    (h : SpelledAttributes attrs written) (hr : AtBreak rest) : AtBreak (written ++ rest) := by
  cases h with
  | nil => exact hr
  | cons hne hg _ _ _ =>
    rw [List.append_assoc]
    exact atBreak_gap hne hg _

theorem readAttributes_spelledEnd {selfClosing : Bool} {ending : List Char}
    (h : SpelledEnd selfClosing ending) (rest : List Char) (r : TagReader) :
    readAttributes r (ending ++ rest) = ⟨(r.finish none).attrs, selfClosing, ending, rest⟩ := by
  cases h with
  | @close gap hg =>
    have hnext := TagToken.next_of_gap gap hg (c := '>') (by decide) rest
    rw [List.append_assoc]
    exact readAttributes_close hnext rfl
  | @selfClose gap hne hg =>
    have hnext := TagToken.next_of_gap gap hg (c := '/') (by decide) ('>' :: rest)
    rw [List.append_assoc]
    exact readAttributes_selfClose hnext rfl

theorem readAttributes_spelledValue {value : Option (List Char)} {written : List Char}
    (h : SpelledValue value written) {rest : List Char} (hr : AtBreak rest) {r : TagReader}
    (hq : r.quoteDue = false) (name : List Char) :
    ∃ r', readAttributes (r.await name) (written ++ rest) =
        (readAttributes r' rest).after written ∧ r'.quoteDue = false ∧
      (r'.finish none).attrs = addAttribute (r.finish none).attrs ⟨name, value⟩ := by
  have hwait : (r.await name).quoteDue = false := (r.quoteDue_finish none).trans hq
  cases h with
  | bare => exact ⟨r.await name, rfl, hwait, rfl⟩
  | @quoted before behind value quote hb hb' hquote hv =>
    refine ⟨{ (r.await name).finish (some value) with quoteDue := false }, ?_, rfl, rfl⟩
    have hread := readAttributes_spelledQuoted hb hb' hquote hv rest (r := r.await name) rfl
    simpa using hread
  | @unquoted before behind value hb hb' hne hv hfirst =>
    refine ⟨(r.await name).finish (some value), ?_, hwait, rfl⟩
    have hchars : ∀ c ∈ value, (!(isSpace c || c == '>')) = true := fun c hc => by
      simpa using hv c hc
    have hread := readAttributes_spelledUnquoted hb hb' hne hchars hfirst hr.stopsAt_value
      (r := r.await name) rfl
    simpa using hread

theorem readAttributes_spelled {attrs : List Attribute} {written ending : List Char}
    {selfClosing : Bool} (h : SpelledAttributes attrs written)
    (he : SpelledEnd selfClosing ending) (rest : List Char) {r : TagReader}
    (hq : r.quoteDue = false) :
    readAttributes r (written ++ (ending ++ rest)) =
      ⟨attrs.foldl addAttribute (r.finish none).attrs, selfClosing, written ++ ending, rest⟩ := by
  induction h generalizing r with
  | nil => exact readAttributes_spelledEnd he rest r
  | @cons gap name valueText more value attrs hne hg hn hv hmore ih =>
    have hbreak := hmore.atBreak (he.atBreak rest)
    obtain ⟨r', hread, hq', hattrs⟩ := readAttributes_spelledValue hv hbreak hq name
    have hwrite : gap ++ (name ++ (valueText ++ more)) ++ (ending ++ rest) =
        gap ++ (name ++ (valueText ++ (more ++ (ending ++ rest)))) := by simp
    rw [hwrite, readAttributes_spelledName hg hn (hv.stopsAt_name hbreak), hread, ih hq', hattrs]
    simp [TagInside.after]

theorem readAttributes_spelledInside {attrs : List Attribute} {written ending : List Char}
    {selfClosing : Bool} (ha : SpelledAttributes attrs written)
    (he : SpelledEnd selfClosing ending) (rest : List Char) :
    readAttributes .start (written ++ (ending ++ rest)) =
      ⟨firstOfEachName attrs, selfClosing, written ++ ending, rest⟩ := by
  have hkept : attrs.foldl addAttribute (TagReader.start.finish none).attrs =
      firstOfEachName attrs := by
    rw [foldl_addAttribute_eq]
    simp [TagReader.start, TagReader.finish]
  rw [readAttributes_spelled ha he rest rfl, hkept]

theorem readPieces_spelled {name written ending : List Char} {attrs : List Attribute}
    {selfClosing : Bool} (hn : startsWithLetter name = true)
    (hc : ∀ c ∈ name, isTagNameChar c = true) (ha : SpelledAttributes attrs written)
    (he : SpelledEnd selfClosing ending) (rest : List Char) (line : Nat) :
    readPieces line ('<' :: (name ++ (written ++ (ending ++ rest)))) =
      .openTag ⟨lowerAscii name, firstOfEachName attrs, line⟩ selfClosing ::
        (textPieces (splitRawText (lowerAscii name) selfClosing rest).1 ++
          readPieces (line + lineFeeds ('<' :: (name ++ (written ++ ending))) +
              lineFeeds (splitRawText (lowerAscii name) selfClosing rest).1)
            (splitRawText (lowerAscii name) selfClosing rest).2) := by
  have hstop : StopsAt isTagNameChar (written ++ (ending ++ rest)) :=
    (ha.atBreak (he.atBreak rest)).stopsAt_tagName
  have hnext := Token.next_bracket (name ++ (written ++ (ending ++ rest)))
  rw [Token.readMarkup_open hn hc hstop] at hnext
  have hinside := readAttributes_spelledInside ha he rest
  have hfeeds : lineFeeds ('<' :: (name ++ (written ++ ending))) =
      lineFeeds ('<' :: name) + lineFeeds (written ++ ending) := by
    rw [← lineFeeds_append]
    rfl
  have hraw : splitRawText (lowerAscii name) selfClosing rest =
      ((splitRawText (lowerAscii name) selfClosing rest).1,
        (splitRawText (lowerAscii name) selfClosing rest).2) := rfl
  rw [hfeeds, ← Nat.add_assoc]
  exact TreeBuilder.readPieces_open hnext hinside hraw line

namespace TreeBuilder

def behind (n : Node) (b : TreeBuilder) : TreeBuilder := { b with roots := b.roots ++ [n] }

theorem modifySiblings_behind {f : List Node → List Node} {n : Node}
    (hf : ∀ ns, f (ns ++ [n]) = f ns ++ [n]) (b : TreeBuilder) :
    (b.behind n).modifySiblings f = (b.modifySiblings f).behind n := by
  obtain ⟨opened, roots⟩ := b
  cases opened with
  | nil => simp [behind, modifySiblings, hf]
  | cons e es => rfl

theorem push_behind (m n : Node) (b : TreeBuilder) :
    (b.behind n).push m = (b.push m).behind n :=
  modifySiblings_behind (fun _ => rfl) b

theorem closeInnermost_behind (n : Node) (b : TreeBuilder) :
    (b.behind n).closeInnermost = b.closeInnermost.behind n := by
  obtain ⟨opened, roots⟩ := b
  cases opened with
  | nil => rfl
  | cons e es => exact push_behind _ n ⟨es, roots⟩

theorem closeMany_behind (n : Node) (k : Nat) (b : TreeBuilder) :
    (b.behind n).closeMany k = (b.closeMany k).behind n := by
  induction k generalizing b with
  | zero => rfl
  | succ k ih => rw [closeMany, closeMany, closeInnermost_behind, ih]

theorem add_behind {n : Node} (hn : n.isText = false) (b : TreeBuilder) (p : Piece) :
    (b.behind n).add p = (b.add p).behind n := by
  cases p with
  | openTag tag selfClosing =>
    simp only [add]
    split
    · exact push_behind _ n b
    · rfl
  | closeTag name =>
    simp only [add, close]
    have hopened : (b.behind n).opened = b.opened := rfl
    rw [hopened]
    split
    · rfl
    · exact closeMany_behind n _ b
  | comment body => exact push_behind _ n b
  | doctype body => exact push_behind _ n b
  | text chars =>
    refine modifySiblings_behind (fun ns => ?_) b
    cases ns with
    | nil =>
      cases n with
      | text before => cases hn
      | element tag children => rfl
      | comment body => rfl
      | doctype body => rfl
    | cons m ns => cases m <;> rfl

theorem finish_foldl_behind {n : Node} (hn : n.isText = false) (ps : List Piece) (b : TreeBuilder) :
    (ps.foldl add (b.behind n)).finish = n :: (ps.foldl add b).finish := by
  induction ps generalizing b with
  | nil =>
    have hopened : (b.behind n).opened = b.opened := rfl
    simp only [List.foldl_nil, finish, hopened, closeMany_behind]
    simp [behind]
  | cons p ps ih => rw [List.foldl_cons, List.foldl_cons, add_behind hn, ih]

end TreeBuilder

theorem exists_element_of_items {nodes : List Node} {tag : Tag} {rest : List Item}
    (h : joinTexts (items nodes) = .tag tag :: rest) :
    ∃ children after, nodes = .element tag children :: after := by
  cases nodes with
  | nil => cases h
  | cons n ns =>
    cases n with
    | element t children =>
      cases h
      exact ⟨children, ns, rfl⟩
    | text chars =>
      have htext : pushText chars (joinTexts (items ns)) = .tag tag :: rest := h
      cases hj : joinTexts (items ns) with
      | nil =>
        rw [hj] at htext
        cases htext
      | cons item more =>
        rw [hj] at htext
        cases item <;> cases htext
    | comment body => cases h
    | doctype body => cases h

/-- However the attributes of a tag are written, each is read with its value, of those of one name the
first, and reading ends where the tag does. At any place of a text the tag is the next piece, and what
is behind it is read from there. At the beginning it begins an element; nothing behind a tag that
closes itself is read otherwise than if it stood alone. -/
theorem parse_spelled_tag {name written ending : List Char} {attrs : List Attribute}
    {selfClosing : Bool} (hn : startsWithLetter name = true)
    (hc : ∀ c ∈ name, isTagNameChar c = true) (ha : SpelledAttributes attrs written)
    (he : SpelledEnd selfClosing ending) (rest : List Char) :
    readAttributes .start (written ++ (ending ++ rest)) =
        ⟨firstOfEachName attrs, selfClosing, written ++ ending, rest⟩ ∧
      (∀ line, readPieces line ('<' :: (name ++ (written ++ (ending ++ rest)))) =
        .openTag ⟨lowerAscii name, firstOfEachName attrs, line⟩ selfClosing ::
          (textPieces (splitRawText (lowerAscii name) selfClosing rest).1 ++
            readPieces (line + lineFeeds ('<' :: (name ++ (written ++ ending))) +
                lineFeeds (splitRawText (lowerAscii name) selfClosing rest).1)
              (splitRawText (lowerAscii name) selfClosing rest).2)) ∧
      ∃ children after, parse ('<' :: (name ++ (written ++ (ending ++ rest)))) =
          .element ⟨lowerAscii name, firstOfEachName attrs, 1⟩ children :: after ∧
        ((selfClosing || isVoid (lowerAscii name)) = true → children = [] ∧
          after = (TreeBuilder.start.readFrom
            (1 + lineFeeds ('<' :: (name ++ (written ++ ending)))) rest).finish) := by
  have hpieces := readPieces_spelled hn hc ha he rest
  refine ⟨readAttributes_spelledInside ha he rest, hpieces, ?_⟩
  have hitems := items_treeOfPieces (readPieces 1 ('<' :: (name ++ (written ++ (ending ++ rest)))))
  rw [hpieces, List.filterMap_cons] at hitems
  obtain ⟨children, after, hparse⟩ := exists_element_of_items hitems
  rw [← hpieces] at hparse
  refine ⟨children, after, hparse, fun hclosed => ?_⟩
  -- the element is complete, so it stands before all that is read behind it
  have hraw : splitRawText (lowerAscii name) selfClosing rest = ([], rest) := by
    rw [splitRawText, hclosed, Bool.true_or, if_pos rfl]
  have hpush : TreeBuilder.start.add
      (.openTag ⟨lowerAscii name, firstOfEachName attrs, 1⟩ selfClosing) =
      TreeBuilder.start.behind (.element ⟨lowerAscii name, firstOfEachName attrs, 1⟩ []) := by
    rw [TreeBuilder.add, if_pos hclosed]
    rfl
  have hfinish := TreeBuilder.finish_foldl_behind
    (n := .element ⟨lowerAscii name, firstOfEachName attrs, 1⟩ []) rfl
    (readPieces (1 + lineFeeds ('<' :: (name ++ (written ++ ending)))) rest) .start
  rw [treeOfPieces, hpieces, hraw, List.foldl_cons, hpush] at hparse
  obtain ⟨he, rfl⟩ := List.cons.inj (hparse.symm.trans hfinish)
  cases he
  exact ⟨rfl, rfl⟩

/-- All ways of writing a value in one tag, one of them with what would end or quote another. -/
theorem parse_spelled_tag_card :
    SpelledAttributes [⟨['i', 'd'], some "a/b='c".toList⟩, ⟨['I', 'd'], some "x>\"y".toList⟩,
        ⟨['i', 'd'], some []⟩, ⟨['b'], none⟩]
        "\tid=a/b='c Id\n=\r'x>\"y' id=\"\" b".toList ∧
      SpelledEnd true " />".toList ∧
      ∃ after, parse ("<Card\tid=a/b='c Id\n=\r'x>\"y' id=\"\" b />".toList ++ "<p>".toList) =
        .element ⟨"card".toList, [⟨['i', 'd'], some "a/b='c".toList⟩,
          ⟨['I', 'd'], some "x>\"y".toList⟩, ⟨['b'], none⟩], 1⟩ [] :: after := by
  have hspace : ∀ c ∈ [' ', '\t', '\n', '\r'], isSpace c = true := by simp [isSpace]
  have hgap : ∀ c ∈ [' ', '\t', '\n', '\r'], IsGap [c] := by
    intro c hc
    simpa [IsGap] using hspace c hc
  have hname : ∀ name ∈ [['i', 'd'], ['I', 'd'], ['b']], IsAttributeName name := by
    simp [IsAttributeName, isAttributeNameChar, isSpace]
  have hbare : SpelledAttributes [⟨['b'], none⟩] " b".toList :=
    .cons (List.cons_ne_nil _ _) (hgap ' ' (by simp)) (hname ['b'] (by simp)) .bare .nil
  have hempty : SpelledAttributes [⟨['i', 'd'], some []⟩, ⟨['b'], none⟩] " id=\"\" b".toList :=
    .cons (List.cons_ne_nil _ _) (hgap ' ' (by simp)) (hname ['i', 'd'] (by simp))
      (.quoted isGap_nil isGap_nil (.inl rfl) List.not_mem_nil) hbare
  have hsingle : SpelledAttributes
      [⟨['I', 'd'], some "x>\"y".toList⟩, ⟨['i', 'd'], some []⟩, ⟨['b'], none⟩]
      " Id\n=\r'x>\"y' id=\"\" b".toList :=
    .cons (List.cons_ne_nil _ _) (hgap ' ' (by simp)) (hname ['I', 'd'] (by simp))
      (.quoted (hgap '\n' (by simp)) (hgap '\r' (by simp)) (.inr rfl) (by decide)) hempty
  have hchars : ∀ c ∈ ['a', '/', 'b', '=', '\'', 'c'], isSpace c = false ∧ c ≠ '>' := by
    simp [isSpace]
  have hfirst : ∀ c ∈ ['a', '/', 'b', '=', '\'', 'c'].head?, c ≠ '"' ∧ c ≠ '\'' := by simp
  have hall : SpelledAttributes [⟨['i', 'd'], some "a/b='c".toList⟩,
      ⟨['I', 'd'], some "x>\"y".toList⟩, ⟨['i', 'd'], some []⟩, ⟨['b'], none⟩]
      "\tid=a/b='c Id\n=\r'x>\"y' id=\"\" b".toList :=
    .cons (List.cons_ne_nil _ _) (hgap '\t' (by simp)) (hname ['i', 'd'] (by simp))
      (.unquoted isGap_nil isGap_nil (List.cons_ne_nil _ _) hchars hfirst) hsingle
  have hend : SpelledEnd true " />".toList :=
    .selfClose (List.cons_ne_nil _ _) (hgap ' ' (by simp))
  have hletters : ∀ c ∈ "Card".toList, isTagNameChar c = true := by
    simp [isTagNameChar, isSpace]
  obtain ⟨-, -, children, after, hparse, hclosed⟩ :=
    parse_spelled_tag (by decide) hletters hall hend "<p>".toList
  obtain ⟨rfl, -⟩ := hclosed rfl
  exact ⟨hall, hend, after, hparse⟩

theorem trimRight_eq_self_iff {s : List Char} :
    trimRight s = s ↔ s.getLast?.any isBlank = false := by
  rw [Option.any_eq_false]
  refine ⟨fun h c hc => Bool.eq_false_iff.2 fun hblank => ?_, trimRight_eq_self⟩
  have hne : s ≠ [] := by
    rintro rfl
    cases hc
  have hlast : s.getLast hne = c :=
    Option.some.inj ((List.getLast?_eq_some_getLast hne).symm.trans hc)
  exact List.rdropWhile_eq_self_iff.1 h hne (hlast ▸ hblank)

/-- Letters keep their places, so the case of a name cannot make up for what has been cut off. -/
theorem lowerAscii_trimRight_eq_iff {s : List Char} :
    lowerAscii (trimRight s) = lowerAscii s ↔ s.getLast?.any isBlank = false := by
  rw [← trimRight_eq_self_iff]
  refine ⟨fun h => ?_, congrArg lowerAscii⟩
  have hlen := congrArg List.length h
  rw [length_lowerAscii, length_lowerAscii] at hlen
  exact (List.rdropWhile_prefix isBlank s).eq_of_length hlen

theorem readPieces_noBracket {text : List Char} (ht : text ≠ []) (hb : '<' ∉ text) (line : Nat) :
    readPieces line text = [.text text] := by
  obtain ⟨c, cs, rfl⟩ := List.exists_cons_of_ne_nil ht
  obtain ⟨hc, hcs⟩ := not_or.1 (mt List.mem_cons.2 hb)
  have hrun := ne_of_notMem hcs
  have hnext : Token.next (c :: cs) = some (⟨[], .text, c :: cs⟩, []) := by
    rw [Token.next, if_neg (Ne.symm hc), List.takeWhile_eq_self_iff.2 hrun,
      List.dropWhile_eq_nil_iff.2 hrun]
  rw [TreeBuilder.readPieces_next hnext, TreeBuilder.readPieces_nil]

/-- An element is closed by a close tag of the name that its open tag has, unless the name ends in a
blank that is no white space of the markup: a close tag loses it, so it closes nothing. -/
theorem parse_closed_name {name text : List Char} (hn : startsWithLetter name = true)
    (hc : ∀ c ∈ name, isTagNameChar c = true) (hv : isVoid (lowerAscii name) = false)
    (hr : isRawText (lowerAscii name) = false) (ht : text ≠ []) (hb : '<' ∉ text) :
    parse ('<' :: (name ++ '>' :: '<' :: '/' :: (name ++ '>' :: text))) =
      if name.getLast?.any isBlank then [.element ⟨lowerAscii name, [], 1⟩ [.text text]]
      else [.element ⟨lowerAscii name, [], 1⟩ [], .text text] := by
  have hopen := readPieces_spelled hn hc .nil (.close isGap_nil)
    ('<' :: '/' :: (name ++ '>' :: text)) 1
  rw [splitRawText_of_not_raw (.inr hr)] at hopen
  have hnext := Token.next_bracket ('/' :: (name ++ '>' :: text))
  rw [Token.readMarkup_close hn hc] at hnext
  have hclose := TreeBuilder.readPieces_next hnext
  simp only [readPieces_noBracket ht hb] at hclose
  have hpieces : pieces ('<' :: (name ++ '>' :: '<' :: '/' :: (name ++ '>' :: text))) =
      [.openTag ⟨lowerAscii name, [], 1⟩ false, .closeTag (lowerAscii (trimRight name)),
        .text text] := by
    refine hopen.trans ?_
    rw [hclose]
    rfl
  have hadd : TreeBuilder.start.add (.openTag ⟨lowerAscii name, [], 1⟩ false) =
      TreeBuilder.start.enter ⟨lowerAscii name, [], 1⟩ := by
    simp [TreeBuilder.add, TreeBuilder.enter, hv]
  rw [parse, hpieces, treeOfPieces, List.foldl_cons, hadd]
  cases hlast : name.getLast?.any isBlank with
  | false =>
    -- the element is complete before the text
    have hname := lowerAscii_trimRight_eq_iff.2 hlast
    have hcloses := TreeBuilder.close_enter_pushAll ⟨lowerAscii name, [], 1⟩ [] .start
    rw [TreeBuilder.pushAll_nil] at hcloses
    rw [hname, List.foldl_cons, TreeBuilder.add, hcloses]
    rfl
  | true =>
    have hname : lowerAscii name ≠ lowerAscii (trimRight name) := by
      intro h
      rw [lowerAscii_trimRight_eq_iff.1 h.symm] at hlast
      cases hlast
    have hcloses : (TreeBuilder.start.enter ⟨lowerAscii name, [], 1⟩).close
        (lowerAscii (trimRight name)) = TreeBuilder.start.enter ⟨lowerAscii name, [], 1⟩ := by
      simp [TreeBuilder.close, TreeBuilder.enter, TreeBuilder.start, hname]
    rw [List.foldl_cons, TreeBuilder.add, hcloses]
    rfl

/-- Other than ASCII characters in a name do not keep it from being closed. -/
theorem parse_closed_name_upper :
    startsWithLetter ['A', '\u00a0', '\u00c9'] = true ∧
      (∀ c ∈ ['A', '\u00a0', '\u00c9'], isTagNameChar c = true) ∧
      parse ('<' :: (['A', '\u00a0', '\u00c9'] ++
          '>' :: '<' :: '/' :: (['A', '\u00a0', '\u00c9'] ++ '>' :: ['y']))) =
        [.element ⟨['a', '\u00a0', '\u00c9'], [], 1⟩ [], .text ['y']] := by
  have hname : ∀ c ∈ ['A', '\u00a0', '\u00c9'], isTagNameChar c = true := by
    simp [isTagNameChar, isSpace]
  exact ⟨rfl, hname, (parse_closed_name rfl hname (by decide) (by decide) (by simp)
    (by simp)).trans (by rfl)⟩

/-- A no-break space may end the name of an open tag, but not that of a close tag. -/
theorem parse_closed_name_blank :
    startsWithLetter ['a', '\u00a0'] = true ∧ (∀ c ∈ ['a', '\u00a0'], isTagNameChar c = true) ∧
      isVoid (lowerAscii ['a', '\u00a0']) = false ∧ isRawText (lowerAscii ['a', '\u00a0']) = false ∧
      parse "<a\u00a0></a\u00a0>y".toList ≠
        [.element ⟨lowerAscii ['a', '\u00a0'], [], 1⟩ [], .text ['y']] := by
  refine ⟨rfl, by simp [isTagNameChar, isSpace], by decide, by decide, ?_⟩
  rw [parse_blank_name.2]
  intro h
  cases h

end ComponentMarkup
