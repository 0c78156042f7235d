import ComponentMarkup.Proofs.Markup.PieceReading

/-!
Reading markup that was written from a tree. Main statement: `parse_render`, where nothing that was
written as text can be taken for markup, the tree comes back, but for its lines, the quotes in
attribute values and the insides of raw-text elements.
-/

set_option autoImplicit false

namespace ComponentMarkup

def Node.markup (n : Node) : List Char := n.render ⟨false, false, none⟩

theorem renderNodes_congr (ns : List Node) {c d : RenderContext} (hc : c.minify = false)
    (hd : d.minify = false) : renderNodes c ns = renderNodes d ns := by
  induction ns using nodes_induction generalizing c d with
  | nil => rfl
  | element tag children rest hchildren hrest =>
    have hin : renderNodes (c.inside tag.name) children =
        renderNodes (d.inside tag.name) children :=
      hchildren hc hd
    simp [renderNodes, Node.render, hin, hrest hc hd]
  | text chars rest hrest => simp [renderNodes, Node.render, hc, hd, hrest hc hd]
  | comment body rest hrest => simp [renderNodes, Node.render, hc, hd, hrest hc hd]
  | doctype body rest hrest => simp [renderNodes, Node.render, hrest hc hd]

@[simp] theorem render_nil : render false [] = [] := rfl

@[simp] theorem render_cons (n : Node) (ns : List Node) :
    render false (n :: ns) = n.markup ++ render false ns := rfl

theorem lineFeeds_render_cons (line : Nat) (n : Node) (ns : List Node) :
    line + lineFeeds (render false (n :: ns)) =
      line + lineFeeds n.markup + lineFeeds (render false ns) := by
  rw [render_cons, lineFeeds_append, Nat.add_assoc]

theorem markup_void {tag : Tag} (h : isVoid tag.name = true) (children : List Node) :
    (Node.element tag children).markup = tag.renderOpen := by
  rw [Node.markup, Node.render, if_pos h]

theorem markup_element {tag : Tag} (h : isVoid tag.name = false) (children : List Node) :
    (Node.element tag children).markup =
      tag.renderOpen ++ (render false children ++ tag.renderClose) := by
  rw [Node.markup, Node.render, if_neg (by simp [h]), render]
  exact congrArg (fun s => tag.renderOpen ++ (s ++ tag.renderClose))
    (renderNodes_congr children rfl rfl)

@[simp] theorem markup_text (chars : List Char) : (Node.text chars).markup = chars := rfl

@[simp] theorem markup_comment (body : List Char) :
    (Node.comment body).markup = "<!--".toList ++ (body ++ "-->".toList) := rfl

@[simp] theorem markup_doctype (body : List Char) :
    (Node.doctype body).markup = "<!".toList ++ (body ++ ">".toList) := rfl

def closing (name : List Char) : List Char := '<' :: '/' :: name

def fromClosing (name chars : List Char) : List Char :=
  (splitWhere (startsWithCaseless (closing name)) chars).2

mutual

/-- The text of these nodes cannot be taken for markup, nor their markup for something else; `atEnd`
tells that nothing is written behind them. -/
def Legible (atEnd : Bool) : List Node → Prop
  | [] => True
  | .element tag children :: ns =>
    (∀ c ∈ tag.name.getLast?, isBlank c = false) ∧
      (if isRawText tag.name then LegibleRaw tag.name children else Legible false children) ∧
        Legible atEnd ns
  | .text chars :: ns => isPlain (atEnd && ns.isEmpty) chars = true ∧ Legible atEnd ns
  | .comment _ :: ns => Legible atEnd ns
  | .doctype _ :: ns => Legible atEnd ns
termination_by ns => sizeOf ns

/-- What may begin the close tag of the raw-text element around these nodes stands in a text, and is
legible from there on. -/
def LegibleRaw (name : List Char) : List Node → Prop
  | [] => True
  | .text chars :: ns =>
    if fromClosing name chars = [] then LegibleRaw name ns
    else isPlain false (fromClosing name chars) = true ∧ Legible false ns
  | n :: ns => ¬closing name <:+: lowerAscii n.markup ∧ LegibleRaw name ns
termination_by ns => sizeOf ns

end

mutual

def reread (line : Nat) : List Node → List Node
  | [] => []
  | .element tag children :: ns =>
    .element (tag.written line)
      (if isVoid tag.name then []
        else if isRawText tag.name then
          rereadRaw tag.name (line + lineFeeds tag.renderOpen) [] children
        else reread (line + lineFeeds tag.renderOpen) children) ::
      reread (line + lineFeeds (Node.element tag children).markup) ns
  | n :: ns => n :: reread (line + lineFeeds n.markup) ns
termination_by ns => sizeOf ns

def rereadRaw (name : List Char) (line : Nat) (before : List Char) : List Node → List Node
  | [] => if before = [] then [] else [.text before]
  | .text chars :: ns =>
    if fromClosing name chars = [] then rereadRaw name (line + lineFeeds chars) (before ++ chars) ns
    else .text (before ++ chars) :: reread (line + lineFeeds chars) ns
  | n :: ns => rereadRaw name (line + lineFeeds n.markup) (before ++ n.markup) ns
termination_by ns => sizeOf ns

end

theorem atBracket_render {ns : List Node} (h : startsWithText ns = false) {rest : List Char}
    (hr : AtBracket rest) : AtBracket (render false ns ++ rest) := by
  cases ns with
  | nil => exact hr
  | cons n ns =>
    cases n with
    | text chars => cases h
    | element tag children =>
      rw [render_cons]
      cases hv : isVoid tag.name with
      | true =>
        rw [markup_void hv]
        exact atBracket_cons _
      | false =>
        rw [markup_element hv]
        exact atBracket_cons _
    | comment body => exact atBracket_cons _
    | doctype body => exact atBracket_cons _

theorem trimRight_eq_self {s : List Char} (h : ∀ c ∈ s.getLast?, isBlank c = false) :
    trimRight s = s := by
  have hstop : StopsAt isBlank s.reverse := by
    intro c hc
    rw [List.head?_reverse] at hc
    exact h c hc
  rw [trimRight, dropWhile_of_stopsAt hstop, List.reverse_reverse]

theorem splitRawText_of_not_raw {name : List Char} (h : isVoid name = true ∨ isRawText name = false)
    (s : List Char) : splitRawText name false s = ([], s) := by
  rw [splitRawText, if_pos]
  rcases h with h | h
  · simp [h]
  · simp [h]

theorem splitRawText_of_raw {name : List Char} (hv : isVoid name = false)
    (hr : isRawText name = true) (s : List Char) :
    splitRawText name false s = splitWhere (startsWithCaseless (closing name)) s := by
  rw [splitRawText, if_neg (by simp [hv, hr])]
  rfl

theorem markup_eq_concat {n : Node} (hn : n.isText = false) : ∃ s, n.markup = s ++ ['>'] := by
  cases n with
  | text chars => cases hn
  | element tag children =>
    cases hv : isVoid tag.name with
    | true =>
      refine ⟨'<' :: (tag.name ++ tag.attrs.flatMap Attribute.render), ?_⟩
      rw [markup_void hv, Tag.renderOpen]
      simp
    | false =>
      refine ⟨tag.renderOpen ++ (render false children ++ '<' :: '/' :: tag.name), ?_⟩
      rw [markup_element hv, Tag.renderClose]
      simp
  | comment body => exact ⟨"<!--".toList ++ (body ++ "--".toList), by simp⟩
  | doctype body => exact ⟨"<!".toList ++ body, by simp⟩

/-- Markup of a node ends with an angle bracket, so no close tag begins in it and ends behind it. -/
theorem noOverlap_markup {n : Node} (hn : n.isText = false) {name : List Char} (hc : '>' ∉ name)
    (rest : List Char) : NoOverlap (closing name) (lowerAscii n.markup) rest := by
  obtain ⟨s, hs⟩ := markup_eq_concat hn
  rintro t q ht hq he hsuffix -
  have hlast : '>' ∈ t := by
    rw [hs, lowerAscii_append] at hsuffix
    rcases List.suffix_concat_iff.1 hsuffix with rfl | ⟨t', rfl, -⟩
    · exact absurd rfl ht
    · simp
  have hmem : '>' ∈ closing name := he ▸ List.mem_append_left q hlast
  simp [closing, hc] at hmem

/-- Nodes that were written are read as such nodes again, behind what was read before and before any
markup. -/
def ReadsBack (ns : List Node) : Prop :=
  Shaped ns → ∀ atEnd, Legible atEnd ns → ∀ rest, AtBracket rest → (atEnd = true → rest = []) →
    ∀ (b : TreeBuilder) (line : Nat),
      (startsWithText ns = true → startsWithText b.siblings = false) →
      b.readFrom line (render false ns ++ rest) =
        (b.pushAll (reread line ns)).readFrom (line + lineFeeds (render false ns)) rest

def ReadsBackRaw (ns : List Node) : Prop :=
  Shaped ns → ∀ name, IsElementName name → LegibleRaw name ns →
    ∀ rest, AtBracket rest → startsWithCaseless (closing name) rest = true →
    ∀ (b : TreeBuilder) (line : Nat) (before : List Char), b.siblings = [] →
      (b.addText (before ++
          (splitWhere (startsWithCaseless (closing name)) (render false ns ++ rest)).1)).readFrom
        (line +
          lineFeeds (splitWhere (startsWithCaseless (closing name)) (render false ns ++ rest)).1)
        (splitWhere (startsWithCaseless (closing name)) (render false ns ++ rest)).2 =
      (b.pushAll (rereadRaw name line before ns)).readFrom (line + lineFeeds (render false ns)) rest

theorem readsBack_nil : ReadsBack [] := by
  intro _ atEnd _ rest _ _ b line _
  simp [reread]

theorem readsBack_text {chars : List Char} {ns : List Node} (hrest : ReadsBack ns) :
    ReadsBack (.text chars :: ns) := by
  intro hs atEnd hl rest hr he b line hb
  rw [Legible] at hl
  obtain ⟨hplain, hlegible⟩ := hl
  obtain ⟨hchars, hapart, hshaped⟩ := hs
  have hnext : startsWithText ns = false := by simpa [Node.isText] using hapart
  have hend : (atEnd && ns.isEmpty) = true → render false ns ++ rest = [] := by
    intro h
    obtain ⟨ha, hn⟩ := Bool.and_eq_true_iff.1 h
    rw [List.isEmpty_iff.1 hn, he ha]
    rfl
  rw [render_cons, markup_text, List.append_assoc,
    TreeBuilder.readFrom_plain hplain (atBracket_render hnext hr) hend,
    TreeBuilder.addText_eq_push hchars (hb rfl),
    hrest hshaped atEnd hlegible rest hr he _ _ (by simp [hnext]), ← TreeBuilder.pushAll_cons]
  simp [reread, Nat.add_assoc]

theorem readsBack_comment {body : List Char} {ns : List Node} (hrest : ReadsBack ns) :
    ReadsBack (.comment body :: ns) := by
  intro hs atEnd hl rest hr he b line hb
  rw [Legible] at hl
  obtain ⟨hbody, -, hshaped⟩ := hs
  have hwrite : render false (.comment body :: ns) ++ rest =
      "<!--".toList ++ (body ++ ("-->".toList ++ (render false ns ++ rest))) := by
    simp only [render_cons, markup_comment, List.append_assoc]
  rw [hwrite, TreeBuilder.readFrom_comment hbody,
    hrest hshaped atEnd hl rest hr he _ _ fun _ => by rw [TreeBuilder.siblings_push]; rfl,
    ← TreeBuilder.pushAll_cons, lineFeeds_render_cons, markup_comment]
  simp only [reread, markup_comment]

theorem readsBack_doctype {body : List Char} {ns : List Node} (hrest : ReadsBack ns) :
    ReadsBack (.doctype body :: ns) := by
  intro hs atEnd hl rest hr he b line hb
  rw [Legible] at hl
  obtain ⟨hbody, -, hshaped⟩ := hs
  have hwrite : render false (.doctype body :: ns) ++ rest =
      "<!".toList ++ (body ++ (">".toList ++ (render false ns ++ rest))) := by
    simp only [render_cons, markup_doctype, List.append_assoc]
  rw [hwrite, TreeBuilder.readFrom_doctype hbody.1 hbody.2,
    hrest hshaped atEnd hl rest hr he _ _ fun _ => by rw [TreeBuilder.siblings_push]; rfl,
    ← TreeBuilder.pushAll_cons, lineFeeds_render_cons, markup_doctype]
  simp only [reread, markup_doctype]

theorem startsWithCaseless_renderClose {tag : Tag} (h : IsElementName tag.name) (rest : List Char) :
    startsWithCaseless (closing tag.name) (tag.renderClose ++ rest) = true := by
  rw [startsWithCaseless_iff, lowerAscii_append]
  have hclose : lowerAscii tag.renderClose = closing tag.name ++ ['>'] := by
    simp [Tag.renderClose, closing, h.lowerAscii_eq]
  rw [hclose, List.append_assoc]
  exact List.prefix_append _ _

theorem readsBack_element {tag : Tag} {children ns : List Node} (hchildren : ReadsBack children)
    (hraw : ReadsBackRaw children) (hrest : ReadsBack ns) :
    ReadsBack (.element tag children :: ns) := by
  intro hs atEnd hl rest hr he b line _
  obtain ⟨⟨htag, -, hinside⟩, -, hshaped⟩ := hs
  rw [Legible] at hl
  obtain ⟨hlast, hlegible, hlegible'⟩ := hl
  have hpush : ∀ kids, startsWithText ns = true →
      startsWithText (b.push (.element (tag.written line) kids)).siblings = false := by
    intro kids _
    rw [TreeBuilder.siblings_push]
    rfl
  -- what is left once the element has been read
  have hgo : ∀ kids, (b.push (.element (tag.written line) kids)).readFrom
      (line + lineFeeds (Node.element tag children).markup) (render false ns ++ rest) =
      (b.pushAll (.element (tag.written line) kids ::
        reread (line + lineFeeds (Node.element tag children).markup) ns)).readFrom
        (line + lineFeeds (render false (.element tag children :: ns))) rest := by
    intro kids
    rw [hrest hshaped atEnd hlegible' rest hr he _ _ (hpush kids), ← TreeBuilder.pushAll_cons,
      lineFeeds_render_cons]
  have hwrite : render false (.element tag children :: ns) ++ rest =
      (Node.element tag children).markup ++ (render false ns ++ rest) := by
    rw [render_cons, List.append_assoc]
  rw [hwrite, reread]
  cases hv : isVoid tag.name with
  | true =>
    have hadd : b.add (.openTag (tag.written line) false) =
        b.push (.element (tag.written line) []) := by
      simp [TreeBuilder.add, Tag.written, hv]
    rw [if_pos rfl, ← hgo [], markup_void hv, TreeBuilder.readFrom_open htag,
      splitRawText_of_not_raw (.inl hv), hadd]
    rfl
  | false =>
    have hadd : b.add (.openTag (tag.written line) false) = b.enter (tag.written line) := by
      simp [TreeBuilder.add, TreeBuilder.enter, Tag.written, hv]
    -- its close tag finds it innermost, whatever has been read inside
    have hclose : ∀ kids after, ((b.enter (tag.written line)).pushAll kids).readFrom
        (line + lineFeeds tag.renderOpen + lineFeeds (render false children))
        (tag.renderClose ++ after) =
        (b.push (.element (tag.written line) kids)).readFrom
          (line + lineFeeds (Node.element tag children).markup) after := by
      intro kids after
      have hname : IsElementName (tag.written line).name := htag.name
      have h := TreeBuilder.readFrom_close hname (trimRight_eq_self hlast) kids after b
        (line + lineFeeds tag.renderOpen + lineFeeds (render false children))
      rw [markup_element hv, lineFeeds_append, lineFeeds_append, ← Nat.add_assoc, ← Nat.add_assoc]
      exact h
    have hwrite' : (Node.element tag children).markup ++ (render false ns ++ rest) =
        tag.renderOpen ++
          (render false children ++ (tag.renderClose ++ (render false ns ++ rest))) := by
      simp only [markup_element hv, List.append_assoc]
    rw [hwrite', TreeBuilder.readFrom_open htag, hadd, if_neg Bool.false_ne_true]
    by_cases hrawName : isRawText tag.name = true
    · rw [if_pos hrawName] at hlegible ⊢
      have hinner := hraw hinside tag.name htag.name hlegible
        (tag.renderClose ++ (render false ns ++ rest)) (atBracket_cons _)
        (startsWithCaseless_renderClose htag.name _) (b.enter (tag.written line))
        (line + lineFeeds tag.renderOpen) [] rfl
      rw [splitRawText_of_raw hv hrawName]
      rw [List.nil_append] at hinner
      rw [hinner, hclose, hgo]
    · rw [if_neg hrawName] at hlegible ⊢
      rw [splitRawText_of_not_raw (.inr (by simpa using hrawName))]
      have hinner := hchildren hinside false hlegible (tag.renderClose ++ (render false ns ++ rest))
        (atBracket_cons _) (fun h => absurd h Bool.false_ne_true) (b.enter (tag.written line))
        (line + lineFeeds tag.renderOpen) fun _ => rfl
      rw [TreeBuilder.addText_nil, lineFeeds_nil, Nat.add_zero, hinner, hclose, hgo]

theorem readsBackRaw_nil : ReadsBackRaw [] := by
  intro _ name _ _ rest _ hclose b line before hb
  have htext : b.addText before = b.pushAll (rereadRaw name line before []) := by
    unfold rereadRaw
    by_cases h : before = []
    · simp [h]
    · rw [if_neg h, TreeBuilder.pushAll_cons, TreeBuilder.pushAll_nil,
        TreeBuilder.addText_eq_push h (by rw [hb]; rfl)]
  rw [render_nil, List.nil_append, splitWhere_of_match hclose]
  simp [htext]

theorem bracket_notMem_tail {name : List Char} (hn : IsElementName name) :
    '<' ∉ (closing name).tail := by
  have hchars := hn.chars
  intro h
  rcases List.mem_cons.1 h with h | h
  · cases h
  · exact absurd (hchars _ h) (by decide)

theorem readsBackRaw_text {chars : List Char} {ns : List Node} (hrest : ReadsBack ns)
    (hraw : ReadsBackRaw ns) : ReadsBackRaw (.text chars :: ns) := by
  intro hs name hn hl rest hr hclose b line before hb
  obtain ⟨hchars, hapart, hshaped⟩ := hs
  have hnext : startsWithText ns = false := by simpa [Node.isText] using hapart
  have hbracket := atBracket_render hnext hr
  -- so a close tag that begins in the text ends in it
  have hover : NoOverlap (closing name) (lowerAscii chars) (lowerAscii (render false ns ++ rest)) :=
    hbracket.lowerAscii.noOverlap (bracket_notMem_tail hn)
  have hsplit := splitWhere_append_caseless hover
  rw [render_cons, markup_text, List.append_assoc, hsplit]
  unfold LegibleRaw fromClosing at hl
  unfold rereadRaw fromClosing
  by_cases hcut : (splitWhere (startsWithCaseless (closing name)) chars).2 = []
  · rw [if_pos hcut] at hl
    rw [if_pos hcut, if_pos hcut]
    have h := hraw hshaped name hn hl rest hr hclose b (line + lineFeeds chars) (before ++ chars) hb
    simpa [Nat.add_assoc] using h
  · rw [if_neg hcut] at hl
    rw [if_neg hcut, if_neg hcut]
    obtain ⟨hplain, hlegible⟩ := hl
    have hall := splitWhere_append (startsWithCaseless (closing name)) chars
    generalize splitWhere (startsWithCaseless (closing name)) chars = cut at hall hplain hcut ⊢
    obtain ⟨u, v⟩ := cut
    simp only at hall hplain ⊢
    have hne : before ++ chars ≠ [] := List.append_ne_nil_of_right_ne_nil before hchars
    rw [TreeBuilder.readFrom_plain hplain hbracket nofun, TreeBuilder.addText_addText,
      List.append_assoc, hall, TreeBuilder.addText_eq_push hne (by rw [hb]; rfl),
      hrest hshaped false hlegible rest hr nofun _ _ (by simp [hnext]), ← TreeBuilder.pushAll_cons,
      Nat.add_assoc line, ← lineFeeds_append, hall, lineFeeds_append, Nat.add_assoc]

theorem readsBackRaw_other {n : Node} {ns : List Node} (htext : n.isText = false)
    (hraw : ReadsBackRaw ns) : ReadsBackRaw (n :: ns) := by
  intro hs name hn hl rest hr hclose b line before hb
  obtain ⟨-, -, hshaped⟩ := hs
  have hname : '>' ∉ name := fun h => absurd (hn.chars _ h) (by decide)
  obtain ⟨habsent, hl⟩ : ¬closing name <:+: lowerAscii n.markup ∧ LegibleRaw name ns := by
    cases n with
    | text chars => cases htext
    | element tag children => simpa [LegibleRaw] using hl
    | comment body => simpa [LegibleRaw] using hl
    | doctype body => simpa [LegibleRaw] using hl
  have hreread : rereadRaw name line before (n :: ns) =
      rereadRaw name (line + lineFeeds n.markup) (before ++ n.markup) ns := by
    cases n with
    | text chars => cases htext
    | element tag children => rw [rereadRaw]; simp
    | comment body => rw [rereadRaw]; simp
    | doctype body => rw [rereadRaw]; simp
  rw [render_cons, List.append_assoc,
    splitWhere_append_caseless (noOverlap_markup htext hname _),
    if_pos (splitWhere_caseless_of_absent habsent), hreread]
  have h := hraw hshaped name hn hl rest hr hclose b (line + lineFeeds n.markup)
    (before ++ n.markup) hb
  simpa [Nat.add_assoc] using h

theorem readsBack (ns : List Node) : ReadsBack ns ∧ ReadsBackRaw ns := by
  -- both at once: behind its first close tag raw text is read like other text
  induction ns using nodes_induction with
  | nil => exact ⟨readsBack_nil, readsBackRaw_nil⟩
  | element tag children rest hchildren hrest =>
    exact ⟨readsBack_element hchildren.1 hchildren.2 hrest.1, readsBackRaw_other rfl hrest.2⟩
  | text chars rest hrest => exact ⟨readsBack_text hrest.1, readsBackRaw_text hrest.1 hrest.2⟩
  | comment body rest hrest => exact ⟨readsBack_comment hrest.1, readsBackRaw_other rfl hrest.2⟩
  | doctype body rest hrest => exact ⟨readsBack_doctype hrest.1, readsBackRaw_other rfl hrest.2⟩

theorem parse_render {ns : List Node} (hs : Shaped ns) (hl : Legible true ns) :
    parse (render false ns) = reread 1 ns := by
  have h := (readsBack ns).1 hs true hl [] atBracket_nil (fun _ => rfl) .start 1 fun _ => rfl
  rw [List.append_nil, TreeBuilder.readFrom_nil] at h
  rw [← TreeBuilder.finish_readFrom, h, TreeBuilder.finish_pushAll_start]

end ComponentMarkup
