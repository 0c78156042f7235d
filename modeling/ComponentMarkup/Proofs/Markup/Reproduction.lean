import ComponentMarkup.Proofs.Markup.GlyphReading

/-!
Trees that come back from their markup. Main statements: `placed_parse_render`, what is read where no
text is taken for markup, and `plain_of_reproduced`, no text of a tree that comes back is.
-/

set_option autoImplicit false

namespace ComponentMarkup

def behindRaw (raw : Option (List Char)) (chars : List Char) : List Char :=
  match raw with
  | none => chars
  | some name => fromClosing name chars

/-- No text of these nodes is taken for markup where they are written. A name tells that they begin
inside of a raw-text element, and `atEnd` that nothing is written behind them. -/
def Plain (raw : Option (List Char)) (atEnd : Bool) : List Node → Prop
  | [] => True
  | .element tag children :: ns =>
    Plain (if isRawText tag.name then some tag.name else none) false children ∧ Plain none atEnd ns
  | .text chars :: ns =>
    StaysText (atEnd && ns.isEmpty) (behindRaw raw chars) ∧ Plain none atEnd ns
  | .comment _ :: ns => Plain none atEnd ns
  | .doctype _ :: ns => Plain none atEnd ns
termination_by ns => sizeOf ns

/-- Raw text is a text, and nothing else up to what begins its close tag. -/
def BeginsRaw (name : List Char) : List Node → Prop
  | [] => True
  | .text chars :: ns => fromClosing name chars = [] → ns = []
  | .element _ _ :: _ | .comment _ :: _ | .doctype _ :: _ => False

mutual

def Node.RawAsText : Node → Prop
  | .element tag children => (isRawText tag.name = true → BeginsRaw tag.name children) ∧
      RawAsText children
  | .text _ | .comment _ | .doctype _ => True

def RawAsText : List Node → Prop
  | [] => True
  | n :: ns => n.RawAsText ∧ RawAsText ns

end

theorem bracket_mem_render {ns : List Node} (ht : startsWithText ns = false) {rest : List Char}
    (hr : rest = [] ∨ '>' ∈ rest) :
    render false ns ++ rest = [] ∨ '>' ∈ render false ns ++ rest := by
  cases ns with
  | nil => exact hr
  | cons n ns =>
    obtain ⟨s, hs⟩ := markup_eq_concat ht
    right
    simp [hs]

theorem isEmpty_render {ns : List Node} (ht : startsWithText ns = false) (rest : List Char) :
    (render false ns ++ rest).isEmpty = (rest.isEmpty && ns.isEmpty) := by
  cases ns with
  | nil => simp
  | cons n ns =>
    obtain ⟨s, hs⟩ := markup_eq_concat ht
    simp [hs]

theorem exists_markup_element (tag : Tag) (children : List Node) :
    ∃ inside, (Node.element tag children).markup = tag.renderOpen ++ inside := by
  cases hv : isVoid tag.name with
  | true => exact ⟨[], by rw [markup_void hv, List.append_nil]⟩
  | false => exact ⟨_, markup_element hv children⟩

theorem textRun_render_le {ns : List Node} (hs : Shaped ns) {rest : List Char} {gs : List Glyph}
    (hr : AtBracket rest) (he : rest = [] ∨ '>' ∈ rest)
    (hle : textRun (readGlyphs rest) ≤ textRun gs) :
    textRun (readGlyphs (render false ns ++ rest)) ≤ textRun (glyphs ns ++ gs) := by
  induction ns with
  | nil => exact hle
  | cons n ns ih =>
    rw [render_cons, List.append_assoc]
    cases n with
    | element tag children =>
      obtain ⟨inside, hmarkup⟩ := exists_markup_element tag children
      rw [hmarkup, List.append_assoc, readGlyphs_open hs.1.1, textRun_cons rfl]
      exact Nat.zero_le _
    | text chars =>
      have hnext : startsWithText ns = false := by simpa [Node.isText] using hs.2.1
      have hbracket := atBracket_render hnext hr
      have hih := ih hs.2.2
      rw [markup_text, glyphs_text, List.append_assoc, textRun_chars]
      rcases staysText_or_textRun_lt hbracket (bracket_mem_render hnext he) with hstays | hlt
      · rw [readGlyphs_text hstays hbracket (by simp), textRun_chars]
        omega
      · omega
    | comment body =>
      rw [readGlyphs_comment hs.1, textRun_cons rfl]
      exact Nat.zero_le _
    | doctype body =>
      rw [readGlyphs_doctype hs.1.1 hs.1.2, textRun_cons rfl]
      exact Nat.zero_le _

/-- Where these nodes and all that is behind them are read as they are, no text of them is taken for
markup. -/
def Reproduces (ns : List Node) : Prop :=
  Shaped ns → ∀ rest gs, AtBracket rest → (rest = [] ∨ '>' ∈ rest) →
    textRun (readGlyphs rest) ≤ textRun gs →
    readGlyphs (render false ns ++ rest) = glyphs ns ++ gs →
    (RawAsText ns ∧ Plain none rest.isEmpty ns) ∧ readGlyphs rest = gs

def ReproducesRaw (ns : List Node) : Prop :=
  Shaped ns → ∀ name, IsElementName name → ∀ rest gs, AtBracket rest → '>' ∈ rest →
    startsWithCaseless (closing name) rest = true → textRun (readGlyphs rest) ≤ textRun gs →
    (splitWhere (startsWithCaseless (closing name)) (render false ns ++ rest)).1.map .char ++
        readGlyphs (splitWhere (startsWithCaseless (closing name)) (render false ns ++ rest)).2 =
      glyphs ns ++ gs →
    (BeginsRaw name ns ∧ RawAsText ns ∧ Plain (some name) false ns) ∧ readGlyphs rest = gs

theorem reproduces_nil : Reproduces [] := by
  intro _ rest gs _ _ _ h
  rw [Plain]
  exact ⟨⟨trivial, trivial⟩, h⟩

theorem reproduces_text {chars : List Char} {ns : List Node} (hrest : Reproduces ns) :
    Reproduces (.text chars :: ns) := by
  intro hs rest gs hr he hle h
  obtain ⟨-, hapart, hshaped⟩ := hs
  have hnext : startsWithText ns = false := by simpa [Node.isText] using hapart
  have hbracket := atBracket_render hnext hr
  rw [render_cons, markup_text, List.append_assoc, glyphs_text, List.append_assoc] at h
  rcases staysText_or_textRun_lt hbracket (bracket_mem_render hnext he) with hstays | hlt
  · rw [readGlyphs_text hstays hbracket (by simp)] at h
    obtain ⟨⟨hraw, hplain⟩, hend⟩ := hrest hshaped rest gs hr he hle (List.append_cancel_left h)
    rw [isEmpty_render hnext] at hstays
    rw [Plain]
    exact ⟨⟨⟨trivial, hraw⟩, hstays, hplain⟩, hend⟩
  · -- too few characters are left before the next tag
    have hle' := textRun_render_le hshaped hr he hle
    rw [h, textRun_chars] at hlt
    omega

theorem reproduces_comment {body : List Char} {ns : List Node} (hrest : Reproduces ns) :
    Reproduces (.comment body :: ns) := by
  intro hs rest gs hr he hle h
  rw [render_cons, List.append_assoc, readGlyphs_comment hs.1] at h
  obtain ⟨⟨hraw, hplain⟩, hend⟩ := hrest hs.2.2 rest gs hr he hle (List.cons.inj h).2
  rw [Plain]
  exact ⟨⟨⟨trivial, hraw⟩, hplain⟩, hend⟩

theorem reproduces_doctype {body : List Char} {ns : List Node} (hrest : Reproduces ns) :
    Reproduces (.doctype body :: ns) := by
  intro hs rest gs hr he hle h
  rw [render_cons, List.append_assoc, readGlyphs_doctype hs.1.1 hs.1.2] at h
  obtain ⟨⟨hraw, hplain⟩, hend⟩ := hrest hs.2.2 rest gs hr he hle (List.cons.inj h).2
  rw [Plain]
  exact ⟨⟨⟨trivial, hraw⟩, hplain⟩, hend⟩

theorem reproduces_element {tag : Tag} {children ns : List Node} (hchildren : Reproduces children)
    (hraw : ReproducesRaw children) (hrest : Reproduces ns) :
    Reproduces (.element tag children :: ns) := by
  intro hs rest gs hr he hle h
  obtain ⟨⟨htag, hvoid, hinside⟩, -, hshaped⟩ := hs
  rw [render_cons, List.append_assoc, glyphs_element, List.cons_append, List.append_assoc] at h
  rw [Plain]
  cases hv : isVoid tag.name with
  | true =>
    rw [markup_void hv, readGlyphs_open htag, splitRawText_of_not_raw (.inl hv), hvoid hv] at h
    obtain ⟨⟨hrawRest, hplain⟩, hend⟩ := hrest hshaped rest gs hr he hle (List.cons.inj h).2
    rw [hvoid hv, Plain]
    exact ⟨⟨⟨⟨fun _ => trivial, trivial⟩, hrawRest⟩, trivial, hplain⟩, hend⟩
  | false =>
    have hwrite : (Node.element tag children).markup ++ (render false ns ++ rest) =
        tag.renderOpen ++
          (render false children ++ (tag.renderClose ++ (render false ns ++ rest))) := by
      simp only [markup_element hv, List.append_assoc]
    have hclose := readGlyphs_renderClose htag.name (render false ns ++ rest)
    have hbracket : AtBracket (tag.renderClose ++ (render false ns ++ rest)) := atBracket_cons _
    have hmem : '>' ∈ tag.renderClose ++ (render false ns ++ rest) := by simp [Tag.renderClose]
    have hle' : textRun (readGlyphs (tag.renderClose ++ (render false ns ++ rest))) ≤
        textRun (glyphs ns ++ gs) := by
      rw [hclose]
      exact textRun_render_le hshaped hr he hle
    rw [hwrite, readGlyphs_open htag] at h
    have h := (List.cons.inj h).2
    by_cases hrawName : isRawText tag.name = true
    · rw [splitRawText_of_raw hv hrawName] at h
      obtain ⟨⟨hbegins, hrawInside, hplain⟩, hend⟩ := hraw hinside tag.name htag.name _ _ hbracket
        hmem (startsWithCaseless_renderClose htag.name _) hle' h
      rw [hclose] at hend
      obtain ⟨⟨hrawRest, hplain'⟩, hend'⟩ := hrest hshaped rest gs hr he hle hend
      rw [if_pos hrawName]
      exact ⟨⟨⟨⟨fun _ => hbegins, hrawInside⟩, hrawRest⟩, hplain, hplain'⟩, hend'⟩
    · rw [splitRawText_of_not_raw (.inr (by simpa using hrawName))] at h
      obtain ⟨⟨hrawInside, hplain⟩, hend⟩ := hchildren hinside _ _ hbracket (.inr hmem) hle' h
      rw [hclose] at hend
      obtain ⟨⟨hrawRest, hplain'⟩, hend'⟩ := hrest hshaped rest gs hr he hle hend
      rw [if_neg hrawName]
      exact ⟨⟨⟨⟨(absurd · hrawName), hrawInside⟩, hrawRest⟩, hplain, hplain'⟩, hend'⟩

theorem splitWhere_markup {n : Node} (hn : n.Shaped) (ht : n.isText = false) (name rest : List Char) :
    ∃ before, (splitWhere (startsWithCaseless (closing name)) (n.markup ++ rest)).1 =
      '<' :: before := by
  obtain ⟨c, s, hmarkup, hc⟩ : ∃ c s, n.markup = '<' :: c :: s ∧ c.toLower ≠ '/' := by
    cases n with
    | text chars => cases ht
    | element tag children =>
      obtain ⟨inside, hmarkup⟩ := exists_markup_element tag children
      have hname := hn.1.name
      cases hchars : tag.name with
      | nil =>
        rw [hchars] at hname
        cases hname
      | cons c cs =>
        rw [hchars] at hname
        refine ⟨c, _, by rw [hmarkup, Tag.renderOpen, hchars]; rfl, ?_⟩
        rw [Char.toLower_eq_of_not_isUpper (Char.not_isUpper_of_isLower hname.1)]
        rintro rfl
        cases hname.1
    | comment body => exact ⟨'!', _, rfl, by decide⟩
    | doctype body => exact ⟨'!', _, rfl, by decide⟩
  have hno : ¬startsWithCaseless (closing name) ('<' :: c :: (s ++ rest)) = true := by
    rw [startsWithCaseless_iff]
    intro hp
    exact hc (List.cons_prefix_cons.1 (List.cons_prefix_cons.1 hp).2).1.symm
  rw [hmarkup, List.cons_append, List.cons_append, splitWhere, if_neg hno]
  exact ⟨_, rfl⟩

theorem not_reproduced_raw {n : Node} {ns : List Node} (hn : n.Shaped) (ht : n.isText = false)
    (name rest : List Char) (gs hs : List Glyph) :
    (splitWhere (startsWithCaseless (closing name)) (render false (n :: ns) ++ rest)).1.map .char ++
      hs ≠ glyphs (n :: ns) ++ gs := by
  obtain ⟨before, hbefore⟩ := splitWhere_markup hn ht name (render false ns ++ rest)
  rw [render_cons, List.append_assoc, hbefore]
  intro h
  cases n with
  | text chars => cases ht
  | element tag children => cases h
  | comment body => cases h
  | doctype body => cases h

theorem reproducesRaw_nil : ReproducesRaw [] := by
  intro _ name _ rest gs _ _ hclose _ h
  rw [render_nil, List.nil_append, splitWhere_of_match hclose] at h
  rw [Plain]
  exact ⟨⟨trivial, trivial, trivial⟩, h⟩

theorem reproducesRaw_other {n : Node} {ns : List Node} (ht : n.isText = false) :
    ReproducesRaw (n :: ns) := by
  intro hs name _ rest gs _ _ _ _ h
  exact absurd h (not_reproduced_raw hs.1 ht name rest gs _)

theorem reproducesRaw_text {chars : List Char} {ns : List Node} (hrest : Reproduces ns) :
    ReproducesRaw (.text chars :: ns) := by
  intro hs name hn rest gs hr hmem hclose hle h
  obtain ⟨-, hapart, hshaped⟩ := hs
  have hnext : startsWithText ns = false := by simpa [Node.isText] using hapart
  have hbracket := atBracket_render hnext hr
  have hover : NoOverlap (closing name) (lowerAscii chars) (lowerAscii (render false ns ++ rest)) :=
    hbracket.lowerAscii.noOverlap (bracket_notMem_tail hn)
  rw [render_cons, markup_text, List.append_assoc, splitWhere_append_caseless hover, glyphs_text,
    List.append_assoc] at h
  rw [Plain, BeginsRaw, behindRaw, fromClosing]
  by_cases hcut : (splitWhere (startsWithCaseless (closing name)) chars).2 = []
  · rw [if_pos hcut, List.map_append, List.append_assoc] at h
    rw [hcut]
    have h := List.append_cancel_left h
    cases ns with
    | nil =>
      obtain ⟨⟨-, hraw, hplain⟩, hend⟩ :=
        reproducesRaw_nil trivial name hn rest gs hr hmem hclose hle h
      rw [Plain] at hplain ⊢
      exact ⟨⟨fun _ => rfl, ⟨trivial, hraw⟩, .inl rfl, hplain⟩, hend⟩
    | cons n ns => exact absurd h (not_reproduced_raw hshaped.1 hnext name rest gs _)
  · rw [if_neg hcut] at h
    have hall := splitWhere_append (startsWithCaseless (closing name)) chars
    generalize splitWhere (startsWithCaseless (closing name)) chars = cut at hall h hcut ⊢
    obtain ⟨u, v⟩ := cut
    simp only at hall h hcut ⊢
    rw [← hall, List.map_append, List.append_assoc] at h
    have hempty : rest.isEmpty = false := by
      cases rest with
      | nil => cases hmem
      | cons c cs => rfl
    -- from the place on where the raw text ends
    have htext : Reproduces (.text v :: ns) := reproduces_text hrest
    have h' : readGlyphs (render false (.text v :: ns) ++ rest) = glyphs (.text v :: ns) ++ gs := by
      rw [glyphs_text, render_cons, markup_text, List.append_assoc, List.append_assoc]
      exact List.append_cancel_left h
    obtain ⟨⟨hraw, hplain⟩, hend⟩ := htext ⟨hcut, hapart, hshaped⟩ rest gs hr (.inr hmem) hle h'
    rw [Plain, hempty] at hplain
    exact ⟨⟨(absurd · hcut), hraw, hplain⟩, hend⟩

theorem reproduces (ns : List Node) : Reproduces ns ∧ ReproducesRaw ns := by
  -- both at once: behind its first close tag raw text is read like other text
  induction ns using nodes_induction with
  | nil => exact ⟨reproduces_nil, reproducesRaw_nil⟩
  | element tag children rest hchildren hrest =>
    exact ⟨reproduces_element hchildren.1 hchildren.2 hrest.1, reproducesRaw_other rfl⟩
  | text chars rest hrest => exact ⟨reproduces_text hrest.1, reproducesRaw_text hrest.1⟩
  | comment body rest hrest => exact ⟨reproduces_comment hrest.1, reproducesRaw_other rfl⟩
  | doctype body rest hrest => exact ⟨reproduces_doctype hrest.1, reproducesRaw_other rfl⟩

mutual

def Node.openBehind (names : List (List Char)) : Node → List (List Char)
  | .element tag children =>
    if isVoid tag.name then names
    else closed (trimRight tag.name) (openBehind (tag.name :: names) children)
  | .text _ | .comment _ | .doctype _ => names

def openBehind (names : List (List Char)) : List Node → List (List Char)
  | [] => names
  | n :: ns => openBehind (n.openBehind names) ns

end

mutual

def Node.placedAnew (names : List (List Char)) : Node → List (Nat × Glyph)
  | .element tag children =>
    (names.length, .tag tag.name (tag.attrs.map Attribute.written)) ::
      if isVoid tag.name then [] else placedAnew (tag.name :: names) children
  | .text chars => chars.map fun c => (names.length, .char c)
  | .comment body => [(names.length, .comment body)]
  | .doctype body => [(names.length, .doctype body)]

/-- What is read where nodes are written, inside of elements of these names. A name that ends in a
blank is not closed by its own close tag, so the depths may be others. -/
def placedAnew (names : List (List Char)) : List Node → List (Nat × Glyph)
  | [] => []
  | n :: ns => n.placedAnew names ++ placedAnew (n.openBehind names) ns

end

/-- One builder is what another has become by reading these nodes. -/
structure TreeBuilder.HasRead (ns : List Node) (b b' : TreeBuilder) : Prop where
  placed : b'.placed = b.placed ++ placedAnew b.names ns
  names : b'.names = openBehind b.names ns

theorem TreeBuilder.HasRead.cons {n : Node} {ns : List Node} {b b₁ b₂ : TreeBuilder}
    (hplaced : b₁.placed = b.placed ++ n.placedAnew b.names)
    (hnames : b₁.names = n.openBehind b.names) (h : b₁.HasRead ns b₂) : b.HasRead (n :: ns) b₂ :=
  ⟨by rw [h.placed, hplaced, hnames, placedAnew, List.append_assoc],
    by rw [h.names, hnames, openBehind]⟩

theorem TreeBuilder.HasRead.nil (b : TreeBuilder) : b.HasRead [] b :=
  ⟨by rw [placedAnew, List.append_nil], by rw [openBehind]⟩

def ReadsOn (ns : List Node) : Prop :=
  Shaped ns → RawAsText ns → ∀ atEnd, Plain none atEnd ns → ∀ rest, AtBracket rest →
    (atEnd = true → rest = []) →
    ∀ (b : TreeBuilder) (line : Nat), ∃ b' line',
      b.readFrom line (render false ns ++ rest) = b'.readFrom line' rest ∧ b.HasRead ns b'

def ReadsOnRaw (ns : List Node) : Prop :=
  Shaped ns → RawAsText ns → ∀ name, IsElementName name → BeginsRaw name ns →
    Plain (some name) false ns → ∀ rest, AtBracket rest →
    startsWithCaseless (closing name) rest = true → ∀ (b : TreeBuilder) (line : Nat), ∃ b' line',
      (b.addText (splitWhere (startsWithCaseless (closing name)) (render false ns ++ rest)).1).readFrom
          line (splitWhere (startsWithCaseless (closing name)) (render false ns ++ rest)).2 =
        b'.readFrom line' rest ∧ b.HasRead ns b'

theorem readsOn_nil : ReadsOn [] := by
  intro _ _ atEnd _ rest _ _ b line
  exact ⟨b, line, rfl, .nil b⟩

theorem readsOn_text {chars : List Char} {ns : List Node} (hrest : ReadsOn ns) :
    ReadsOn (.text chars :: ns) := by
  intro hs hraws atEnd hp rest hr he b line
  rw [Plain, behindRaw] at hp
  obtain ⟨-, hapart, hshaped⟩ := hs
  have hnext : startsWithText ns = false := by simpa [Node.isText] using hapart
  have hend : (atEnd && ns.isEmpty) = true → render false ns ++ rest = [] := by
    intro h
    obtain ⟨ha, hn⟩ := Bool.and_eq_true_iff.1 h
    rw [List.isEmpty_iff.1 hn, he ha]
    rfl
  obtain ⟨line₁, hread⟩ :=
    TreeBuilder.readFrom_staysText hp.1 (atBracket_render hnext hr) hend b line
  obtain ⟨b', line', hread', hb'⟩ := hrest hshaped hraws.2 atEnd hp.2 rest hr he (b.addText chars) line₁
  refine ⟨b', line', ?_, .cons ?_ ?_ hb'⟩
  · rw [render_cons, markup_text, List.append_assoc, hread, hread']
  · exact TreeBuilder.placed_addText chars b
  · exact TreeBuilder.names_addText chars b

theorem readsOn_comment {body : List Char} {ns : List Node} (hrest : ReadsOn ns) :
    ReadsOn (.comment body :: ns) := by
  intro hs hraws atEnd hp rest hr he b line
  rw [Plain] at hp
  have hread := TreeBuilder.readFrom_comment hs.1 (render false ns ++ rest) b line
  obtain ⟨b', line', hread', hb'⟩ := hrest hs.2.2 hraws.2 atEnd hp rest hr he (b.push (.comment body)) _
  refine ⟨b', line', ?_, .cons ?_ ?_ hb'⟩
  · rw [render_cons, markup_comment, List.append_assoc, List.append_assoc, List.append_assoc, hread,
      hread']
  · exact TreeBuilder.placed_push _ b
  · exact TreeBuilder.names_push _ b

theorem readsOn_doctype {body : List Char} {ns : List Node} (hrest : ReadsOn ns) :
    ReadsOn (.doctype body :: ns) := by
  intro hs hraws atEnd hp rest hr he b line
  rw [Plain] at hp
  have hread := TreeBuilder.readFrom_doctype hs.1.1 hs.1.2 (render false ns ++ rest) b line
  obtain ⟨b', line', hread', hb'⟩ := hrest hs.2.2 hraws.2 atEnd hp rest hr he (b.push (.doctype body)) _
  refine ⟨b', line', ?_, .cons ?_ ?_ hb'⟩
  · rw [render_cons, markup_doctype, List.append_assoc, List.append_assoc, List.append_assoc, hread,
      hread']
  · exact TreeBuilder.placed_push _ b
  · exact TreeBuilder.names_push _ b

theorem lowerAscii_trimRight {name : List Char} (hn : IsElementName name) :
    lowerAscii (trimRight name) = trimRight name := by
  obtain ⟨blanks, hname⟩ : trimRight name <+: name := List.rdropWhile_prefix isBlank name
  have h := hn.lowerAscii_eq
  rw [← hname, lowerAscii_append] at h
  exact List.append_inj_left h (length_lowerAscii _)

theorem readsOn_element {tag : Tag} {children ns : List Node} (hchildren : ReadsOn children)
    (hraw : ReadsOnRaw children) (hrest : ReadsOn ns) : ReadsOn (.element tag children :: ns) := by
  intro hs hraws atEnd hp rest hr he b line
  rw [Plain] at hp
  obtain ⟨⟨htag, hvoid, hinside⟩, -, hshaped⟩ := hs
  obtain ⟨⟨hbegins, hrawInside⟩, hrawRest⟩ := hraws
  obtain ⟨hpc, hpr⟩ := hp
  -- what is left once the element has been read
  have hgo : ∀ b₁ line₁, b.readFrom line
        ((Node.element tag children).markup ++ (render false ns ++ rest)) =
        TreeBuilder.readFrom b₁ line₁ (render false ns ++ rest) →
      b₁.placed = b.placed ++ (Node.element tag children).placedAnew b.names →
      b₁.names = (Node.element tag children).openBehind b.names →
      ∃ b' line', b.readFrom line (render false (.element tag children :: ns) ++ rest) =
        b'.readFrom line' rest ∧ b.HasRead (.element tag children :: ns) b' := by
    intro b₁ line₁ hread hplaced hnames
    obtain ⟨b', line', hread', hb'⟩ := hrest hshaped hrawRest atEnd hpr rest hr he b₁ line₁
    refine ⟨b', line', ?_, .cons hplaced hnames hb'⟩
    rw [render_cons, List.append_assoc, hread, hread']
  cases hv : isVoid tag.name with
  | true =>
    have hadd : b.add (.openTag (tag.written line) false) =
        b.push (.element (tag.written line) []) := by
      simp [TreeBuilder.add, Tag.written, hv]
    have hread := TreeBuilder.readFrom_open htag (render false ns ++ rest) b line
    rw [splitRawText_of_not_raw (.inl hv), hadd, ← markup_void hv children] at hread
    refine hgo _ _ hread ?_ ?_
    · rw [TreeBuilder.addText_nil, TreeBuilder.placed_push, Node.placedAnew, if_pos hv]
      rfl
    · rw [TreeBuilder.addText_nil, TreeBuilder.names_push, Node.openBehind, if_pos hv]
  | false =>
    have hadd : b.add (.openTag (tag.written line) false) = b.enter (tag.written line) := by
      simp [TreeBuilder.add, TreeBuilder.enter, Tag.written, hv]
    have hwrite : (Node.element tag children).markup ++ (render false ns ++ rest) =
        tag.renderOpen ++
          (render false children ++ (tag.renderClose ++ (render false ns ++ rest))) := by
      simp only [markup_element hv, List.append_assoc]
    have hopen := TreeBuilder.readFrom_open htag
      (render false children ++ (tag.renderClose ++ (render false ns ++ rest))) b line
    rw [← hwrite, hadd] at hopen
    -- the children, raw text or not
    obtain ⟨b₁, line₁, hread, hb₁⟩ : ∃ b₁ line₁,
        b.readFrom line ((Node.element tag children).markup ++ (render false ns ++ rest)) =
          TreeBuilder.readFrom b₁ line₁ (tag.renderClose ++ (render false ns ++ rest)) ∧
        (b.enter (tag.written line)).HasRead children b₁ := by
      rw [hopen]
      by_cases hrawName : isRawText tag.name = true
      · rw [if_pos hrawName] at hpc
        rw [splitRawText_of_raw hv hrawName]
        exact hraw hinside hrawInside tag.name htag.name (hbegins hrawName) hpc _ (atBracket_cons _)
          (startsWithCaseless_renderClose htag.name _) _ _
      · rw [if_neg hrawName] at hpc
        rw [splitRawText_of_not_raw (.inr (by simpa using hrawName)), TreeBuilder.addText_nil]
        exact hchildren hinside hrawInside false hpc _ (atBracket_cons _)
          (absurd · Bool.false_ne_true) _ _
    rw [TreeBuilder.readFrom_renderClose htag.name, lowerAscii_trimRight htag.name] at hread
    refine hgo _ _ hread ?_ ?_
    · rw [TreeBuilder.placed_close, hb₁.placed, TreeBuilder.placed_enter, Node.placedAnew, hv]
      simp [TreeBuilder.names_enter, Tag.written]
    · rw [TreeBuilder.names_close, hb₁.names, Node.openBehind, hv]
      rfl

theorem readsOnRaw_nil : ReadsOnRaw [] := by
  intro _ _ name _ _ _ rest _ hclose b line
  rw [render_nil, List.nil_append, splitWhere_of_match hclose]
  exact ⟨b, line, rfl, .nil b⟩

theorem readsOnRaw_text {chars : List Char} {ns : List Node} (hrest : ReadsOn ns) :
    ReadsOnRaw (.text chars :: ns) := by
  intro hs hraws name hn hbegins hp rest hr hclose b line
  obtain ⟨-, hapart, hshaped⟩ := hs
  have hnext : startsWithText ns = false := by simpa [Node.isText] using hapart
  have hbracket := atBracket_render hnext hr
  have hover : NoOverlap (closing name) (lowerAscii chars) (lowerAscii (render false ns ++ rest)) :=
    hbracket.lowerAscii.noOverlap (bracket_notMem_tail hn)
  have htext := TreeBuilder.placed_addText chars b
  have hnames := TreeBuilder.names_addText chars b
  rw [BeginsRaw, fromClosing] at hbegins
  rw [Plain, behindRaw, fromClosing] at hp
  rw [render_cons, markup_text, List.append_assoc, splitWhere_append_caseless hover]
  by_cases hcut : (splitWhere (startsWithCaseless (closing name)) chars).2 = []
  · rw [if_pos hcut]
    obtain rfl := hbegins hcut
    rw [render_nil, List.nil_append, splitWhere_of_match hclose, List.append_nil]
    exact ⟨_, line, rfl, .cons htext hnames (.nil _)⟩
  · rw [if_neg hcut]
    have hall := splitWhere_append (startsWithCaseless (closing name)) chars
    generalize splitWhere (startsWithCaseless (closing name)) chars = cut at hall hp ⊢
    obtain ⟨u, v⟩ := cut
    simp only at hall hp ⊢
    obtain ⟨line₁, hread⟩ := TreeBuilder.readFrom_staysText hp.1 hbracket
      (absurd · Bool.false_ne_true) (b.addText u) line
    obtain ⟨b', line', hread', hb'⟩ := hrest hshaped hraws.2 false hp.2 rest hr
      (absurd · Bool.false_ne_true) (b.addText chars) line₁
    refine ⟨b', line', ?_, .cons htext hnames hb'⟩
    rw [hread, TreeBuilder.addText_addText, hall, hread']

theorem readsOnRaw_other {n : Node} {ns : List Node} (ht : n.isText = false) :
    ReadsOnRaw (n :: ns) := by
  intro _ _ name _ hbegins
  cases n with
  | text chars => cases ht
  | element tag children => exact hbegins.elim
  | comment body => exact hbegins.elim
  | doctype body => exact hbegins.elim

theorem readsOn (ns : List Node) : ReadsOn ns ∧ ReadsOnRaw ns := by
  induction ns using nodes_induction with
  | nil => exact ⟨readsOn_nil, readsOnRaw_nil⟩
  | element tag children rest hchildren hrest =>
    exact ⟨readsOn_element hchildren.1 hchildren.2 hrest.1, readsOnRaw_other rfl⟩
  | text chars rest hrest => exact ⟨readsOn_text hrest.1, readsOnRaw_text hrest.1⟩
  | comment body rest hrest => exact ⟨readsOn_comment hrest.1, readsOnRaw_other rfl⟩
  | doctype body rest hrest => exact ⟨readsOn_doctype hrest.1, readsOnRaw_other rfl⟩

theorem placed_parse_render {ns : List Node} (hs : Shaped ns) (hraws : RawAsText ns)
    (hp : Plain none true ns) :
    placed 0 (parse (render false ns)) = placedAnew [] ns := by
  obtain ⟨b, line, hread, hb⟩ :=
    (readsOn ns).1 hs hraws true hp [] atBracket_nil (fun _ => rfl) .start 1
  rw [List.append_nil, TreeBuilder.readFrom_nil] at hread
  rw [← TreeBuilder.finish_readFrom, hread, TreeBuilder.placed_finish, hb.placed]
  rfl

theorem shaped_unnumbered {nodes : List Node} : Shaped (unnumbered nodes) ↔ Shaped nodes := by
  have hstarts : ∀ ns, startsWithText (unnumbered ns) = startsWithText ns := by
    intro ns
    cases ns with
    | nil => rfl
    | cons n ns => cases n <;> rfl
  induction nodes using nodes_induction with
  | nil => rfl
  | element tag children rest hchildren hrest =>
    have htag : Tag.Shaped { tag with line := 0 } ↔ tag.Shaped :=
      ⟨fun h => ⟨h.name, h.attrs, h.distinct⟩, fun h => ⟨h.name, h.attrs, h.distinct⟩⟩
    have hnil : unnumbered children = [] ↔ children = [] := by
      cases children <;> simp [unnumbered]
    simp [unnumbered, Node.unnumbered, Shaped, Node.Shaped, Node.isText, htag, hnil, hchildren,
      hrest]
  | text _ rest hrest | comment _ rest hrest | doctype _ rest hrest =>
    simp [unnumbered, Node.unnumbered, Shaped, Node.Shaped, hstarts, hrest]

theorem renderNodes_unnumbered (nodes : List Node) (c : RenderContext) :
    renderNodes c (unnumbered nodes) = renderNodes c nodes := by
  induction nodes using nodes_induction generalizing c with
  | nil => rfl
  | element tag children rest hchildren hrest =>
    simp only [unnumbered, Node.unnumbered, renderNodes, Node.render, hrest, hchildren]
    rfl
  | text _ rest hrest | comment _ rest hrest | doctype _ rest hrest =>
    simp [unnumbered, Node.unnumbered, renderNodes, hrest]

theorem glyphs_parse (source : List Char) : glyphs (parse source) = readGlyphs source := by
  rw [glyphs, ← glyphs_joinTexts, parse, items_treeOfPieces, glyphs_joinTexts]
  exact glyphs_readPieces 1 source

/-- A tree that comes back from its markup can be written, no text of it is taken for markup, its raw
text is text, and everything is read at its depth. -/
theorem plain_of_reproduced {nodes : List Node}
    (h : unnumbered (parse (render false nodes)) = unnumbered nodes) :
    Shaped nodes ∧ RawAsText nodes ∧ Plain none true nodes ∧
      placedAnew [] nodes = placed 0 nodes := by
  have hs : Shaped nodes :=
    shaped_unnumbered.1 (h ▸ shaped_unnumbered.2 (shaped_parse (render false nodes)))
  have hglyphs : readGlyphs (render false nodes ++ []) = glyphs nodes ++ [] := by
    rw [List.append_nil, List.append_nil, ← glyphs_parse, ← glyphs_unnumbered, h,
      glyphs_unnumbered]
  have hle : textRun (readGlyphs []) ≤ textRun [] := by
    rw [readGlyphs, TreeBuilder.readPieces_nil]
    exact Nat.le_refl _
  obtain ⟨⟨hraws, hplain⟩, -⟩ := (reproduces nodes).1 hs [] [] atBracket_nil (.inl rfl) hle hglyphs
  refine ⟨hs, hraws, hplain, ?_⟩
  rw [← placed_parse_render hs hraws hplain, ← placed_unnumbered, h, placed_unnumbered]

end ComponentMarkup
