import ComponentMarkup.Proofs.Markup.ParsedShape
import ComponentMarkup.Proofs.Markup.Placement
import ComponentMarkup.Proofs.Markup.Rereading

/-!
Reading character by character: what is read as text and what begins markup. Main statement:
`staysText_or_textRun_lt`, a text is read as it is, or less text is read before the next tag.
-/

set_option autoImplicit false

namespace ComponentMarkup

def breaksOff (atEnd : Bool) : List Char → Bool
  | '!' :: cs => atEnd && startsWithCaseless "doctype".toList cs && !cs.contains '>'
  | _ => false

/-- Text that is text again where it is written. -/
def StaysText (atEnd : Bool) (chars : List Char) : Prop :=
  isPlain atEnd chars = true ∨
    ∃ u v, chars = u ++ '<' :: v ∧ isPlain false u = true ∧ breaksOff atEnd v = true

theorem exists_of_breaksOff {atEnd : Bool} {cs : List Char} (h : breaksOff atEnd cs = true) :
    ∃ body, cs = '!' :: body ∧ startsWithCaseless "doctype".toList body = true ∧ '>' ∉ body ∧
      atEnd = true := by
  unfold breaksOff at h
  split at h
  · rename_i body
    simp only [Bool.and_eq_true, Bool.not_eq_true', List.contains_eq_mem,
      decide_eq_false_iff_not] at h
    exact ⟨body, rfl, h.1.2, h.2, h.1.1⟩
  · cases h

theorem startsWithLetter_append {u : List Char} (h : startsWithLetter u = true) (v : List Char) :
    startsWithLetter (u ++ v) = true := by
  cases u with
  | nil => cases h
  | cons c cs => exact h

theorem opensMarkup_append {atEnd : Bool} {u v : List Char} (h : opensMarkup false u = true)
    (hb : breaksOff atEnd (u ++ v) = false) : opensMarkup atEnd (u ++ v) = true := by
  unfold opensMarkup at h
  split at h
  · rename_i cs
    simp only [List.cons_append, breaksOff, opensMarkup, Bool.or_eq_true] at h hb ⊢
    rcases h with h | h
    · rw [List.isPrefixOf_iff_prefix] at h ⊢
      exact .inl (h.trans (List.prefix_append cs v))
    · have hword : startsWithCaseless "doctype".toList (cs ++ v) = true := by
        rw [Bool.and_eq_true, startsWithCaseless_iff] at h
        rw [startsWithCaseless_iff, lowerAscii_append]
        exact h.1.trans (List.prefix_append _ _)
      rw [hword] at hb ⊢
      refine .inr ?_
      cases atEnd with
      | false => rfl
      | true => simpa [or_iff_not_imp_left] using hb
  · rename_i cs
    simp only [Bool.and_eq_true, beq_iff_eq] at h
    obtain ⟨hletter, hend⟩ := h
    -- the bracket that ends the tag stands in the first part
    have hrest : (cs.dropWhile isTagNameChar).dropWhile isSpace ≠ [] := by
      intro hnil
      rw [hnil] at hend
      cases hend
    have hname : cs.dropWhile isTagNameChar ≠ [] := by
      intro hnil
      exact hrest (by rw [hnil]; rfl)
    have hdrop : ((cs ++ v).dropWhile isTagNameChar).dropWhile isSpace =
        (cs.dropWhile isTagNameChar).dropWhile isSpace ++ v := by
      rw [List.dropWhile_append, if_neg (by simpa using hname), List.dropWhile_append,
        if_neg (by simpa using hrest)]
    rw [List.cons_append, opensMarkup, startsWithLetter_append hletter, hdrop,
      List.head?_append_of_ne_nil _ hrest, hend]
    rfl
  · rename_i h₁ h₂
    have happend := startsWithLetter_append h v
    cases u with
    | nil => cases h
    | cons c cs =>
      unfold opensMarkup
      split
      · rename_i he
        exact absurd (congrArg (· :: cs) (List.cons.inj he).1) (h₁ cs)
      · rename_i he
        exact absurd (congrArg (· :: cs) (List.cons.inj he).1) (h₂ cs)
      · exact happend

theorem staysText_or_opens (atEnd : Bool) (chars : List Char) :
    StaysText atEnd chars ∨
      ∃ u v, chars = u ++ '<' :: v ∧ isPlain false u = true ∧ opensMarkup atEnd v = true := by
  induction chars with
  | nil => exact .inl (.inl rfl)
  | cons c cs ih =>
    by_cases hopens : c = '<' ∧ opensMarkup atEnd cs = true
    · exact .inr ⟨[], cs, by rw [hopens.1]; rfl, rfl, hopens.2⟩
    by_cases hbreaks : c = '<' ∧ breaksOff atEnd cs = true
    · exact .inl (.inr ⟨[], cs, by rw [hbreaks.1]; rfl, rfl, hbreaks.2⟩)
    have hfirst : ∀ u v, cs = u ++ v → isPlain false u = true → isPlain false (c :: u) = true := by
      rintro u v rfl hu
      rw [isPlain, hu, Bool.and_true, Bool.not_eq_true', Bool.and_eq_false_iff, beq_eq_false_iff_ne]
      by_cases hc : c = '<'
      · refine .inr (Bool.eq_false_iff.2 fun hu => hopens ⟨hc, opensMarkup_append hu ?_⟩)
        simpa [hc] using hbreaks
      · exact .inl hc
    rcases ih with (hplain | ⟨u, v, hcs, hu, hv⟩) | ⟨u, v, hcs, hu, hv⟩
    · refine .inl (.inl ?_)
      rw [isPlain, hplain]
      simpa [or_iff_not_imp_left] using hopens
    · exact .inl (.inr ⟨c :: u, v, by rw [hcs]; rfl, hfirst u _ hcs hu, hv⟩)
    · exact .inr ⟨c :: u, v, by rw [hcs]; rfl, hfirst u _ hcs hu, hv⟩

namespace Token

theorem readMarkup_breaksOff {cs : List Char} (h : breaksOff true cs = true) :
    readMarkup cs = (⟨[], .error, '<' :: cs⟩, []) := by
  obtain ⟨body, rfl, hword, hbody, -⟩ := exists_of_breaksOff h
  have hdash : ¬['-', '-'].isPrefixOf body = true := by
    intro hp
    obtain ⟨t, rfl⟩ := List.isPrefixOf_iff_prefix.1 hp
    exact absurd hword (by simp [startsWithCaseless])
  have hall : body.takeWhile (· != '>') = body := List.takeWhile_eq_self_iff.2 (ne_of_notMem hbody)
  have hno : body.dropWhile (· != '>') = [] := List.dropWhile_eq_nil_iff.2 (ne_of_notMem hbody)
  simp only [readMarkup, if_neg hdash, hword, if_true, readDoctype, hno, hall]

def Begins : Token → Prop
  | .tagOpen _ | .comment _ | .doctype _ => True
  | .tagClose _ | .text | .error => False

/-- A bracket that opens markup: what is read with it is no text, or a close tag that ends before
what follows. -/
theorem readMarkup_opens {cs rest : List Char} (h : opensMarkup rest.isEmpty cs = true)
    (hr : rest = [] ∨ '>' ∈ rest) :
    (readMarkup (cs ++ rest)).1.token.Begins ∨
      ∃ u v name, cs = u ++ v ∧
        readMarkup (cs ++ rest) = (⟨[], .tagClose name, '<' :: u⟩, v ++ rest) := by
  unfold opensMarkup at h
  split at h
  · rename_i cs
    left
    simp only [List.cons_append, readMarkup]
    split
    · unfold readComment
      split <;> trivial
    · rename_i hdash
      simp only [Bool.or_eq_true, Bool.and_eq_true] at h
      rcases h with h | ⟨hword, hend⟩
      · refine absurd ?_ hdash
        rw [List.isPrefixOf_iff_prefix] at h ⊢
        exact h.trans (List.prefix_append cs rest)
      · have hword' : startsWithCaseless "doctype".toList (cs ++ rest) = true := by
          rw [startsWithCaseless_iff, lowerAscii_append]
          exact (startsWithCaseless_iff.1 hword).trans (List.prefix_append _ _)
        have hbracket : '>' ∈ cs ++ rest := by
          rcases hr with rfl | hr
          · simpa using hend
          · exact List.mem_append_right cs hr
        rw [if_pos hword', readDoctype]
        split
        · rename_i hd
          have hall := List.dropWhile_eq_nil_iff.1 hd '>' hbracket
          simp at hall
        · trivial
  · rename_i cs
    right
    simp only [Bool.and_eq_true, beq_iff_eq] at h
    obtain ⟨hletter, hend⟩ := h
    have hname := List.takeWhile_append_dropWhile (p := isTagNameChar) (l := cs)
    have hspace := List.takeWhile_append_dropWhile (p := isSpace) (l := cs.dropWhile isTagNameChar)
    obtain ⟨after, hafter⟩ := List.head?_eq_some_iff.1 hend
    rw [hafter] at hspace
    have hgap : ∀ c ∈ (cs.dropWhile isTagNameChar).takeWhile isSpace, isSpace c = true :=
      fun c hc => List.mem_takeWhile_imp hc
    have hread := readMarkup_closeSpaced (startsWithLetter_takeWhile hletter)
      (fun c hc => List.mem_takeWhile_imp hc) hgap (after ++ rest)
    have hcs : cs ++ rest = cs.takeWhile isTagNameChar ++
        ((cs.dropWhile isTagNameChar).takeWhile isSpace ++ '>' :: (after ++ rest)) := by
      conv_lhs => rw [← hname, ← hspace]
      simp
    rw [← hcs] at hread
    refine ⟨_, after, _, ?_, hread⟩
    conv_lhs => rw [← hname, ← hspace]
    simp
  · rename_i h₁ h₂
    left
    obtain ⟨c, cs, rfl⟩ : ∃ d ds, cs = d :: ds := by
      cases cs with
      | nil => cases h
      | cons d ds => exact ⟨d, ds, rfl⟩
    have hletter : startsWithLetter (c :: cs ++ rest) = true := h
    unfold readMarkup
    split
    · rename_i he
      exact absurd (congrArg (· :: cs) (List.cons.inj he).1) (h₁ cs)
    · rename_i he
      exact absurd (congrArg (· :: cs) (List.cons.inj he).1) (h₂ cs)
    · rw [if_pos hletter]
      trivial

end Token

namespace TreeBuilder

theorem readFrom_staysText {atEnd : Bool} {chars rest : List Char} (h : StaysText atEnd chars)
    (hr : AtBracket rest) (he : atEnd = true → rest = []) (b : TreeBuilder) (line : Nat) :
    ∃ line', b.readFrom line (chars ++ rest) = (b.addText chars).readFrom line' rest := by
  rcases h with h | ⟨u, v, rfl, hu, hv⟩
  · exact ⟨_, readFrom_plain h hr he b line⟩
  · -- the doctype without an end is read as text, up to the end of everything
    obtain ⟨-, -, -, -, rfl⟩ := exists_of_breaksOff hv
    obtain rfl := he rfl
    have hnext := (Token.next_bracket v).trans (congrArg some (Token.readMarkup_breaksOff hv))
    rw [List.append_nil, readFrom_plain hu (atBracket_cons v) nofun,
      readFrom_text hnext (.inr rfl), addText_addText]
    exact ⟨_, rfl⟩

def glyphs (b : TreeBuilder) : List Glyph := b.items.flatMap Item.glyphs

theorem glyphs_foldl_add (ps : List Piece) (b : TreeBuilder) :
    (ps.foldl add b).glyphs = b.glyphs ++ (ps.filterMap Piece.item?).flatMap Item.glyphs := by
  rw [glyphs, ← glyphs_joinTexts, items_foldl_add, glyphs_joinTexts, List.flatMap_append, glyphs]

theorem glyphs_addText (chars : List Char) (b : TreeBuilder) :
    (b.addText chars).glyphs = b.glyphs ++ chars.map .char := by
  unfold addText
  by_cases hc : chars = []
  · simp [hc]
  · rw [if_neg hc]
    exact (glyphs_foldl_add [.text chars] b).trans (by simp [Piece.item?, Item.glyphs])

end TreeBuilder

def readGlyphs (s : List Char) : List Glyph :=
  ((readPieces 0 s).filterMap Piece.item?).flatMap Item.glyphs

theorem glyphs_readPieces (line : Nat) (s : List Char) :
    ((readPieces line s).filterMap Piece.item?).flatMap Item.glyphs = readGlyphs s := by
  rw [readGlyphs]
  generalize 0 = line'
  fun_induction readPieces line s generalizing line' with
  | case1 line s h =>
    cases s with
    | nil => rw [TreeBuilder.readPieces_nil]
    | cons c cs =>
      rw [Token.next] at h
      split at h <;> cases h
  | case2 line s l rest hn _ _ name ht inside raw _ ih =>
    rw [TreeBuilder.readPieces_next hn]
    simp only [ht, List.filterMap_cons, Piece.item?, List.filterMap_append, List.flatMap_cons,
      List.flatMap_append, Item.glyphs]
    rw [ih]
  | case3 line s l rest hn _ _ name ht ih =>
    rw [TreeBuilder.readPieces_next hn]
    simp only [ht, List.filterMap_cons, Piece.item?]
    rw [ih]
  | case4 line s l rest hn _ _ body ht ih =>
    rw [TreeBuilder.readPieces_next hn]
    simp only [ht, List.filterMap_cons, Piece.item?, List.flatMap_cons]
    rw [ih]
  | case5 line s l rest hn _ _ body ht ih =>
    rw [TreeBuilder.readPieces_next hn]
    simp only [ht, List.filterMap_cons, Piece.item?, List.flatMap_cons]
    rw [ih]
  | case6 line s l rest hn _ _ ht ih =>
    rw [TreeBuilder.readPieces_next hn]
    simp only [ht, List.filterMap_cons, Piece.item?, List.flatMap_cons]
    rw [ih]
  | case7 line s l rest hn _ _ ht ih =>
    rw [TreeBuilder.readPieces_next hn]
    simp only [ht, List.filterMap_cons, Piece.item?, List.flatMap_cons]
    rw [ih]

theorem TreeBuilder.glyphs_readFrom (b : TreeBuilder) (line : Nat) (s : List Char) :
    (b.readFrom line s).glyphs = b.glyphs ++ readGlyphs s := by
  rw [readFrom, glyphs_foldl_add, glyphs_readPieces]

theorem readGlyphs_of_readFrom {s rest : List Char} {b : TreeBuilder} {line line' : Nat}
    (h : TreeBuilder.start.readFrom line s = b.readFrom line' rest) :
    readGlyphs s = b.glyphs ++ readGlyphs rest := by
  have hg := congrArg TreeBuilder.glyphs h
  rwa [TreeBuilder.glyphs_readFrom, TreeBuilder.glyphs_readFrom] at hg

theorem readGlyphs_text {atEnd : Bool} {chars rest : List Char} (h : StaysText atEnd chars)
    (hr : AtBracket rest) (he : atEnd = true → rest = []) :
    readGlyphs (chars ++ rest) = chars.map .char ++ readGlyphs rest := by
  obtain ⟨line, hread⟩ := TreeBuilder.readFrom_staysText h hr he .start 0
  rw [readGlyphs_of_readFrom hread, TreeBuilder.glyphs_addText]
  rfl

theorem readGlyphs_open {tag : Tag} (ht : tag.Shaped) (rest : List Char) :
    readGlyphs (tag.renderOpen ++ rest) =
      .tag tag.name (tag.attrs.map Attribute.written) ::
        ((splitRawText tag.name false rest).1.map .char ++
          readGlyphs (splitRawText tag.name false rest).2) := by
  have hopen : (TreeBuilder.start.add (.openTag (tag.written 0) false)).glyphs =
      [.tag tag.name (tag.attrs.map Attribute.written)] :=
    TreeBuilder.glyphs_foldl_add [.openTag (tag.written 0) false] .start
  rw [readGlyphs_of_readFrom (TreeBuilder.readFrom_open ht rest .start 0),
    TreeBuilder.glyphs_addText, hopen]
  simp

theorem readGlyphs_renderClose {tag : Tag} (ht : IsElementName tag.name) (rest : List Char) :
    readGlyphs (tag.renderClose ++ rest) = readGlyphs rest :=
  readGlyphs_of_readFrom (TreeBuilder.readFrom_renderClose ht rest .start 0)

theorem readGlyphs_comment {body : List Char} (h : ¬"-->".toList <:+: body) (rest : List Char) :
    readGlyphs ((Node.comment body).markup ++ rest) = .comment body :: readGlyphs rest := by
  rw [markup_comment, List.append_assoc, List.append_assoc]
  exact readGlyphs_of_readFrom (TreeBuilder.readFrom_comment h rest .start 0)

theorem readGlyphs_doctype {body : List Char} (h : startsWithCaseless "doctype".toList body = true)
    (hb : '>' ∉ body) (rest : List Char) :
    readGlyphs ((Node.doctype body).markup ++ rest) = .doctype body :: readGlyphs rest := by
  rw [markup_doctype, List.append_assoc, List.append_assoc]
  exact readGlyphs_of_readFrom (TreeBuilder.readFrom_doctype h hb rest .start 0)

def Glyph.isChar : Glyph → Bool
  | .char _ => true
  | .tag _ _ | .comment _ | .doctype _ => false

/-- How many characters stand before the first tag, comment or doctype. -/
def textRun (gs : List Glyph) : Nat := (gs.takeWhile Glyph.isChar).length

theorem textRun_chars (chars : List Char) (gs : List Glyph) :
    textRun (chars.map .char ++ gs) = chars.length + textRun gs := by
  induction chars with
  | nil => simp
  | cons c cs ih =>
    have hcons : textRun (.char c :: (cs.map .char ++ gs)) = textRun (cs.map .char ++ gs) + 1 := rfl
    rw [List.map_cons, List.cons_append, hcons, ih, List.length_cons]
    omega

theorem textRun_cons {g : Glyph} (hg : g.isChar = false) (gs : List Glyph) :
    textRun (g :: gs) = 0 := by
  simp [textRun, hg]

theorem textRun_of_begins {s rest : List Char} {l : Lexeme Token}
    (h : Token.next s = some (l, rest)) (hl : l.token.Begins) : textRun (readGlyphs s) = 0 := by
  rw [readGlyphs, TreeBuilder.readPieces_next h]
  cases ht : l.token with
  | tagOpen name => rfl
  | comment body => rfl
  | doctype body => rfl
  | tagClose name => rw [ht] at hl; cases hl
  | text => rw [ht] at hl; cases hl
  | error => rw [ht] at hl; cases hl

theorem readGlyphs_of_tagClose {s rest : List Char} {name chars : List Char}
    (h : Token.next s = some (⟨[], .tagClose name, chars⟩, rest)) :
    readGlyphs s = readGlyphs rest := by
  rw [readGlyphs, TreeBuilder.readPieces_next h]
  exact glyphs_readPieces _ rest

theorem staysText_or_textRun_lt {chars rest : List Char} (hr : AtBracket rest)
    (he : rest = [] ∨ '>' ∈ rest) :
    StaysText rest.isEmpty chars ∨
      textRun (readGlyphs (chars ++ rest)) < chars.length + textRun (readGlyphs rest) := by
  generalize hn : chars.length = n
  induction n using Nat.strong_induction_on generalizing chars with
  | _ n ih =>
    refine (staysText_or_opens rest.isEmpty chars).imp_right ?_
    rintro ⟨u, v, rfl, hu, hv⟩
    have hbefore : readGlyphs (u ++ '<' :: v ++ rest) =
        u.map .char ++ readGlyphs ('<' :: (v ++ rest)) := by
      rw [List.append_assoc]
      exact readGlyphs_text (.inl hu) (atBracket_cons _) nofun
    rw [hbefore, textRun_chars, ← hn, List.length_append, List.length_cons]
    have hnext := Token.next_bracket (v ++ rest)
    rcases Token.readMarkup_opens hv he with hbegins | ⟨w, after, name, rfl, hclose⟩
    · rw [textRun_of_begins hnext hbegins]
      omega
    · -- the tag is dropped, and what is behind it is read on
      rw [hclose] at hnext
      rw [readGlyphs_of_tagClose hnext]
      have hle : textRun (readGlyphs (after ++ rest)) ≤
          after.length + textRun (readGlyphs rest) := by
        rcases ih after.length (by simp [← hn]; omega) rfl with hstays | hlt
        · rw [readGlyphs_text hstays hr (by simp), textRun_chars]
        · exact Nat.le_of_lt hlt
      rw [List.length_append]
      omega

end ComponentMarkup
