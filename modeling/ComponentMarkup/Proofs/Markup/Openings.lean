import ComponentMarkup.Proofs.Markup.DocumentOrder
import ComponentMarkup.Proofs.Markup.ParsedShape
import ComponentMarkup.Proofs.Text.LineLookup

set_option autoImplicit false

namespace ComponentMarkup

/-- An open tag in a text, with what stands before and behind it. -/
structure Opening where
  before : List Char
  own : List Char
  rest : List Char
  tag : Tag
  selfClosing : Bool

def Opening.In (o : Opening) (source : List Char) : Prop :=
  source = o.before ++ (o.own ++ o.rest) ∧
    (Piece.openTag o.tag o.selfClosing).IsWritten (1 + lineFeeds o.before) o.own o.rest

/-- The one tag ends where the other begins, or before. -/
def Opening.Precedes (o o' : Opening) : Prop := o.before ++ o.own <+: o'.before

theorem Opening.In.bracket {o : Opening} {source : List Char} (h : o.In source) :
    o.own.head? = some '<' := by
  obtain ⟨-, -, name, inside, hown, ⟨written, rfl, -⟩, -⟩ := h
  rw [hown]
  rfl

theorem Opening.In.line {o : Opening} {source : List Char} (h : o.In source) :
    o.tag.line = 1 + lineFeeds o.before := h.2.1

/-- The line that reading counted is the one that the table has for the byte of the bracket. -/
theorem Opening.In.line_eq_lineOf {o : Opening} {source : List Char} (h : o.In source) :
    o.tag.line = (LineIndex.ofText source).lineOf (byteLength o.before) := by
  rw [h.line, lineOf_ofText, h.1, lineFeedsBefore_append]

theorem Opening.Precedes.line_le {o o' : Opening} {source : List Char} (h : o.In source)
    (h' : o'.In source) (hp : o.Precedes o') : o.tag.line ≤ o'.tag.line := by
  obtain ⟨between, hb⟩ := hp
  rw [h.line, h'.line, ← hb, lineFeeds_append, lineFeeds_append]
  omega

structure OpenPiece where
  tag : Tag
  selfClosing : Bool
  behind : List Piece

def openPieces : List Piece → List OpenPiece
  | [] => []
  | .openTag tag selfClosing :: ps => ⟨tag, selfClosing, ps⟩ :: openPieces ps
  | .closeTag _ :: ps | .comment _ :: ps | .doctype _ :: ps | .text _ :: ps => openPieces ps

theorem openPieces_textPieces (chars : List Char) (ps : List Piece) :
    openPieces (textPieces chars ++ ps) = openPieces ps := by
  unfold textPieces
  split
  · rfl
  · rfl

theorem tags_parse (source : List Char) :
    tags (parse source) = (openPieces (pieces source)).map OpenPiece.tag := by
  rw [tags_eq_items, ← tags_joinTexts, parse, items_treeOfPieces, tags_joinTexts]
  induction pieces source with
  | nil => rfl
  | cons p ps ih =>
    cases p <;> simp [openPieces, List.filterMap_cons, Piece.item?, Item.tag?, ih]

/-- The tag is read at this place: the raw text behind it is the next piece, and reading goes on
behind that. -/
def OpenPiece.ReadAt (p : OpenPiece) (o : Opening) : Prop :=
  p.tag = o.tag ∧ p.selfClosing = o.selfClosing ∧
    let raw := splitRawText o.tag.name o.selfClosing o.rest
    ∃ line, p.behind = textPieces raw.1 ++ readPieces line raw.2

theorem tags_of_readAt {ps : List OpenPiece} {os : List Opening}
    (h : List.Forall₂ OpenPiece.ReadAt ps os) :
    ps.map OpenPiece.tag = os.map Opening.tag := by
  induction h with
  | nil => rfl
  | cons hp _ ih => rw [List.map_cons, List.map_cons, hp.1, ih]

def OpenPiece.ReadBehind (before s : List Char) (ps : List OpenPiece) : Prop :=
  ∃ os, List.Forall₂ OpenPiece.ReadAt ps os ∧
    (∀ o ∈ os, o.In (before ++ s) ∧ before <+: o.before) ∧ os.Pairwise Opening.Precedes

theorem OpenPiece.ReadBehind.skip {before own rest : List Char} {ps : List OpenPiece}
    (h : ReadBehind (before ++ own) rest ps) : ReadBehind before (own ++ rest) ps := by
  obtain ⟨os, hread, hin, hord⟩ := h
  refine ⟨os, hread, fun o ho => ?_, hord⟩
  obtain ⟨ho, hb⟩ := hin o ho
  rw [List.append_assoc] at ho
  exact ⟨ho, (List.prefix_append before own).trans hb⟩

theorem OpenPiece.ReadBehind.cons {before own raw rest : List Char} {p : OpenPiece} {o : Opening}
    {ps : List OpenPiece} (hp : p.ReadAt o) (ho : o.In (before ++ (own ++ (raw ++ rest))))
    (hbefore : o.before = before) (hown : o.own = own)
    (h : ReadBehind (before ++ own ++ raw) rest ps) :
    ReadBehind before (own ++ (raw ++ rest)) (p :: ps) := by
  obtain ⟨os, hread, hin, hord⟩ := h
  refine ⟨o :: os, hread.cons hp, ?_, hord.cons fun o' ho' => ?_⟩
  · intro o' ho'
    rcases List.mem_cons.1 ho' with rfl | ho'
    · exact ⟨ho, hbefore ▸ List.prefix_refl _⟩
    · obtain ⟨ho', hb⟩ := hin o' ho'
      simp only [List.append_assoc] at ho' hb
      exact ⟨ho', (List.prefix_append before _).trans hb⟩
  · rw [Opening.Precedes, hbefore, hown]
    exact (List.prefix_append _ raw).trans (hin o' ho').2

theorem readBehind_readPieces (line : Nat) (s before : List Char)
    (hline : line = 1 + lineFeeds before) :
    OpenPiece.ReadBehind before s (openPieces (readPieces line s)) := by
  fun_induction readPieces line s generalizing before with
  | case1 line s h => exact ⟨[], .nil, by simp, .nil⟩
  | case2 line s l rest hn _ after name ht inside raw _ ih =>
    have hname := Token.isWritten_next hn
    rw [ht] at hname
    have hinside := readAttributes_append .start rest
    have hraw := splitRawText_append name inside.selfClosing inside.rest
    have hs : s = (l.chars ++ inside.chars) ++ (raw.1 ++ raw.2) := by
      rw [hraw, List.append_assoc, hinside, Token.next_append hn]
    have hin : (⟨before, l.chars ++ inside.chars, inside.rest, ⟨name, inside.attrs, line⟩,
        inside.selfClosing⟩ : Opening).In (before ++ s) := by
      refine ⟨?_, hline, l.chars, inside.chars, rfl, ?_, ?_⟩
      · rw [List.append_assoc, hinside, Token.next_append hn]
      · rwa [hinside]
      · rw [hinside]
    rw [openPieces, openPieces_textPieces]
    rw [hs] at hin ⊢
    refine .cons ⟨rfl, rfl, _, rfl⟩ hin rfl rfl (ih _ ?_)
    simp only [lineFeeds_append, hline, after]
    omega
  | case3 line s l rest hn _ after _ _ ih | case4 line s l rest hn _ after _ _ ih
  | case5 line s l rest hn _ after _ _ ih =>
    rw [← Token.next_append hn]
    exact (ih _ (by simp only [lineFeeds_append, hline, after]; omega)).skip
  | case6 line s l rest hn _ after _ ih | case7 line s l rest hn _ after _ ih =>
    rw [← Token.next_append hn]
    exact (ih _ (by simp only [lineFeeds_append, hline, after]; omega)).skip

theorem openings_pieces (source : List Char) :
    ∃ os, List.Forall₂ OpenPiece.ReadAt (openPieces (pieces source)) os ∧
      (∀ o ∈ os, o.In source) ∧ os.Pairwise Opening.Precedes := by
  obtain ⟨os, hread, hin, hord⟩ := readBehind_readPieces 1 source [] rfl
  exact ⟨os, hread, fun o ho => (hin o ho).1, hord⟩

theorem openings_parse (source : List Char) :
    ∃ os : List Opening, os.map Opening.tag = tags (parse source) ∧
      (∀ o ∈ os, o.In source) ∧ os.Pairwise Opening.Precedes := by
  obtain ⟨os, hread, hin, hord⟩ := openings_pieces source
  exact ⟨os, by rw [tags_parse, tags_of_readAt hread], hin, hord⟩

/-- Whatever the text: names are those that can be written, attributes of one element have different
names, void elements are empty, texts are neither empty nor neighbours, comments and doctypes end
where they did. The elements, in document order, begin at brackets one behind the other, and the line
of each is that of its bracket. -/
theorem parse_shape (source : List Char) :
    Shaped (parse source) ∧
      (∃ openings : List Opening, openings.map Opening.tag = tags (parse source) ∧
        (∀ o ∈ openings, o.In source ∧ o.own.head? = some '<' ∧
          o.tag.line = 1 + lineFeeds o.before ∧
          o.tag.line = (LineIndex.ofText source).lineOf (byteLength o.before)) ∧
        openings.Pairwise Opening.Precedes) ∧
      ((tags (parse source)).map Tag.line).Pairwise (· ≤ ·) := by
  obtain ⟨os, htags, hin, hord⟩ := openings_parse source
  refine ⟨shaped_parse source, ⟨os, htags, fun o ho => ?_, hord⟩, ?_⟩
  · exact ⟨hin o ho, (hin o ho).bracket, (hin o ho).line, (hin o ho).line_eq_lineOf⟩
  · rw [← htags, List.map_map, List.pairwise_map]
    exact hord.imp_of_mem fun ho ho' hp => hp.line_le (hin _ ho) (hin _ ho')

end ComponentMarkup
