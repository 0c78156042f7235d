import ComponentMarkup.Markup.Piece
import ComponentMarkup.Proofs.Text.Runs
import ComponentMarkup.Proofs.Text.Searching

set_option autoImplicit false

namespace ComponentMarkup

def Token.IsWritten (own rest : List Char) : Token → Prop
  | .tagOpen name => ∃ written, own = '<' :: written ∧ lowerAscii written = name
  | .tagClose name =>
    ∃ inside, own = '<' :: '/' :: (inside ++ ['>']) ∧ lowerAscii (trimRight inside) = name
  | .comment body =>
    own = "<!--".toList ++ (body ++ "-->".toList) ∨ own = "<!--".toList ++ body ∧ rest = []
  | .doctype body => own = '<' :: '!' :: (body ++ ['>'])
  | .text | .error => True

def Piece.IsWritten (line : Nat) (own rest : List Char) : Piece → Prop
  | .openTag tag selfClosing =>
    tag.line = line ∧ ∃ name inside, own = name ++ inside ∧
      (Token.tagOpen tag.name).IsWritten name (inside ++ rest) ∧
      readAttributes .start (inside ++ rest) = ⟨tag.attrs, selfClosing, inside, rest⟩
  | .closeTag name => (Token.tagClose name).IsWritten own rest
  | .comment body => (Token.comment body).IsWritten own rest
  | .doctype body => (Token.doctype body).IsWritten own rest
  | .text chars => own = chars

/-- The lexer takes `own` for this token where `rest` stands behind it. -/
def Token.ReadsAs (t : Token) (own rest : List Char) : Prop :=
  ∃ l, next (own ++ rest) = some (l, rest) ∧ l.token = t ∧ l.chars = own

def Piece.FromToken (own rest : List Char) : Piece → Prop
  | .openTag tag _ => ∃ name inside, own = name ++ inside ∧
      (Token.tagOpen tag.name).ReadsAs name (inside ++ rest)
  | .closeTag name => (Token.tagClose name).ReadsAs own rest
  | .comment body => (Token.comment body).ReadsAs own rest
  | .doctype body => (Token.doctype body).ReadsAs own rest
  | .text _ => Token.text.ReadsAs own rest ∨ Token.error.ReadsAs own rest

def rawBehind (before : Option Piece) (s : List Char) : List Char :=
  match before with
  | some (.openTag tag selfClosing) => (splitRawText tag.name selfClosing s).1
  | _ => []

/-- Raw text comes first, and where there is none a token does. -/
def Piece.ComesNext (before : Option Piece) (own rest : List Char) (p : Piece) : Prop :=
  if rawBehind before (own ++ rest) = [] then p.FromToken own rest
  else p = .text own ∧ own = rawBehind before (own ++ rest)

/-- Pieces as a text holds them, one behind the other with nothing between them; the text begins on
the given line, behind this piece. -/
def Written : Nat → Option Piece → List Piece → List Char → Prop
  | _, _, [], s => s = []
  | line, before, p :: ps, s => ∃ own rest, s = own ++ rest ∧ p.IsWritten line own rest ∧
      p.ComesNext before own rest ∧ Written (line + lineFeeds own) (some p) ps rest

namespace Token

theorem isWritten_readComment (cs : List Char) :
    (readComment cs).1.token.IsWritten (readComment cs).1.chars (readComment cs).2 := by
  have hcut := test_splitWhere_snd (['-', '-', '>'].isPrefixOf ·) cs
  unfold readComment
  split
  · exact .inr ⟨rfl, rfl⟩
  · rename_i body rest hrest hs
    rw [hs] at hcut
    obtain ⟨after, rfl⟩ := List.isPrefixOf_iff_prefix.1 (hcut (by simpa using hrest))
    exact .inl (by simp)

theorem isWritten_readDoctype (cs : List Char) :
    (readDoctype cs).1.token.IsWritten (readDoctype cs).1.chars (readDoctype cs).2 := by
  have hstop := stopsAt_dropWhile (· != '>') cs
  unfold readDoctype
  dsimp only
  split
  · trivial
  · rename_i c rest hd
    rw [hd] at hstop
    obtain rfl : c = '>' := by simpa using hstop
    rfl

theorem isWritten_readClose (cs : List Char) :
    (readClose cs).1.token.IsWritten (readClose cs).1.chars (readClose cs).2 := by
  unfold readClose
  dsimp only
  split
  · trivial
  · split
    · rename_i hc
      subst hc
      exact ⟨_, rfl, rfl⟩
    · trivial

theorem isWritten_readMarkup (cs : List Char) :
    (readMarkup cs).1.token.IsWritten (readMarkup cs).1.chars (readMarkup cs).2 := by
  unfold readMarkup
  split
  · split
    · exact isWritten_readComment _
    · split
      · exact isWritten_readDoctype _
      · trivial
  · split
    · exact isWritten_readClose _
    · trivial
  · split
    · exact ⟨_, rfl, rfl⟩
    · trivial

theorem isWritten_next {s rest : List Char} {l : Lexeme Token} (h : next s = some (l, rest)) :
    l.token.IsWritten l.chars rest := by
  unfold next at h
  split at h
  · cases h
  · split at h
    · have h := Option.some.inj h
      have := isWritten_readMarkup ‹_›
      rwa [h] at this
    · cases h
      trivial

end Token

theorem Token.readsAs_next {s rest : List Char} {l : Lexeme Token} (h : next s = some (l, rest)) :
    l.token.ReadsAs l.chars rest := by
  refine ⟨l, ?_, rfl, rfl⟩
  rwa [next_append h]

theorem written_textPieces {line : Nat} {tag : Tag} {selfClosing : Bool} {s : List Char}
    {ps : List Piece} (raw : List Char × List Char)
    (hraw : splitRawText tag.name selfClosing s = raw)
    (h : ∀ before, rawBehind before raw.2 = [] → Written (line + lineFeeds raw.1) before ps raw.2) :
    Written line (some (.openTag tag selfClosing)) (textPieces raw.1 ++ ps) s := by
  have hs : raw.1 ++ raw.2 = s := hraw ▸ splitRawText_append tag.name selfClosing s
  have hbehind : rawBehind (some (.openTag tag selfClosing)) s = raw.1 := congrArg Prod.fst hraw
  unfold textPieces
  split
  · rename_i he
    have hnone := List.isEmpty_iff.1 he
    rw [hnone, List.nil_append] at hs
    have hrest := h (some (.openTag tag selfClosing)) (by rw [hs, hbehind, hnone])
    rw [hs, hnone] at hrest
    simpa [lineFeeds] using hrest
  · rename_i he
    refine ⟨raw.1, raw.2, hs.symm, rfl, ?_, h _ rfl⟩
    rw [Piece.ComesNext, hs, hbehind, if_neg (by simpa using he)]
    exact ⟨rfl, rfl⟩

theorem comesNext_of_fromToken {before : Option Piece} {own rest s : List Char} {p : Piece}
    (hs : own ++ rest = s) (hb : rawBehind before s = []) (h : p.FromToken own rest) :
    p.ComesNext before own rest := by
  rw [Piece.ComesNext, hs, if_pos hb]
  exact h

theorem written_readPieces (line : Nat) (s : List Char) :
    ∀ before, rawBehind before s = [] → Written line before (readPieces line s) s := by
  fun_induction readPieces line s with
  | case1 line s h =>
    intro before hb
    cases s with
    | nil => rfl
    | cons c cs =>
      rw [Token.next] at h
      split at h <;> cases h
  | case2 line s l rest hn _ _ name ht inside raw _ ih =>
    intro before hb
    have hname := Token.isWritten_next hn
    have hreads := Token.readsAs_next hn
    rw [ht] at hname hreads
    have hinside := readAttributes_append .start rest
    have hs : l.chars ++ inside.chars ++ inside.rest = s := by
      rw [List.append_assoc, hinside, Token.next_append hn]
    refine ⟨l.chars ++ inside.chars, inside.rest, hs.symm,
      ⟨rfl, l.chars, inside.chars, rfl, ?_, ?_⟩,
      comesNext_of_fromToken hs hb ⟨l.chars, inside.chars, rfl, ?_⟩, ?_⟩
    · rwa [hinside]
    · rw [hinside]
    · rwa [hinside]
    · rw [lineFeeds_append, ← Nat.add_assoc]
      exact written_textPieces raw rfl ih
  | case3 line s l rest hn _ _ name ht ih | case4 line s l rest hn _ _ name ht ih
  | case5 line s l rest hn _ _ name ht ih =>
    intro before hb
    have hown := Token.isWritten_next hn
    have hreads := Token.readsAs_next hn
    have hs := Token.next_append hn
    rw [ht] at hown hreads
    exact ⟨l.chars, rest, hs.symm, hown, comesNext_of_fromToken hs hb hreads, ih _ rfl⟩
  | case6 line s l rest hn _ _ ht ih =>
    intro before hb
    have hreads := Token.readsAs_next hn
    have hs := Token.next_append hn
    rw [ht] at hreads
    exact ⟨l.chars, rest, hs.symm, rfl, comesNext_of_fromToken hs hb (.inl hreads), ih _ rfl⟩
  | case7 line s l rest hn _ _ ht ih =>
    intro before hb
    have hreads := Token.readsAs_next hn
    have hs := Token.next_append hn
    rw [ht] at hreads
    exact ⟨l.chars, rest, hs.symm, rfl, comesNext_of_fromToken hs hb (.inr hreads), ih _ rfl⟩

def Tag.StandsIn (t : Tag) (source : List Char) : Prop :=
  ∃ before name after, source = before ++ '<' :: (name ++ after) ∧ lowerAscii name = t.name ∧
    t.line = 1 + lineFeeds before

theorem Written.openTag {line : Nat} {before : Option Piece} {ps : List Piece} {s : List Char}
    (h : Written line before ps s) {tag : Tag} {selfClosing : Bool}
    (hp : .openTag tag selfClosing ∈ ps) :
    ∃ before name after, s = before ++ '<' :: (name ++ after) ∧ lowerAscii name = tag.name ∧
      tag.line = line + lineFeeds before := by
  induction ps generalizing line before s with
  | nil => cases hp
  | cons p ps ih =>
    obtain ⟨own, rest, rfl, hown, -, hps⟩ := h
    rcases List.mem_cons.1 hp with rfl | hp
    · obtain ⟨hline, _, inside, rfl, ⟨name, rfl, hname⟩, -⟩ := hown
      exact ⟨[], name, inside ++ rest, by simp, hname, hline⟩
    · obtain ⟨before, name, after, rfl, hname, hline⟩ := ih hps hp
      refine ⟨own ++ before, name, after, by simp, hname, ?_⟩
      rw [hline, lineFeeds_append, Nat.add_assoc]

end ComponentMarkup
