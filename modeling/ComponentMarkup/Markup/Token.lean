import ComponentMarkup.Text.Blank
import ComponentMarkup.Text.Bytes
import ComponentMarkup.Text.Case
import ComponentMarkup.Text.Split

/-!
The tokens of markup between tags. A token is read greedily; a close tag that breaks off after its
name, or a doctype without an end, is an error that covers all that was read. Main statement:
`Token.next_append`, no character is lost or repeated.
-/

set_option autoImplicit false

namespace ComponentMarkup

/-- White space of the markup: space, tab, carriage return, line feed and form feed. -/
def isSpace (c : Char) : Bool := [' ', '\t', '\r', '\n', '\x0c'].contains c

def isTagNameChar (c : Char) : Bool := !(isSpace c || ['/', '<', '>'].contains c)

inductive Token where
  | comment (body : List Char)
  | doctype (body : List Char)
  | tagOpen (name : List Char)
  | tagClose (name : List Char)
  | text
  | error
  deriving DecidableEq, Repr

/-- A token, the characters it was read from, and the white space skipped before them. -/
structure Lexeme (α : Type) where
  gap : List Char
  token : α
  chars : List Char
  deriving DecidableEq, Repr

def Lexeme.source {α : Type} (l : Lexeme α) : List Char := l.gap ++ l.chars

structure Spanned (α : Type) where
  token : α
  start : Nat
  stop : Nat
  deriving DecidableEq, Repr

def Lexeme.spans {α : Type} (offset : Nat) : List (Lexeme α) → List (Spanned α)
  | [] => []
  | l :: ls =>
    let start := offset + byteLength l.gap
    let stop := start + byteLength l.chars
    ⟨l.token, start, stop⟩ :: spans stop ls

def Token.readComment (cs : List Char) : Lexeme Token × List Char :=
  let opening := ['<', '!', '-', '-']
  match splitWhere (['-', '-', '>'].isPrefixOf ·) cs with
  | (body, []) => (⟨[], .comment body, opening ++ body⟩, [])
  | (body, rest) => (⟨[], .comment body, opening ++ body ++ rest.take 3⟩, rest.drop 3)

def Token.readDoctype (cs : List Char) : Lexeme Token × List Char :=
  let body := cs.takeWhile (· != '>')
  match cs.dropWhile (· != '>') with
  | [] => (⟨[], .error, '<' :: '!' :: body⟩, [])
  | c :: rest => (⟨[], .doctype body, '<' :: '!' :: body ++ [c]⟩, rest)

def Token.readOpen (cs : List Char) : Lexeme Token × List Char :=
  let name := cs.takeWhile isTagNameChar
  (⟨[], .tagOpen (lowerAscii name), '<' :: name⟩, cs.dropWhile isTagNameChar)

/-- What stands after `</`, beginning with a letter. Blanks beyond the markup's own may end the
name of an open tag; a close tag loses them. -/
def Token.readClose (cs : List Char) : Lexeme Token × List Char :=
  let name := cs.takeWhile isTagNameChar
  let after := cs.dropWhile isTagNameChar
  let space := after.takeWhile isSpace
  match after.dropWhile isSpace with
  | [] => (⟨[], .error, '<' :: '/' :: (name ++ space)⟩, [])
  | c :: rest =>
    if c = '>' then
      (⟨[], .tagClose (lowerAscii (trimRight (name ++ space))), '<' :: '/' :: (name ++ space ++ [c])⟩,
        rest)
    else (⟨[], .error, '<' :: '/' :: (name ++ space)⟩, c :: rest)

def startsWithLetter : List Char → Bool
  | [] => false
  | c :: _ => c.isAlpha

def Token.readBracket (cs : List Char) : Lexeme Token × List Char := (⟨[], .text, ['<']⟩, cs)

def Token.readMarkup : List Char → Lexeme Token × List Char
  | '!' :: cs =>
    if ['-', '-'].isPrefixOf cs then readComment (cs.drop 2)
    else if startsWithCaseless "doctype".toList cs then readDoctype cs
    else readBracket ('!' :: cs)
  | '/' :: cs => if startsWithLetter cs then readClose cs else readBracket ('/' :: cs)
  | cs => if startsWithLetter cs then readOpen cs else readBracket cs

def Token.next : List Char → Option (Lexeme Token × List Char)
  | [] => none
  | c :: cs =>
    if c = '<' then some (readMarkup cs)
    else some (⟨[], .text, c :: cs.takeWhile (· != '<')⟩, cs.dropWhile (· != '<'))

theorem Token.readComment_append (cs : List Char) :
    (readComment cs).1.chars ++ (readComment cs).2 = '<' :: '!' :: '-' :: '-' :: cs := by
  have h := splitWhere_append (['-', '-', '>'].isPrefixOf ·) cs
  unfold readComment
  split
  · rename_i body hs
    simp only [hs] at h
    simpa using h
  · rename_i body rest _ hs
    simp only [hs] at h
    simp [← h]

theorem Token.readDoctype_append (cs : List Char) :
    (readDoctype cs).1.chars ++ (readDoctype cs).2 = '<' :: '!' :: cs := by
  have h := List.takeWhile_append_dropWhile (p := (· != '>')) (l := cs)
  unfold readDoctype
  split
  · rename_i hd
    simp only [hd] at h
    simpa using h
  · rename_i c rest hd
    simp only [hd] at h
    simpa using h

theorem Token.readOpen_append (cs : List Char) :
    (readOpen cs).1.chars ++ (readOpen cs).2 = '<' :: cs := by
  simp [readOpen]

theorem Token.readClose_append (cs : List Char) :
    (readClose cs).1.chars ++ (readClose cs).2 = '<' :: '/' :: cs := by
  have h := List.takeWhile_append_dropWhile (p := isTagNameChar) (l := cs)
  have h' := List.takeWhile_append_dropWhile (p := isSpace) (l := cs.dropWhile isTagNameChar)
  unfold readClose
  dsimp only
  split
  · rename_i hd
    rw [hd, List.append_nil] at h'
    simp [h', h]
  · rename_i c rest hd
    rw [hd] at h'
    split <;> simp [h', h]

theorem Token.readMarkup_append (cs : List Char) :
    (readMarkup cs).1.chars ++ (readMarkup cs).2 = '<' :: cs := by
  unfold readMarkup
  split
  · split
    · rename_i h
      obtain ⟨t, rfl⟩ := List.isPrefixOf_iff_prefix.1 h
      simpa using readComment_append t
    · split
      · exact readDoctype_append _
      · rfl
  · split
    · exact readClose_append _
    · rfl
  · split
    · exact readOpen_append _
    · rfl

theorem Token.next_append {s rest : List Char} {l : Lexeme Token} (h : next s = some (l, rest)) :
    l.chars ++ rest = s := by
  unfold next at h
  split at h
  · cases h
  · split at h
    · rename_i hc
      have h := Option.some.inj h
      rw [hc, ← readMarkup_append, h]
    · cases h
      simp

theorem Token.readMarkup_chars_ne_nil (cs : List Char) : (readMarkup cs).1.chars ≠ [] := by
  have shape : ∀ cs, (readComment cs).1.chars ≠ [] ∧ (readDoctype cs).1.chars ≠ [] ∧
      (readClose cs).1.chars ≠ [] ∧ (readOpen cs).1.chars ≠ [] ∧ (readBracket cs).1.chars ≠ [] := by
    intro cs
    refine ⟨?_, ?_, ?_, by simp [readOpen], by simp [readBracket]⟩
    · unfold readComment; split <;> simp
    · unfold readDoctype; split <;> simp
    · unfold readClose; dsimp only; split
      · simp
      · split <;> simp
  unfold readMarkup
  split
  · split
    · exact (shape _).1
    · split
      · exact (shape _).2.1
      · exact (shape _).2.2.2.2
  · split
    · exact (shape _).2.2.1
    · exact (shape _).2.2.2.2
  · split
    · exact (shape _).2.2.2.1
    · exact (shape _).2.2.2.2

theorem Token.next_chars_ne_nil {s rest : List Char} {l : Lexeme Token}
    (h : next s = some (l, rest)) : l.chars ≠ [] := by
  unfold next at h
  split at h
  · cases h
  · split at h
    · have h := Option.some.inj h
      have := readMarkup_chars_ne_nil ‹_›
      rwa [h] at this
    · cases h
      simp

theorem Token.length_next {s rest : List Char} {l : Lexeme Token} (h : next s = some (l, rest)) :
    rest.length < s.length := by
  have ha := congrArg List.length (next_append h)
  have hn := List.length_pos_iff.2 (next_chars_ne_nil h)
  rw [List.length_append] at ha
  omega

def Token.lex (s : List Char) : List (Lexeme Token) :=
  match h : next s with
  | none => []
  | some (l, rest) =>
    have := length_next h
    l :: lex rest
termination_by s.length

end ComponentMarkup
