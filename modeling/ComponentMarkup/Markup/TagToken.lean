import ComponentMarkup.Markup.Token

set_option autoImplicit false

namespace ComponentMarkup

def isAttributeNameChar (c : Char) : Bool := !(isSpace c || ['"', '\'', '<', '>', '/', '='].contains c)

inductive TagToken where
  | close
  | selfClose
  | slash
  | equals
  | quoted (value : List Char)
  | name (chars : List Char)
  | error
  deriving DecidableEq, Repr

def TagToken.readQuoted (q : Char) (cs : List Char) : TagToken × List Char × List Char :=
  let value := cs.takeWhile (· != q)
  match cs.dropWhile (· != q) with
  | [] => (.error, q :: value, [])
  | c :: rest => (.quoted value, q :: value ++ [c], rest)

def TagToken.read (c : Char) (cs : List Char) : TagToken × List Char × List Char :=
  if c = '>' then (.close, [c], cs)
  else if c = '=' then (.equals, [c], cs)
  else if c = '/' then
    match cs with
    | '>' :: rest => (.selfClose, ['/', '>'], rest)
    | cs => (.slash, ['/'], cs)
  else if c = '"' ∨ c = '\'' then readQuoted c cs
  else if isAttributeNameChar c then
    (.name (c :: cs.takeWhile isAttributeNameChar), c :: cs.takeWhile isAttributeNameChar,
      cs.dropWhile isAttributeNameChar)
  else (.error, [c], cs)

def TagToken.next (s : List Char) : Option (Lexeme TagToken × List Char) :=
  match s.dropWhile isSpace with
  | [] => none
  | c :: cs =>
    let (token, chars, rest) := read c cs
    some (⟨s.takeWhile isSpace, token, chars⟩, rest)

theorem TagToken.readQuoted_append (q : Char) (cs : List Char) :
    (readQuoted q cs).2.1 ++ (readQuoted q cs).2.2 = q :: cs := by
  have h := List.takeWhile_append_dropWhile (p := (· != q)) (l := cs)
  unfold readQuoted
  dsimp only
  split
  · rename_i hd
    simp only [hd] at h
    simpa using h
  · rename_i hd
    simp only [hd] at h
    simpa using h

theorem TagToken.readQuoted_chars_ne_nil (q : Char) (cs : List Char) :
    (readQuoted q cs).2.1 ≠ [] := by
  unfold readQuoted
  dsimp only
  split <;> simp

theorem TagToken.read_append (c : Char) (cs : List Char) :
    (read c cs).2.1 ++ (read c cs).2.2 = c :: cs := by
  unfold read
  split
  · rfl
  · split
    · rfl
    · split
      · rename_i h
        subst h
        split <;> rfl
      · split
        · exact readQuoted_append c cs
        · split
          · simp
          · rfl

theorem TagToken.read_chars_ne_nil (c : Char) (cs : List Char) : (read c cs).2.1 ≠ [] := by
  unfold read
  split
  · simp
  · split
    · simp
    · split
      · split <;> simp
      · split
        · exact readQuoted_chars_ne_nil c cs
        · split <;> simp

theorem TagToken.next_append {s rest : List Char} {l : Lexeme TagToken}
    (h : next s = some (l, rest)) : l.source ++ rest = s := by
  unfold next at h
  split at h
  · cases h
  · rename_i c cs hd
    simp only [Option.some.injEq, Prod.mk.injEq] at h
    obtain ⟨rfl, rfl⟩ := h
    rw [Lexeme.source, List.append_assoc, read_append, ← hd, List.takeWhile_append_dropWhile]

theorem TagToken.length_next {s rest : List Char} {l : Lexeme TagToken}
    (h : next s = some (l, rest)) : rest.length < s.length := by
  have ha := congrArg List.length (next_append h)
  have hn : 0 < l.chars.length := by
    unfold next at h
    split at h
    · cases h
    · simp only [Option.some.injEq, Prod.mk.injEq] at h
      obtain ⟨rfl, -⟩ := h
      exact List.length_pos_iff.2 (read_chars_ne_nil _ _)
  rw [Lexeme.source, List.length_append, List.length_append] at ha
  omega

def TagToken.lex (s : List Char) : List (Lexeme TagToken) :=
  match h : next s with
  | none => []
  | some (l, rest) =>
    have := length_next h
    l :: lex rest
termination_by s.length

end ComponentMarkup
