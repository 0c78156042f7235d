import ComponentMarkup.Markup.Tag

set_option autoImplicit false

namespace ComponentMarkup

inductive Piece where
  | openTag (tag : Tag) (selfClosing : Bool)
  | closeTag (name : List Char)
  | comment (body : List Char)
  | doctype (body : List Char)
  | text (chars : List Char)
  deriving DecidableEq, Repr

/-- The raw text behind an open tag, up to the first place where its close tag may begin; nothing
behind a tag that holds no raw text. -/
def splitRawText (name : List Char) (selfClosing : Bool) (s : List Char) : List Char × List Char :=
  if selfClosing || isVoid name || !isRawText name then ([], s)
  else splitWhere (startsWithCaseless ('<' :: '/' :: name)) s

theorem splitRawText_append (name : List Char) (selfClosing : Bool) (s : List Char) :
    (splitRawText name selfClosing s).1 ++ (splitRawText name selfClosing s).2 = s := by
  unfold splitRawText
  split
  · rfl
  · exact splitWhere_append _ s

theorem length_splitRawText_le (name : List Char) (selfClosing : Bool) (s : List Char) :
    (splitRawText name selfClosing s).2.length ≤ s.length := by
  have h := congrArg List.length (splitRawText_append name selfClosing s)
  rw [List.length_append] at h
  omega

def textPieces (s : List Char) : List Piece := if s.isEmpty then [] else [.text s]

/-- The pieces of a text that begins on the given line. What no token explains is text. -/
def readPieces (line : Nat) (s : List Char) : List Piece :=
  match h : Token.next s with
  | none => []
  | some (l, rest) =>
    have := Token.length_next h
    let after := line + lineFeeds l.chars
    match l.token with
    | .tagOpen name =>
      let inside := readAttributes .start rest
      let raw := splitRawText name inside.selfClosing inside.rest
      have : raw.2.length ≤ rest.length :=
        Nat.le_trans (length_splitRawText_le _ _ _) (length_readAttributes .start rest)
      .openTag ⟨name, inside.attrs, line⟩ inside.selfClosing :: (textPieces raw.1 ++
        readPieces (after + lineFeeds inside.chars + lineFeeds raw.1) raw.2)
    | .tagClose name => .closeTag name :: readPieces after rest
    | .comment body => .comment body :: readPieces after rest
    | .doctype body => .doctype body :: readPieces after rest
    | .text | .error => .text l.chars :: readPieces after rest
termination_by s.length
decreasing_by all_goals (try subst raw inside); omega

def pieces (source : List Char) : List Piece := readPieces 1 source

end ComponentMarkup
