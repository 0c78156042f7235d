import ComponentMarkup.Markup.Node
import ComponentMarkup.Text.Blank

set_option autoImplicit false

namespace ComponentMarkup

def preservingNames : List (List Char) :=
  ["pre", "textarea", "script", "style"].map String.toList

def structuralNames : List (List Char) := ["html", "head"].map String.toList

def preservesBlanks (name : List Char) : Bool := preservingNames.contains name

/-- Whether blanks alone mean nothing below this parent; at top level they mean nothing. -/
def isStructural : Option (List Char) → Bool
  | none => true
  | some name => structuralNames.contains name

def escapeQuotes (value : List Char) : List Char :=
  value.flatMap fun c => if c = '"' then "&quot;".toList else [c]

def Attribute.render (a : Attribute) : List Char :=
  match a.value with
  | none => ' ' :: a.name
  | some value => ' ' :: (a.name ++ '=' :: '"' :: (escapeQuotes value ++ ['"']))

def Tag.renderOpen (t : Tag) : List Char :=
  '<' :: (t.name ++ (t.attrs.flatMap Attribute.render ++ ['>']))

def Tag.renderClose (t : Tag) : List Char := '<' :: '/' :: (t.name ++ ['>'])

/-- Every run of blanks becomes one space; `inBlanks` tells that a run has begun. -/
def collapseFrom (inBlanks : Bool) : List Char → List Char
  | [] => []
  | c :: cs =>
    if isBlank c then if inBlanks then collapseFrom true cs else ' ' :: collapseFrom true cs
    else c :: collapseFrom false cs

def collapseBlanks (s : List Char) : List Char := collapseFrom false s

def minifyText (parent : Option (List Char)) (s : List Char) : List Char :=
  if allBlank s && isStructural parent then [] else collapseBlanks s

structure RenderContext where
  minify : Bool
  preserving : Bool
  parent : Option (List Char)
  deriving DecidableEq, Repr

def RenderContext.inside (c : RenderContext) (name : List Char) : RenderContext :=
  { c with preserving := c.preserving || preservesBlanks name, parent := some name }

mutual

def Node.render (c : RenderContext) : Node → List Char
  | .element tag children =>
    if isVoid tag.name then tag.renderOpen
    else tag.renderOpen ++ (renderNodes (c.inside tag.name) children ++ tag.renderClose)
  | .text chars => if c.minify && !c.preserving then minifyText c.parent chars else chars
  | .comment body => if c.minify then [] else "<!--".toList ++ (body ++ "-->".toList)
  | .doctype body => "<!".toList ++ (body ++ ">".toList)

def renderNodes (c : RenderContext) : List Node → List Char
  | [] => []
  | n :: ns => n.render c ++ renderNodes c ns

end

def render (minify : Bool) (nodes : List Node) : List Char := renderNodes ⟨minify, false, none⟩ nodes

end ComponentMarkup
