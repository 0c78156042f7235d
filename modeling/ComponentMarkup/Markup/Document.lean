import ComponentMarkup.Markup.Node
import ComponentMarkup.Markup.Piece

/-!
From pieces to a tree. Reading never fails: a close tag without an open one is dropped, and what is
open at the end is closed there.
-/

set_option autoImplicit false

namespace ComponentMarkup

structure OpenElement where
  tag : Tag
  children : List Node
  deriving Repr

/-- The open elements, innermost first, and the nodes outside of them, latest first. -/
structure TreeBuilder where
  opened : List OpenElement
  roots : List Node
  deriving Repr

def TreeBuilder.start : TreeBuilder := ⟨[], []⟩

def TreeBuilder.modifySiblings (f : List Node → List Node) (b : TreeBuilder) : TreeBuilder :=
  match b.opened with
  | [] => { b with roots := f b.roots }
  | e :: es => { b with opened := { e with children := f e.children } :: es }

def TreeBuilder.push (n : Node) : TreeBuilder → TreeBuilder := modifySiblings (n :: ·)

def joinText (chars : List Char) : List Node → List Node
  | .text before :: ns => .text (before ++ chars) :: ns
  | ns => .text chars :: ns

def TreeBuilder.closeInnermost (b : TreeBuilder) : TreeBuilder :=
  match b.opened with
  | [] => b
  | e :: es => push (.element e.tag e.children.reverse) { b with opened := es }

def TreeBuilder.closeMany : Nat → TreeBuilder → TreeBuilder
  | 0, b => b
  | n + 1, b => closeMany n b.closeInnermost

/-- Closes the innermost open element of a name, with all that is open inside of it. -/
def TreeBuilder.close (name : List Char) (b : TreeBuilder) : TreeBuilder :=
  match b.opened.findIdx? (·.tag.name == name) with
  | none => b
  | some depth => b.closeMany (depth + 1)

def TreeBuilder.add (b : TreeBuilder) : Piece → TreeBuilder
  | .openTag tag selfClosing =>
    if selfClosing || isVoid tag.name then b.push (.element tag [])
    else { b with opened := ⟨tag, []⟩ :: b.opened }
  | .closeTag name => b.close name
  | .comment body => b.push (.comment body)
  | .doctype body => b.push (.doctype body)
  | .text chars => b.modifySiblings (joinText chars)

def TreeBuilder.finish (b : TreeBuilder) : List Node := (b.closeMany b.opened.length).roots.reverse

def treeOfPieces (ps : List Piece) : List Node := (ps.foldl TreeBuilder.add .start).finish

def parse (source : List Char) : List Node := treeOfPieces (pieces source)

end ComponentMarkup
