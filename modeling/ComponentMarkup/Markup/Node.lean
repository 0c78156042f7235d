import ComponentMarkup.Markup.Tag

set_option autoImplicit false

namespace ComponentMarkup

inductive Node where
  | element (tag : Tag) (children : List Node)
  | text (chars : List Char)
  | comment (body : List Char)
  | doctype (body : List Char)
  deriving Inhabited, Repr

@[elab_as_elim]
theorem nodes_induction {motive : List Node → Prop} (nil : motive [])
    (element : ∀ tag children rest, motive children → motive rest →
      motive (.element tag children :: rest))
    (text : ∀ chars rest, motive rest → motive (.text chars :: rest))
    (comment : ∀ body rest, motive rest → motive (.comment body :: rest))
    (doctype : ∀ body rest, motive rest → motive (.doctype body :: rest)) :
    ∀ nodes, motive nodes
  | [] => nil
  | .element tag children :: rest =>
    element tag children rest
      (nodes_induction nil element text comment doctype children)
      (nodes_induction nil element text comment doctype rest)
  | .text chars :: rest =>
    text chars rest (nodes_induction nil element text comment doctype rest)
  | .comment body :: rest =>
    comment body rest (nodes_induction nil element text comment doctype rest)
  | .doctype body :: rest =>
    doctype body rest (nodes_induction nil element text comment doctype rest)

structure Element where
  tag : Tag
  children : List Node
  deriving Repr

def Element.toNode (e : Element) : Node := .element e.tag e.children

def Node.element? : Node → Option Element
  | .element tag children => some ⟨tag, children⟩
  | .text _ | .comment _ | .doctype _ => none

def elements (nodes : List Node) : List Element := nodes.filterMap Node.element?

mutual

def Node.textContent : Node → List Char
  | .element _ children => textContents children
  | .text chars => chars
  | .comment _ | .doctype _ => []

def textContents : List Node → List Char
  | [] => []
  | n :: ns => n.textContent ++ textContents ns

end

mutual

def Node.findAll (name : List Char) : Node → List Element
  | .element tag children =>
    if tag.name = name then ⟨tag, children⟩ :: findAll name children else findAll name children
  | .text _ | .comment _ | .doctype _ => []

def findAll (name : List Char) : List Node → List Element
  | [] => []
  | n :: ns => n.findAll name ++ findAll name ns

end

mutual

def Node.take (name : List Char) : Node → List Node × List Element
  | .element tag children =>
    if tag.name = name then ([], [⟨tag, children⟩])
    else
      let (rest, taken) := takeElements name children
      ([.element tag rest], taken)
  | n@(.text _) | n@(.comment _) | n@(.doctype _) => ([n], [])

/-- Takes the elements of a name out, at any depth and each whole: the nodes left, and the elements
in document order. -/
def takeElements (name : List Char) : List Node → List Node × List Element
  | [] => ([], [])
  | n :: ns =>
    let (left, taken) := n.take name
    let (lefts, takens) := takeElements name ns
    (left ++ lefts, taken ++ takens)

end

mutual

def Node.mapTexts (f : List Char → List Char) : Node → Node
  | .element tag children => .element tag (mapTexts f children)
  | .text chars => .text (f chars)
  | n@(.comment _) | n@(.doctype _) => n

def mapTexts (f : List Char → List Char) : List Node → List Node
  | [] => []
  | n :: ns => n.mapTexts f :: mapTexts f ns

end

mutual

def Node.texts : Node → List (List Char)
  | .element _ children => texts children
  | .text chars => [chars]
  | .comment _ | .doctype _ => []

def texts : List Node → List (List Char)
  | [] => []
  | n :: ns => n.texts ++ texts ns

end

mutual

def Node.tags : Node → List Tag
  | .element tag children => tag :: tags children
  | .text _ | .comment _ | .doctype _ => []

def tags : List Node → List Tag
  | [] => []
  | n :: ns => n.tags ++ tags ns

end

mutual

def Node.visitTags {σ : Type} (f : Tag → σ → Tag × σ) : Node → σ → Node × σ
  | .element tag children, s =>
    let (tag, s) := f tag s
    let (children, s) := visitTags f children s
    (.element tag children, s)
  | .text chars, s => (.text chars, s)
  | .comment body, s => (.comment body, s)
  | .doctype body, s => (.doctype body, s)

/-- Changes every open tag, parents before children, with a state that is handed on from one to the
next. -/
def visitTags {σ : Type} (f : Tag → σ → Tag × σ) : List Node → σ → List Node × σ
  | [], s => ([], s)
  | n :: ns, s =>
    let (n, s) := n.visitTags f s
    let (ns, s) := visitTags f ns s
    (n :: ns, s)

end

def elementAt? : List Nat → List Node → Option Element
  | [], _ => none
  | [i], nodes => nodes[i]?.bind Node.element?
  | i :: j :: way, nodes => (nodes[i]?.bind Node.element?).bind (elementAt? (j :: way) ·.children)

def modifyTagAt (f : Tag → Tag) : List Nat → List Node → List Node
  | [], nodes => nodes
  | [i], nodes => nodes.modify i fun
    | .element tag children => .element (f tag) children
    | n => n
  | i :: j :: way, nodes => nodes.modify i fun
    | .element tag children => .element tag (modifyTagAt f (j :: way) children)
    | n => n

end ComponentMarkup
