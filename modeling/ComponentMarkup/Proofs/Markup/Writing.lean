import ComponentMarkup.Markup.Render

set_option autoImplicit false

namespace ComponentMarkup

/-- A writer on its way through a tree: what it has written, and how many of the elements that it is in
keep white space. -/
structure Writer where
  out : List Char
  preserving : Nat
  deriving DecidableEq, Repr

def Writer.put (w : Writer) (chars : List Char) : Writer := { w with out := w.out ++ chars }

def Writer.enter (w : Writer) (name : List Char) : Writer :=
  if preservesBlanks name then { w with preserving := w.preserving + 1 } else w

def Writer.leave (w : Writer) (name : List Char) : Writer :=
  if preservesBlanks name then { w with preserving := w.preserving - 1 } else w

def Writer.putText (minify : Bool) (parent : Option (List Char)) (w : Writer) (chars : List Char) :
    Writer :=
  if !minify || 0 < w.preserving then w.put chars else w.put (minifyText parent chars)

mutual

def Node.write (minify : Bool) (parent : Option (List Char)) (w : Writer) : Node → Writer
  | .element tag children =>
    if isVoid tag.name then w.put tag.renderOpen
    else
      ((writeNodes minify (some tag.name) ((w.put tag.renderOpen).enter tag.name) children).leave
        tag.name).put tag.renderClose
  | .text chars => w.putText minify parent chars
  | .comment body => if minify then w else w.put ("<!--".toList ++ (body ++ "-->".toList))
  | .doctype body => w.put ("<!".toList ++ (body ++ ">".toList))

def writeNodes (minify : Bool) (parent : Option (List Char)) (w : Writer) : List Node → Writer
  | [] => w
  | n :: ns => writeNodes minify parent (n.write minify parent w) ns

end

def Writer.context (minify : Bool) (parent : Option (List Char)) (w : Writer) : RenderContext :=
  ⟨minify, 0 < w.preserving, parent⟩

@[simp] theorem Writer.put_nil (w : Writer) : w.put [] = w := by simp [put]

theorem Writer.put_put (w : Writer) (a b : List Char) : (w.put a).put b = w.put (a ++ b) := by
  simp [put]

@[simp] theorem Writer.context_put (minify : Bool) (parent : Option (List Char)) (w : Writer)
    (chars : List Char) : (w.put chars).context minify parent = w.context minify parent := rfl

theorem Writer.context_enter (minify : Bool) (parent : Option (List Char)) (w : Writer)
    (name : List Char) :
    (w.enter name).context minify (some name) = (w.context minify parent).inside name := by
  unfold enter context RenderContext.inside
  cases preservesBlanks name <;> simp

theorem Writer.leave_enter (w : Writer) (name chars : List Char) :
    ((w.enter name).put chars).leave name = w.put chars := by
  unfold enter leave
  cases preservesBlanks name <;> rfl

theorem Writer.putText_eq (minify : Bool) (parent : Option (List Char)) (w : Writer)
    (chars : List Char) :
    w.putText minify parent chars = w.put ((Node.text chars).render (w.context minify parent)) := by
  unfold putText context Node.render
  cases minify <;> rcases Nat.eq_zero_or_pos w.preserving with h | h <;> simp [h]

/-- Nodes are put behind what is written already, and as many preserving elements are open as before. -/
theorem writeNodes_eq (minify : Bool) (parent : Option (List Char)) (w : Writer) (ns : List Node) :
    writeNodes minify parent w ns = w.put (renderNodes (w.context minify parent) ns) := by
  induction ns using nodes_induction generalizing parent w with
  | nil => simp [writeNodes, renderNodes]
  | element tag children rest hchildren hrest =>
    have hn : (Node.element tag children).write minify parent w =
        w.put ((Node.element tag children).render (w.context minify parent)) := by
      unfold Node.write Node.render
      split
      · rfl
      · rw [hchildren, Writer.context_enter minify parent, Writer.context_put, Writer.leave_enter,
          Writer.put_put, Writer.put_put]
    rw [writeNodes, renderNodes, hn, hrest, Writer.put_put, Writer.context_put]
  | text chars rest hrest =>
    rw [writeNodes, renderNodes, Node.write, Writer.putText_eq, hrest, Writer.put_put,
      Writer.context_put]
  | comment body rest hrest =>
    rw [writeNodes, renderNodes, Node.write, Node.render, hrest]
    cases minify
    · exact Writer.put_put w _ _
    · rfl
  | doctype body rest hrest =>
    rw [writeNodes, renderNodes, Node.write, Node.render, hrest, Writer.put_put, Writer.context_put]

/-- A tree is rendered as a writer writes it that counts the preserving elements around it. -/
theorem writeNodes_eq_render (minify : Bool) (ns : List Node) :
    writeNodes minify none ⟨[], 0⟩ ns = ⟨render minify ns, 0⟩ :=
  writeNodes_eq minify none ⟨[], 0⟩ ns

end ComponentMarkup
