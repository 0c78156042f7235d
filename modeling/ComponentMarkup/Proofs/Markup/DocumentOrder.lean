import ComponentMarkup.Markup.Document
import ComponentMarkup.Proofs.Markup.WrittenPieces

set_option autoImplicit false

namespace ComponentMarkup

inductive Item where
  | tag (t : Tag)
  | comment (body : List Char)
  | doctype (body : List Char)
  | text (chars : List Char)
  deriving DecidableEq, Repr

def Item.tag? : Item → Option Tag
  | .tag t => some t
  | .comment _ | .doctype _ | .text _ => none

def Piece.item? : Piece → Option Item
  | .openTag tag _ => some (.tag tag)
  | .closeTag _ => none
  | .comment body => some (.comment body)
  | .doctype body => some (.doctype body)
  | .text chars => some (.text chars)

mutual

def Node.items : Node → List Item
  | .element tag children => .tag tag :: items children
  | .text chars => [.text chars]
  | .comment body => [.comment body]
  | .doctype body => [.doctype body]

def items : List Node → List Item
  | [] => []
  | n :: ns => n.items ++ items ns

end

def pushText (chars : List Char) : List Item → List Item
  | .text after :: rest => .text (chars ++ after) :: rest
  | rest => .text chars :: rest

def joinTexts : List Item → List Item
  | [] => []
  | .text chars :: rest => pushText chars (joinTexts rest)
  | item :: rest => item :: joinTexts rest

theorem items_append (a b : List Node) : items (a ++ b) = items a ++ items b := by
  induction a with
  | nil => rfl
  | cons n a ih => simp [items, ih]

theorem tags_eq_items (nodes : List Node) : tags nodes = (items nodes).filterMap Item.tag? := by
  induction nodes using nodes_induction with
  | nil => rfl
  | element tag children rest hc hr => simp [tags, Node.tags, items, Node.items, Item.tag?, hc, hr]
  | text chars rest hr =>
    simp [tags, Node.tags, items, Node.items, List.filterMap_cons, Item.tag?, hr]
  | comment body rest hr =>
    simp [tags, Node.tags, items, Node.items, List.filterMap_cons, Item.tag?, hr]
  | doctype body rest hr =>
    simp [tags, Node.tags, items, Node.items, List.filterMap_cons, Item.tag?, hr]

theorem tags_append (a b : List Node) : tags (a ++ b) = tags a ++ tags b := by
  rw [tags_eq_items, tags_eq_items, tags_eq_items, items_append, List.filterMap_append]

theorem tags_takeElements_subset (name : List Char) (nodes : List Node) :
    ∀ tag ∈ tags (takeElements name nodes).1, tag ∈ tags nodes := by
  induction nodes using nodes_induction with
  | nil => simp [takeElements, tags]
  | element tag children rest hc hr =>
    intro found hm
    rw [takeElements, Node.take, tags_append, List.mem_append] at hm
    simp only [tags, Node.tags, List.cons_append, List.mem_cons, List.mem_append]
    rcases hm with hm | hm
    · split at hm
      · cases hm
      · simp only [tags, Node.tags, List.append_nil, List.mem_cons] at hm
        exact hm.imp_right fun hm => .inl (hc _ hm)
    · exact .inr (.inr (hr _ hm))
  | text chars rest hr => exact hr
  | comment body rest hr => exact hr
  | doctype body rest hr => exact hr

theorem tags_subset_of_mem_elements {nodes : List Node} {e : Element} (he : e ∈ elements nodes) :
    ∀ tag ∈ tags e.children, tag ∈ tags nodes := by
  intro tag hm
  obtain ⟨n, hn, hne⟩ := List.mem_filterMap.1 he
  obtain ⟨before, after, rfl⟩ := List.append_of_mem hn
  cases n with
  | element head children =>
    cases hne
    simp [tags_append, tags, Node.tags, hm]
  | text chars => cases hne
  | comment body => cases hne
  | doctype body => cases hne

theorem pushText_pushText (a b : List Char) (rest : List Item) :
    pushText a (pushText b rest) = pushText (a ++ b) rest := by
  cases rest with
  | nil => rfl
  | cons item rest => cases item <;> simp [pushText]

theorem joinTexts_pushText_append (chars : List Char) (a b : List Item) :
    joinTexts (pushText chars a ++ b) = pushText chars (joinTexts (a ++ b)) := by
  cases a with
  | nil => rfl
  | cons item a =>
    cases item with
    | text after => exact (pushText_pushText chars after _).symm
    | tag t => rfl
    | comment body => rfl
    | doctype body => rfl

theorem joinTexts_append (a b : List Item) :
    joinTexts (a ++ b) = joinTexts (joinTexts a ++ b) := by
  induction a with
  | nil => rfl
  | cons item a ih =>
    cases item with
    | text chars => rw [List.cons_append, joinTexts, joinTexts, joinTexts_pushText_append, ih]
    | tag t => simp [joinTexts, ih]
    | comment body => simp [joinTexts, ih]
    | doctype body => simp [joinTexts, ih]

theorem joinTexts_append_congr {a a' : List Item} (h : joinTexts a = joinTexts a')
    (b : List Item) : joinTexts (a ++ b) = joinTexts (a' ++ b) := by
  rw [joinTexts_append, h, ← joinTexts_append]

theorem joinTexts_append_text (a : List Item) (before chars : List Char) :
    joinTexts (a ++ [.text (before ++ chars)]) =
      joinTexts (a ++ [.text before] ++ [.text chars]) := by
  induction a with
  | nil => rfl
  | cons item a ih => cases item <;> simp_all [joinTexts]

theorem tags_joinTexts (is : List Item) :
    (joinTexts is).filterMap Item.tag? = is.filterMap Item.tag? := by
  have hpush : ∀ chars (rest : List Item),
      (pushText chars rest).filterMap Item.tag? = rest.filterMap Item.tag? := by
    intro chars rest
    cases rest with
    | nil => rfl
    | cons item rest => cases item <;> rfl
  induction is with
  | nil => rfl
  | cons item rest ih =>
    cases item with
    | text chars => rw [joinTexts, hpush, ih]; rfl
    | tag t => simp [joinTexts, Item.tag?, ih]
    | comment body => simp [joinTexts, List.filterMap_cons, Item.tag?, ih]
    | doctype body => simp [joinTexts, List.filterMap_cons, Item.tag?, ih]

namespace TreeBuilder

def openedItems : List OpenElement → List Item
  | [] => []
  | e :: es => openedItems es ++ .tag e.tag :: items e.children.reverse

/-- What has been built so far: what is outside comes first, for nothing is added to it as long as an
element is open. -/
def items (b : TreeBuilder) : List Item :=
  ComponentMarkup.items b.roots.reverse ++ openedItems b.opened

theorem items_push (n : Node) (b : TreeBuilder) : (b.push n).items = b.items ++ n.items := by
  obtain ⟨opened, roots⟩ := b
  cases opened with
  | nil => simp [push, modifySiblings, items, openedItems, items_append, ComponentMarkup.items]
  | cons e es =>
    simp [push, modifySiblings, items, openedItems, items_append, ComponentMarkup.items]

theorem items_closeInnermost (b : TreeBuilder) : b.closeInnermost.items = b.items := by
  obtain ⟨opened, roots⟩ := b
  cases opened with
  | nil => rfl
  | cons e es =>
    simp only [closeInnermost]
    rw [items_push]
    simp [items, openedItems, Node.items]

theorem items_closeMany (n : Nat) (b : TreeBuilder) : (b.closeMany n).items = b.items := by
  induction n generalizing b with
  | zero => rfl
  | succ n ih => rw [closeMany, ih, items_closeInnermost]

theorem items_text (chars : List Char) (b : TreeBuilder) :
    joinTexts (b.modifySiblings (joinText chars)).items = joinTexts (b.items ++ [.text chars]) := by
  have hjoin : ∀ (before : List Item) (siblings : List Node),
      joinTexts (before ++ ComponentMarkup.items (joinText chars siblings).reverse) =
        joinTexts (before ++ ComponentMarkup.items siblings.reverse ++ [.text chars]) := by
    intro before siblings
    unfold joinText
    split
    · rename_i last ns
      simp only [List.reverse_cons, items_append, ComponentMarkup.items, Node.items, List.append_nil,
        ← List.append_assoc]
      exact joinTexts_append_text _ last chars
    · simp [items_append, ComponentMarkup.items, Node.items]
  obtain ⟨opened, roots⟩ := b
  cases opened with
  | nil => simpa [modifySiblings, items, openedItems] using hjoin [] roots
  | cons e es =>
    have h := hjoin (ComponentMarkup.items roots.reverse ++ (openedItems es ++ [.tag e.tag])) e.children
    simpa [modifySiblings, items, openedItems] using h

theorem items_add (b : TreeBuilder) (p : Piece) :
    joinTexts (b.add p).items = joinTexts (b.items ++ p.item?.toList) := by
  cases p with
  | openTag tag selfClosing =>
    simp only [add]
    split
    · rw [items_push]
      rfl
    · simp [items, openedItems, ComponentMarkup.items, Piece.item?]
  | closeTag name =>
    simp only [add, close]
    split
    · simp [Piece.item?]
    · simp [items_closeMany, Piece.item?]
  | comment body => rw [add, items_push]; rfl
  | doctype body => rw [add, items_push]; rfl
  | text chars => exact items_text chars b

theorem items_foldl_add (ps : List Piece) (b : TreeBuilder) :
    joinTexts (ps.foldl add b).items = joinTexts (b.items ++ ps.filterMap Piece.item?) := by
  induction ps generalizing b with
  | nil => simp
  | cons p ps ih =>
    rw [List.foldl_cons, ih, joinTexts_append_congr (items_add b p)]
    cases h : p.item? <;> simp [h]

theorem opened_closeInnermost (b : TreeBuilder) : b.closeInnermost.opened.length =
    b.opened.length - 1 := by
  obtain ⟨opened, roots⟩ := b
  cases opened with
  | nil => rfl
  | cons e es => cases es <;> rfl

theorem opened_closeMany (n : Nat) (b : TreeBuilder) :
    (b.closeMany n).opened.length = b.opened.length - n := by
  induction n generalizing b with
  | zero => rfl
  | succ n ih =>
    rw [closeMany, ih, opened_closeInnermost]
    omega

theorem opened_closeMany_all (b : TreeBuilder) : (b.closeMany b.opened.length).opened = [] := by
  rw [← List.length_eq_zero_iff, opened_closeMany]
  omega

theorem items_finish (b : TreeBuilder) : ComponentMarkup.items b.finish = b.items := by
  rw [← items_closeMany b.opened.length b, items, opened_closeMany_all, openedItems,
    List.append_nil, finish]

end TreeBuilder

theorem items_treeOfPieces (ps : List Piece) :
    joinTexts (items (treeOfPieces ps)) = joinTexts (ps.filterMap Piece.item?) := by
  rw [treeOfPieces, TreeBuilder.items_finish, TreeBuilder.items_foldl_add]
  rfl

/-- A parsed document holds, in document order, what its text is read as from left to right: each open
tag with its attributes, each comment and doctype, and as text what the lexer takes for text or for an
error, and the raw text of open tags. Only close tags are gone, and with them what kept texts apart. -/
theorem parse_in_document_order (source : List Char) :
    joinTexts (items (parse source)) = joinTexts ((pieces source).filterMap Piece.item?) ∧
      Written 1 none (pieces source) source :=
  ⟨items_treeOfPieces _, written_readPieces 1 source none rfl⟩

theorem standsIn_of_mem_tags_parse {source : List Char} {tag : Tag} (h : tag ∈ tags (parse source)) :
    tag.StandsIn source := by
  rw [tags_eq_items, ← tags_joinTexts, parse, items_treeOfPieces, tags_joinTexts,
    List.filterMap_filterMap] at h
  obtain ⟨p, hp, hpt⟩ := List.mem_filterMap.1 h
  cases p with
  | openTag t selfClosing =>
    cases hpt
    exact (written_readPieces 1 source none rfl).openTag hp
  | closeTag name => cases hpt
  | comment body => cases hpt
  | doctype body => cases hpt
  | text chars => cases hpt

end ComponentMarkup
