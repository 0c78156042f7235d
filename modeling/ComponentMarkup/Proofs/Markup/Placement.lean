import ComponentMarkup.Proofs.Markup.DocumentOrder
import ComponentMarkup.Proofs.Markup.PieceReading

/-!
Trees as sequences: every open tag and every character with the number of elements around it. Main
statements: `unnumbered_eq_of_placed`, such a sequence determines its tree, but for lines; and
`TreeBuilder.placed_finish` with one lemma for each step, what reading adds to the sequence.
-/

set_option autoImplicit false

namespace ComponentMarkup

mutual

def Node.unnumbered : Node → Node
  | .element tag children => .element { tag with line := 0 } (unnumbered children)
  | n@(.text _) | n@(.comment _) | n@(.doctype _) => n

def unnumbered : List Node → List Node
  | [] => []
  | n :: ns => n.unnumbered :: unnumbered ns

end

inductive Glyph where
  | tag (name : List Char) (attrs : List Attribute)
  | char (c : Char)
  | comment (body : List Char)
  | doctype (body : List Char)
  deriving DecidableEq, Repr

def Item.glyphs : Item → List Glyph
  | .tag t => [.tag t.name t.attrs]
  | .comment body => [.comment body]
  | .doctype body => [.doctype body]
  | .text chars => chars.map .char

mutual

def Node.placed (depth : Nat) : Node → List (Nat × Glyph)
  | .element tag children => (depth, .tag tag.name tag.attrs) :: placed (depth + 1) children
  | .text chars => chars.map fun c => (depth, .char c)
  | .comment body => [(depth, .comment body)]
  | .doctype body => [(depth, .doctype body)]

/-- The parts of a document in document order, each with its depth. -/
def placed (depth : Nat) : List Node → List (Nat × Glyph)
  | [] => []
  | n :: ns => n.placed depth ++ placed depth ns

end

theorem placed_append (depth : Nat) (a b : List Node) :
    placed depth (a ++ b) = placed depth a ++ placed depth b := by
  induction a with
  | nil => rfl
  | cons n a ih => simp [placed, ih]

theorem placed_unnumbered (nodes : List Node) (depth : Nat) :
    placed depth (unnumbered nodes) = placed depth nodes := by
  induction nodes using nodes_induction generalizing depth with
  | nil => rfl
  | element tag children rest hchildren hrest =>
    simp [unnumbered, Node.unnumbered, placed, Node.placed, hchildren, hrest]
  | text _ rest hrest | comment _ rest hrest | doctype _ rest hrest =>
    simp [unnumbered, Node.unnumbered, placed, hrest]

def glyphs (nodes : List Node) : List Glyph := (items nodes).flatMap Item.glyphs

theorem glyphs_element (tag : Tag) (children ns : List Node) :
    glyphs (.element tag children :: ns) =
      .tag tag.name tag.attrs :: (glyphs children ++ glyphs ns) := by
  simp [glyphs, items, Node.items, Item.glyphs]

theorem glyphs_text (chars : List Char) (ns : List Node) :
    glyphs (.text chars :: ns) = chars.map .char ++ glyphs ns := by
  simp [glyphs, items, Node.items, Item.glyphs]

theorem placed_snd (nodes : List Node) (depth : Nat) :
    (placed depth nodes).map Prod.snd = glyphs nodes := by
  induction nodes using nodes_induction generalizing depth with
  | nil => rfl
  | element tag children rest hchildren hrest =>
    simp [placed, Node.placed, hchildren, hrest, glyphs_element]
  | text chars rest hrest =>
    simp [placed, Node.placed, hrest, glyphs_text, Function.comp_def]
  | comment _ rest hrest | doctype _ rest hrest =>
    simp [placed, Node.placed, hrest, glyphs, items, Node.items, Item.glyphs]

theorem glyphs_unnumbered (nodes : List Node) : glyphs (unnumbered nodes) = glyphs nodes := by
  rw [← placed_snd _ 0, placed_unnumbered, placed_snd]

theorem glyphs_joinTexts (is : List Item) :
    (joinTexts is).flatMap Item.glyphs = is.flatMap Item.glyphs := by
  have hpush : ∀ (chars : List Char) (is : List Item), (pushText chars is).flatMap Item.glyphs =
      chars.map .char ++ is.flatMap Item.glyphs := by
    intro chars is
    cases is with
    | nil => rfl
    | cons item is => cases item <;> simp [pushText, Item.glyphs]
  induction is with
  | nil => rfl
  | cons item is ih =>
    cases item with
    | text chars => rw [joinTexts, hpush, ih, List.flatMap_cons, Item.glyphs]
    | tag t => simp [joinTexts, ih]
    | comment body => simp [joinTexts, ih]
    | doctype body => simp [joinTexts, ih]

/-- The siblings at this depth end here. -/
def EndsSiblings (depth : Nat) (ps : List (Nat × Glyph)) : Prop := ∀ p ∈ ps.head?, p.1 < depth

theorem endsSiblings_nil (depth : Nat) : EndsSiblings depth [] := by simp [EndsSiblings]

theorem head_placed {n : Node} (hn : n.Shaped) (depth : Nat) :
    ∃ glyph rest, n.placed depth = (depth, glyph) :: rest ∧ glyph.ctorIdx = n.ctorIdx := by
  cases n with
  | element tag children => exact ⟨_, _, rfl, rfl⟩
  | text chars =>
    obtain ⟨c, cs, rfl⟩ := List.exists_cons_of_ne_nil hn
    exact ⟨_, _, rfl, rfl⟩
  | comment body => exact ⟨_, _, rfl, rfl⟩
  | doctype body => exact ⟨_, _, rfl, rfl⟩

theorem head?_placed {n : Node} (hn : n.Shaped) (ns : List Node) (depth : Nat)
    (ps : List (Nat × Glyph)) :
    ∃ glyph, (placed depth (n :: ns) ++ ps).head? = some (depth, glyph) ∧
      glyph.ctorIdx = n.ctorIdx := by
  obtain ⟨glyph, rest, hhead, hkind⟩ := head_placed hn depth
  refine ⟨glyph, ?_, hkind⟩
  rw [placed, hhead]
  rfl

theorem endsSiblings_placed {ns : List Node} (hs : Shaped ns) {depth : Nat}
    {ps : List (Nat × Glyph)} (hp : EndsSiblings depth ps) :
    EndsSiblings (depth + 1) (placed depth ns ++ ps) := by
  cases ns with
  | nil => exact fun p hm => Nat.lt_succ_of_lt (hp p hm)
  | cons n ns =>
    obtain ⟨glyph, hhead, -⟩ := head?_placed hs.1 ns depth ps
    intro p hm
    obtain rfl := Option.some.inj (hhead.symm.trans hm)
    exact Nat.lt_succ_self depth

theorem char_of_head_placed {ns : List Node} (hs : Shaped ns) (ht : startsWithText ns = false)
    {depth : Nat} {ps : List (Nat × Glyph)} (hp : EndsSiblings depth ps) (c : Char) :
    (placed depth ns ++ ps).head? ≠ some (depth, .char c) := by
  intro hc
  cases ns with
  | nil => exact Nat.lt_irrefl depth (hp _ hc)
  | cons n ns =>
    cases n with
    | text chars => cases ht
    | element tag children => cases hc
    | comment body => cases hc
    | doctype body => cases hc

theorem map_append_cancel {α β : Type} {f : α → β} (hf : Function.Injective f) {a b : List α}
    {u v : List β} (hu : ∀ x, u.head? ≠ some (f x)) (hv : ∀ x, v.head? ≠ some (f x))
    (h : a.map f ++ u = b.map f ++ v) : a = b ∧ u = v := by
  induction a generalizing b with
  | nil =>
    cases b with
    | nil => exact ⟨rfl, h⟩
    | cons y b => exact absurd (congrArg List.head? h) (hu y)
  | cons x a ih =>
    cases b with
    | nil => exact absurd (congrArg List.head? h).symm (hv x)
    | cons y b =>
      obtain ⟨hxy, h⟩ := List.cons.inj h
      obtain ⟨rfl, rfl⟩ := ih h
      exact ⟨by rw [hf hxy], rfl⟩

theorem exists_cons_of_placed {n : Node} {ns ms : List Node} (hn : n.Shaped) (hm : Shaped ms)
    {depth : Nat} {ps qs : List (Nat × Glyph)} (hq : EndsSiblings depth qs)
    (h : placed depth (n :: ns) ++ ps = placed depth ms ++ qs) :
    ∃ m ms', ms = m :: ms' ∧ m.ctorIdx = n.ctorIdx := by
  obtain ⟨glyph, hhead, hkind⟩ := head?_placed hn ns depth ps
  rw [h] at hhead
  cases ms with
  | nil => exact absurd (hq _ hhead) (Nat.lt_irrefl depth)
  | cons m ms =>
    obtain ⟨glyph', hhead', hkind'⟩ := head?_placed hm.1 ms depth qs
    rw [hhead] at hhead'
    cases hhead'
    exact ⟨m, ms, rfl, hkind'.symm.trans hkind⟩

/-- The sequence tells where siblings end, so it determines the tree. -/
theorem unnumbered_eq_of_placed {a b : List Node} (ha : Shaped a) (hb : Shaped b) {depth : Nat}
    {ps qs : List (Nat × Glyph)} (hp : EndsSiblings depth ps) (hq : EndsSiblings depth qs)
    (h : placed depth a ++ ps = placed depth b ++ qs) : unnumbered a = unnumbered b ∧ ps = qs := by
  induction a using nodes_induction generalizing b depth ps qs with
  | nil =>
    cases b with
    | nil => exact ⟨rfl, h⟩
    | cons m b =>
      have hnil : Shaped [] := trivial
      obtain ⟨n, ns, hcons, -⟩ := exists_cons_of_placed hb.1 hnil hp h.symm
      cases hcons
  | element tag children rest hchildren hrest =>
    obtain ⟨m, b, rfl, hkind⟩ := exists_cons_of_placed ha.1 hb hq h
    cases m with
    | element tag' children' =>
      simp only [placed, Node.placed, List.cons_append, List.append_assoc, List.cons.injEq,
        Prod.mk.injEq, Glyph.tag.injEq, true_and] at h
      obtain ⟨⟨hname, hattrs⟩, h⟩ := h
      obtain ⟨hc, h⟩ := hchildren ha.1.2.2 hb.1.2.2 (endsSiblings_placed ha.2.2 hp)
        (endsSiblings_placed hb.2.2 hq) h
      obtain ⟨hr, h⟩ := hrest ha.2.2 hb.2.2 hp hq h
      exact ⟨by simp [unnumbered, Node.unnumbered, hname, hattrs, hc, hr], h⟩
    | text _ | comment _ | doctype _ => cases hkind
  | text chars rest hrest =>
    obtain ⟨m, b, rfl, hkind⟩ := exists_cons_of_placed ha.1 hb hq h
    have hnext : startsWithText rest = false := by simpa [Node.isText] using ha.2.1
    cases m with
    | text chars' =>
      have hnext' : startsWithText b = false := by simpa [Node.isText] using hb.2.1
      have hchar : Function.Injective fun c => (depth, Glyph.char c) :=
        fun c d h => Glyph.char.inj (Prod.mk.inj h).2
      simp only [placed, Node.placed, List.append_assoc] at h
      obtain ⟨rfl, hr⟩ := map_append_cancel hchar (char_of_head_placed ha.2.2 hnext hp)
        (char_of_head_placed hb.2.2 hnext' hq) h
      obtain ⟨hr, hpq⟩ := hrest ha.2.2 hb.2.2 hp hq hr
      exact ⟨by simp [unnumbered, Node.unnumbered, hr], hpq⟩
    | element _ _ | comment _ | doctype _ => cases hkind
  | comment body rest hrest =>
    obtain ⟨m, b, rfl, hkind⟩ := exists_cons_of_placed ha.1 hb hq h
    cases m with
    | comment body' =>
      simp only [placed, Node.placed, List.cons_append, List.nil_append, List.cons.injEq,
        Prod.mk.injEq, Glyph.comment.injEq, true_and] at h
      obtain ⟨hr, hpq⟩ := hrest ha.2.2 hb.2.2 hp hq h.2
      exact ⟨by simp [unnumbered, Node.unnumbered, h.1, hr], hpq⟩
    | element _ _ | text _ | doctype _ => cases hkind
  | doctype body rest hrest =>
    obtain ⟨m, b, rfl, hkind⟩ := exists_cons_of_placed ha.1 hb hq h
    cases m with
    | doctype body' =>
      simp only [placed, Node.placed, List.cons_append, List.nil_append, List.cons.injEq,
        Prod.mk.injEq, Glyph.doctype.injEq, true_and] at h
      obtain ⟨hr, hpq⟩ := hrest ha.2.2 hb.2.2 hp hq h.2
      exact ⟨by simp [unnumbered, Node.unnumbered, h.1, hr], hpq⟩
    | element _ _ | text _ | comment _ => cases hkind

def closed (name : List Char) (names : List (List Char)) : List (List Char) :=
  match names.findIdx? (· == name) with
  | none => names
  | some depth => names.drop (depth + 1)

namespace TreeBuilder

def names (b : TreeBuilder) : List (List Char) := b.opened.map (·.tag.name)

def placedOpened : List OpenElement → List (Nat × Glyph)
  | [] => []
  | e :: es => placedOpened es ++ (es.length, .tag e.tag.name e.tag.attrs) ::
      ComponentMarkup.placed (es.length + 1) e.children.reverse

def placed (b : TreeBuilder) : List (Nat × Glyph) :=
  ComponentMarkup.placed 0 b.roots.reverse ++ placedOpened b.opened

theorem names_modifySiblings (f : List Node → List Node) (b : TreeBuilder) :
    (b.modifySiblings f).names = b.names := by
  obtain ⟨opened, roots⟩ := b
  cases opened with
  | nil => rfl
  | cons e es => rfl

theorem placed_push (n : Node) (b : TreeBuilder) :
    (b.push n).placed = b.placed ++ n.placed b.names.length := by
  obtain ⟨opened, roots⟩ := b
  cases opened with
  | nil => simp [push, modifySiblings, placed, placedOpened, placed_append, names,
      ComponentMarkup.placed]
  | cons e es => simp [push, modifySiblings, placed, placedOpened, placed_append, names,
      ComponentMarkup.placed]

theorem names_push (n : Node) (b : TreeBuilder) : (b.push n).names = b.names :=
  names_modifySiblings _ b

theorem placed_addText (chars : List Char) (b : TreeBuilder) :
    (b.addText chars).placed = b.placed ++ chars.map fun c => (b.names.length, .char c) := by
  have hjoin : ∀ (depth : Nat) (siblings : List Node),
      ComponentMarkup.placed depth (joinText chars siblings).reverse =
        ComponentMarkup.placed depth siblings.reverse ++ chars.map fun c => (depth, .char c) := by
    intro depth siblings
    unfold joinText
    split
    · simp [placed_append, ComponentMarkup.placed, Node.placed]
    · simp [placed_append, ComponentMarkup.placed, Node.placed]
  unfold addText
  by_cases hc : chars = []
  · simp [hc]
  · rw [if_neg hc]
    obtain ⟨opened, roots⟩ := b
    cases opened with
    | nil => simp [modifySiblings, placed, placedOpened, hjoin, names]
    | cons e es => simp [modifySiblings, placed, placedOpened, hjoin, names]

theorem names_addText (chars : List Char) (b : TreeBuilder) : (b.addText chars).names = b.names := by
  unfold addText
  split
  · rfl
  · exact names_modifySiblings _ b

theorem placed_enter (tag : Tag) (b : TreeBuilder) :
    (b.enter tag).placed = b.placed ++ [(b.names.length, .tag tag.name tag.attrs)] := by
  simp [enter, placed, placedOpened, names, ComponentMarkup.placed]

theorem names_enter (tag : Tag) (b : TreeBuilder) : (b.enter tag).names = tag.name :: b.names := rfl

theorem placed_closeInnermost (b : TreeBuilder) : b.closeInnermost.placed = b.placed := by
  obtain ⟨opened, roots⟩ := b
  cases opened with
  | nil => rfl
  | cons e es =>
    rw [closeInnermost, placed_push]
    simp [placed, placedOpened, names, Node.placed]

theorem names_closeInnermost (b : TreeBuilder) : b.closeInnermost.names = b.names.tail := by
  obtain ⟨opened, roots⟩ := b
  cases opened with
  | nil => rfl
  | cons e es => exact names_push _ ⟨es, roots⟩

theorem placed_closeMany (n : Nat) (b : TreeBuilder) : (b.closeMany n).placed = b.placed := by
  induction n generalizing b with
  | zero => rfl
  | succ n ih => rw [closeMany, ih, placed_closeInnermost]

theorem names_closeMany (n : Nat) (b : TreeBuilder) : (b.closeMany n).names = b.names.drop n := by
  induction n generalizing b with
  | zero => rfl
  | succ n ih => rw [closeMany, ih, names_closeInnermost, List.drop_tail]

theorem placed_close (name : List Char) (b : TreeBuilder) : (b.close name).placed = b.placed := by
  unfold close
  split
  · rfl
  · exact placed_closeMany _ b

theorem names_close (name : List Char) (b : TreeBuilder) :
    (b.close name).names = closed name b.names := by
  have hfind : b.opened.findIdx? (·.tag.name == name) = b.names.findIdx? (· == name) := by
    rw [names, List.findIdx?_map]
    rfl
  rw [close, closed, ← hfind]
  cases b.opened.findIdx? (·.tag.name == name) with
  | none => rfl
  | some depth => exact names_closeMany _ b

theorem placed_finish (b : TreeBuilder) : ComponentMarkup.placed 0 b.finish = b.placed := by
  rw [← placed_closeMany b.opened.length b, placed, opened_closeMany_all, placedOpened,
    List.append_nil, finish]

end TreeBuilder

end ComponentMarkup
