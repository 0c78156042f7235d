import Mathlib.Data.List.TakeWhile
import ComponentMarkup.Component.Loading
import ComponentMarkup.Proofs.Markup.DocumentOrder
import ComponentMarkup.Proofs.Markup.VoidElements

/-!
Taking elements out of a document. Main statement: `takeElements_partition`, of the nodes of a
document, each with the elements that it stands in, those outside of the elements of a name are left
where they are, and the outermost elements of the name are taken.
-/

set_option autoImplicit false

namespace ComponentMarkup

/-- A node, whole, with the names of the elements that it stands in, innermost first. -/
structure Held where
  holders : List (List Char)
  node : Node

mutual

def Node.heldIn (holders : List (List Char)) : Node → List Held
  | .element tag children =>
    ⟨holders, .element tag children⟩ :: heldIn (tag.name :: holders) children
  | .text chars => [⟨holders, .text chars⟩]
  | .comment body => [⟨holders, .comment body⟩]
  | .doctype body => [⟨holders, .doctype body⟩]

def heldIn (holders : List (List Char)) : List Node → List Held
  | [] => []
  | n :: ns => n.heldIn holders ++ heldIn holders ns

end

def heldNodes (nodes : List Node) : List Held := heldIn [] nodes

def Node.item : Node → Item
  | .element tag _ => .tag tag
  | .text chars => .text chars
  | .comment body => .comment body
  | .doctype body => .doctype body

namespace Held

def hasName (name : List Char) (p : Held) : Bool := p.node.element?.any (·.tag.name == name)

def outermost (name : List Char) (p : Held) : Bool := p.hasName name && !p.holders.contains name

def outside (name : List Char) (p : Held) : Bool := !p.hasName name && !p.holders.contains name

def entry (p : Held) : List (List Char) × Item := (p.holders, p.node.item)

end Held

/-- A document as an indented list: each node without what it holds, and the elements that it stands
in. -/
def listingIn (holders : List (List Char)) (nodes : List Node) : List (List (List Char) × Item) :=
  (heldIn holders nodes).map Held.entry

def listing (nodes : List Node) : List (List (List Char) × Item) := listingIn [] nodes

@[elab_as_elim]
theorem elements_induction {motive : List Node → Prop} (nil : motive [])
    (element : ∀ tag children rest, motive children → motive rest →
      motive (.element tag children :: rest))
    (other : ∀ n rest, n.element? = none → motive rest → motive (n :: rest))
    (nodes : List Node) : motive nodes :=
  nodes_induction nil element (fun _ rest => other _ rest rfl) (fun _ rest => other _ rest rfl)
    (fun _ rest => other _ rest rfl) nodes

section Equations

variable {n : Node} (h : n.element? = none) (name : List Char) (tag : Tag)
  (holders : List (List Char)) (children rest : List Node)

theorem heldIn_element : heldIn holders (.element tag children :: rest) =
    ⟨holders, .element tag children⟩ ::
      (heldIn (tag.name :: holders) children ++ heldIn holders rest) := rfl

theorem listingIn_element : listingIn holders (.element tag children :: rest) =
    (holders, .tag tag) :: (listingIn (tag.name :: holders) children ++ listingIn holders rest) := by
  simp [listingIn, heldIn_element, Held.entry, Node.item]

theorem takeElements_element (hne : tag.name ≠ name) :
    takeElements name (.element tag children :: rest) =
      (.element tag (takeElements name children).1 :: (takeElements name rest).1,
        (takeElements name children).2 ++ (takeElements name rest).2) := by
  simp [takeElements, Node.take, hne]

theorem takeElements_named : takeElements tag.name (.element tag children :: rest) =
    ((takeElements tag.name rest).1, ⟨tag, children⟩ :: (takeElements tag.name rest).2) := by
  simp [takeElements, Node.take]

include h

theorem heldIn_other : heldIn holders (n :: rest) = ⟨holders, n⟩ :: heldIn holders rest := by
  cases n with
  | element tag children => cases h
  | text chars => rfl
  | comment body => rfl
  | doctype body => rfl

theorem listingIn_other :
    listingIn holders (n :: rest) = (holders, n.item) :: listingIn holders rest := by
  rw [listingIn, heldIn_other h]
  rfl

theorem takeElements_other : takeElements name (n :: rest) =
    (n :: (takeElements name rest).1, (takeElements name rest).2) := by
  cases n with
  | element tag children => cases h
  | text chars => rfl
  | comment body => rfl
  | doctype body => rfl

theorem findAll_other : findAll name (n :: rest) = findAll name rest := by
  cases n with
  | element tag children => cases h
  | text chars => rfl
  | comment body => rfl
  | doctype body => rfl

theorem hasName_other : Held.hasName name ⟨holders, n⟩ = false := by
  simp [Held.hasName, h]

end Equations

theorem holders_suffix (nodes : List Node) :
    ∀ holders, ∀ p ∈ heldIn holders nodes, holders <:+ p.holders := by
  induction nodes using elements_induction with
  | nil => simp [heldIn]
  | element tag children rest hc hr =>
    intro holders p hp
    rw [heldIn_element, List.mem_cons, List.mem_append] at hp
    rcases hp with rfl | hp | hp
    · exact List.suffix_refl _
    · exact (List.suffix_cons tag.name holders).trans (hc _ p hp)
    · exact hr holders p hp
  | other n rest hn hr =>
    intro holders p hp
    rw [heldIn_other hn, List.mem_cons] at hp
    rcases hp with rfl | hp
    · exact List.suffix_refl _
    · exact hr holders p hp

theorem mem_holders {name : List Char} {holders : List (List Char)} (h : name ∈ holders)
    {nodes : List Node} : ∀ p ∈ heldIn holders nodes, name ∈ p.holders :=
  fun p hp => (holders_suffix nodes holders p hp).subset h

theorem filter_heldIn_within {name : List Char} {holders : List (List Char)} (h : name ∈ holders)
    (nodes : List Node) :
    (heldIn holders nodes).filter (Held.outside name) = [] ∧
      (heldIn holders nodes).filter (Held.outermost name) = [] := by
  constructor
  · refine List.filter_eq_nil_iff.2 fun p hp => ?_
    simp [Held.outside, mem_holders h p hp]
  · refine List.filter_eq_nil_iff.2 fun p hp => ?_
    simp [Held.outermost, mem_holders h p hp]

theorem taken_heldIn {name : List Char} {holders : List (List Char)} (h : name ∉ holders)
    (nodes : List Node) : (takeElements name nodes).2 =
      ((heldIn holders nodes).filter (Held.outermost name)).filterMap (·.node.element?) := by
  induction nodes using elements_induction generalizing holders with
  | nil => rfl
  | element tag children rest hc hr =>
    rw [heldIn_element]
    by_cases htag : tag.name = name
    · subst htag
      have hwithin := (filter_heldIn_within (List.mem_cons_self (a := tag.name) (l := holders))
        children).2
      simp [takeElements_named, hr h, Held.outermost, Held.hasName, Node.element?, h, hwithin]
    · have hchildren := hc (List.not_mem_cons_of_ne_of_not_mem (Ne.symm htag) h)
      simp [takeElements_element _ _ _ _ htag, hchildren, hr h, Held.outermost, Held.hasName,
        Node.element?, htag]
  | other n rest hn hr =>
    simp [takeElements_other hn, heldIn_other hn, hr h, Held.outermost, hasName_other hn]

theorem listingIn_takeElements {name : List Char} {holders : List (List Char)}
    (h : name ∉ holders) (nodes : List Node) :
    listingIn holders (takeElements name nodes).1 =
      ((heldIn holders nodes).filter (Held.outside name)).map Held.entry := by
  induction nodes using elements_induction generalizing holders with
  | nil => rfl
  | element tag children rest hc hr =>
    rw [heldIn_element]
    by_cases htag : tag.name = name
    · subst htag
      have hwithin := (filter_heldIn_within (List.mem_cons_self (a := tag.name) (l := holders))
        children).1
      simp [takeElements_named, hr h, Held.outside, Held.hasName, Node.element?, hwithin]
    · have hchildren := hc (List.not_mem_cons_of_ne_of_not_mem (Ne.symm htag) h)
      simp [takeElements_element _ _ _ _ htag, listingIn_element, hchildren, hr h, Held.outside,
        Held.hasName, Node.element?, htag, h, Held.entry, Node.item]
  | other n rest hn hr =>
    simp [takeElements_other hn, heldIn_other hn, listingIn_other hn, hr h, Held.outside,
      hasName_other hn, h, Held.entry]

theorem findAll_takeElements (name : List Char) (nodes : List Node) :
    findAll name (takeElements name nodes).1 = [] := by
  induction nodes using elements_induction with
  | nil => rfl
  | element tag children rest hc hr =>
    by_cases htag : tag.name = name
    · subst htag
      rw [takeElements_named]
      exact hr
    · rw [takeElements_element _ _ _ _ htag]
      simp [findAll, Node.findAll, htag, hc, hr]
  | other n rest hn hr => rw [takeElements_other hn, findAll_other hn, hr]

theorem takeWhile_listingIn (name : List Char) (holders : List (List Char))
    (children rest : List Node) :
    (listingIn (name :: holders) children ++ listingIn holders rest).takeWhile
        (fun q => decide (holders.length < q.1.length)) = listingIn (name :: holders) children := by
  have hchildren : ∀ q ∈ listingIn (name :: holders) children,
      decide (holders.length < q.1.length) = true := by
    intro q hq
    obtain ⟨p, hp, rfl⟩ := List.mem_map.1 hq
    exact decide_eq_true (holders_suffix children _ p hp).length_le
  have hrest : (listingIn holders rest).takeWhile
      (fun q => decide (holders.length < q.1.length)) = [] := by
    cases rest with
    | nil => rfl
    | cons n rest => cases n <;> simp [listingIn, heldIn, Node.heldIn, Held.entry]
  rw [List.takeWhile_append_of_pos hchildren, hrest, List.append_nil]

theorem item_injective {n m : Node} (hn : n.element? = none) (h : n.item = m.item) : n = m := by
  cases n with
  | element tag children => cases hn
  | text chars => cases m <;> simp_all [Node.item]
  | comment body => cases m <;> simp_all [Node.item]
  | doctype body => cases m <;> simp_all [Node.item]

theorem listingIn_cons (holders : List (List Char)) (n : Node) (rest : List Node) :
    ∃ tail, listingIn holders (n :: rest) = (holders, n.item) :: tail := by
  cases n with
  | element tag children => exact ⟨_, listingIn_element tag holders children rest⟩
  | text chars => exact ⟨_, listingIn_other rfl holders rest⟩
  | comment body => exact ⟨_, listingIn_other rfl holders rest⟩
  | doctype body => exact ⟨_, listingIn_other rfl holders rest⟩

theorem listingIn_injective {a b : List Node} {holders : List (List Char)}
    (h : listingIn holders a = listingIn holders b) : a = b := by
  induction a using elements_induction generalizing holders b with
  | nil =>
    cases b with
    | nil => rfl
    | cons m b =>
      obtain ⟨tail, hm⟩ := listingIn_cons holders m b
      rw [hm] at h
      cases h
  | element tag children rest hc hr =>
    cases b with
    | nil => cases h
    | cons m b =>
      cases m with
      | element tag' children' =>
        rw [listingIn_element, listingIn_element, List.cons.injEq] at h
        obtain ⟨hhead, htail⟩ := h
        obtain rfl : tag = tag' := Item.tag.inj (Prod.mk.inj hhead).2
        have hchildren := congrArg
          (List.takeWhile fun q => decide (holders.length < q.1.length)) htail
        rw [takeWhile_listingIn, takeWhile_listingIn] at hchildren
        rw [hchildren] at htail
        rw [hc hchildren, hr (List.append_cancel_left htail)]
      | text chars => cases h
      | comment body => cases h
      | doctype body => cases h
  | other n rest hn hr =>
    rw [listingIn_other hn] at h
    cases b with
    | nil => cases h
    | cons m b =>
      obtain ⟨tail, hm⟩ := listingIn_cons holders m b
      have hitem : n.item = m.item := by
        rw [hm] at h
        exact (Prod.mk.inj (List.cons.inj h).1).2
      obtain rfl := item_injective hn hitem
      rw [listingIn_other hn] at h
      rw [hr (List.cons.inj h).2]

/-- Taking the elements of a name out of a document takes exactly those that stand in no other
element of that name, each whole, in document order. What is left is the one document in whose listing
all else is as it was, so that no element of the name is left. Out of a parsed document the import
elements are taken all, since none stands in another. -/
theorem takeElements_partition :
    (∀ (name : List Char) (nodes : List Node),
      (takeElements name nodes).2 =
        ((heldNodes nodes).filter (Held.outermost name)).filterMap (·.node.element?) ∧
      (∀ rest, rest = (takeElements name nodes).1 ↔
        listing rest = ((heldNodes nodes).filter (Held.outside name)).map Held.entry) ∧
      findAll name (takeElements name nodes).1 = []) ∧
    ∀ source, (takeElements importName (parse source)).2 = findAll importName (parse source) := by
  refine ⟨fun name nodes => ⟨taken_heldIn List.not_mem_nil nodes, fun rest => ?_,
    findAll_takeElements name nodes⟩, takeElements_parse (by decide)⟩
  have hleft := listingIn_takeElements (@List.not_mem_nil _ name) nodes
  exact ⟨fun h => h ▸ hleft, fun h => listingIn_injective (h.trans hleft.symm)⟩

end ComponentMarkup
