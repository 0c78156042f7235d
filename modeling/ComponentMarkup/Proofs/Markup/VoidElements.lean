import ComponentMarkup.Proofs.Markup.ParsedShape

set_option autoImplicit false

namespace ComponentMarkup

def Childless (name : List Char) (nodes : List Node) : Prop :=
  ∀ e ∈ findAll name nodes, e.children = []

theorem childless_cons {name : List Char} {n : Node} {ns : List Node} :
    Childless name (n :: ns) ↔ Childless name [n] ∧ Childless name ns := by
  simp [Childless, findAll, or_imp, forall_and]

theorem childless_element {name : List Char} {tag : Tag} {children : List Node} :
    Childless name [.element tag children] ↔
      (tag.name = name → children = []) ∧ Childless name children := by
  by_cases h : tag.name = name <;> simp [Childless, findAll, Node.findAll, h]

theorem childless_other {n : Node} (h : n.element? = none) (name : List Char) :
    Childless name [n] := by
  cases n with
  | element tag children => cases h
  | text chars => simp [Childless, findAll, Node.findAll]
  | comment body => simp [Childless, findAll, Node.findAll]
  | doctype body => simp [Childless, findAll, Node.findAll]

/-- Without children, no element of the name stands inside of another one, which would be taken
whole. -/
theorem takeElements_eq_findAll {name : List Char} {nodes : List Node} (h : Childless name nodes) :
    (takeElements name nodes).2 = findAll name nodes := by
  induction nodes using nodes_induction with
  | nil => rfl
  | element tag children rest hc hr =>
    obtain ⟨he, hrest⟩ := childless_cons.1 h
    obtain ⟨hn, hchildren⟩ := childless_element.1 he
    by_cases htag : tag.name = name
    · simp [takeElements, Node.take, findAll, Node.findAll, htag, hn htag, hr hrest]
    · simp [takeElements, Node.take, findAll, Node.findAll, htag, hc hchildren, hr hrest]
  | text chars rest hr =>
    simpa [takeElements, Node.take, findAll, Node.findAll] using hr (childless_cons.1 h).2
  | comment body rest hr =>
    simpa [takeElements, Node.take, findAll, Node.findAll] using hr (childless_cons.1 h).2
  | doctype body rest hr =>
    simpa [takeElements, Node.take, findAll, Node.findAll] using hr (childless_cons.1 h).2

theorem Shaped.childless {name : List Char} (hv : isVoid name = true) {nodes : List Node}
    (h : Shaped nodes) : Childless name nodes := by
  induction nodes using nodes_induction with
  | nil => simp [Childless, findAll]
  | element tag children rest hc hr =>
    obtain ⟨⟨-, hvoid, hchildren⟩, -, hrest⟩ := h
    refine childless_cons.2 ⟨childless_element.2 ⟨?_, hc hchildren⟩, hr hrest⟩
    rintro rfl
    exact hvoid hv
  | text chars rest hr => exact childless_cons.2 ⟨childless_other rfl name, hr h.2.2⟩
  | comment body rest hr => exact childless_cons.2 ⟨childless_other rfl name, hr h.2.2⟩
  | doctype body rest hr => exact childless_cons.2 ⟨childless_other rfl name, hr h.2.2⟩

theorem takeElements_parse {name : List Char} (hv : isVoid name = true) (source : List Char) :
    (takeElements name (parse source)).2 = findAll name (parse source) :=
  takeElements_eq_findAll ((shaped_parse source).childless hv)

end ComponentMarkup
