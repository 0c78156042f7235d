import ComponentMarkup.Proofs.Expansion.Outcome
import Mathlib

set_option autoImplicit false

namespace ComponentMarkup

def Slotless (nodes : List Node) : Prop := ∀ text ∈ texts nodes, trim text ≠ childrenSlot

instance (nodes : List Node) : Decidable (Slotless nodes) :=
  inferInstanceAs (Decidable (∀ text ∈ texts nodes, trim text ≠ childrenSlot))

@[simp] theorem texts_append (a b : List Node) : texts (a ++ b) = texts a ++ texts b := by
  induction a with
  | nil => rfl
  | cons n a ih => simp [texts, ih]

/-- Nodes with copies of the children in the place of every slot. -/
inductive Filled (children : List Node) : List Node → List Node → Prop
  | nil : Filled children [] []
  | slot {chars : List Char} {rest rest' : List Node} : trim chars = childrenSlot →
      Filled children rest rest' → Filled children (.text chars :: rest) (children ++ rest')
  | text {chars : List Char} {rest rest' : List Node} : trim chars ≠ childrenSlot →
      Filled children rest rest' → Filled children (.text chars :: rest) (.text chars :: rest')
  | element {tag : Tag} {inner inner' rest rest' : List Node} : Filled children inner inner' →
      Filled children rest rest' →
      Filled children (.element tag inner :: rest) (.element tag inner' :: rest')
  | comment {body : List Char} {rest rest' : List Node} : Filled children rest rest' →
      Filled children (.comment body :: rest) (.comment body :: rest')
  | doctype {body : List Char} {rest rest' : List Node} : Filled children rest rest' →
      Filled children (.doctype body :: rest) (.doctype body :: rest')

theorem filled_fillSlots (children body : List Node) :
    Filled children body (fillSlots children body) := by
  induction body using nodes_induction with
  | nil => exact .nil
  | element tag inner rest hc hr => exact .element hc hr
  | text chars rest hr =>
    rw [fillSlots, Node.fillSlots]
    split
    · rename_i h
      exact .slot h hr
    · rename_i h
      exact .text h hr
  | comment body rest hr => exact .comment hr
  | doctype body rest hr => exact .doctype hr

theorem Filled.slotless {children body body' : List Node} (h : Filled children body body')
    (hc : Slotless children) : Slotless body' := by
  unfold Slotless at hc ⊢
  induction h with
  | nil => exact fun text hm => absurd hm List.not_mem_nil
  | slot _ _ ih =>
    rw [texts_append]
    exact List.forall_mem_append.2 ⟨hc, ih⟩
  | text hs _ ih => exact List.forall_mem_cons.2 ⟨hs, ih⟩
  | element _ _ ihc ihr => exact List.forall_mem_append.2 ⟨ihc, ihr⟩
  | comment _ ih => exact ih
  | doctype _ ih => exact ih

theorem expand_slotless (imports : Imports) (file : Path) {nodes : List Node} (h : Slotless nodes) :
    (expand imports file nodes).Gives Slotless fun _ => True := by
  induction imports, nodes using expansion_induction generalizing file with
  | nil imports =>
    rw [expand_nil]
    exact .pure h
  | other imports n rest hn hr =>
    obtain ⟨hnode, hrest⟩ := List.forall_mem_append.1 h
    rw [expand_other _ _ hn]
    exact (hr file hrest).bind fun out ho => .pure (List.forall_mem_append.2 ⟨hnode, ho⟩)
  | element imports tag children rest hc hr _ =>
    obtain ⟨hchildren, hrest⟩ := List.forall_mem_append.1 h
    rw [expand_element]
    refine (hc file hchildren).bind fun inner hinner => ?_
    have hstand : (imports.stand file tag inner).Gives Slotless fun _ => True := by
      unfold Imports.stand
      split
      · exact .pure (by simpa [Slotless, texts, Node.texts] using hinner)
      · -- whatever slots the body has, they are filled with the children
        rename_i d hd
        refine Definition.gives_use (by simp [Slotless, texts]) (fun _ _ _ _ _ n => ?_) file
        split
        · exact (filled_fillSlots inner _).slotless hinner
        · trivial
    refine hstand.bind fun output hout => (hr file hrest).bind fun last hlast => .pure ?_
    rw [Slotless, texts_append]
    exact List.forall_mem_append.2 ⟨hout, hlast⟩

theorem fillSlots_childrenSlot (children body : List Node) :
    fillSlots children (fillSlots [.text childrenSlot] body) = fillSlots children body := by
  induction body using nodes_induction with
  | nil => rfl
  | element tag inner rest hc hr => simp [fillSlots, Node.fillSlots, hc, hr]
  | text chars rest hr =>
    have hslot : trim childrenSlot = childrenSlot := by decide
    by_cases h : trim chars = childrenSlot
    · simp [fillSlots, Node.fillSlots, hr, h, hslot]
    · simp [fillSlots, Node.fillSlots, hr, h]
  | comment body rest hr => simp [fillSlots, Node.fillSlots, hr]
  | doctype body rest hr => simp [fillSlots, Node.fillSlots, hr]

/-- The children of a usage are only put into slots: a usage with a slot for its children has the same
outcome, but for the slots. -/
theorem Imports.stand_childrenSlot (imports : Imports) (file : Path) (tag : Tag) (children : List Node)
    (next : Nat) :
    (imports.stand file tag children).run next =
      match (imports.stand file tag [.text childrenSlot]).run next with
      | (.ok out, after) => (.ok (fillSlots children out), after)
      | (.error e, after) => (.error e, after) := by
  unfold Imports.stand
  split
  · have hslot : trim childrenSlot = childrenSlot := by decide
    have hfill : fillSlots children [.element tag [.text childrenSlot]] = [.element tag children] := by
      simp [fillSlots, Node.fillSlots, hslot]
    exact congrArg (fun out => (Except.ok out, next)) hfill.symm
  · rename_i d _
    cases ht : d.template with
    | none =>
      rw [Definition.use, Definition.use, ht]
      rfl
    | some template =>
      rw [Definition.run_use ht, Definition.run_use ht]
      cases d.instantiate template tag with
      | error e => rfl
      | ok body =>
        simp only
        generalize (expand d.imports d.path (identifyBody body next).1).run _ = r
        obtain ⟨e | out, after⟩ := r
        · rfl
        · simp only [fillSlots_childrenSlot]

/-- An expansion of nodes without slots has none, whatever slots the templates have and whatever values
are put into them. And a usage whose children are no usages has the outcome of the same usage with a slot
for its children, with copies of the children in the place of each slot that is left. -/
theorem expand_fills_slots (imports : Imports) (file : Path) (next : Nat) :
    (∀ nodes out after, Slotless nodes →
      (expand imports file nodes).run next = (.ok out, after) → Slotless out) ∧
    ∀ (tag : Tag) (children : List Node),
      (∀ inner ∈ tags children, imports.find? inner.name = none) →
      match (expand imports file [.element tag [.text childrenSlot]]).run next with
      | (.ok out, after) => ∃ filled, Filled children out filled ∧
          (expand imports file [.element tag children]).run next = (.ok filled, after)
      | (.error e, after) =>
          (expand imports file [.element tag children]).run next = (.error e, after) := by
  refine ⟨fun nodes out after h hr => (expand_slotless imports file h).of_run hr, ?_⟩
  intro tag children h
  have hslot : ∀ t ∈ tags [.text childrenSlot], imports.find? t.name = none := by
    simp [tags, Node.tags]
  rw [expand_single, expand_single, expand_of_unknown file h, expand_of_unknown file hslot, pure_bind,
    pure_bind, imports.stand_childrenSlot file tag children next]
  generalize (imports.stand file tag [.text childrenSlot]).run next = r
  obtain ⟨e | out, after⟩ := r
  · rfl
  · exact ⟨_, filled_fillSlots children out, rfl⟩

/-- A layout that shows its children and hands them on to a box. -/
theorem expand_fills_slots_layout :
    let box : Definition := ⟨⟨"/box".toList⟩, [], some ⟨⟨"template".toList, [], 1⟩,
      [.element ⟨['b'], [], 1⟩ [.text childrenSlot]]⟩, [], [], []⟩
    let layout : Definition := ⟨⟨"/layout".toList⟩, [("box".toList, box)],
      some ⟨⟨"template".toList, [], 1⟩,
        [.text (' ' :: childrenSlot), .element ⟨"box".toList, [], 2⟩ [.text childrenSlot]]⟩, [], [], []⟩
    let imports : Imports := [("layout".toList, layout)]
    let usage (children : List Node) : List Node := [.element ⟨"layout".toList, [], 1⟩ children]
    let children : List Node := [.text ['x'], .element ⟨['i'], [], 1⟩ []]
    let out : List Node := children ++ [.element ⟨['b'], [], 1⟩ children]
    let slots : List Node := [.text childrenSlot, .element ⟨['b'], [], 1⟩ [.text childrenSlot]]
    (expand imports ⟨"/page".toList⟩ (usage children)).run 0 = (.ok out, 0) ∧ Slotless out ∧
    (expand imports ⟨"/page".toList⟩ (usage [.text childrenSlot])).run 0 = (.ok slots, 0) ∧
    ∃ filled, Filled children slots filled ∧
      (expand imports ⟨"/page".toList⟩ (usage children)).run 0 = (.ok filled, 0) := by
  intro box layout imports usage children out slots
  have hrun : (expand imports ⟨"/page".toList⟩ (usage children)).run 0 = (.ok out, 0) := by
    unfold out usage children imports layout box
    cbv
  have hslots : (expand imports ⟨"/page".toList⟩ (usage [.text childrenSlot])).run 0 =
      (.ok slots, 0) := by
    unfold slots usage imports layout box
    cbv
  have hplain : ∀ inner ∈ tags children, imports.find? inner.name = none := by
    have htags : tags children = [⟨['i'], [], 1⟩] := by cbv
    rw [htags, List.forall_mem_singleton]
    cbv
  have h := expand_fills_slots imports ⟨"/page".toList⟩ 0
  have hfilled := h.2 ⟨"layout".toList, [], 1⟩ children hplain
  simp only [usage] at hslots
  rw [hslots] at hfilled
  exact ⟨hrun, h.1 _ out 0 (by decide) hrun, hslots, hfilled⟩

end ComponentMarkup
