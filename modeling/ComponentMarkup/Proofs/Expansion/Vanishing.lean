import ComponentMarkup.Proofs.Expansion.Outcome
import Mathlib

/-!
Usages of components without a template. Main statement: `expand_without_template`, such a usage stands
for nothing, but its children are expanded all the same: what they draw stays drawn, and an error in them
is one of the page.
-/

set_option autoImplicit false

namespace ComponentMarkup

def Idle (imports : Imports) (file : Path) (nodes : List Node) : Prop :=
  ∀ next, ∃ out, (expand imports file nodes).run next = (.ok out, next)

theorem idle_of_unknown {imports : Imports} (file : Path) {nodes : List Node}
    (h : ∀ tag ∈ tags nodes, imports.find? tag.name = none) : Idle imports file nodes := by
  intro next
  rw [expand_of_unknown file h]
  exact ⟨nodes, rfl⟩

/-- Nodes without some usages, at any depth, of components that have no template and with children
that are idle. -/
inductive LeavesOut (imports : Imports) (file : Path) : List Node → List Node → Prop
  | nil : LeavesOut imports file [] []
  | usage {tag : Tag} {d : Definition} {children rest rest' : List Node} :
      imports.find? tag.name = some d → d.template = none → Idle imports file children →
      LeavesOut imports file rest rest' → LeavesOut imports file (.element tag children :: rest) rest'
  | element {tag : Tag} {children children' rest rest' : List Node} :
      LeavesOut imports file children children' → LeavesOut imports file rest rest' →
      LeavesOut imports file (.element tag children :: rest) (.element tag children' :: rest')
  | other {n : Node} {rest rest' : List Node} : n.element? = none →
      LeavesOut imports file rest rest' → LeavesOut imports file (n :: rest) (n :: rest')

section WithoutTemplate

variable {imports : Imports} {tag : Tag} {d : Definition}

theorem Imports.stand_without_template (hd : imports.find? tag.name = some d)
    (ht : d.template = none) (file : Path) (children : List Node) :
    imports.stand file tag children = pure [] := by
  rw [Imports.stand, hd]
  simp only [Definition.use, ht]

theorem expand_usage_without_template (hd : imports.find? tag.name = some d) (ht : d.template = none)
    (file : Path) (children rest : List Node) :
    expand imports file (.element tag children :: rest) =
      expand imports file children >>= fun _ => expand imports file rest := by
  rw [expand_element]
  simp only [Imports.stand_without_template hd ht, pure_bind, List.nil_append, bind_pure]

theorem run_usage_without_template (hd : imports.find? tag.name = some d) (ht : d.template = none)
    (file : Path) (children : List Node) (next : Nat) :
    (expand imports file [.element tag children]).run next =
      match (expand imports file children).run next with
      | (.ok _, after) => (.ok [], after)
      | (.error e, after) => (.error e, after) := by
  rw [expand_usage_without_template hd ht, expand_nil, Expansion.run_bind]
  generalize (expand imports file children).run next = r
  obtain ⟨e | out, after⟩ := r
  · rfl
  · rfl

end WithoutTemplate

theorem LeavesOut.expand_eq {imports : Imports} {file : Path} {nodes nodes' : List Node}
    (h : LeavesOut imports file nodes nodes') :
    expand imports file nodes = expand imports file nodes' := by
  induction h with
  | nil => rfl
  | @usage tag d children rest rest' hd ht hidle _ ih =>
    rw [expand_usage_without_template hd ht, ih]
    funext next
    obtain ⟨out, hout⟩ := hidle next
    change (expand imports file children >>= fun _ => expand imports file rest').run next = _
    rw [Expansion.run_bind, hout]
    rfl
  | element _ _ ihc ihr => rw [expand_element, expand_element, ihc, ihr]
  | other hn _ ih => rw [expand_other _ _ hn, expand_other _ _ hn, ih]

/-- A usage of a component without a template stands for nothing, and nothing of the usage itself is
bound; but its children are expanded, for their errors and for the identifiers that they draw. So it has
no effect exactly where they have none, as when they hold no usages, and a page then expands as if it
were not there, however deep it is. -/
theorem expand_without_template (imports : Imports) (file : Path) :
    (∀ (tag : Tag) (d : Definition) (children : List Node), imports.find? tag.name = some d →
      d.template = none →
        (∀ next, (expand imports file [.element tag children]).run next =
          match (expand imports file children).run next with
          | (.ok _, after) => (.ok [], after)
          | (.error e, after) => (.error e, after)) ∧
        ((∀ next, (expand imports file [.element tag children]).run next = (.ok [], next)) ↔
          Idle imports file children) ∧
        ((∀ inner ∈ tags children, imports.find? inner.name = none) → Idle imports file children)) ∧
    ∀ nodes nodes', LeavesOut imports file nodes nodes' →
      expand imports file nodes = expand imports file nodes' := by
  refine ⟨fun tag d children hd ht => ?_, fun nodes nodes' h => h.expand_eq⟩
  have hrun := run_usage_without_template hd ht file children
  refine ⟨hrun, forall_congr' fun next => ?_, idle_of_unknown file⟩
  rw [hrun next]
  generalize (expand imports file children).run next = r
  obtain ⟨e | out, after⟩ := r
  · exact ⟨nofun, fun ⟨_, h⟩ => nomatch h⟩
  · exact ⟨fun h => by cases h; exact ⟨out, rfl⟩, fun ⟨_, h⟩ => by cases h; rfl⟩

/-- An empty usage of a component without a template, inside of a paragraph. -/
theorem expand_without_template_paragraph :
    let empty : Definition := ⟨⟨"/e".toList⟩, [], none, [], [], "p{}".toList⟩
    let imports : Imports := [(['e'], empty)]
    let page (inside : List Node) : List Node :=
      [.element ⟨['p'], [], 1⟩ (.text ['a'] :: inside ++ [.text ['c']])]
    let usage : Node := .element ⟨['e'], [⟨['x'], none⟩], 1⟩ [.text ['b'], .element ⟨['i'], [], 1⟩ []]
    (expand imports ⟨"/page".toList⟩ [usage]).run 4 = (.ok [], 4) ∧
      expand imports ⟨"/page".toList⟩ (page [usage]) = expand imports ⟨"/page".toList⟩ (page []) := by
  intro empty imports page usage
  have hd : imports.find? ['e'] = some empty := rfl
  have hplain : ∀ inner ∈ tags [.text ['b'], .element ⟨['i'], [], 1⟩ []],
      imports.find? inner.name = none := by
    have htags : tags [.text ['b'], .element ⟨['i'], [], 1⟩ []] = [⟨['i'], [], 1⟩] := by cbv
    rw [htags, List.forall_mem_singleton]
    cbv
  have h := expand_without_template imports ⟨"/page".toList⟩
  obtain ⟨-, heffect, hidle⟩ := h.1 ⟨['e'], [⟨['x'], none⟩], 1⟩ empty
    [.text ['b'], .element ⟨['i'], [], 1⟩ []] hd rfl
  have hleft : LeavesOut imports ⟨"/page".toList⟩ (page [usage]) (page []) :=
    .element (.other rfl (.usage hd rfl (hidle hplain) (.other rfl .nil))) .nil
  exact ⟨heffect.2 (hidle hplain) 4, h.2 _ _ hleft⟩

/-- The children of such a usage draw an identifier, or fail. -/
theorem vanishing_usage_has_effect :
    let empty : Definition := ⟨⟨"/e".toList⟩, [], none, [], [], "p{}".toList⟩
    let field : Definition := ⟨⟨"/f".toList⟩, [], some ⟨⟨"template".toList, [], 1⟩,
      [.element ⟨['i'], [⟨"id".toList, some ['!', 'x']⟩], 1⟩ []]⟩, [], [], []⟩
    let card : Definition := ⟨⟨"/c".toList⟩, [], some ⟨⟨"template".toList, [], 1⟩, []⟩,
      [⟨['a'], false, none⟩], [], []⟩
    let imports : Imports := [(['e'], empty), (['f'], field), (['c'], card)]
    let usage (inside : List Char) : List Node :=
      [.element ⟨['e'], [], 1⟩ [.element ⟨inside, [], 2⟩ []]]
    empty.template = none ∧
    (expand imports ⟨"/page".toList⟩ (usage ['f'])).run 0 = (.ok [], 1) ∧
    (expand imports ⟨"/page".toList⟩ (usage ['c'])).run 0 =
      (.error ⟨.missingArgument ['c'] ['a'], ⟨some ⟨"/page".toList⟩, some 2⟩⟩, 0) := by
  intro empty field card imports usage
  refine ⟨rfl, ?_, ?_⟩
  · unfold usage imports card field empty
    cbv
  · unfold usage imports card field empty
    cbv

end ComponentMarkup
