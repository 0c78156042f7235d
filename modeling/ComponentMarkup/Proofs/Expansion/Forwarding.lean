import ComponentMarkup.Proofs.Component.HandedOn
import ComponentMarkup.Proofs.Component.Made
import ComponentMarkup.Proofs.Expansion.Failure
import ComponentMarkup.Proofs.Expansion.Slots

set_option autoImplicit false

namespace ComponentMarkup

/-- The template of `outer` is one usage of `inner`, which gets every argument by its placeholder and
the children. -/
structure Definition.Forwards (outer inner : Definition) (template : Element) (usage : Tag) : Prop where
  parameters : outer.parameters = inner.parameters
  holds : outer.template = some template
  body : template.children = [.element usage [.text childrenSlot]]
  known : Imports.find? outer.imports usage.name = some inner
  attributes : usage.attrs.Perm (inner.parameters.map fun p => ⟨p.placeholder, none⟩)

theorem expand_usage {imports : Imports} {tag : Tag} {d : Definition}
    (h : imports.find? tag.name = some d) (file : Path) :
    expand imports file [.element tag [.text childrenSlot]] =
      d.use file tag [.text childrenSlot] := by
  rw [expand_single, expand_of_unknown file (by simp [tags, Node.tags]), pure_bind, Imports.stand, h]

namespace Definition.Forwards

variable {outer inner : Definition} {template : Element} {usage tag : Tag}

/-- The usage of the inner component binds as the one of the outer does, and draws nothing. -/
theorem instantiate (h : outer.Forwards inner template usage)
    (hf : Forwardable inner.parameters) (hu : tag.Unmarked) {arguments : List Argument}
    (hb : bindArguments tag.name inner.parameters (usageAttributes tag) = .ok arguments) :
    ∃ handed : Tag, handed.name = usage.name ∧ handed.Unmarked ∧
      outer.instantiate template tag = .ok [.element handed [.text childrenSlot]] ∧
      bindArguments handed.name inner.parameters (usageAttributes handed) = .ok arguments := by
  have harguments := (bindArguments_eq_ok_iff.1 hb).2.2
  have hands : HandsOn inner.parameters (usageAttributes tag)
      (usage.attrs.filterMap (substituteAttribute arguments)) :=
    harguments ▸ handsOn_of_perm hf h.attributes
  have hbody : substituteBody arguments [.element usage [.text childrenSlot]] =
      [.element { usage with attrs := usage.attrs.filterMap (substituteAttribute arguments) }
        [.text childrenSlot]] := by
    refine substituteBody_forwarding ?_ fun he => ?_
    · rw [harguments]
      simpa using hf.reserved
    · have hnone : inner.parameters = [] := List.map_eq_nil_iff.1 (harguments.symm.trans he)
      simpa [hnone] using h.attributes
  generalize usage.attrs.filterMap (substituteAttribute arguments) = handed at hands hbody
  refine ⟨⟨usage.name, handed, usage.line⟩, rfl, hands.unmarked hf hu _ _, ?_, ?_⟩
  · rw [instantiate_eq, h.parameters, hb, h.body]
    exact congrArg Except.ok hbody
  · rw [hands.usageAttributes hf]
    exact hands.bindArguments hf hb

theorem use (h : outer.Forwards inner template usage)
    (hf : Forwardable inner.parameters) {innerTemplate : Element}
    (ht : inner.template = some innerTemplate) (hu : tag.Unmarked) (file : Path)
    (children : List Node) :
    outer.use file tag children = inner.use file tag children := by
  funext next
  change (outer.use file tag children).run next = (inner.use file tag children).run next
  cases hb : ComponentMarkup.bindArguments tag.name inner.parameters (usageAttributes tag) with
  | error e =>
    rw [run_use h.holds, run_use ht, instantiate_eq, instantiate_eq, h.parameters, hb]
    rfl
  | ok arguments =>
    obtain ⟨handed, hname, hmark, hout, hbind⟩ := h.instantiate hf hu hb
    have hin : inner.instantiate innerTemplate tag =
        .ok (substituteBody arguments innerTemplate.children) := by
      rw [instantiate_eq, hb]
      rfl
    have hwithin : inner.instantiate innerTemplate handed =
        .ok (substituteBody arguments innerTemplate.children) := by
      rw [instantiate_eq, hbind]
      rfl
    have hdrawn : identifyBody [.element handed [.text childrenSlot]] next =
        ([.element handed [.text childrenSlot]], next) := by
      simp [identifyBody, visitTags, Node.visitTags, identifyAttributes_unmarked hmark]
    rw [run_use_of_ok h.holds hout, run_use_of_ok ht hin, hdrawn, expand_usage (hname ▸ h.known),
      run_use_of_ok ht hwithin]
    -- what the inner component gives has its slots filled twice
    generalize (expand inner.imports inner.path _).run _ = r
    obtain ⟨_ | out, after⟩ := r
    · rfl
    · simp only [fillSlots_childrenSlot]

end Definition.Forwards

/-- A component that hands every argument and the children on to another one is as good as that one, for
every page that gives it no values with an exclamation mark, where the values by default are such that
they can be handed on: expanding gives the same nodes or the same error in the same place, and the
same identifiers are drawn. -/
theorem expand_forwarding {outer inner : Definition} {template innerTemplate : Element} {usage : Tag}
    (h : outer.Forwards inner template usage) (hinner : inner.template = some innerTemplate)
    (hf : Forwardable inner.parameters) (imports : Imports) (name : List Char) (file : Path)
    (nodes : List Node) (hu : ∀ tag ∈ tags nodes, tag.name = name → tag.Unmarked) (next : Nat) :
    (expand (imports.insert name outer) file nodes).run next =
      (expand (imports.insert name inner) file nodes).run next := by
  suffices he : expand (imports.insert name outer) file nodes =
      expand (imports.insert name inner) file nodes by rw [he]
  induction nodes using nodes_induction with
  | nil => rw [expand_nil, expand_nil]
  | element tag children rest hc hr =>
    simp only [tags, Node.tags, List.cons_append, List.forall_mem_cons, List.mem_append] at hu
    have hstand : ∀ inside, (imports.insert name outer).stand file tag inside =
        (imports.insert name inner).stand file tag inside := by
      intro inside
      unfold Imports.stand
      rw [Imports.find?_insert, Imports.find?_insert]
      by_cases hn : tag.name = name
      · simp only [hn, if_true]
        exact h.use hf hinner (hu.1 hn) file inside
      · simp only [hn, if_false]
    rw [expand_element, expand_element, hc fun tag hm => hu.2 tag (.inl hm),
      hr fun tag hm => hu.2 tag (.inr hm)]
    simp only [hstand]
  | text chars rest hr => rw [expand_other _ _ rfl, expand_other _ _ rfl, hr hu]
  | comment body rest hr => rw [expand_other _ _ rfl, expand_other _ _ rfl, hr hu]
  | doctype body rest hr => rw [expand_other _ _ rfl, expand_other _ _ rfl, hr hu]

/-- A frame around a box, in a page with a box inside of a box. -/
theorem expand_forwarding_frame :
    let box : Definition := ⟨⟨"/box".toList⟩, [], some ⟨⟨"template".toList, [], 1⟩,
      [.element ⟨['p'], [⟨['$', 'a'], none⟩, ⟨['b'], some ['$', 'b']⟩, ⟨['i'], some ['!', 'i']⟩], 2⟩
        [.text childrenSlot]]⟩, [⟨['a'], false, some ['d']⟩, ⟨['b'], false, none⟩], [], []⟩
    let frame : Definition := ⟨⟨"/frame".toList⟩, [(['x'], box)], some ⟨⟨"template".toList, [], 1⟩,
      [.element ⟨['x'], [⟨['$', 'b'], none⟩, ⟨['$', 'a'], none⟩], 3⟩ [.text childrenSlot]]⟩,
      box.parameters, [], []⟩
    let nodes : List Node := [.element ⟨['c'], [⟨['B'], some ['v']⟩], 4⟩
      [.element ⟨['c'], [⟨['b'], none⟩, ⟨['a'], none⟩], 5⟩ []]]
    let expanded (d : Definition) := (expand (Imports.insert ['c'] d []) ⟨"/page".toList⟩ nodes).run 0
    expanded frame = expanded box ∧
    expanded box = (.ok [.element ⟨['p'], [⟨['a'], some ['d']⟩, ⟨['b'], some ['v']⟩,
      ⟨['i'], some ['B']⟩], 2⟩
      [.element ⟨['p'], [⟨['a'], none⟩, ⟨['i'], some ['A']⟩], 2⟩ []]], 2) := by
  intro box frame nodes expanded
  refine ⟨?_, by unfold expanded nodes box; cbv⟩
  have h : frame.Forwards box ⟨⟨"template".toList, [], 1⟩,
      [.element ⟨['x'], [⟨['$', 'b'], none⟩, ⟨['$', 'a'], none⟩], 3⟩ [.text childrenSlot]]⟩
      ⟨['x'], [⟨['$', 'b'], none⟩, ⟨['$', 'a'], none⟩], 3⟩ :=
    ⟨rfl, rfl, rfl, rfl, .swap _ _ []⟩
  have htags : tags nodes =
      [⟨['c'], [⟨['B'], some ['v']⟩], 4⟩, ⟨['c'], [⟨['b'], none⟩, ⟨['a'], none⟩], 5⟩] := by cbv
  have hf : Forwardable [⟨['a'], false, some ['d']⟩, ⟨['b'], false, none⟩] :=
    ⟨by decide, by decide, by decide, by decide⟩
  exact expand_forwarding h rfl hf [] ['c'] ⟨"/page".toList⟩ nodes (by rw [htags]; decide) 0

/-- Values by default that a usage of its own takes differently: one with the mark of an identifier, two
for one name, one whose name has a capital; and an argument with the name of the slot. -/
theorem expand_forwarding_differs :
    let template : Tag := ⟨"template".toList, [], 1⟩
    let inner (ps : List Parameter) (text : List Char) : Definition :=
      ⟨⟨"/inner".toList⟩, [], some ⟨template, [.text text]⟩, ps, [], []⟩
    let outer (ps : List Parameter) (text : List Char) : Definition :=
      ⟨⟨"/outer".toList⟩, [(['i'], inner ps text)],
        some ⟨template, [.element ⟨['i'], ps.map fun p => ⟨p.placeholder, none⟩, 2⟩
          [.text childrenSlot]]⟩, ps, [], []⟩
    let expanded (d : Definition) (attrs : List Attribute) :=
      (expand (Imports.insert ['c'] d []) ⟨"/page".toList⟩
        [.element ⟨['c'], attrs, 3⟩ [.text ['k']]]).run 0
    let marked : List Parameter := [⟨['a'], true, some "!x".toList⟩]
    let twice : List Parameter := [⟨['a'], true, some "x$a".toList⟩, ⟨['a'], true, some ['y']⟩]
    let capital : List Parameter := [⟨['A'], true, some ['x']⟩]
    let slot : List Parameter := [⟨childrenName, true, none⟩, ⟨['a'], true, none⟩]
    (expanded (inner marked "$a".toList) [] = (.ok [.text "!x".toList], 0) ∧
      expanded (outer marked "$a".toList) [] = (.ok [.text ['A']], 1)) ∧
    (expanded (inner twice "$a".toList) [] = (.ok [.text "xy".toList], 0) ∧
      expanded (outer twice "$a".toList) [] = (.ok [.text "xx$a".toList], 0)) ∧
    (expanded (inner capital "$A".toList) [] = (.ok [.text ['x']], 0) ∧
      expanded (outer capital "$A".toList) [] = (.error ⟨.extraArguments [['a']],
        ⟨some ⟨"/outer".toList⟩, some 2⟩⟩, 0)) ∧
    expanded (inner slot "$a".toList) [⟨['a'], some childrenSlot⟩] = (.ok [.text ['k']], 0) ∧
      expanded (outer slot "$a".toList) [⟨['a'], some childrenSlot⟩] = (.ok [.text []], 0) := by
  intro template inner outer expanded marked twice capital slot
  refine ⟨⟨?_, ?_⟩, ⟨?_, ?_⟩, ⟨?_, ?_⟩, ?_, ?_⟩
  all_goals
    unfold expanded
    cbv

end ComponentMarkup
