import ComponentMarkup.Proofs.Expansion.Outcome
import ComponentMarkup.Proofs.Markup.DocumentOrder
import Mathlib

/-!
Scope of component names. A name in a file means what it means there: expanding leaves an element as
it is only where the file that wrote it knows no component of that name, and looks up no other names
than those that stand in the nodes.
-/

set_option autoImplicit false

namespace ComponentMarkup

def outline (nodes : List Node) : List (List Char × Nat) :=
  (tags nodes).map fun tag => (tag.name, tag.line)

@[simp] theorem outline_nil : outline [] = [] := rfl

@[simp] theorem outline_element (tag : Tag) (children rest : List Node) :
    outline (.element tag children :: rest) =
      (tag.name, tag.line) :: (outline children ++ outline rest) := by
  simp [outline, tags, Node.tags]

@[simp] theorem outline_other {n : Node} (h : n.element? = none) (rest : List Node) :
    outline (n :: rest) = outline rest := by
  cases n with
  | element tag children => cases h
  | text chars => rfl
  | comment body => rfl
  | doctype body => rfl

@[simp] theorem outline_append (a b : List Node) : outline (a ++ b) = outline a ++ outline b := by
  rw [outline, tags_append, List.map_append]
  rfl

theorem tags_mapTexts (f : List Char → List Char) (nodes : List Node) :
    tags (mapTexts f nodes) = tags nodes := by
  induction nodes using nodes_induction with
  | nil => rfl
  | element tag children rest hc hr =>
    simp [mapTexts, Node.mapTexts, tags, Node.tags, hc, hr]
  | text chars rest hr => exact hr
  | comment body rest hr => exact hr
  | doctype body rest hr => exact hr

theorem outline_mapTexts (f : List Char → List Char) (nodes : List Node) :
    outline (mapTexts f nodes) = outline nodes := by
  rw [outline, tags_mapTexts]
  rfl

theorem outline_visitTags {σ : Type} {f : Tag → σ → Tag × σ}
    (hf : ∀ tag s, (f tag s).1.name = tag.name ∧ (f tag s).1.line = tag.line) (nodes : List Node)
    (s : σ) : outline (visitTags f nodes s).1 = outline nodes := by
  induction nodes using nodes_induction generalizing s with
  | nil => rfl
  | element tag children rest hc hr =>
    simp [visitTags, Node.visitTags, hc, hr, (hf tag s).1, (hf tag s).2]
  | text chars rest hr => exact hr s
  | comment body rest hr => exact hr s
  | doctype body rest hr => exact hr s

theorem outline_substituteBody (arguments : List Argument) (body : List Node) :
    outline (substituteBody arguments body) = outline body := by
  unfold substituteBody
  split
  · rfl
  · rw [outline_mapTexts, outline_visitTags (fun _ _ => ⟨rfl, rfl⟩)]

theorem outline_identifyBody (body : List Node) (next : Nat) :
    outline (identifyBody body next).1 = outline body := by
  unfold identifyBody
  apply outline_visitTags
  intro tag s
  exact ⟨rfl, rfl⟩

theorem outline_instantiate {d : Definition} {template : Element} {tag : Tag} {body : List Node}
    (h : d.instantiate template tag = .ok body) : outline body = outline template.children := by
  simp only [Definition.instantiate, bind, Except.bind] at h
  split at h
  · cases h
  · cases h
    exact outline_substituteBody _ _

theorem tags_fillSlots {children : List Node} {tag : Tag} (body : List Node)
    (h : tag ∈ tags (fillSlots children body)) : tag ∈ tags body ∨ tag ∈ tags children := by
  induction body using nodes_induction with
  | nil => simp [fillSlots, tags] at h
  | element head inner rest hc hr =>
    simp only [fillSlots, Node.fillSlots, tags, Node.tags, List.cons_append, List.nil_append,
      List.mem_cons, List.mem_append] at h ⊢
    rcases h with h | h | h
    · exact .inl (.inl h)
    · exact (hc h).imp_left fun h => .inr (.inl h)
    · exact (hr h).imp_left fun h => .inr (.inr h)
  | text chars rest hr =>
    simp only [fillSlots, Node.fillSlots, tags_append, List.mem_append] at h
    rcases h with h | h
    · split at h
      · exact .inr h
      · simp [tags, Node.tags] at h
    · exact hr h
  | comment body rest hr => exact hr h
  | doctype body rest hr => exact hr h

theorem outline_fillSlots {children : List Node} {head : List Char × Nat} (body : List Node)
    (h : head ∈ outline (fillSlots children body)) : head ∈ outline body ∨ head ∈ outline children := by
  obtain ⟨tag, hm, rfl⟩ := List.mem_map.1 h
  exact (tags_fillSlots body hm).imp (fun hm => List.mem_map.2 ⟨tag, hm, rfl⟩)
    fun hm => List.mem_map.2 ⟨tag, hm, rfl⟩

inductive Imports.Reaches : Imports → Definition → Prop
  | direct {imports : Imports} {name : List Char} {d : Definition} :
      imports.find? name = some d → imports.Reaches d
  | through {imports : Imports} {name : List Char} {d d' : Definition} :
      imports.find? name = some d → Imports.Reaches d.imports d' → imports.Reaches d'

/-- An element of these nodes, or of the template of a component that the imports reach, that no
component in its own file's imports stands for. -/
def Imports.Leaves (imports : Imports) (nodes : List Node) (head : List Char × Nat) : Prop :=
  (head ∈ outline nodes ∧ imports.find? head.1 = none) ∨
    ∃ d template, imports.Reaches d ∧ d.template = some template ∧
      head ∈ outline template.children ∧ Imports.find? d.imports head.1 = none

theorem Imports.Leaves.mono {imports : Imports} {nodes nodes' : List Node} {head : List Char × Nat}
    (h : imports.Leaves nodes head) (hs : ∀ head ∈ outline nodes, head ∈ outline nodes') :
    imports.Leaves nodes' head :=
  h.imp_left fun h => ⟨hs _ h.1, h.2⟩

/-- What a template leaves is left in the file that uses its component. -/
theorem Imports.Leaves.of_template {imports : Imports} {name : List Char} {d : Definition}
    {template : Element} {body nodes : List Node} {head : List Char × Nat}
    (hd : imports.find? name = some d) (ht : d.template = some template)
    (hb : outline body = outline template.children) (h : Imports.Leaves d.imports body head) :
    imports.Leaves nodes head := by
  rcases h with ⟨hm, hn⟩ | ⟨d', template', hr, ht', hm, hn⟩
  · exact .inr ⟨d, template, .direct hd, ht, hb ▸ hm, hn⟩
  · exact .inr ⟨d', template', .through hd hr, ht', hm, hn⟩

theorem Definition.use_leaves {imports : Imports} {d : Definition} {file : Path} {tag : Tag}
    {children nodes : List Node} (hd : imports.find? tag.name = some d)
    (hc : ∀ head ∈ outline children, imports.Leaves nodes head)
    (hb : ∀ body, (expand d.imports d.path body).Gives
      (fun out => ∀ head ∈ outline out, Imports.Leaves d.imports body head) fun _ => True) :
    (d.use file tag children).Gives (fun out => ∀ head ∈ outline out, imports.Leaves nodes head)
      fun _ => True := by
  refine Definition.gives_use (by simp) (fun template body ht hi next => ?_) file
  have hbody : outline (identifyBody body next).1 = outline template.children := by
    rw [outline_identifyBody, outline_instantiate hi]
  refine (hb _).mono (fun out hout head hm => ?_) fun _ h => h
  rcases outline_fillSlots out hm with hm | hm
  · exact (hout head hm).of_template hd ht hbody
  · exact hc head hm

theorem expand_leaves (imports : Imports) (file : Path) (nodes : List Node) :
    (expand imports file nodes).Gives (fun out => ∀ head ∈ outline out, imports.Leaves nodes head)
      fun _ => True := by
  induction imports, nodes using expansion_induction generalizing file with
  | nil imports =>
    rw [expand_nil]
    exact .pure (by simp)
  | other imports n rest hn hr =>
    rw [expand_other _ _ hn]
    refine (hr file).bind fun out ho => .pure fun head hm => ?_
    rw [outline_other hn] at hm
    exact (ho head hm).mono (by simp [outline_other hn])
  | element imports tag children rest hc hr hb =>
    rw [expand_element]
    refine (hc file).bind fun inner hinner => ?_
    have hin : ∀ head ∈ outline inner, imports.Leaves (.element tag children :: rest) head :=
      fun head hm => (hinner head hm).mono (by simp +contextual)
    have hstand : (imports.stand file tag inner).Gives
        (fun out => ∀ head ∈ outline out, imports.Leaves (.element tag children :: rest) head)
        fun _ => True := by
      unfold Imports.stand
      split
      · rename_i hd
        refine .pure fun head hm => ?_
        simp only [outline_element, outline_nil, List.append_nil, List.mem_cons] at hm
        rcases hm with rfl | hm
        · exact .inl ⟨by simp, hd⟩
        · exact hin head hm
      · rename_i d hd
        exact Definition.use_leaves hd hin fun body => hb d body hd d.path
    refine hstand.bind fun output hout => (hr file).bind fun last hlast => .pure fun head hm => ?_
    rw [outline_append, List.mem_append] at hm
    rcases hm with hm | hm
    · exact hout head hm
    · exact (hlast head hm).mono (by simp +contextual)

theorem expand_congr {imports imports' : Imports} (file : Path) {nodes : List Node}
    (h : ∀ tag ∈ tags nodes, imports.find? tag.name = imports'.find? tag.name) :
    expand imports file nodes = expand imports' file nodes := by
  induction nodes using nodes_induction with
  | nil => rw [expand_nil, expand_nil]
  | element tag children rest hc hr =>
    simp only [tags, Node.tags, List.cons_append, List.forall_mem_cons, List.mem_append] at h
    have hs : ∀ inner, imports.stand file tag inner = imports'.stand file tag inner := by
      intro inner
      unfold Imports.stand
      rw [h.1]
    rw [expand_element, expand_element, hc fun tag hm => h.2 tag (.inl hm),
      hr fun tag hm => h.2 tag (.inr hm)]
    simp only [hs]
  | text chars rest hr => rw [expand_other _ _ rfl, expand_other _ _ rfl, hr h]
  | comment body rest hr => rw [expand_other _ _ rfl, expand_other _ _ rfl, hr h]
  | doctype body rest hr => rw [expand_other _ _ rfl, expand_other _ _ rfl, hr h]

/-- An element of an expansion has the name and the line of one that stands in the nodes, or in the
template of a component that the imports reach, where the file that wrote it knows no component of
that name. Other names than those in the nodes do not matter for the outcome. -/
theorem expand_scope (imports : Imports) (file : Path) (nodes : List Node) (next : Nat) :
    (∀ out after, (expand imports file nodes).run next = (.ok out, after) →
      ∀ tag ∈ tags out,
        (∃ origin ∈ tags nodes, origin.name = tag.name ∧ origin.line = tag.line ∧
          imports.find? origin.name = none) ∨
        ∃ d template, imports.Reaches d ∧ d.template = some template ∧
          ∃ origin ∈ tags template.children, origin.name = tag.name ∧ origin.line = tag.line ∧
            Imports.find? d.imports origin.name = none) ∧
    ∀ imports' : Imports,
      (∀ tag ∈ tags nodes, imports.find? tag.name = imports'.find? tag.name) →
      (expand imports file nodes).run next = (expand imports' file nodes).run next := by
  have origin : ∀ {nodes : List Node} {tag : Tag}, (tag.name, tag.line) ∈ outline nodes →
      ∃ origin ∈ tags nodes, origin.name = tag.name ∧ origin.line = tag.line := by
    intro nodes tag h
    obtain ⟨o, ho, he⟩ := List.mem_map.1 h
    exact ⟨o, ho, Prod.mk.inj he⟩
  refine ⟨fun out after hr tag hm => ?_, fun imports' h => by rw [expand_congr file h]⟩
  rcases (expand_leaves imports file nodes).of_run hr (tag.name, tag.line)
    (List.mem_map.2 ⟨tag, hm, rfl⟩) with ⟨h, hn⟩ | ⟨d, template, hd, ht, h, hn⟩
  · obtain ⟨o, ho, hname, hline⟩ := origin h
    exact .inl ⟨o, ho, hname, hline, hname ▸ hn⟩
  · obtain ⟨o, ho, hname, hline⟩ := origin h
    exact .inr ⟨d, template, hd, ht, o, ho, hname, hline, hname ▸ hn⟩

/-- A component that puts its children into a paragraph, with a caller that knows no paragraph. -/
theorem expand_scope_of_card :
    let card : Definition := ⟨⟨"/card".toList⟩, [], some ⟨⟨"template".toList, [], 1⟩,
      [.element ⟨['p'], [], 2⟩ [.text "$children".toList]]⟩, [], [], []⟩
    let imports : Imports := [("card".toList, card)]
    let others : Imports := [(['p'], card), ("card".toList, card)]
    let nodes : List Node := [.element ⟨"card".toList, [], 5⟩ [.element ⟨['b'], [], 6⟩ []]]
    let out : List Node := [.element ⟨['p'], [], 2⟩ [.element ⟨['b'], [], 6⟩ []]]
    (∀ tag ∈ tags out,
      (∃ origin ∈ tags nodes, origin.name = tag.name ∧ origin.line = tag.line ∧
        imports.find? origin.name = none) ∨
      ∃ d template, imports.Reaches d ∧ d.template = some template ∧
        ∃ origin ∈ tags template.children, origin.name = tag.name ∧ origin.line = tag.line ∧
          Imports.find? d.imports origin.name = none) ∧
    (expand imports ⟨"/page".toList⟩ nodes).run 3 =
      (expand others ⟨"/page".toList⟩ nodes).run 3 := by
  intro card imports others nodes out
  have hrun : (expand imports ⟨"/page".toList⟩ nodes).run 3 = (.ok out, 3) := by cbv
  have hagree : ∀ tag ∈ tags nodes, imports.find? tag.name = others.find? tag.name := by
    intro tag hm
    have htags : tags nodes = [⟨"card".toList, [], 5⟩, ⟨['b'], [], 6⟩] := by cbv
    rw [htags, List.mem_cons, List.mem_singleton] at hm
    rcases hm with rfl | rfl
    · cbv
    · cbv
  have h := expand_scope imports ⟨"/page".toList⟩ nodes 3
  exact ⟨h.1 out 3 hrun, h.2 others hagree⟩

end ComponentMarkup
