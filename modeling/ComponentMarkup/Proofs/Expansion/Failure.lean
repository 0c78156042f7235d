import ComponentMarkup.Proofs.Component.Binding
import ComponentMarkup.Proofs.Expansion.Scope

/-!
Failures of expansions. What fails is always the binding of one usage, and its file and line are told
however deep it is. Main statements: `failsAt_expand` and `BindsUsage.origin`.
-/

set_option autoImplicit false

namespace ComponentMarkup

/-- Expanding nodes of a file comes to bind a usage in a file; the tag has the attributes that are
bound, in which the arguments of usages around it have been put. -/
inductive BindsUsage : Imports → Path → List Node → Path → Tag → Definition → Prop
  | here {imports : Imports} {file : Path} {nodes : List Node} {tag : Tag} {d : Definition} :
      tag ∈ tags nodes → imports.find? tag.name = some d → BindsUsage imports file nodes file tag d
  | within {imports : Imports} {file file' : Path} {nodes body : List Node} {tag tag' : Tag}
      {d d' : Definition} {template : Element} (next : Nat) :
      tag ∈ tags nodes → imports.find? tag.name = some d → d.template = some template →
      d.instantiate template tag = .ok body →
      BindsUsage d.imports d.path (identifyBody body next).1 file' tag' d' →
      BindsUsage imports file nodes file' tag' d'

/-- The error of a usage that does not bind, with the file and the line of the usage. -/
def FailsAt (imports : Imports) (file : Path) (nodes : List Node) (e : CompileError) : Prop :=
  ∃ file' tag d, BindsUsage imports file nodes file' tag d ∧
    bindArguments tag.name d.parameters (usageAttributes tag) = .error e.cause.nowhere ∧
    e.location = ⟨some file', some tag.line⟩

variable {imports : Imports} {file : Path} {nodes : List Node}

theorem BindsUsage.mono {nodes' : List Node} {file' : Path} {tag : Tag} {d : Definition}
    (h : BindsUsage imports file nodes file' tag d) (hs : ∀ tag ∈ tags nodes, tag ∈ tags nodes') :
    BindsUsage imports file nodes' file' tag d := by
  cases h with
  | here hm hd => exact .here (hs _ hm) hd
  | within next hm hd ht hi hb => exact .within next (hs _ hm) hd ht hi hb

theorem FailsAt.mono {nodes' : List Node} {e : CompileError} (h : FailsAt imports file nodes e)
    (hs : ∀ tag ∈ tags nodes, tag ∈ tags nodes') : FailsAt imports file nodes' e := by
  obtain ⟨file', tag, d, hb, hf⟩ := h
  exact ⟨file', tag, d, hb.mono hs, hf⟩

theorem failsAt_use {d : Definition} {tag : Tag} {children : List Node} (hm : tag ∈ tags nodes)
    (hd : imports.find? tag.name = some d)
    (hb : ∀ body, (expand d.imports d.path body).Gives (fun _ => True)
      (FailsAt d.imports d.path body)) :
    (d.use file tag children).Gives (fun _ => True) (FailsAt imports file nodes) := by
  intro next
  cases ht : d.template with
  | none =>
    rw [Definition.use, ht]
    trivial
  | some template =>
    rw [Definition.run_use ht]
    cases hi : d.instantiate template tag with
    | error e =>
      have hbind := bindArguments_of_instantiate hi
      have hnowhere := bindArguments_nowhere hbind
      refine ⟨file, tag, d, .here hm hd, ?_, ?_⟩
      · rw [CompileError.cause_withLocation, ← hnowhere]
        exact hbind
      · rw [hnowhere]
        rfl
    | ok body =>
      -- an error in the body is one of the body's usages, and is left as it is
      have hwithin := hb (identifyBody body next).1 (identifyBody body next).2
      simp only
      generalize (expand d.imports d.path (identifyBody body next).1).run _ = r at hwithin ⊢
      obtain ⟨e | out, after⟩ := r
      · have hfails : FailsAt d.imports d.path (identifyBody body next).1 e := hwithin
        obtain ⟨file', tag', d', hbinds, hf, hl⟩ := hfails
        have hlocated : e.Located := ⟨file', tag'.line, hl⟩
        simp only [hlocated.withLocation]
        exact ⟨file', tag', d', .within next hm hd ht hi hbinds, hf, hl⟩
      · trivial

theorem failsAt_expand (imports : Imports) (file : Path) (nodes : List Node) :
    (expand imports file nodes).Gives (fun _ => True) (FailsAt imports file nodes) := by
  induction imports, nodes using expansion_induction generalizing file with
  | nil imports =>
    rw [expand_nil]
    exact .pure trivial
  | other imports n rest hn hr =>
    rw [expand_other _ _ hn]
    refine ((hr file).mono (fun _ h => h) fun e he => he.mono ?_).bind fun _ _ => .pure trivial
    simp +contextual [tags]
  | element imports tag children rest hc hr hb =>
    rw [expand_element]
    refine ((hc file).mono (fun _ h => h) fun e he => he.mono ?_).bind fun inner _ => ?_
    · simp +contextual [tags, Node.tags]
    have hstand : (imports.stand file tag inner).Gives (fun _ => True)
        (FailsAt imports file (.element tag children :: rest)) := by
      unfold Imports.stand
      split
      · exact .pure trivial
      · rename_i d hd
        exact failsAt_use (by simp [tags, Node.tags]) hd fun body => hb d body hd d.path
    refine hstand.bind fun _ _ => ?_
    refine ((hr file).mono (fun _ h => h) fun e he => he.mono ?_).bind fun _ _ => .pure trivial
    simp +contextual [tags, Node.tags]

theorem cause_of_expand (imports : Imports) (file : Path) (nodes : List Node) :
    (expand imports file nodes).Gives (fun _ => True) fun e => e.cause.OfUsage := by
  refine (failsAt_expand imports file nodes).mono (fun _ h => h) fun e he => ?_
  obtain ⟨file', tag, d, -, hb, -⟩ := he
  have hcause := cause_of_bindArguments hb
  exact hcause

theorem Definition.run_use_of_ok {d : Definition} {template : Element} {tag : Tag} {body : List Node}
    (ht : d.template = some template) (hi : d.instantiate template tag = .ok body)
    (children : List Node) (next : Nat) :
    (d.use file tag children).run next =
      match (expand d.imports d.path (identifyBody body next).1).run (identifyBody body next).2 with
      | (.ok out, after) => (.ok (fillSlots children out), after)
      | (.error e, after) => (.error e, after) := by
  rw [run_use ht, hi]
  simp only
  cases hx : (expand d.imports d.path (identifyBody body next).1).run (identifyBody body next).2 with
  | mk r after =>
    cases r with
    | ok out => rfl
    | error e =>
      have hlocated : e.Located := (located_expand _ _ _).of_run_error hx
      simp only [hlocated.withLocation]

/-- Where a usage that is bound was written: among the nodes, or in the template of a component that
the imports reach. -/
theorem BindsUsage.origin {file' : Path} {tag : Tag} {d : Definition}
    (h : BindsUsage imports file nodes file' tag d) :
    (file' = file ∧ tag ∈ tags nodes ∧ imports.find? tag.name = some d) ∨
      ∃ c template, imports.Reaches c ∧ c.template = some template ∧ file' = c.path ∧
        (tag.name, tag.line) ∈ outline template.children ∧
        Imports.find? c.imports tag.name = some d := by
  induction h with
  | here hm hd => exact .inl ⟨rfl, hm, hd⟩
  | @within imports file file' nodes body tag tag' d d' template next hm hd ht hi hb ih =>
    rcases ih with ⟨rfl, hm', hd'⟩ | ⟨c, template', hr, ht', hf, ho, hd'⟩
    · refine .inr ⟨d, template, .direct hd, ht, rfl, ?_, hd'⟩
      rw [← outline_instantiate hi, ← outline_identifyBody body next]
      exact List.mem_map.2 ⟨tag', hm', rfl⟩
    · exact .inr ⟨c, template', .through hd hr, ht', hf, ho, hd'⟩

end ComponentMarkup
