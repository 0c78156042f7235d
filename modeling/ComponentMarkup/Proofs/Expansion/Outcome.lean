import ComponentMarkup.Component.Expansion

set_option autoImplicit false

namespace ComponentMarkup

/-! ## Places of errors -/

def CompileError.Located (e : CompileError) : Prop :=
  ∃ file line, e.location = ⟨some file, some line⟩

theorem CompileError.Located.withLocation {e : CompileError} (h : e.Located) (file : Path)
    (line : Option Nat) : e.withLocation file line = e := by
  obtain ⟨cause, location⟩ := e
  obtain ⟨known, n, hl⟩ := h
  simp only at hl
  subst hl
  simp [CompileError.withLocation]

theorem CompileError.located_of_nowhere {e : CompileError} (h : e = e.cause.nowhere ∨ e.Located)
    (file : Path) (line : Nat) : (e.withLocation file (some line)).Located := by
  rcases h with h | h
  · rw [h]
    exact ⟨file, line, rfl⟩
  · rwa [h.withLocation]

theorem Argument.bind_nowhere {tag : List Char} {p : Parameter} {attrs : List Attribute}
    {e : CompileError} (h : Argument.bind tag p attrs = .error e) : e = e.cause.nowhere := by
  unfold Argument.bind at h
  split at h
  · cases h
  · split at h
    · cases h
    · cases h
      rfl

theorem bindArguments_nowhere {tag : List Char} {ps : List Parameter} {attrs : List Attribute}
    {e : CompileError} (h : bindArguments tag ps attrs = .error e) : e = e.cause.nowhere := by
  have hall : ps.mapM (Argument.bind tag · attrs) = .error e → e = e.cause.nowhere := by
    clear h
    intro h
    induction ps with
    | nil => cases h
    | cons p ps ih =>
      rw [List.mapM_cons] at h
      cases hp : Argument.bind tag p attrs with
      | error e' =>
        rw [hp] at h
        cases h
        exact Argument.bind_nowhere hp
      | ok a =>
        rw [hp] at h
        cases hps : ps.mapM (Argument.bind tag · attrs) with
        | error e' =>
          simp only [hps, bind, Except.bind] at h
          cases h
          exact ih hps
        | ok rest =>
          simp only [hps, bind, Except.bind] at h
          cases h
  unfold bindArguments at h
  dsimp only at h
  split at h
  · exact hall h
  · cases h
    rfl

theorem bindArguments_of_instantiate {d : Definition} {template : Element} {tag : Tag}
    {e : CompileError} (h : d.instantiate template tag = .error e) :
    bindArguments tag.name d.parameters (usageAttributes tag) = .error e := by
  simp only [Definition.instantiate, bind, Except.bind] at h
  split at h
  · rename_i hb
    cases h
    exact hb
  · cases h

/-! ## Outcomes -/

/-- Every outcome, whatever number comes next, is a value of the one kind or an error of the other. -/
def Expansion.Gives {α : Type} (x : Expansion α) (ok : α → Prop) (err : CompileError → Prop) : Prop :=
  ∀ next, match (x.run next).1 with
    | .ok a => ok a
    | .error e => err e

namespace Expansion

variable {α β : Type} {ok : α → Prop} {ok' : β → Prop} {err err' : CompileError → Prop}

theorem run_bind (x : Expansion α) (f : α → Expansion β) (next : Nat) :
    (x >>= f).run next = match x.run next with
      | (.ok a, n) => (f a).run n
      | (.error e, n) => (.error e, n) := by
  simp only [bind, ExceptT.bind, ExceptT.mk, ExceptT.run, StateT.bind, ExceptT.bindCont]
  generalize x next = r
  obtain ⟨r, n⟩ := r
  cases r <;> rfl

theorem run_locate (file : Path) (line : Nat) (x : Expansion α) (next : Nat) :
    (locate file line x).run next = match x.run next with
      | (.ok a, n) => (.ok a, n)
      | (.error e, n) => (.error (e.withLocation file (some line)), n) := by
  simp only [locate, tryCatch, tryCatchThe, MonadExceptOf.tryCatch, ExceptT.tryCatch, ExceptT.mk,
    ExceptT.run, bind, StateT.bind]
  generalize x next = r
  obtain ⟨r, n⟩ := r
  cases r <;> rfl

theorem Gives.pure {a : α} (h : ok a) : Gives (Pure.pure a) ok err := fun _ => h

theorem Gives.mono {ok₂ : α → Prop} {x : Expansion α} (h : x.Gives ok err)
    (ho : ∀ a, ok a → ok₂ a) (he : ∀ e, err e → err' e) : x.Gives ok₂ err' := by
  intro next
  have h := h next
  generalize (x.run next).1 = r at h ⊢
  cases r with
  | error e => exact he e h
  | ok a => exact ho a h

theorem Gives.bind {x : Expansion α} {f : α → Expansion β} (hx : x.Gives ok err)
    (hf : ∀ a, ok a → (f a).Gives ok' err) : Gives (x >>= f) ok' err := by
  intro next
  have h := hx next
  rw [run_bind]
  generalize x.run next = r at h ⊢
  obtain ⟨r, n⟩ := r
  cases r with
  | error e => exact h
  | ok a => exact hf a h n

theorem Gives.locate {x : Expansion α} {file : Path} {line : Nat} (hx : x.Gives ok err)
    (he : ∀ e, err e → err' (e.withLocation file (some line))) :
    (Expansion.locate file line x).Gives ok err' := by
  intro next
  have h := hx next
  rw [run_locate]
  generalize x.run next = r at h ⊢
  obtain ⟨r, n⟩ := r
  cases r with
  | error e => exact he e h
  | ok a => exact h

theorem Gives.ofExcept {r : Except CompileError α} (ho : ∀ a, r = .ok a → ok a)
    (he : ∀ e, r = .error e → err e) : Gives (ExceptT.mk (Pure.pure r)) ok err := by
  intro next
  cases r with
  | error e => exact he e rfl
  | ok a => exact ho a rfl

theorem Gives.identify {body : List Node} (ok : List Node → Prop)
    (h : ∀ next, ok (identifyBody body next).1) : (Expansion.identify body).Gives ok err := h

theorem Gives.of_run {x : Expansion α} (h : x.Gives ok err) {a : α} {next after : Nat}
    (hr : x.run next = (.ok a, after)) : ok a := by
  have := h next
  rwa [hr] at this

theorem Gives.of_run_error {x : Expansion α} (h : x.Gives ok err) {e : CompileError}
    {next after : Nat} (hr : x.run next = (.error e, after)) : err e := by
  have := h next
  rwa [hr] at this

theorem locate_bind {x : Expansion α} (hx : x.Gives (fun _ => True) CompileError.Located)
    (f : α → Expansion β) (file : Path) (line : Nat) :
    locate file line (x >>= f) = x >>= fun a => locate file line (f a) := by
  funext next
  change (locate file line (x >>= f)).run next = (x >>= fun a => locate file line (f a)).run next
  have h := hx next
  rw [run_locate, run_bind, run_bind]
  generalize x.run next = r at h ⊢
  obtain ⟨e | a, n⟩ := r
  · exact congrArg (fun e => (Except.error e, n)) (CompileError.Located.withLocation h file line)
  · exact (run_locate file line (f a) n).symm

end Expansion

/-- Induction over what is expanded: the children and the rest of the nodes with the same imports,
the body of a template, whatever it is, with the imports of its component. -/
@[elab_as_elim]
theorem expansion_induction {motive : Imports → List Node → Prop}
    (nil : ∀ imports, motive imports [])
    (element : ∀ imports tag children rest, motive imports children → motive imports rest →
      (∀ d body, imports.find? tag.name = some d → motive d.imports body) →
      motive imports (.element tag children :: rest))
    (other : ∀ imports n rest, n.element? = none → motive imports rest → motive imports (n :: rest))
    (imports : Imports) (nodes : List Node) : motive imports nodes := by
  induction hs : sizeOf imports using Nat.strongRecOn generalizing imports nodes with
  | ind size ih =>
    subst hs
    induction nodes using nodes_induction with
    | nil => exact nil imports
    | element tag children rest hc hr =>
      exact element imports tag children rest hc hr fun d body hd =>
        ih _ (Definition.sizeOf_imports_lt hd) d.imports body rfl
    | text chars rest hr => exact other imports _ rest rfl hr
    | comment body rest hr => exact other imports _ rest rfl hr
    | doctype body rest hr => exact other imports _ rest rfl hr

/-! ## The steps of an expansion -/

def Definition.use (d : Definition) (file : Path) (tag : Tag) (children : List Node) :
    Expansion (List Node) :=
  match d.template with
  | none => pure []
  | some template => Expansion.locate file tag.line do
    let body ← ExceptT.mk (pure (d.instantiate template tag))
    let body ← Expansion.identify body
    let body ← expand d.imports d.path body
    return fillSlots children body

theorem Definition.run_use {d : Definition} {template : Element} (ht : d.template = some template)
    (file : Path) (tag : Tag) (children : List Node) (next : Nat) :
    (d.use file tag children).run next =
      match d.instantiate template tag with
      | .error e => (.error (e.withLocation file (some tag.line)), next)
      | .ok body =>
        match (expand d.imports d.path (identifyBody body next).1).run (identifyBody body next).2 with
        | (.ok out, after) => (.ok (fillSlots children out), after)
        | (.error e, after) => (.error (e.withLocation file (some tag.line)), after) := by
  rw [use, ht]
  simp only [Expansion.run_locate, Expansion.run_bind]
  cases d.instantiate template tag with
  | error e => rfl
  | ok body =>
    have hbody : (ExceptT.mk (pure (.ok body)) : Expansion (List Node)).run next = (.ok body, next) :=
      rfl
    have hid : (Expansion.identify body).run next =
        (.ok (identifyBody body next).1, (identifyBody body next).2) := rfl
    simp only [hbody, hid]
    generalize (expand d.imports d.path (identifyBody body next).1).run _ = r
    obtain ⟨_ | out, after⟩ := r
    · rfl
    · rfl

theorem Definition.gives_use {d : Definition} {tag : Tag} {children : List Node}
    {ok : List Node → Prop} (hnil : ok [])
    (h : ∀ template body, d.template = some template → d.instantiate template tag = .ok body →
      ∀ next, (expand d.imports d.path (identifyBody body next).1).Gives
        (fun out => ok (fillSlots children out)) fun _ => True) (file : Path) :
    (d.use file tag children).Gives ok fun _ => True := by
  unfold use
  split
  · exact .pure hnil
  · rename_i template ht
    refine .locate (.bind (.ofExcept (fun body h => h) fun _ _ => trivial) fun body hi => ?_)
      fun _ _ => trivial
    refine .bind (.identify (fun body => (expand d.imports d.path body).Gives
      (fun out => ok (fillSlots children out)) fun _ => True) (h template body ht hi)) ?_
    exact fun body hbody => hbody.bind fun out hout => .pure hout

def Imports.stand (imports : Imports) (file : Path) (tag : Tag) (children : List Node) :
    Expansion (List Node) :=
  match imports.find? tag.name with
  | none => pure [.element tag children]
  | some d => d.use file tag children

theorem expand_nil (imports : Imports) (file : Path) : expand imports file [] = pure [] := by
  rw [expand]

theorem expand_other (imports : Imports) (file : Path) {n : Node} (hn : n.element? = none)
    (rest : List Node) :
    expand imports file (n :: rest) = do
      let rest ← expand imports file rest
      return n :: rest := by
  cases n with
  | element tag children => cases hn
  | text chars => rw [expand]; simp
  | comment body => rw [expand]; simp
  | doctype body => rw [expand]; simp

/-- What a usage stands for, where errors do not have its place yet. -/
def Definition.fill (d : Definition) (tag : Tag) (children : List Node) : Expansion (List Node) :=
  match d.template with
  | none => pure []
  | some template => do
    let body ← ExceptT.mk (pure (d.instantiate template tag))
    let body ← Expansion.identify body
    let body ← expand d.imports d.path body
    return fillSlots children body

theorem Definition.use_eq (d : Definition) (file : Path) (tag : Tag) (children : List Node) :
    d.use file tag children = Expansion.locate file tag.line (d.fill tag children) := by
  unfold use fill
  cases d.template with
  | none => rfl
  | some template => rfl

def Imports.expandWithin (imports : Imports) (file : Path) (tag : Tag) (children : List Node) :
    Expansion (List Node) :=
  match imports.find? tag.name with
  | none => do
    let children ← expand imports file children
    pure [.element tag children]
  | some d => Expansion.locate file tag.line (expand imports file children >>= d.fill tag)

theorem expand_element_within (imports : Imports) (file : Path) (tag : Tag)
    (children rest : List Node) :
    expand imports file (.element tag children :: rest) = do
      let output ← imports.expandWithin file tag children
      let rest ← expand imports file rest
      return output ++ rest := by
  rw [expand, Imports.expandWithin]
  split
  · rename_i h
    simp only [h, bind_assoc]
  · rename_i d h
    simp only [h]
    rfl

theorem Definition.located_fill {d : Definition}
    (hd : ∀ body, (expand d.imports d.path body).Gives (fun _ => True) CompileError.Located)
    (tag : Tag) (children : List Node) :
    (d.fill tag children).Gives (fun _ => True) fun e => e = e.cause.nowhere ∨ e.Located := by
  unfold fill
  split
  · exact .pure trivial
  · refine .bind (.ofExcept (fun _ _ => trivial) fun e he => .inl ?_) fun body _ => ?_
    · exact bindArguments_nowhere (bindArguments_of_instantiate he)
    · refine .bind (.identify (fun _ => True) fun _ => trivial) fun body _ => ?_
      exact ((hd body).mono (fun _ h => h) fun e he => .inr he).bind fun _ _ => .pure trivial

/-- Errors have their place when they leave an expansion: none gets another by the usage around it. -/
theorem located_expand (imports : Imports) (file : Path) (nodes : List Node) :
    (expand imports file nodes).Gives (fun _ => True) CompileError.Located := by
  induction imports, nodes using expansion_induction generalizing file with
  | nil imports =>
    rw [expand_nil]
    exact .pure trivial
  | other imports n rest hn hr =>
    rw [expand_other _ _ hn]
    exact (hr file).bind fun _ _ => .pure trivial
  | element imports tag children rest hc hr hb =>
    rw [expand_element_within]
    suffices hwithin : (imports.expandWithin file tag children).Gives (fun _ => True)
        CompileError.Located from
      hwithin.bind fun _ _ => (hr file).bind fun _ _ => .pure trivial
    unfold Imports.expandWithin
    split
    · exact (hc file).bind fun _ _ => .pure trivial
    · rename_i d hd
      have hwithin := ((hc file).mono (fun _ h => h) fun e he => Or.inr he).bind
        fun inner _ => d.located_fill (fun body => hb d body hd d.path) tag inner
      exact hwithin.locate fun e he => CompileError.located_of_nowhere he file tag.line

theorem Imports.expandWithin_eq (imports : Imports) (file : Path) (tag : Tag)
    (children : List Node) :
    imports.expandWithin file tag children =
      expand imports file children >>= imports.stand file tag := by
  unfold expandWithin stand
  split
  · rfl
  · rename_i d hd
    rw [Expansion.locate_bind (located_expand imports file children)]
    exact bind_congr fun inner => (d.use_eq file tag inner).symm

theorem expand_element (imports : Imports) (file : Path) (tag : Tag) (children rest : List Node) :
    expand imports file (.element tag children :: rest) = do
      let children ← expand imports file children
      let output ← imports.stand file tag children
      let rest ← expand imports file rest
      return output ++ rest := by
  rw [expand_element_within, Imports.expandWithin_eq, bind_assoc]

theorem expand_single (imports : Imports) (file : Path) (tag : Tag) (children : List Node) :
    expand imports file [.element tag children] =
      expand imports file children >>= imports.stand file tag := by
  rw [expand_element, expand_nil]
  simp

theorem expand_of_unknown {imports : Imports} (file : Path) {nodes : List Node}
    (h : ∀ tag ∈ tags nodes, imports.find? tag.name = none) :
    expand imports file nodes = pure nodes := by
  induction nodes using nodes_induction with
  | nil => exact expand_nil imports file
  | element tag children rest hc hr =>
    simp only [tags, Node.tags, List.cons_append, List.forall_mem_cons, List.mem_append] at h
    rw [expand_element, hc fun tag hm => h.2 tag (.inl hm), hr fun tag hm => h.2 tag (.inr hm)]
    simp [Imports.stand, h.1]
  | text chars rest hr => rw [expand_other _ _ rfl, hr h, pure_bind]
  | comment body rest hr => rw [expand_other _ _ rfl, hr h, pure_bind]
  | doctype body rest hr => rw [expand_other _ _ rfl, hr h, pure_bind]

end ComponentMarkup
