import ComponentMarkup.Proofs.Loading.LoadOrder
import ComponentMarkup.Proofs.Text.Runs
import ComponentMarkup.Session
import Mathlib.Logic.Relation

/-!
What sessions store over time, and the stylesheets that they bundle. Files may change between two
compilations; what is stored stays, and it stays in an order in which each component comes behind all
that it imports.
-/

set_option autoImplicit false

namespace ComponentMarkup

open Relation

/-- What a session is asked for. Each compilation finds the files as they are by then. -/
inductive SessionStep where
  | compile (t : FileTree) (path : Path)
  | reset

def Session.perform (s : Session) : SessionStep → Session
  | .compile t path => (s.compileFile t path).2
  | .reset => s.reset

def Session.after (s : Session) (steps : List SessionStep) : Session := steps.foldl perform s

theorem Session.registry_compileFile (s : Session) (t : FileTree) (path : Path) :
    (s.compileFile t path).2.minify = s.minify ∧
      (s.compileFile t path).2.registry = match t.loadSource path with
        | .error _ => s.registry
        | .ok source => (resolveImports t source.path source.importTags []
            ⟨s.registry, .start source.path⟩).1.2.registry := by
  unfold compileFile
  cases t.loadSource path with
  | error e => exact ⟨rfl, rfl⟩
  | ok source =>
    have htags : takeElements importName source.nodes =
        (source.withoutImports.nodes, source.importTags) := rfl
    simp only [compileSource, htags]
    generalize (resolveImports t source.path source.importTags []
      ⟨s.registry, .start source.path⟩).1 = r
    obtain ⟨r, loading⟩ := r
    cases r with
    | error e => exact ⟨rfl, rfl⟩
    | ok imports => exact ⟨rfl, rfl⟩

theorem Session.growsTo_compileFile {s : Session} (ho : LoadOrdered s.registry.definitions)
    (t : FileTree) (path : Path) :
    LoadOrdered (s.compileFile t path).2.registry.definitions ∧
      s.registry.definitions <+: (s.compileFile t path).2.registry.definitions := by
  rw [(s.registry_compileFile t path).2]
  cases t.loadSource path with
  | error e => exact ⟨ho, List.prefix_refl _⟩
  | ok source =>
    obtain ⟨hordered, more, hmore, -⟩ := (growsResolving t (.start source.path) source.path
      source.importTags [] ⟨s.registry, .start source.path⟩ rfl ho (by simp [Imports.StoredIn])).grows
    exact ⟨hordered, more, hmore.symm⟩

theorem Session.ordered_after {s : Session} (ho : LoadOrdered s.registry.definitions)
    (steps : List SessionStep) : LoadOrdered (s.after steps).registry.definitions := by
  induction steps generalizing s with
  | nil => exact ho
  | cons step steps ih =>
    cases step with
    | compile t path => exact ih (s := (s.compileFile t path).2) (growsTo_compileFile ho t path).1
    | reset => exact ih (s := s.reset) .nil

theorem Session.prefix_after {s : Session} (ho : LoadOrdered s.registry.definitions)
    {steps : List SessionStep} (hs : .reset ∉ steps) :
    s.registry.definitions <+: (s.after steps).registry.definitions := by
  induction steps generalizing s with
  | nil => exact List.prefix_refl _
  | cons step steps ih =>
    obtain ⟨hstep, hrest⟩ := not_or.1 (List.mem_cons.not.1 hs)
    cases step with
    | compile t path =>
      obtain ⟨ho', hprefix⟩ := growsTo_compileFile ho t path
      exact hprefix.trans (ih (s := (s.compileFile t path).2) ho' hrest)
    | reset => exact absurd rfl hstep

def Definition.Uses (d e : Definition) : Prop := ∃ name, (name, e) ∈ d.imports

theorem LoadOrdered.behind_all {ds before after : List (Path × Definition)} {d e : Definition}
    (h : LoadOrdered ds) (hs : ds = before ++ (d.path, d) :: after)
    (hu : TransGen Definition.Uses d e) : (e.path, e) ∈ before := by
  induction hu with
  | single hu =>
    obtain ⟨name, hu⟩ := hu
    exact h.behind hs _ hu
  | tail _ hu ih =>
    obtain ⟨name, hu⟩ := hu
    obtain ⟨before, between, rfl⟩ := List.append_of_mem ih
    rw [List.append_assoc, List.cons_append] at hs
    exact List.mem_append_left _ (h.behind hs _ hu)

theorem trim_eq_nil {s : List Char} : trim s = [] ↔ allBlank s = true := by
  have hright : ∀ t : List Char, trimRight t = [] ↔ ∀ c ∈ t, isBlank c = true := by
    intro t
    simp [trimRight, List.dropWhile_eq_nil_iff]
  rw [trim, hright, allBlank, List.all_eq_true]
  constructor
  · intro h
    have hstop := stopsAt_dropWhile isBlank s
    cases hd : s.dropWhile isBlank with
    | nil => exact List.dropWhile_eq_nil_iff.1 hd
    | cons c cs =>
      rw [hd, stopsAt_cons] at hstop
      have hc := h c (by rw [trimLeft, hd]; exact List.mem_cons_self)
      rw [hstop] at hc
      cases hc
  · exact fun h c hc => h c (List.dropWhile_subset _ hc)

theorem Definition.styleEntry_eq (dir : Path) (d : Definition) :
    d.styleEntry dir = if allBlank d.stylesheet then []
      else "/* ".toList ++ dir.shownFrom d.path ++ " */\n".toList ++ trim d.stylesheet ++ ['\n'] := by
  unfold Definition.styleEntry
  refine if_congr ?_ rfl rfl
  rw [List.isEmpty_iff, trim_eq_nil]

/-- Where a stored component stands: nothing else is stored under its path, and all that it imports,
directly or through others, comes before it. -/
theorem LoadOrdered.split {ds : List (Path × Definition)} (h : LoadOrdered ds)
    {p : Path} {d : Definition} (hd : (p, d) ∈ ds) :
    p = d.path ∧ ∃ before after, ds = before ++ (d.path, d) :: after ∧
      (∀ q ∈ before ++ after, q.1.same d.path = false) ∧
      ∀ e, TransGen Definition.Uses d e → (e.path, e) ∈ before := by
  obtain rfl : p = d.path := h.own _ hd
  obtain ⟨before, after, hs⟩ := List.append_of_mem hd
  refine ⟨rfl, before, after, hs, fun q hq => ?_, fun e hu => h.behind_all hs hu⟩
  have ha := h.apart
  rw [hs] at ha
  obtain ⟨-, hafter, hcross⟩ := List.pairwise_append.1 ha
  rcases List.mem_append.1 hq with hq | hq
  · exact hcross q hq _ List.mem_cons_self
  · rw [Path.same_comm]
    exact (List.pairwise_cons.1 hafter).1 q hq

theorem Session.components_split {s : Session} (ho : LoadOrdered s.registry.definitions)
    {d : Definition} (hd : d ∈ s.components) :
    ∃ before after, s.components = before ++ d :: after ∧
      (∀ e ∈ before ++ after, e.path.same d.path = false) ∧
      ∀ e, TransGen Definition.Uses d e → e ∈ before := by
  obtain ⟨⟨p, _⟩, hstored, rfl⟩ := List.mem_map.1 hd
  obtain ⟨-, before, after, hs, hnew, hbehind⟩ := ho.split hstored
  refine ⟨before.map Prod.snd, after.map Prod.snd, ?_, fun e he => ?_, fun e hu => ?_⟩
  · rw [components, hs, List.map_append]
    rfl
  · rw [← List.map_append] at he
    obtain ⟨q, hq, rfl⟩ := List.mem_map.1 he
    have hown : q ∈ s.registry.definitions := by
      rw [hs]
      simp only [List.mem_append, List.mem_cons] at hq ⊢
      tauto
    rw [← ho.own q hown]
    exact hnew q hq
  · exact List.mem_map.2 ⟨_, hbehind e hu, rfl⟩

/-- Whatever a session was asked for, whatever failed and however files changed in between: each
component is stored under its own path and is the only one found there; what it imports, directly or
through others, is what is stored under that path, and was stored before it. Nothing stored is replaced
until the next reset. So the bundle holds each component's stylesheet once, if it is not blank, behind
those of all that the component imports. -/
theorem stored_in_load_order (options : CompileOptions) (steps : List SessionStep) (dir : Path) :
    let s := (Session.start options).after steps
    (∀ p d, (p, d) ∈ s.registry.definitions → p = d.path ∧ s.registry.get? p = some d) ∧
    (∀ p d, (p, d) ∈ s.registry.definitions → ∃ before after,
      s.registry.definitions = before ++ (d.path, d) :: after ∧
      (∀ q ∈ before ++ after, q.1.same d.path = false) ∧
      ∀ e, TransGen Definition.Uses d e →
        s.registry.get? e.path = some e ∧ (e.path, e) ∈ before) ∧
    (∀ more, .reset ∉ more → s.registry.definitions <+: (s.after more).registry.definitions) ∧
    ∀ d ∈ s.components, ∃ before after, s.components = before ++ d :: after ∧
      (∀ e ∈ before ++ after, e.path.same d.path = false) ∧
      (∀ e, TransGen Definition.Uses d e → e ∈ before) ∧
      s.bundleStylesheets dir = before.flatMap (Definition.styleEntry dir) ++
        (if allBlank d.stylesheet then []
          else "/* ".toList ++ dir.shownFrom d.path ++ " */\n".toList ++ trim d.stylesheet ++
            ['\n']) ++ after.flatMap (Definition.styleEntry dir) := by
  intro s
  have ho : LoadOrdered s.registry.definitions :=
    Session.ordered_after (s := .start options) .nil steps
  have hfind : ∀ p d, (p, d) ∈ s.registry.definitions → s.registry.get? p = some d := by
    intro p d hd
    rw [Registry.get?, ho.find hd]
    rfl
  refine ⟨fun p d hd => ⟨ho.own _ hd, hfind p d hd⟩, fun p d hd => ?_,
    fun more hm => Session.prefix_after ho hm, fun d hd => ?_⟩
  · obtain ⟨-, before, after, hs, hnew, hbehind⟩ := ho.split hd
    refine ⟨before, after, hs, hnew, fun e hu => ⟨hfind _ _ ?_, hbehind e hu⟩⟩
    rw [hs]
    exact List.mem_append_left _ (hbehind e hu)
  · obtain ⟨before, after, hs, hnew, hbehind⟩ := Session.components_split ho hd
    refine ⟨before, after, hs, hnew, hbehind, ?_⟩
    rw [Session.bundleStylesheets, hs, ← Definition.styleEntry_eq]
    simp

/-- A page that imports a card, which imports a base, compiled again when the base can no longer be
read. -/
theorem stored_in_load_order_card :
    let tree (base : Content) : FileTree :=
      ⟨[([['p']], .file (.text "<import path=/c>".toList) 0),
        ([['c']], .file (.text "<import path=/b>".toList) 0), ([['b']], .file base 0)], [], rfl⟩
    let b : Definition := ⟨⟨['/', 'b']⟩, [], none, [], [], []⟩
    let c : Definition := ⟨⟨['/', 'c']⟩, [(['b'], b)], none, [], [], []⟩
    let s := (Session.start .standard).after [.compile (tree (.text [])) ⟨['/', 'p']⟩]
    let again := SessionStep.compile (tree (.binary [])) ⟨['/', 'p']⟩
    s.registry.get? c.path = some c ∧
    (∃ before after, s.registry.definitions = before ++ (c.path, c) :: after ∧
      (∀ q ∈ before ++ after, q.1.same c.path = false) ∧
      s.registry.get? b.path = some b ∧ (b.path, b) ∈ before) ∧
    s.registry.definitions <+: (s.after [again]).registry.definitions ∧
    ∃ before after, s.components = before ++ c :: after ∧ b ∈ before := by
  intro tree b c s again
  have hdefs : s.registry.definitions = [(b.path, b), (c.path, c)] := by
    unfold s tree b c
    cbv
  have hc : (c.path, c) ∈ s.registry.definitions := by simp [hdefs]
  have hu : TransGen Definition.Uses c b := .single ⟨['b'], List.mem_cons_self⟩
  obtain ⟨hown, hstand, hkept, hbundle⟩ := stored_in_load_order .standard
    [.compile (tree (.text [])) ⟨['/', 'p']⟩] ⟨['/']⟩
  obtain ⟨before, after, hs, hnew, hbehind⟩ := hstand _ _ hc
  obtain ⟨earlier, later, hcomponents, -, hall, -⟩ := hbundle c (List.mem_map_of_mem hc)
  exact ⟨(hown _ _ hc).2, ⟨before, after, hs, hnew, hbehind b hu⟩, hkept [again] (by simp [again]),
    earlier, later, hcomponents, hall b hu⟩

end ComponentMarkup
