import ComponentMarkup.Proofs.Loading.Anew
import ComponentMarkup.Proofs.Session.Stylesheets

set_option autoImplicit false

namespace ComponentMarkup

variable {t : FileTree} {holds : Registry → Prop}

def KeptResolving (t : FileTree) (holds : Registry → Prop) (route : Route) : Prop :=
  ∀ (file : Path) (tags : List Element) (table : Imports) (s : Loading), s.route = route →
    holds s.registry → holds (resolveImports t file tags table s).1.2.registry

theorem kept_enterComponent {place : Place} {inner : Route} {s : Loading}
    (hk : ∀ r d, holds r → holds (r.insert d)) (hs : holds s.registry)
    (hi : ∀ source, t.openComponent place = .ok source → KeptResolving t holds inner) :
    holds (enterComponent t place inner s).2.registry := by
  unfold enterComponent
  cases ho : t.openComponent place with
  | error e => exact hs
  | ok source =>
    have hin := hi source ho source.path source.importTags [] { s with route := inner } rfl hs
    simp only
    generalize (resolveImports t source.path source.importTags [] { s with route := inner }).1 = r
      at hin ⊢
    obtain ⟨r, s'⟩ := r
    cases r with
    | error e => exact hin
    | ok imports =>
      simp only
      cases Definition.ofSource source.withoutImports imports with
      | error e => exact hin
      | ok d => exact hk _ d hin

theorem kept_loadComponent (importer : Path) (line : Nat) (path : Path) {s : Loading}
    (hk : ∀ r d, holds r → holds (r.insert d)) (hs : holds s.registry)
    (hi : ∀ place source inner, t.openComponent place = .ok source →
      s.route.enter (.ofPlace place) = .ok inner → KeptResolving t holds inner) :
    holds (loadComponent t importer line path s).1.2.registry := by
  rw [loadComponent_eq]
  cases t.locate path with
  | error reason => exact hs
  | ok place =>
    simp only
    cases he : s.route.enter (.ofPlace place) with
    | error e => exact hs
    | ok inner =>
      simp only
      cases s.registry.get? (.ofPlace place) with
      | some d => exact hs
      | none => exact kept_enterComponent hk hs fun source ho => hi place source inner ho he

theorem keptResolving (t : FileTree) (hk : ∀ r d, holds r → holds (r.insert d)) (route : Route) :
    KeptResolving t holds route := by
  induction route using route_induction (t := t) with
  | step route ih =>
    intro file tags
    induction tags with
    | nil =>
      intro table s _ hs
      rwa [resolveImports_nil]
    | cons e es ihTags =>
      intro table s hroute hs
      rw [resolveImports_cons]
      cases importTarget s.registry file table e.tag with
      | error err => exact hs
      | ok target =>
        obtain ⟨name, path⟩ := target
        subst hroute
        have hload := kept_loadComponent file e.tag.line path hk hs ih
        have hroute := (loadComponent t file e.tag.line path s).2
        simp only
        generalize (loadComponent t file e.tag.line path s).1 = r at hload hroute ⊢
        obtain ⟨r, s'⟩ := r
        cases r with
        | error err => exact hload
        | ok d => exact ihTags (table.insert name d) s' hroute hload

theorem Session.options_compileFile (s : Session) (t : FileTree) (path : Path) :
    (s.compileFile t path).2.options = s.options := by
  obtain ⟨hminify, hregistry⟩ := s.registry_compileFile t path
  rw [options, options, hminify, hregistry]
  cases t.loadSource path with
  | error e => rfl
  | ok source =>
    have hinsert : ∀ (r : Registry) (d : Definition), r.includeDir = s.registry.includeDir →
        (r.insert d).includeDir = s.registry.includeDir := fun _ _ h => h
    have hdir := keptResolving t hinsert (.start source.path) source.path source.importTags []
      ⟨s.registry, .start source.path⟩ rfl rfl
    exact congrArg (CompileOptions.mk · s.minify) hdir

theorem Session.options_after (s : Session) (steps : List SessionStep) :
    (s.after steps).options = s.options := by
  induction steps generalizing s with
  | nil => rfl
  | cons step steps ih =>
    cases step with
    | compile t path => exact (ih _).trans (s.options_compileFile t path)
    | reset => exact ih s.reset

theorem Session.reset_eq_start (s : Session) : s.reset = .start s.options := rfl

end ComponentMarkup
