import ComponentMarkup.Proofs.Loading.ImportGraph

/-!
Loading without a registry: every import is read anew. This is what loading means; what a registry
keeps only saves the reading.
-/

set_option autoImplicit false

namespace ComponentMarkup

open Relation

theorem FileTree.remaining_lt_of_openComponent {t : FileTree} {place : Place} {source : Source}
    {r r' : Route} (ho : t.openComponent place = .ok source)
    (h : r.enter (.ofPlace place) = .ok r') : r'.remaining t < r.remaining t := by
  obtain ⟨_, hr, -⟩ := openComponent_eq_ok.1 ho
  exact Route.remaining_enter_lt hr h

mutual

def resolveAnew (t : FileTree) (dir file : Path) :
    List Element → Imports → Route → Except CompileError Imports
  | [], table, _ => .ok table
  | e :: es, table, route =>
    match importTarget (.empty dir) file table e.tag with
    | .error err => .error err
    | .ok (name, path) =>
      match loadAnew t dir file e.tag.line path route with
      | .error err => .error err
      | .ok d => resolveAnew t dir file es (table.insert name d) route
termination_by es _ route => (route.remaining t, es.length)

def loadAnew (t : FileTree) (dir importer : Path) (line : Nat) (path : Path) (route : Route) :
    Except CompileError Definition :=
  match t.locate path with
  | .error reason => .error ((importFailure path reason).at importer (some line))
  | .ok place =>
    match h : route.enter (.ofPlace place) with
    | .error e => .error (e.withLocation importer (some line))
    | .ok inner =>
      match ho : t.openComponent place with
      | .error e => .error (e.withLocation importer (some line))
      | .ok source =>
        have := FileTree.remaining_lt_of_openComponent ho h
        match resolveAnew t dir source.path source.importTags [] inner with
        | .error e => .error (e.withLocation importer (some line))
        | .ok imports => (Definition.ofSource source.withoutImports imports).mapError
            (·.withLocation importer (some line))
termination_by (route.remaining t, 0)
decreasing_by exact Prod.Lex.left _ _ this

end

variable {t : FileTree} {dir file : Path}

@[elab_as_elim]
theorem route_induction {motive : Route → Prop}
    (step : ∀ r, (∀ place source inner, t.openComponent place = .ok source →
      r.enter (.ofPlace place) = .ok inner → motive inner) → motive r) (r : Route) : motive r := by
  induction hn : r.remaining t using Nat.strongRecOn generalizing r with
  | ind n ih =>
    subst hn
    exact step r fun place source inner ho he =>
      ih _ (FileTree.remaining_lt_of_openComponent ho he) inner rfl

def enterAnew (t : FileTree) (dir : Path) (place : Place) (inner : Route) :
    Except CompileError Definition :=
  match t.openComponent place with
  | .error e => .error e
  | .ok source =>
    match resolveAnew t dir source.path source.importTags [] inner with
    | .error e => .error e
    | .ok imports => Definition.ofSource source.withoutImports imports

theorem loadAnew_eq (importer : Path) (line : Nat) (path : Path) (route : Route) :
    loadAnew t dir importer line path route =
      match t.locate path with
      | .error reason => .error ((importFailure path reason).at importer (some line))
      | .ok place =>
        match route.enter (.ofPlace place) with
        | .error e => .error (e.withLocation importer (some line))
        | .ok inner => (enterAnew t dir place inner).mapError
            (·.withLocation importer (some line)) := by
  rw [loadAnew]
  unfold enterAnew
  split
  · rfl
  · split
    · rename_i he
      simp only [he]
    · rename_i he
      simp only [he]
      split
      · rename_i ho
        simp only [ho]
        rfl
      · rename_i ho
        simp only [ho]
        split <;> rfl

theorem mapError_eq_ok {ε α : Type} {f : ε → ε} {x : Except ε α} {a : α} :
    x.mapError f = .ok a ↔ x = .ok a := by
  cases x with
  | error e => exact ⟨nofun, nofun⟩
  | ok a => exact Iff.rfl

theorem enterAnew_eq_ok {place : Place} {inner : Route} {d : Definition} :
    enterAnew t dir place inner = .ok d ↔ ∃ source imports, t.openComponent place = .ok source ∧
      resolveAnew t dir source.path source.importTags [] inner = .ok imports ∧
      Definition.ofSource source.withoutImports imports = .ok d := by
  unfold enterAnew
  cases t.openComponent place with
  | error e => simp
  | ok source =>
    cases hi : resolveAnew t dir source.path source.importTags [] inner with
    | error e => simp [hi]
    | ok imports => simp [hi]

theorem loadAnew_eq_ok {importer path : Path} {line : Nat} {route : Route} {d : Definition} :
    loadAnew t dir importer line path route = .ok d ↔ ∃ place inner, t.locate path = .ok place ∧
      route.enter (.ofPlace place) = .ok inner ∧ enterAnew t dir place inner = .ok d := by
  rw [loadAnew_eq]
  cases t.locate path with
  | error reason => simp
  | ok place =>
    cases he : route.enter (.ofPlace place) with
    | error e => simp [he]
    | ok inner => simp [he, mapError_eq_ok]

theorem resolveAnew_cons_eq_ok {e : Element} {es : List Element} {table table' : Imports}
    {route : Route} :
    resolveAnew t dir file (e :: es) table route = .ok table' ↔ ∃ name path d,
      importTarget (.empty dir) file table e.tag = .ok (name, path) ∧
      loadAnew t dir file e.tag.line path route = .ok d ∧
      resolveAnew t dir file es (table.insert name d) route = .ok table' := by
  rw [resolveAnew]
  cases importTarget (.empty dir) file table e.tag with
  | error err => simp
  | ok target =>
    obtain ⟨name, path⟩ := target
    simp only [Except.ok.injEq, Prod.mk.injEq]
    constructor
    · intro h
      split at h
      · cases h
      · rename_i d hl
        exact ⟨name, path, d, ⟨rfl, rfl⟩, hl, h⟩
    · rintro ⟨_, _, d, ⟨rfl, rfl⟩, hl, h⟩
      rw [hl]
      exact h

/-- What resolves with all files read anew resolves whatever the route is. -/
theorem resolves_of_resolveAnew (route : Route) {tags : List Element} {table table' : Imports}
    (h : resolveAnew t dir file tags table route = .ok table') :
    t.Resolves dir file tags table table' := by
  induction route using route_induction (t := t) generalizing file tags table table' with
  | step route ih =>
    induction tags generalizing table with
    | nil =>
      rw [resolveAnew] at h
      cases h
      exact .nil _ _
    | cons e es ihTags =>
      obtain ⟨name, path, d, ht, hl, hr⟩ := resolveAnew_cons_eq_ok.1 h
      obtain ⟨place, inner, hp, he, hd⟩ := loadAnew_eq_ok.1 hl
      obtain ⟨source, imports, ho, hi, hm⟩ := enterAnew_eq_ok.1 hd
      exact .cons ht hp ho (ih place source inner ho he hi) hm (ihTags hr)

/-- Nothing on the route can be reached through these tags. -/
def Route.Avoids (route : Route) (t : FileTree) (dir : Path) (tags : List Element) : Prop :=
  ∀ e ∈ tags, ∀ place, t.importedPlace? dir e.tag = some place →
    ∀ q, ReflTransGen (t.HasImport dir) place q → route.contains (.ofPlace q) = false

theorem Route.nodup_paths (route : Route) : route.paths.Nodup := by
  refine route.distinct.imp fun h => ?_
  rintro rfl
  rw [Path.same_refl] at h
  cases h

theorem Route.paths_enter {route inner : Route} {path : Path}
    (h : route.enter path = .ok inner) : inner.paths = route.paths ++ [path] := by
  unfold Route.enter at h
  split at h
  · cases h
  · cases h
    rfl

theorem Route.enter_of_not_contains {route : Route} {path : Path}
    (h : route.contains path = false) : ∃ inner, route.enter path = .ok inner := by
  unfold Route.enter
  split
  · rename_i hc
    rw [hc] at h
    cases h
  · exact ⟨_, rfl⟩

theorem Route.enter_eq_error {route : Route} {path : Path} {e : CompileError}
    (h : route.enter path = .error e) :
    route.contains path = true ∧ e = (Cause.importCycle (route.paths ++ [path])).nowhere := by
  unfold Route.enter at h
  split at h
  · rename_i hc
    cases h
    exact ⟨hc, rfl⟩
  · cases h

theorem Route.avoids_enter {route inner : Route} {place : Place} {source : Source}
    (hn : place.all isName = true) (ho : t.openComponent place = .ok source)
    (hg : t.Grounded dir place) (he : route.enter (.ofPlace place) = .ok inner)
    (ha : ∀ q, ReflTransGen (t.HasImport dir) place q → route.contains (.ofPlace q) = false) :
    inner.Avoids t dir source.importTags := by
  intro e hm p hp q hq
  have hs : t.HasImport dir place p := (hasImport_iff ho p).2 ⟨e, hm, hp⟩
  have hpq := ReflTransGen.head hs hq
  rw [Route.contains_enter he, ha q hpq, Bool.false_or, Bool.eq_false_iff]
  intro hc
  rw [same_ofPlace hn (reaches_named hn hpq)] at hc
  subst hc
  exact hg.irrefl (TransGen.head' hs hq)

theorem FileTree.Resolves.resolveAnew {tags : List Element} {table table' : Imports}
    (h : t.Resolves dir file tags table table') {route : Route} (ha : route.Avoids t dir tags) :
    resolveAnew t dir file tags table route = .ok table' := by
  induction h generalizing route with
  | nil => rw [ComponentMarkup.resolveAnew]
  | @cons file path e es table table' imports name place source d target found opened inner made
      rest ihInner ihRest =>
    obtain ⟨ha, har⟩ := List.forall_mem_cons.1 ha
    have hp : t.importedPlace? dir e.tag = some place := by
      rw [importedPlace?_of_importTarget target, found]
      rfl
    have hq := ha place hp
    obtain ⟨route', he⟩ := Route.enter_of_not_contains (hq place .refl)
    have hg := grounded_of_tags opened inner.grounded
    have hi := ihInner (Route.avoids_enter (importedPlace?_named hp) opened hg he hq)
    have hd := enterAnew_eq_ok.2 ⟨source, imports, opened, hi, made⟩
    exact resolveAnew_cons_eq_ok.2
      ⟨name, path, d, target, loadAnew_eq_ok.2 ⟨place, route', found, he, hd⟩, ihRest har⟩

/-- A file that makes a component does so behind every route that it cannot reach. -/
theorem FileTree.Makes.enterAnew {place : Place} {d : Definition} (h : t.Makes dir place d)
    (hn : place.all isName = true) {route inner : Route}
    (he : route.enter (.ofPlace place) = .ok inner)
    (ha : ∀ q, ReflTransGen (t.HasImport dir) place q → route.contains (.ofPlace q) = false) :
    enterAnew t dir place inner = .ok d := by
  have hg := h.grounded
  obtain ⟨source, imports, ho, hr, hm⟩ := h
  have hi := hr.resolveAnew (Route.avoids_enter hn ho hg he ha)
  exact enterAnew_eq_ok.2 ⟨source, imports, ho, hi, hm⟩

end ComponentMarkup
