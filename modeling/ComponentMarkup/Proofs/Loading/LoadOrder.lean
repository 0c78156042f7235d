import ComponentMarkup.Proofs.Component.Made
import ComponentMarkup.Proofs.Loading.Anew

/-!
The order of loading. What a load stores comes behind what was stored, and each component behind those
that it imports. Nothing that is loaded inside of a load can be the file that is being loaded, for that
file is on the route.
-/

set_option autoImplicit false

namespace ComponentMarkup

/-- Stored under their own paths, each once and behind all that it imports. -/
inductive LoadOrdered : List (Path × Definition) → Prop
  | nil : LoadOrdered []
  | snoc {ds : List (Path × Definition)} {d : Definition} {place : Place} : LoadOrdered ds →
      place.all isName = true → d.path = .ofPlace place →
      (∀ q ∈ ds, q.1.same d.path = false) → (∀ i ∈ d.imports, (i.2.path, i.2) ∈ ds) →
      LoadOrdered (ds ++ [(d.path, d)])

theorem storeAt_of_absent {path : Path} {d : Definition} {ds : List (Path × Definition)}
    (h : ∀ q ∈ ds, q.1.same path = false) : storeAt path d ds = ds ++ [(path, d)] := by
  induction ds with
  | nil => rfl
  | cons q ds ih =>
    obtain ⟨hq, hds⟩ := List.forall_mem_cons.1 h
    simp [storeAt, hq, ih hds]

namespace LoadOrdered

variable {ds : List (Path × Definition)}

theorem own (h : LoadOrdered ds) : ∀ q ∈ ds, q.1 = q.2.path := by
  induction h with
  | nil => simp
  | snoc _ _ _ _ _ ih =>
    intro q hq
    rcases List.mem_append.1 hq with hq | hq
    · exact ih q hq
    · rw [List.mem_singleton.1 hq]

theorem apart (h : LoadOrdered ds) : ds.Pairwise fun p q => p.1.same q.1 = false := by
  induction h with
  | nil => exact .nil
  | snoc _ _ _ hn _ ih =>
    refine List.pairwise_append.2 ⟨ih, List.pairwise_singleton _ _, fun p hp q hq => ?_⟩
    rw [List.mem_singleton.1 hq]
    exact hn p hp

theorem placed (h : LoadOrdered ds) :
    ∀ q ∈ ds, ∃ place : Place, place.all isName = true ∧ q.1 = .ofPlace place := by
  induction h with
  | nil => simp
  | snoc _ hn hp _ _ ih =>
    intro q hq
    rcases List.mem_append.1 hq with hq | hq
    · exact ih q hq
    · rw [List.mem_singleton.1 hq]
      exact ⟨_, hn, hp⟩

theorem find (h : LoadOrdered ds) {q : Path × Definition} (hq : q ∈ ds) :
    ds.find? (·.1.same q.1) = some q := by
  have ha := h.apart
  clear h
  induction ds with
  | nil => cases hq
  | cons p ds ih =>
    obtain ⟨hp, hds⟩ := List.pairwise_cons.1 ha
    rcases List.mem_cons.1 hq with rfl | hq
    · simp [Path.same_refl]
    · rw [List.find?_cons_of_neg (by simp [hp q hq])]
      exact ih hq hds

theorem behind (h : LoadOrdered ds) {before after : List (Path × Definition)} {d : Definition}
    (hs : ds = before ++ (d.path, d) :: after) : ∀ i ∈ d.imports, (i.2.path, i.2) ∈ before := by
  induction h generalizing before after with
  | nil => simp at hs
  | @snoc ds e place hds hn hp hnew hi ih =>
    -- the last entry is the one that was added last
    rcases List.eq_nil_or_concat' after with rfl | ⟨after, last, rfl⟩
    · obtain ⟨rfl, he⟩ := List.append_inj' hs rfl
      obtain rfl : e = d := (Prod.mk.inj (List.cons.inj he).1).2
      exact hi
    · rw [← List.cons_append, ← List.append_assoc] at hs
      obtain ⟨rfl, -⟩ := List.append_inj' hs rfl
      exact ih rfl

end LoadOrdered

/-- A load on a route has kept the order, and has only added to it: no file of the route. -/
structure Registry.GrowsTo (r r' : Registry) (route : Route) : Prop where
  ordered : LoadOrdered r'.definitions
  added : ∃ more, r'.definitions = r.definitions ++ more ∧ ∀ q ∈ more, route.contains q.1 = false

def Imports.StoredIn (table : Imports) (r : Registry) : Prop :=
  ∀ i ∈ table, (i.2.path, i.2) ∈ r.definitions

variable {t : FileTree} {route inner : Route} {place : Place} {r r' : Registry}

theorem Registry.GrowsTo.refl (h : LoadOrdered r.definitions) (route : Route) : r.GrowsTo r route :=
  ⟨h, [], by simp, by simp⟩

theorem Registry.GrowsTo.trans {r'' : Registry} (h : r.GrowsTo r' route)
    (h' : r'.GrowsTo r'' route) : r.GrowsTo r'' route := by
  obtain ⟨-, more, hm, hn⟩ := h
  obtain ⟨ho, more', hm', hn'⟩ := h'
  refine ⟨ho, more ++ more', by rw [hm', hm, List.append_assoc], fun q hq => ?_⟩
  rcases List.mem_append.1 hq with hq | hq
  · exact hn q hq
  · exact hn' q hq

theorem Registry.GrowsTo.leave {path : Path} (h : r.GrowsTo r' inner)
    (he : route.enter path = .ok inner) : r.GrowsTo r' route := by
  obtain ⟨ho, more, hm, hoff⟩ := h
  refine ⟨ho, more, hm, fun q hq => ?_⟩
  have hq := hoff q hq
  rw [Route.contains_enter he, Bool.or_eq_false_iff] at hq
  exact hq.1

theorem Registry.GrowsTo.mem (h : r.GrowsTo r' route) {q : Path × Definition}
    (hq : q ∈ r.definitions) : q ∈ r'.definitions := by
  obtain ⟨-, more, hm, -⟩ := h
  rw [hm]
  exact List.mem_append_left more hq

theorem Imports.StoredIn.mono {table : Imports} (h : table.StoredIn r) (hg : r.GrowsTo r' route) :
    table.StoredIn r' := fun i hi => hg.mem (h i hi)

theorem Imports.StoredIn.insert {table : Imports} (h : table.StoredIn r) (name : List Char)
    {d : Definition} (hd : (d.path, d) ∈ r.definitions) : (table.insert name d).StoredIn r := by
  intro i hi
  rcases Imports.mem_insert hi with he | hi
  · rw [he]
    exact hd
  · exact h i hi

theorem Registry.get?_eq_none {path : Path} :
    r.get? path = none ↔ ∀ q ∈ r.definitions, q.1.same path = false := by
  simp [Registry.get?]

theorem Registry.get?_eq_some {path : Path} {d : Definition} (h : LoadOrdered r.definitions)
    (hd : r.get? path = some d) : (d.path, d) ∈ r.definitions := by
  obtain ⟨q, hf, rfl⟩ := Option.map_eq_some_iff.1 hd
  have hq := List.mem_of_find?_eq_some hf
  rw [← h.own q hq]
  exact hq

theorem LoadOrdered.path_of_get? (h : LoadOrdered r.definitions)
    (hn : place.all isName = true) {d : Definition} (hd : r.get? (.ofPlace place) = some d) :
    d.path = .ofPlace place := by
  obtain ⟨q, hf, rfl⟩ := Option.map_eq_some_iff.1 hd
  have hq := List.mem_of_find?_eq_some hf
  obtain ⟨place', hn', hp⟩ := h.placed q hq
  have hsame : q.1.same (.ofPlace place) = true := by simpa using List.find?_some hf
  rw [hp, same_ofPlace hn' hn] at hsame
  rw [← h.own q hq, hp, hsame]

/-- The component of a file that was entered is stored behind what was loaded inside of the file. -/
theorem Registry.GrowsTo.insert (h : r.GrowsTo r' inner) (hn : place.all isName = true)
    (he : route.enter (.ofPlace place) = .ok inner) (hg : r.get? (.ofPlace place) = none)
    {d : Definition} (hp : d.path = .ofPlace place)
    (hi : ∀ i ∈ d.imports, (i.2.path, i.2) ∈ r'.definitions) :
    r.GrowsTo (r'.insert d) route ∧ (d.path, d) ∈ (r'.insert d).definitions := by
  obtain ⟨ho, more, hm, hoff⟩ := h
  have hinner := Route.contains_enter he
  -- the file is on the route as long as it is being loaded, so nothing loaded meanwhile is the file
  have hmore : ∀ q ∈ more, route.contains q.1 = false ∧ q.1.same d.path = false := by
    intro q hq
    have hq := hoff q hq
    rw [hinner, Bool.or_eq_false_iff] at hq
    refine ⟨hq.1, ?_⟩
    rw [hp, Path.same_comm]
    exact hq.2
  have hnew : ∀ q ∈ r'.definitions, q.1.same d.path = false := by
    intro q hq
    rw [hm] at hq
    rcases List.mem_append.1 hq with hq | hq
    · rw [hp]
      exact Registry.get?_eq_none.1 hg q hq
    · exact (hmore q hq).2
  have hstore : (r'.insert d).definitions = r'.definitions ++ [(d.path, d)] :=
    storeAt_of_absent hnew
  refine ⟨⟨hstore ▸ .snoc ho hn hp hnew hi, more ++ [(d.path, d)], ?_, fun q hq => ?_⟩, ?_⟩
  · rw [hstore, hm, List.append_assoc]
  · rcases List.mem_append.1 hq with hq | hq
    · exact (hmore q hq).1
    · rw [List.mem_singleton.1 hq, hp]
      exact Route.not_contains_of_enter he
  · rw [hstore]
    exact List.mem_append_right _ List.mem_cons_self

/-- The outcome of a load that began with the registry `r`: what it gives is stored. -/
structure Grows {α : Type} (r : Registry) (route : Route) (out : Except CompileError α × Loading)
    (stored : α → Registry → Prop) : Prop where
  grows : r.GrowsTo out.2.registry route
  stored : ∀ a, out.1 = .ok a → stored a out.2.registry

theorem Grows.ok {α : Type} {stored : α → Registry → Prop} {a : α} {s : Loading}
    (h : r.GrowsTo s.registry route) (ha : stored a s.registry) :
    Grows r route (.ok a, s) stored := by
  refine ⟨h, fun b hb => ?_⟩
  cases hb
  exact ha

theorem Grows.error {α : Type} {stored : α → Registry → Prop} {e : CompileError} {s : Loading}
    (h : r.GrowsTo s.registry route) : Grows r route (.error e, s) stored := by
  refine ⟨h, fun b hb => ?_⟩
  cases hb

def GrowsResolving (t : FileTree) (route : Route) : Prop :=
  ∀ (file : Path) (tags : List Element) (table : Imports) (s : Loading), s.route = route →
    LoadOrdered s.registry.definitions → table.StoredIn s.registry →
    Grows s.registry route (resolveImports t file tags table s).1 Imports.StoredIn

def Definition.StoredIn (d : Definition) (r : Registry) : Prop := (d.path, d) ∈ r.definitions

theorem grows_enterComponent {s : Loading} (ho : LoadOrdered s.registry.definitions)
    (hn : place.all isName = true) (he : s.route.enter (.ofPlace place) = .ok inner)
    (hg : s.registry.get? (.ofPlace place) = none)
    (hi : ∀ source, t.openComponent place = .ok source → GrowsResolving t inner) :
    Grows s.registry s.route (enterComponent t place inner s) Definition.StoredIn := by
  unfold enterComponent
  cases hopen : t.openComponent place with
  | error e => exact .error (.refl ho s.route)
  | ok source =>
    have hin := hi source hopen source.path source.importTags [] { s with route := inner } rfl ho
      (by simp [Imports.StoredIn])
    simp only
    generalize (resolveImports t source.path source.importTags [] { s with route := inner }).1 = r
      at hin ⊢
    obtain ⟨r, s'⟩ := r
    obtain ⟨hgrow, htable⟩ := hin
    cases r with
    | error e => exact .error (hgrow.leave he)
    | ok imports =>
      simp only
      cases hm : Definition.ofSource source.withoutImports imports with
      | error e => exact .error (hgrow.leave he)
      | ok d =>
        have hmade := Definition.madeFrom_of_ofSource hm
        have hp : d.path = .ofPlace place := by
          obtain ⟨text, -, rfl, -⟩ := FileTree.openComponent_eq_ok.1 hopen
          exact hmade.path
        obtain ⟨hgrow', hstored⟩ := hgrow.insert hn he hg hp
          (by rw [hmade.imports]; exact htable imports rfl)
        exact .ok hgrow' hstored

theorem grows_loadComponent (importer : Path) (line : Nat) (path : Path) {s : Loading}
    (ho : LoadOrdered s.registry.definitions)
    (hi : ∀ place source inner, t.openComponent place = .ok source →
      s.route.enter (.ofPlace place) = .ok inner → GrowsResolving t inner) :
    Grows s.registry s.route (loadComponent t importer line path s).1 Definition.StoredIn := by
  rw [loadComponent_eq]
  cases hp : t.locate path with
  | error reason => exact .error (.refl ho s.route)
  | ok place =>
    simp only
    cases he : s.route.enter (.ofPlace place) with
    | error e => exact .error (.refl ho s.route)
    | ok inner =>
      simp only
      cases hg : s.registry.get? (.ofPlace place) with
      | some d => exact .ok (.refl ho s.route) (Registry.get?_eq_some ho hg)
      | none =>
        obtain ⟨hgrow, hstored⟩ := grows_enterComponent ho (FileTree.locate_named hp) he hg
          fun source hopen => hi place source inner hopen he
        exact ⟨hgrow, fun d hd => hstored d (mapError_eq_ok.1 hd)⟩

theorem path_of_loadComponent {importer path : Path} {line : Nat} {s s' : Loading} {d : Definition}
    (ho : LoadOrdered s.registry.definitions)
    (h : (loadComponent t importer line path s).1 = (.ok d, s')) :
    ∃ place, t.locate path = .ok place ∧ d.path = .ofPlace place := by
  rw [loadComponent_eq] at h
  cases hp : t.locate path with
  | error reason => simp [hp] at h
  | ok place =>
    refine ⟨place, rfl, ?_⟩
    simp only [hp] at h
    split at h
    · cases h
    · split at h
      · rename_i hd
        cases h
        exact ho.path_of_get? (FileTree.locate_named hp) hd
      · obtain ⟨hd, -⟩ := Prod.mk.inj h
        exact path_of_enterComponent (Prod.ext (mapError_eq_ok.1 hd) rfl)

theorem growsResolving (t : FileTree) (route : Route) : GrowsResolving t route := by
  -- an imported file has its own imports resolved on a longer route
  induction route using route_induction (t := t) with
  | step route ih =>
    intro file tags
    induction tags with
    | nil =>
      intro table s hs ho htable
      rw [resolveImports_nil]
      exact .ok (.refl ho route) htable
    | cons e es ihTags =>
      intro table s hs ho htable
      rw [resolveImports_cons]
      cases importTarget s.registry file table e.tag with
      | error err => exact .error (.refl ho route)
      | ok target =>
        obtain ⟨name, path⟩ := target
        subst hs
        have hload := grows_loadComponent file e.tag.line path ho ih
        have hroute := (loadComponent t file e.tag.line path s).2
        simp only
        generalize (loadComponent t file e.tag.line path s).1 = r at hload hroute ⊢
        obtain ⟨r, s'⟩ := r
        obtain ⟨hgrow, hstored⟩ := hload
        cases r with
        | error err => exact .error hgrow
        | ok d =>
          obtain ⟨hgrow', htable'⟩ := ihTags (table.insert name d) s' hroute hgrow.ordered
            ((htable.mono hgrow).insert name (hstored d rfl))
          exact ⟨hgrow.trans hgrow', htable'⟩

end ComponentMarkup
