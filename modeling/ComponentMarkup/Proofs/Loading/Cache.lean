import ComponentMarkup.Proofs.Loading.Anew

/-!
The registry as a cache. Whatever was compiled before, a file compiles to what it compiles to when
nothing is stored and every import is read anew.
-/

set_option autoImplicit false

namespace ComponentMarkup

open Relation

variable {t : FileTree} {dir file : Path} {place : Place}

/-- Each stored component is the one that its file makes. -/
structure Registry.Faithful (r : Registry) (t : FileTree) (dir : Path) : Prop where
  includeDir : r.includeDir = dir
  stored : ∀ p d, (p, d) ∈ r.definitions →
    ∃ place, place.all isName = true ∧ p = .ofPlace place ∧ t.Makes dir place d

theorem Registry.faithful_empty (t : FileTree) (dir : Path) :
    (Registry.empty dir).Faithful t dir := ⟨rfl, by simp [empty]⟩

theorem Registry.Faithful.makes {r : Registry} (h : r.Faithful t dir) {d : Definition}
    (hn : place.all isName = true) (hd : r.get? (.ofPlace place) = some d) :
    t.Makes dir place d := by
  obtain ⟨⟨p, e⟩, hf, rfl⟩ := Option.map_eq_some_iff.1 hd
  obtain ⟨q, hq, rfl, hm⟩ := h.stored p e (List.mem_of_find?_eq_some hf)
  have hs := List.find?_some hf
  rw [same_ofPlace hq hn] at hs
  exact hs ▸ hm

theorem mem_storeAt {path p : Path} {d e : Definition} {ds : List (Path × Definition)}
    (h : (p, e) ∈ storeAt path d ds) :
    (p, e) ∈ ds ∨ e = d ∧ (p = path ∨ p.same path = true ∧ ∃ f, (p, f) ∈ ds) := by
  induction ds with
  | nil =>
    simp only [storeAt, List.mem_singleton, Prod.mk.injEq] at h
    exact .inr ⟨h.2, .inl h.1⟩
  | cons entry ds ih =>
    obtain ⟨q, f⟩ := entry
    unfold storeAt at h
    split at h
    · rename_i hq
      rcases List.mem_cons.1 h with h | h
      · cases h
        exact .inr ⟨rfl, .inr ⟨hq, f, List.mem_cons_self⟩⟩
      · exact .inl (List.mem_cons_of_mem _ h)
    · rcases List.mem_cons.1 h with h | h
      · exact .inl (h ▸ List.mem_cons_self)
      · rcases ih h with h | ⟨rfl, h | ⟨hp, g, hg⟩⟩
        · exact .inl (List.mem_cons_of_mem _ h)
        · exact .inr ⟨rfl, .inl h⟩
        · exact .inr ⟨rfl, .inr ⟨hp, g, List.mem_cons_of_mem _ hg⟩⟩

theorem Registry.Faithful.insert {r : Registry} (h : r.Faithful t dir) {d : Definition}
    (hn : place.all isName = true) (hp : d.path = .ofPlace place) (hm : t.Makes dir place d) :
    (r.insert d).Faithful t dir := by
  refine ⟨h.includeDir, fun p e he => ?_⟩
  rw [Registry.insert, hp] at he
  rcases mem_storeAt he with hs | ⟨rfl, rfl | ⟨hs, f, hf⟩⟩
  · exact h.stored p e hs
  · exact ⟨place, hn, rfl, hm⟩
  · obtain ⟨q, hq, rfl, -⟩ := h.stored p f hf
    rw [same_ofPlace hq hn] at hs
    exact ⟨q, hq, rfl, hs ▸ hm⟩

/-- Every file on the route imports the file at a place, directly or through others. -/
def Route.LeadsTo (route : Route) (t : FileTree) (dir : Path) (place : Place) : Prop :=
  ∀ path ∈ route.paths, ∃ p, p.all isName = true ∧ path = .ofPlace p ∧
    TransGen (t.HasImport dir) p place

theorem Route.LeadsTo.avoids {route : Route} (h : route.LeadsTo t dir place)
    (hn : place.all isName = true) (hg : t.Grounded dir place) {q : Place}
    (hq : ReflTransGen (t.HasImport dir) place q) : route.contains (.ofPlace q) = false := by
  rw [Route.contains, List.any_eq_false]
  intro path hpath hc
  obtain ⟨p, hp, rfl, hpp⟩ := h path hpath
  rw [same_ofPlace hp (reaches_named hn hq)] at hc
  subst hc
  exact hg.irrefl (TransGen.trans_right hq hpp)

theorem Route.LeadsTo.enter {route inner : Route} (h : route.LeadsTo t dir place)
    (hn : place.all isName = true) (he : route.enter (.ofPlace place) = .ok inner) {q : Place}
    (hq : t.HasImport dir place q) : inner.LeadsTo t dir q := by
  intro path hpath
  rw [Route.paths_enter he, List.mem_append, List.mem_singleton] at hpath
  rcases hpath with hpath | hpath
  · obtain ⟨p, hp, rfl, hpp⟩ := h path hpath
    exact ⟨p, hp, rfl, hpp.tail hq⟩
  · exact ⟨place, hn, hpath, .single hq⟩

/-- A load tells what it tells when all files are read anew, and stores only what files make. -/
def LoadsAnew {α : Type} (t : FileTree) (dir : Path) (r : Except CompileError α × Loading)
    (anew : Except CompileError α) : Prop := r.1 = anew ∧ r.2.registry.Faithful t dir

def ResolvesAnew (t : FileTree) (dir : Path) (route : Route) : Prop :=
  ∀ (file : Path) (tags : List Element) (table : Imports) (s : Loading), s.route = route →
    s.registry.Faithful t dir →
    (∀ e ∈ tags, ∀ q, t.importedPlace? dir e.tag = some q → route.LeadsTo t dir q) →
    LoadsAnew t dir (resolveImports t file tags table s).1 (resolveAnew t dir file tags table route)

theorem enterComponent_anew {inner : Route} {s : Loading} (hf : s.registry.Faithful t dir)
    (hn : place.all isName = true)
    (hl : ∀ q, t.HasImport dir place q → inner.LeadsTo t dir q)
    (hi : ∀ source, t.openComponent place = .ok source → ResolvesAnew t dir inner) :
    LoadsAnew t dir (enterComponent t place inner s) (enterAnew t dir place inner) := by
  unfold enterComponent enterAnew
  cases ho : t.openComponent place with
  | error e => exact ⟨rfl, hf⟩
  | ok source =>
    have hs := hi source ho source.path source.importTags [] { s with route := inner } rfl hf
      fun e he q hq => hl q ((hasImport_iff ho q).2 ⟨e, he, hq⟩)
    simp only
    generalize (resolveImports t source.path source.importTags [] { s with route := inner }).1 = r
      at hs ⊢
    obtain ⟨r, s'⟩ := r
    obtain ⟨heq, hf'⟩ := hs
    rw [← heq]
    cases r with
    | error e => exact ⟨rfl, hf'⟩
    | ok imports =>
      simp only
      cases hm : Definition.ofSource source.withoutImports imports with
      | error e => exact ⟨rfl, hf'⟩
      | ok d =>
        have hp : d.path = .ofPlace place := by
          obtain ⟨text, -, rfl, -⟩ := FileTree.openComponent_eq_ok.1 ho
          exact Definition.path_of_ofSource hm
        have hmake : t.Makes dir place d :=
          ⟨source, imports, ho, resolves_of_resolveAnew inner heq.symm, hm⟩
        exact ⟨rfl, hf'.insert hn hp hmake⟩

theorem loadComponent_anew (importer : Path) (line : Nat) {path : Path} {s : Loading}
    (hf : s.registry.Faithful t dir)
    (hl : ∀ place, t.locate path = .ok place → s.route.LeadsTo t dir place)
    (hi : ∀ place source inner, t.openComponent place = .ok source →
      s.route.enter (.ofPlace place) = .ok inner → ResolvesAnew t dir inner) :
    LoadsAnew t dir (loadComponent t importer line path s).1
      (loadAnew t dir importer line path s.route) := by
  rw [loadComponent_eq, loadAnew_eq]
  cases hp : t.locate path with
  | error reason => exact ⟨rfl, hf⟩
  | ok place =>
    have hn := FileTree.locate_named hp
    have hlp := hl place hp
    simp only
    cases he : s.route.enter (.ofPlace place) with
    | error e => exact ⟨rfl, hf⟩
    | ok inner =>
      simp only
      cases hg : s.registry.get? (.ofPlace place) with
      | some d =>
        -- What is stored for the file is what reading it would make: no cycle leads back from it.
        have hm := hf.makes hn hg
        have ha := hm.enterAnew hn he fun q hq => hlp.avoids hn hm.grounded hq
        exact ⟨by rw [ha]; rfl, hf⟩
      | none =>
        have hnext : ∀ q, t.HasImport dir place q → inner.LeadsTo t dir q :=
          fun q hq => hlp.enter hn he hq
        obtain ⟨heq, hf'⟩ := enterComponent_anew hf hn hnext
          fun source ho => hi place source inner ho he
        exact ⟨by rw [← heq], hf'⟩

theorem resolvesAnew (t : FileTree) (dir : Path) (route : Route) : ResolvesAnew t dir route := by
  induction route using route_induction (t := t) with
  | step route ih =>
    intro file tags
    induction tags with
    | nil =>
      intro table s hs hf _
      rw [resolveImports_nil, resolveAnew]
      exact ⟨rfl, hf⟩
    | cons e es ihTags =>
      intro table s hs hf hl
      obtain ⟨hle, hles⟩ := List.forall_mem_cons.1 hl
      have hd : s.registry.includeDir = (Registry.empty dir).includeDir := hf.includeDir
      rw [resolveImports_cons, resolveAnew, importTarget_congr hd table e.tag]
      cases ht : importTarget (.empty dir) file table e.tag with
      | error err => exact ⟨rfl, hf⟩
      | ok target =>
        obtain ⟨name, path⟩ := target
        subst hs
        have hload := loadComponent_anew file e.tag.line hf
          (fun place hp => hle place (by rw [importedPlace?_of_importTarget ht, hp]; rfl)) ih
        have hr := (loadComponent t file e.tag.line path s).2
        simp only
        generalize (loadComponent t file e.tag.line path s).1 = r at hload hr ⊢
        obtain ⟨r, s'⟩ := r
        obtain ⟨heq, hf'⟩ := hload
        rw [← heq]
        cases r with
        | error err => exact ⟨rfl, hf'⟩
        | ok d => exact ihTags (table.insert name d) s' hr hf' hles

end ComponentMarkup
