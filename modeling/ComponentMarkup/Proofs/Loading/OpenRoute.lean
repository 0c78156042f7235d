import ComponentMarkup.Proofs.Loading.Anew
import Mathlib.Data.List.Dedup
import Mathlib.Data.List.Perm.Subperm

/-!
Loading with an open route. Files are put on it and taken off it one by one, and nothing says ahead
that calls nest only so deep, nor that the route is as it was after them. Both are so on every file
tree, and what comes out is what loading gives.
-/

set_option autoImplicit false

namespace ComponentMarkup

structure OpenLoading where
  registry : Registry
  route : List Path
  /-- The routes there have been, the present one first. -/
  moments : List (List Path)

def OpenLoading.start (registry : Registry) (origin : Path) : OpenLoading :=
  ⟨registry, [origin], [[origin]]⟩

def OpenLoading.push (s : OpenLoading) (path : Path) : OpenLoading :=
  { s with route := s.route ++ [path], moments := (s.route ++ [path]) :: s.moments }

def OpenLoading.pop (s : OpenLoading) : OpenLoading :=
  { s with route := s.route.dropLast, moments := s.route.dropLast :: s.moments }

mutual

/-- Resolves import tags one after the other; there is no result where calls nest deeper. -/
def resolveOpen (t : FileTree) (depth : Nat) (file : Path) (tags : List Element) (table : Imports)
    (s : OpenLoading) : Option (Except CompileError Imports × OpenLoading) :=
  match depth, tags with
  | 0, _ => none
  | _ + 1, [] => some (.ok table, s)
  | depth + 1, e :: es =>
    match importTarget s.registry file table e.tag with
    | .error err => some (.error err, s)
    | .ok (name, path) => do
      let (r, s) ← loadOpen t depth file e.tag.line path s
      match r with
      | .error err => some (.error err, s)
      | .ok d => resolveOpen t depth file es (table.insert name d) s

def loadOpen (t : FileTree) (depth : Nat) (importer : Path) (line : Nat) (path : Path)
    (s : OpenLoading) : Option (Except CompileError Definition × OpenLoading) :=
  match depth with
  | 0 => none
  | depth + 1 =>
    match t.locate path with
    | .error reason => some (.error ((importFailure path reason).at importer (some line)), s)
    | .ok place =>
      if s.route.any (·.same (.ofPlace place)) then
        some (.error ((Cause.importCycle (s.route ++ [.ofPlace place])).at importer (some line)), s)
      else do
        let (r, s) ← defineOpen t depth place (s.push (.ofPlace place))
        some (r.mapError (·.withLocation importer (some line)), s.pop)

def defineOpen (t : FileTree) (depth : Nat) (place : Place) (s : OpenLoading) :
    Option (Except CompileError Definition × OpenLoading) :=
  match depth with
  | 0 => none
  | depth + 1 =>
    match s.registry.get? (.ofPlace place) with
    | some d => some (.ok d, s)
    | none =>
      match t.openComponent place with
      | .error e => some (.error e, s)
      | .ok source => do
        let (r, s) ← resolveOpen t depth source.path source.importTags [] s
        match r with
        | .error e => some (.error e, s)
        | .ok imports =>
          match Definition.ofSource source.withoutImports imports with
          | .error e => some (.error e, s)
          | .ok d => some (.ok d, { s with registry := s.registry.insert d })

end

variable {t : FileTree} {place : Place} {route inner : Route}

/-- The routes that a load on a route passes through. -/
inductive FileTree.Opens (t : FileTree) : Route → List Path → Prop
  | here (route : Route) : t.Opens route route.paths
  | enter {route inner : Route} {place : Place} (entered : route.enter (.ofPlace place) = .ok inner) :
      t.Opens route inner.paths
  | inside {route inner : Route} {place : Place} {source : Source} {moment : List Path}
      (entered : route.enter (.ofPlace place) = .ok inner)
      (opened : t.openComponent place = .ok source) (later : t.Opens inner moment) :
      t.Opens route moment

/-- From some depth on an open load ends, with what the load gives and on the route that it began
with. -/
def EndsAs {α : Type} (t : FileTree) (route : Route) (moments : List (List Path))
    (o : Nat → Option (Except CompileError α × OpenLoading))
    (r : Except CompileError α × Loading) : Prop :=
  ∃ enough later,
    (∀ depth, enough ≤ depth → o depth = some (r.1, ⟨r.2.registry, route.paths, later ++ moments⟩)) ∧
    ∀ m ∈ later, t.Opens route m

def EndsResolving (t : FileTree) (route : Route) : Prop :=
  ∀ (file : Path) (tags : List Element) (table : Imports) (registry : Registry)
    (moments : List (List Path)),
    EndsAs t route moments
      (fun depth => resolveOpen t depth file tags table ⟨registry, route.paths, moments⟩)
      (resolveImports t file tags table ⟨registry, route⟩).1

theorem forall_from_succ {n : Nat} {p : Nat → Prop} (h : ∀ d, n ≤ d → p (d + 1)) :
    ∀ depth, n + 1 ≤ depth → p depth
  | _ + 1, hd => h _ (by omega)

theorem EndsAs.at_once {α : Type} {registry : Registry} {moments : List (List Path)}
    {o : Nat → Option (Except CompileError α × OpenLoading)} {r : Except CompileError α}
    (h : ∀ depth, o (depth + 1) = some (r, ⟨registry, route.paths, moments⟩)) :
    EndsAs t route moments o (r, ⟨registry, route⟩) :=
  ⟨1, [], forall_from_succ fun d _ => h d, by simp⟩

theorem defineOpen_ends {registry : Registry} (moments : List (List Path))
    (he : route.enter (.ofPlace place) = .ok inner) (hg : registry.get? (.ofPlace place) = none)
    (ih : ∀ source, t.openComponent place = .ok source → EndsResolving t inner) :
    let r := enterComponent t place inner ⟨registry, route⟩
    ∃ enough later,
      (∀ depth, enough ≤ depth → defineOpen t depth place ⟨registry, inner.paths, moments⟩ =
        some (r.1, ⟨r.2.registry, inner.paths, later ++ moments⟩)) ∧
      ∀ m ∈ later, t.Opens route m := by
  unfold enterComponent
  cases ho : t.openComponent place with
  | error e =>
    refine ⟨1, [], forall_from_succ fun d _ => ?_, by simp⟩
    simp only [defineOpen, hg, ho]
    rfl
  | ok source =>
    obtain ⟨enough, later, hr, hm⟩ :=
      ih source ho source.path source.importTags [] registry moments
    refine ⟨enough + 1, later, forall_from_succ fun d hd => ?_, fun m h => .inside he ho (hm m h)⟩
    have hresolve := hr d hd
    simp only [defineOpen, hg, ho]
    simp only [hresolve, Option.bind_eq_bind, Option.bind_some]
    generalize (resolveImports t source.path source.importTags [] ⟨registry, inner⟩).1 = r
    obtain ⟨r, s'⟩ := r
    cases r with
    | error e => rfl
    | ok imports =>
      simp only
      cases Definition.ofSource source.withoutImports imports with
      | error e => rfl
      | ok d => rfl

theorem loadOpen_ends (importer : Path) (line : Nat) (path : Path) (registry : Registry)
    (moments : List (List Path))
    (ih : ∀ place source inner, t.openComponent place = .ok source →
      route.enter (.ofPlace place) = .ok inner → EndsResolving t inner) :
    EndsAs t route moments
      (fun depth => loadOpen t depth importer line path ⟨registry, route.paths, moments⟩)
      (loadComponent t importer line path ⟨registry, route⟩).1 := by
  rw [loadComponent_eq]
  cases hp : t.locate path with
  | error reason =>
    refine .at_once fun depth => ?_
    simp only [loadOpen, hp]
  | ok place =>
    simp only
    cases he : route.enter (.ofPlace place) with
    | error e =>
      obtain ⟨hc, rfl⟩ := Route.enter_eq_error he
      rw [Route.contains] at hc
      refine .at_once fun depth => ?_
      simp only [loadOpen, hp, hc, if_true]
      rfl
    | ok inner =>
      have hc := Route.not_contains_of_enter he
      have hin := Route.paths_enter he
      rw [Route.contains] at hc
      have hpush : ∀ depth,
          loadOpen t (depth + 1) importer line path ⟨registry, route.paths, moments⟩ =
          (defineOpen t depth place ⟨registry, inner.paths, inner.paths :: moments⟩).bind
            fun out => some (out.1.mapError (·.withLocation importer (some line)), out.2.pop) := by
        intro depth
        simp only [loadOpen, hp, hc, Bool.false_eq_true, if_false, OpenLoading.push, ← hin]
        rfl
      cases hg : registry.get? (.ofPlace place) with
      | some d =>
        refine ⟨2, [route.paths, inner.paths],
          forall_from_succ fun k hk => ?_, ?_⟩
        · obtain ⟨k, rfl⟩ : ∃ j, k = j + 1 := ⟨k - 1, by omega⟩
          simp only [hpush, defineOpen, hg, Option.bind_some, OpenLoading.pop, hin,
            List.dropLast_concat]
          rfl
        · simp only [List.mem_cons, List.not_mem_nil, or_false]
          rintro m (rfl | rfl)
          · exact .here route
          · exact .enter he
      | none =>
        obtain ⟨enough, later, hd, hm⟩ := defineOpen_ends (inner.paths :: moments) he hg
          fun source ho => ih place source inner ho he
        refine ⟨enough + 1, route.paths :: later ++ [inner.paths],
          forall_from_succ fun k hk => ?_, ?_⟩
        · simp only [hpush, hd k hk]
          simp [OpenLoading.pop, hin]
        · simp only [List.cons_append, List.mem_cons, List.mem_append, List.not_mem_nil, or_false]
          rintro m (rfl | h | rfl)
          · exact .here route
          · exact hm m h
          · exact .enter he

theorem endsResolving (t : FileTree) (route : Route) : EndsResolving t route := by
  induction route using route_induction (t := t) with
  | step route ih =>
    intro file tags
    induction tags with
    | nil =>
      intro table registry moments
      rw [resolveImports_nil]
      exact .at_once fun depth => by simp only [resolveOpen]
    | cons e es ihTags =>
      intro table registry moments
      rw [resolveImports_cons]
      cases ht : importTarget registry file table e.tag with
      | error err =>
        refine .at_once fun depth => ?_
        simp only [resolveOpen, ht]
      | ok target =>
        obtain ⟨name, path⟩ := target
        obtain ⟨enough, later, hl, hm⟩ := loadOpen_ends file e.tag.line path registry moments ih
        have hr := (loadComponent t file e.tag.line path ⟨registry, route⟩).2
        simp only
        generalize (loadComponent t file e.tag.line path ⟨registry, route⟩).1 = r at hl hr ⊢
        obtain ⟨r, registry', route'⟩ := r
        subst hr
        cases r with
        | error err =>
          refine ⟨enough + 1, later, forall_from_succ fun k hk => ?_, hm⟩
          have hload := hl k hk
          simp only [resolveOpen, ht]
          simp only [hload]
          rfl
        | ok d =>
          obtain ⟨enough', later', hr, hm'⟩ :=
            ihTags (table.insert name d) registry' (later ++ moments)
          refine ⟨max enough enough' + 1, later' ++ later, forall_from_succ fun k hk => ?_, ?_⟩
          · have hload := hl k (by omega)
            have hrest := hr k (by omega)
            simp only [resolveOpen, ht]
            simp only [hload, List.append_assoc]
            exact hrest
          · intro m h
            rcases List.mem_append.1 h with h | h
            · exact hm' m h
            · exact hm m h

/-- The places of files, also of those that read as empty. -/
def FileTree.files (t : FileTree) : List Place :=
  (t.entries.map Prod.fst).dedup.filter fun place =>
    match t.entry? place with
    | some (.file _ _) | some .sink => true
    | _ => false

theorem mem_files_of_openComponent {source : Source} (h : t.openComponent place = .ok source) :
    place ∈ t.files := by
  obtain ⟨text, hr, -⟩ := FileTree.openComponent_eq_ok.1 h
  obtain ⟨e, he⟩ := FileTree.mem_entries_of_readAt hr
  refine List.mem_filter.2 ⟨List.mem_dedup.2 (List.mem_map_of_mem he), ?_⟩
  unfold FileTree.readAt at hr
  split at hr <;> simp_all

/-- Beyond where a load began there are only files that could be read on the route, but for the
innermost. -/
theorem FileTree.Opens.places {moment : List Path} (h : t.Opens route moment) :
    (∃ r : Route, r.paths = moment) ∧ ∃ inside : List Place,
      moment = route.paths ++ inside.map .ofPlace ∧ ∀ p ∈ inside.dropLast, p ∈ t.files := by
  induction h with
  | here route => exact ⟨⟨route, rfl⟩, [], by simp, by simp⟩
  | @enter route inner place entered =>
    refine ⟨⟨inner, rfl⟩, [place], ?_, by simp⟩
    rw [Route.paths_enter entered]
    rfl
  | @inside route inner place source moment entered opened later ih =>
    obtain ⟨hr, inside, hm, hf⟩ := ih
    refine ⟨hr, place :: inside, ?_, ?_⟩
    · rw [hm, Route.paths_enter entered]
      simp
    · intro p hp
      cases inside with
      | nil => cases hp
      | cons q rest =>
        rcases List.mem_cons.1 hp with rfl | hp
        · exact mem_files_of_openComponent opened
        · exact hf p hp

theorem FileTree.Opens.length_le {origin : Path} {moment : List Path}
    (h : t.Opens (.start origin) moment) : moment.length ≤ t.files.length + 2 ∧
      ∃ inside : List Place, moment = origin :: inside.map .ofPlace ∧
        (∀ p ∈ inside.dropLast, p ∈ t.files) ∧
        ((∃ p ∈ t.files, origin = .ofPlace p) ∨ (∀ p ∈ inside, p ∈ t.files) →
          moment.length ≤ t.files.length + 1) := by
  obtain ⟨⟨r, hr⟩, inside, hm, hf⟩ := h.places
  have hn : (origin :: inside.map Path.ofPlace).Nodup := by
    have hd := r.nodup_paths
    rw [hr, hm] at hd
    exact hd
  rw [Route.start, List.singleton_append] at hm
  subst hm
  obtain ⟨ho, hn⟩ := List.nodup_cons.1 hn
  have hn := hn.of_map
  have hlast : inside.dropLast.Nodup := hn.sublist (List.dropLast_sublist inside)
  have hlen := (hlast.subperm hf).length_le
  rw [List.length_dropLast] at hlen
  rw [List.length_cons, List.length_map]
  refine ⟨by omega, inside, rfl, hf, ?_⟩
  rintro (⟨p, hp, rfl⟩ | hall)
  · -- The origin and all but the innermost are different files, whatever the innermost is.
    have hnot : p ∉ inside.dropLast := fun hmem =>
      ho (List.mem_map_of_mem (List.dropLast_subset inside hmem))
    have hsub : ∀ q ∈ p :: inside.dropLast, q ∈ t.files := List.forall_mem_cons.2 ⟨hp, hf⟩
    have hle := ((List.nodup_cons.2 ⟨hnot, hlast⟩).subperm hsub).length_le
    rw [List.length_cons, List.length_dropLast] at hle
    omega
  · have hle := (hn.subperm hall).length_le
    omega

/-- Loading ends on every file tree. At every moment the paths on the route are different, and between
the one that it begins with and the innermost there are only files, so that there are at most two
more than the tree has files. There is one more at most if it begins with a file of the tree, or if
the innermost is a file too: what is innermost may also be a directory, until it turns out that it
cannot be read. A load leaves the route as it was. -/
theorem openLoading_ends_and_restores (t : FileTree) (registry : Registry) :
    (∀ root : Source, ∃ r s,
      (∃ enough, ∀ depth, enough ≤ depth → resolveOpen t depth root.path root.importTags []
        (.start registry root.path) = some (r, s)) ∧
      (resolveImports t root.path root.importTags [] ⟨registry, .start root.path⟩).1 =
        (r, ⟨s.registry, .start root.path⟩) ∧
      s.route = [root.path] ∧
      ∀ moment ∈ s.moments, moment.Pairwise (fun p q => p.same q = false) ∧
        moment.length ≤ t.files.length + 2 ∧
        ∃ inside : List Place, moment = root.path :: inside.map .ofPlace ∧
          (∀ p ∈ inside.dropLast, p ∈ t.files) ∧
          ((∃ p ∈ t.files, root.path = .ofPlace p) ∨ (∀ p ∈ inside, p ∈ t.files) →
            moment.length ≤ t.files.length + 1)) ∧
    ∀ (route : Route) (moments : List (List Path)) (importer : Path) (line : Nat) (path : Path),
      ∃ r s, (∃ enough, ∀ depth, enough ≤ depth →
        loadOpen t depth importer line path ⟨registry, route.paths, moments⟩ = some (r, s)) ∧
        s.route = route.paths := by
  constructor
  · intro root
    obtain ⟨enough, later, hr, hm⟩ := endsResolving t (.start root.path) root.path root.importTags []
      registry [[root.path]]
    have hroute :=
      (resolveImports t root.path root.importTags [] ⟨registry, .start root.path⟩).2
    generalize (resolveImports t root.path root.importTags [] ⟨registry, .start root.path⟩).1 = out
      at hr hroute ⊢
    obtain ⟨r, registry', route'⟩ := out
    subst hroute
    refine ⟨r, _, ⟨enough, hr⟩, rfl, rfl, fun moment hmem => ?_⟩
    have ho : t.Opens (.start root.path) moment := by
      rcases List.mem_append.1 hmem with h | h
      · exact hm moment h
      · rw [List.mem_singleton.1 h]
        exact .here _
    obtain ⟨⟨r, rfl⟩, -⟩ := ho.places
    exact ⟨r.distinct, ho.length_le⟩
  · intro route moments importer line path
    obtain ⟨enough, later, hl, -⟩ := loadOpen_ends importer line path registry moments
      fun _ _ inner _ _ => endsResolving t inner
    exact ⟨_, _, ⟨enough, hl⟩, rfl⟩

/-- A text from outside the tree imports the only file, and this one a directory: then three paths are
on the route. -/
theorem openLoading_into_directory :
    let t : FileTree := ⟨[([['d']], .directory),
      ([['a']], .file (.text "<import path=/d>".toList) 0)], [], rfl⟩
    let root := Source.ofText ⟨['/', 'p']⟩ "<import path=/a>".toList
    let registry := Registry.empty ⟨['/']⟩
    ∃ s, resolveOpen t 8 root.path root.importTags [] (.start registry root.path) =
        some (.error ((Cause.unreadable ⟨['/', 'd']⟩ .isDirectory).at ⟨['/', 'a']⟩ (some 1)), s) ∧
      ∃ moment ∈ s.moments, t.files.length + 1 < moment.length := by
  intro t root registry
  let outer : List (List Path) := [[⟨['/', 'p']⟩, ⟨['/', 'a']⟩], [⟨['/', 'p']⟩]]
  refine ⟨⟨registry, [⟨['/', 'p']⟩],
    outer.reverse ++ [⟨['/', 'p']⟩, ⟨['/', 'a']⟩, ⟨['/', 'd']⟩] :: outer⟩, ?_,
    [⟨['/', 'p']⟩, ⟨['/', 'a']⟩, ⟨['/', 'd']⟩], by simp, by decide⟩
  unfold outer registry root t
  cbv

end ComponentMarkup
