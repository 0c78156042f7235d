import ComponentMarkup.Component.Registry
import ComponentMarkup.Files.FileTree

/-!
Loading components: the imports of a file are resolved by loading the files they name, which resolve
their own imports first. The route of files being loaded is as it was when a load ends, so loading
ends too: each file that is entered is one file less to enter.
-/

set_option autoImplicit false

namespace ComponentMarkup

structure Loading where
  registry : Registry
  route : Route

/-- A result with the state after it, in which the route is that of `s`. -/
def LoadResult (α : Type) (s : Loading) : Type :=
  { r : Except CompileError α × Loading // r.2.route = s.route }

theorem Route.leave_enter {r r' : Route} {path : Path} (h : r.enter path = .ok r') :
    r'.leave = r := by
  unfold Route.enter at h
  split at h
  · cases h
  · cases h
    simp [Route.leave]

theorem Route.contains_enter {r r' : Route} {path : Path} (h : r.enter path = .ok r') (q : Path) :
    r'.contains q = (r.contains q || path.same q) := by
  unfold Route.enter at h
  split at h
  · cases h
  · cases h
    simp [Route.contains]

theorem Route.not_contains_of_enter {r r' : Route} {path : Path} (h : r.enter path = .ok r') :
    r.contains path = false := by
  unfold Route.enter at h
  split at h
  · cases h
  · rename_i hc
    exact Bool.eq_false_iff.2 hc

def Loading.leave (s : Loading) : Loading := { s with route := s.route.leave }

theorem leave_route {r r' : Route} {s : Loading} {path : Path} (h : r.enter path = .ok r')
    (hs : s.route = r') : s.leave.route = r := by
  subst hs
  exact Route.leave_enter h

def Route.remaining (r : Route) (t : FileTree) : Nat :=
  t.entries.countP fun e => !r.contains (.ofPlace e.1)

theorem FileTree.mem_entries_of_readAt {t : FileTree} {place : Place} {chars : List Char}
    (h : t.readAt place = .ok chars) : ∃ e, (place, e) ∈ t.entries := by
  cases he : t.entry? place with
  | none => simp [readAt, he] at h
  | some e =>
    refine ⟨e, mem_entries_of_entry? he ?_⟩
    rintro rfl
    simp [readAt, he] at h

theorem Route.remaining_enter_lt {r r' : Route} {t : FileTree} {place : Place} {chars : List Char}
    (hr : t.readAt place = .ok chars) (h : r.enter (.ofPlace place) = .ok r') :
    r'.remaining t < r.remaining t := by
  obtain ⟨e, he⟩ := FileTree.mem_entries_of_readAt hr
  have hn := Route.not_contains_of_enter h
  obtain ⟨before, after, hs⟩ := List.append_of_mem he
  have mono : ∀ l : List (Place × FileEntry),
      l.countP (fun e => !r'.contains (.ofPlace e.1)) ≤
        l.countP (fun e => !r.contains (.ofPlace e.1)) := by
    intro l
    apply List.countP_mono_left
    intro e _ hc
    rw [Route.contains_enter h] at hc
    simp only [Bool.not_eq_true', Bool.or_eq_false_iff] at hc ⊢
    exact hc.1
  have hc : r'.contains (.ofPlace place) = true := by
    rw [Route.contains_enter h, Path.same_refl, Bool.or_true]
  unfold Route.remaining
  rw [hs, List.countP_append, List.countP_append, List.countP_cons, List.countP_cons, hc, hn]
  have h₁ := mono before
  have h₂ := mono after
  simp
  omega

def importName : List Char := "import".toList

def importTarget (registry : Registry) (file : Path) (table : Imports) (tag : Tag) :
    Except CompileError (List Char × Path) :=
  match tag.attr? "path".toList with
  | none => .error ((Cause.missingAttribute importName "path".toList).at file (some tag.line))
  | some relative =>
    let path := registry.resolvePath relative
    let name := lowercase ((tag.attr? "alias".toList).getD path.fileStem)
    if (table.find? name).isSome then
      .error ((Cause.duplicateAlias name).at file (some tag.line))
    else .ok (name, path)

def importFailure (path : Path) : FileError → Cause
  | .notFound => .importedFileNotFound path
  | reason => .unreadable path reason

mutual

/-- Resolves import tags of a file one after the other; `table` holds those before them. -/
def resolveImports (t : FileTree) (file : Path) :
    List Element → Imports → (s : Loading) → LoadResult Imports s
  | [], table, s => ⟨(.ok table, s), rfl⟩
  | e :: es, table, s =>
    match importTarget s.registry file table e.tag with
    | .error err => ⟨(.error err, s), rfl⟩
    | .ok (name, path) =>
      match loadComponent t file e.tag.line path s with
      | ⟨(.error err, s'), h⟩ => ⟨(.error err, s'), h⟩
      | ⟨(.ok d, s'), h⟩ =>
        let r := resolveImports t file es (table.insert name d) s'
        ⟨r.1, r.2.trans h⟩
termination_by es _ s => (s.route.remaining t, es.length)
decreasing_by
  · exact Prod.Lex.right _ (by simp)
  · simp only at h
    rw [h]
    exact Prod.Lex.right _ (by simp)

def loadComponent (t : FileTree) (importer : Path) (line : Nat) (path : Path) (s : Loading) :
    LoadResult Definition s :=
  match t.locate path with
  | .error reason => ⟨(.error ((importFailure path reason).at importer (some line)), s), rfl⟩
  | .ok place =>
    match h : s.route.enter (.ofPlace place) with
    | .error e => ⟨(.error (e.withLocation importer (some line)), s), rfl⟩
    | .ok route =>
      match s.registry.get? (.ofPlace place) with
      | some d => ⟨(.ok d, s), rfl⟩
      | none =>
        match hr : t.readAt place with
        | .error reason =>
          ⟨(.error ((Cause.unreadable (.ofPlace place) reason).at importer (some line)), s), rfl⟩
        | .ok text =>
          let source := Source.ofText (.ofPlace place) text
          match source.checkTopLevel with
          | .error e => ⟨(.error (e.withLocation importer (some line)), s), rfl⟩
          | .ok () =>
            let (nodes, tags) := takeElements importName source.nodes
            have := Route.remaining_enter_lt hr h
            match resolveImports t source.path tags [] { s with route } with
            | ⟨(.error e, s'), h'⟩ =>
              ⟨(.error (e.withLocation importer (some line)), s'.leave), leave_route h h'⟩
            | ⟨(.ok imports, s'), h'⟩ =>
              match Definition.ofSource { source with nodes } imports with
              | .error e =>
                ⟨(.error (e.withLocation importer (some line)), s'.leave), leave_route h h'⟩
              | .ok d =>
                ⟨(.ok d, { s'.leave with registry := s'.registry.insert d }), leave_route h h'⟩
termination_by (s.route.remaining t, 0)
decreasing_by exact Prod.Lex.left _ _ this

end

end ComponentMarkup
