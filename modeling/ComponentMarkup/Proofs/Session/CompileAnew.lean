import ComponentMarkup.Proofs.Loading.Cache
import ComponentMarkup.Session

/-!
Sessions that compile one file after the other. What a session has loaded never shows in what it
compiles: a file gives what it would give if all files were read anew.
-/

set_option autoImplicit false

namespace ComponentMarkup

open Relation

/-- What a file compiles to when every import is read anew, and the number of the next identifier. -/
def compileAnew (options : CompileOptions) (t : FileTree) (path : Path) (next : Nat) :
    Except CompileError (List Char) × Nat :=
  match t.loadSource path with
  | .error e => (.error e, next)
  | .ok source =>
    match resolveAnew t options.includeDir source.path source.importTags [] (.start source.path) with
    | .error e => (.error e, next)
    | .ok imports =>
      let r := (expand imports source.path source.withoutImports.nodes).run next
      (r.1.map (render options.minify), r.2)

variable {t : FileTree} {dir : Path}

theorem hasImport_source (dir : Path) {path : Path} {source : Source}
    (h : t.loadSource path = .ok source) :
    ∃ root, t.locate path = .ok root ∧ source.path = .ofPlace root ∧
      ∀ q, t.HasImport dir root q ↔
        ∃ e ∈ source.importTags, t.importedPlace? dir e.tag = some q := by
  unfold FileTree.loadSource at h
  split at h
  · cases h
  · rename_i root hl
    split at h
    · cases h
    · rename_i text hr
      cases h
      refine ⟨root, hl, rfl, fun q => ?_⟩
      rw [importTags_ofText]
      simp [FileTree.HasImport, hr]

theorem leadsTo_start {place q : Place} (hn : place.all isName = true)
    (h : t.HasImport dir place q) : (Route.start (.ofPlace place)).LeadsTo t dir q := by
  intro path hp
  rw [Route.start, List.mem_singleton] at hp
  exact ⟨place, hn, hp, .single h⟩

theorem resolveImports_source {path : Path} {source : Source} {r : Registry}
    (h : t.loadSource path = .ok source) (hf : r.Faithful t dir) :
    LoadsAnew t dir (resolveImports t source.path source.importTags [] ⟨r, .start source.path⟩).1
      (resolveAnew t dir source.path source.importTags [] (.start source.path)) := by
  obtain ⟨root, hl, hp, hi⟩ := hasImport_source dir h
  refine resolvesAnew t dir _ _ _ _ _ rfl hf fun e he q hq => ?_
  rw [hp]
  exact leadsTo_start (FileTree.locate_named hl) ((hi q).2 ⟨e, he, hq⟩)

/-- One compilation: it tells what reading everything anew tells, and what it stores is again only
what files make. -/
theorem Session.compileFile_anew {s : Session} (hf : s.registry.Faithful t s.options.includeDir)
    (path : Path) :
    ((s.compileFile t path).1, (s.compileFile t path).2.next) =
        compileAnew s.options t path s.next ∧
      (s.compileFile t path).2.registry.Faithful t s.options.includeDir ∧
      (s.compileFile t path).2.options = s.options := by
  unfold Session.compileFile compileAnew
  cases hl : t.loadSource path with
  | error e => exact ⟨rfl, hf, rfl⟩
  | ok source =>
    have hs := resolveImports_source hl hf
    have ht : takeElements importName source.nodes = (source.withoutImports.nodes, source.importTags) :=
      rfl
    simp only [compileSource, ht]
    generalize (resolveImports t source.path source.importTags [] ⟨s.registry, .start source.path⟩).1
      = r at hs ⊢
    obtain ⟨r, loading⟩ := r
    obtain ⟨heq, hf'⟩ := hs
    have ho : (⟨loading.registry.includeDir, s.minify⟩ : CompileOptions) = s.options :=
      congrArg (CompileOptions.mk · s.minify) hf'.includeDir
    rw [← heq]
    cases r with
    | error e => exact ⟨rfl, hf', ho⟩
    | ok imports => exact ⟨rfl, hf', ho⟩

def Session.compileEach (s : Session) (t : FileTree) (paths : List Path) : Session :=
  paths.foldl (fun s p => (s.compileFile t p).2) s

theorem Session.faithful_compileEach {s : Session} {options : CompileOptions} (ho : s.options = options)
    (hf : s.registry.Faithful t options.includeDir) (paths : List Path) :
    (s.compileEach t paths).options = options ∧
      (s.compileEach t paths).registry.Faithful t options.includeDir := by
  induction paths generalizing s with
  | nil => exact ⟨ho, hf⟩
  | cons p ps ih =>
    subst ho
    obtain ⟨-, hf', ho'⟩ := s.compileFile_anew hf p
    exact ih ho' hf'

/-- What a session has loaded before does not show: a file compiles to the same page or the same
error as in a session that has nothing loaded and counts identifiers from the same number. -/
theorem compileFile_eq_of_nothing_loaded (options : CompileOptions) (t : FileTree)
    (earlier : List Path) (path : Path) :
    let s := (Session.start options).compileEach t earlier
    let cleared : Session := ⟨options.minify, .empty options.includeDir, s.next⟩
    (s.compileFile t path).1 = (cleared.compileFile t path).1 ∧
      (s.compileFile t path).2.next = (cleared.compileFile t path).2.next := by
  intro s cleared
  obtain ⟨ho, hf⟩ := Session.faithful_compileEach (s := .start options) (t := t) rfl
    (Registry.faithful_empty t options.includeDir) earlier
  have hs := (s.compileFile_anew (by rw [ho]; exact hf) path).1
  have hc := (cleared.compileFile_anew (Registry.faithful_empty t options.includeDir) path).1
  rw [ho] at hs
  exact Prod.mk.inj (hs.trans hc.symm)

end ComponentMarkup
