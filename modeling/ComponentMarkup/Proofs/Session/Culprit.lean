import ComponentMarkup.Proofs.Markup.DocumentOrder
import ComponentMarkup.Proofs.Session.Blame

set_option autoImplicit false

namespace ComponentMarkup

open Relation

variable {t : FileTree} {dir file : Path} {root place : Place} {text : List Char}

theorem FileTree.Resolves.made {tags : List Element} {table table' : Imports}
    (h : t.Resolves dir file tags table table') :
    ∀ i ∈ table', i ∈ table ∨
      ∃ e ∈ tags, ∃ q, t.importedPlace? dir e.tag = some q ∧ t.Makes dir q i.2 := by
  induction h with
  | nil => exact fun i hi => .inl hi
  | @cons file path e es table table' imports name place source d target found opened inner made
      rest _ ihRest =>
    intro i hi
    rcases ihRest i hi with hi | ⟨e', he', q, hq, hm⟩
    · rcases Imports.mem_insert hi with hd | hi
      · refine .inr ⟨e, List.mem_cons_self, place, ?_, hd ▸ ⟨source, imports, opened, inner, made⟩⟩
        rw [importedPlace?_of_importTarget target, found]
        rfl
      · exact .inl hi
    · exact .inr ⟨e', List.mem_cons_of_mem _ he', q, hq, hm⟩

theorem made_of_resolves (hr : t.readAt place = .ok text) {imports : Imports}
    (h : t.Resolves dir file (findAll importName (parse text)) [] imports) :
    ∀ i ∈ imports, ∃ q, t.HasImport dir place q ∧ t.Makes dir q i.2 := by
  intro i hi
  rcases h.made i hi with hi | ⟨e, he, q, hq, hm⟩
  · cases hi
  · exact ⟨q, ⟨text, hr, e, he, hq⟩, hm⟩

theorem FileTree.Makes.madeFrom {d : Definition} (h : t.Makes dir place d) :
    ∃ text imports, t.readAt place = .ok text ∧
      t.Resolves dir (.ofPlace place) (findAll importName (parse text)) [] imports ∧
      d.MadeFrom (Source.ofText (.ofPlace place) text).withoutImports imports := by
  obtain ⟨source, imports, ho, hr, hm⟩ := h
  obtain ⟨text, hread, rfl, -⟩ := FileTree.openComponent_eq_ok.1 ho
  rw [importTags_ofText] at hr
  exact ⟨text, imports, hread, hr, Definition.madeFrom_of_ofSource hm⟩

theorem made_of_reaches {imports : Imports} {c : Definition} (h : imports.Reaches c)
    (hi : ∀ i ∈ imports, ∃ q, t.HasImport dir place q ∧ t.Makes dir q i.2) :
    ∃ q, ReflTransGen (t.HasImport dir) place q ∧ t.Makes dir q c := by
  induction h generalizing place with
  | direct hd =>
    obtain ⟨q, hq, hm⟩ := hi _ (Imports.mem_of_find? hd)
    exact ⟨q, .single hq, hm⟩
  | through hd _ ih =>
    obtain ⟨q, hq, hm⟩ := hi _ (Imports.mem_of_find? hd)
    obtain ⟨text, imports', hread, hres, hmade⟩ := hm.madeFrom
    obtain ⟨q', hq', hm'⟩ := ih (hmade.imports ▸ made_of_resolves hread hres)
    exact ⟨q', .head hq hq', hm'⟩

theorem blames_of_failsAt {imports : Imports} {route : Route} (hr : t.readAt root = .ok text)
    (hres : t.Resolves dir (.ofPlace root) (findAll importName (parse text)) [] imports)
    {err : CompileError}
    (h : FailsAt imports (.ofPlace root) (takeElements importName (parse text)).1 err) :
    t.Blamed dir root route err := by
  obtain ⟨file', tag, d, hbinds, hbind, hl⟩ := h
  have hcomes : t.BindsUsage dir root file' tag d := ⟨text, imports, hr, hres, hbinds⟩
  -- the usage is written in the compiled file, or in the template of a component
  rcases hbinds.origin with ⟨rfl, hm, hd⟩ | ⟨c, template, hreach, ht, rfl, ho, hd⟩
  · refine .of_line .refl hr hl ?_
    exact .usage hres (tags_takeElements_subset _ _ _ hm) hd hcomes rfl rfl hbind
  · obtain ⟨q, hq, hmakes⟩ := made_of_reaches hreach (made_of_resolves hr hres)
    obtain ⟨text', imports', hr', hres', hmade⟩ := hmakes.madeFrom
    have hpath : c.path = .ofPlace q := hmade.path
    rw [hpath] at hl hcomes
    obtain ⟨written, hw, he⟩ := List.mem_map.1 ho
    obtain ⟨hname, hwline⟩ := Prod.mk.inj he
    have htemplate := hmade.template
    rw [ht] at htemplate
    have hmem := (Source.mem_of_pickSingle htemplate).1
    have hwritten := tags_takeElements_subset _ _ _ (tags_subset_of_mem_elements hmem _ hw)
    rw [hmade.imports] at hd
    refine .of_line hq hr' hl ?_
    rw [← hwline]
    exact .usage hres' hwritten (hname ▸ hd) hcomes hname.symm hwline.symm hbind

inductive Session.ReachedOn (options : CompileOptions) (t : FileTree) : Session → Prop
  | start : ReachedOn options t (.start options)
  | compile {s : Session} (path : Path) : ReachedOn options t s →
      ReachedOn options t (s.compileFile t path).2
  | reset {s : Session} : ReachedOn options t s → ReachedOn options t s.reset

theorem Session.ReachedOn.faithful {options : CompileOptions} {s : Session}
    (h : s.ReachedOn options t) :
    s.options = options ∧ s.registry.Faithful t options.includeDir := by
  induction h with
  | start => exact ⟨rfl, Registry.faithful_empty t options.includeDir⟩
  | compile path _ ih =>
    obtain ⟨rfl, hf⟩ := ih
    obtain ⟨-, hf', ho⟩ := Session.compileFile_anew hf path
    exact ⟨ho, hf'⟩
  | reset _ ih =>
    obtain ⟨rfl, -⟩ := ih
    exact ⟨rfl, ⟨rfl, by simp [Session.reset, Registry.clear]⟩⟩

/-- The file to compile is to blame for an error without a location: it is not there, or it cannot be
read. -/
def FileTree.Unreadable (t : FileTree) (path : Path) (e : CompileError) : Prop :=
  e.location = ⟨none, none⟩ ∧ ∃ reason,
    t.locate path = .error reason ∧ e.cause = .unreadable path reason ∨
    ∃ root, t.locate path = .ok root ∧ t.readAt root = .error reason ∧
      e.cause = .unreadable (.ofPlace root) reason

theorem blamed_of_compileAnew {options : CompileOptions} {path : Path} {next : Nat}
    {e : CompileError} (h : (compileAnew options t path next).1 = .error e) :
    t.Unreadable path e ∨
      ∃ root, t.locate path = .ok root ∧
        t.Blamed options.includeDir root (.start (.ofPlace root)) e := by
  unfold compileAnew FileTree.loadSource at h
  cases hl : t.locate path with
  | error reason =>
    rw [hl] at h
    cases h
    exact .inl ⟨rfl, reason, .inl ⟨hl, rfl⟩⟩
  | ok root =>
    cases hr : t.readAt root with
    | error reason =>
      simp only [hl, hr] at h
      cases h
      exact .inl ⟨rfl, reason, .inr ⟨root, hl, hr, rfl⟩⟩
    | ok text =>
      simp only [hl, hr] at h
      refine .inr ⟨root, rfl, ?_⟩
      have htags := importTags_ofText (.ofPlace root) text
      split at h
      · rename_i hres
        cases h
        rw [htags] at hres
        have hfollows : (Route.start (.ofPlace root)).Follows t options.includeDir [root] :=
          ⟨rfl, by simpa using FileTree.locate_named hl, List.isChain_singleton root⟩
        have hstart : t.Resolving options.includeDir root root text (.start (.ofPlace root)) :=
          ⟨hr, .refl, [root], hfollows, rfl, rfl⟩
        exact blamed_of_resolveAnew _ hstart (List.nil_append _).symm (by simp [Imports.find?]) hres
      · rename_i imports hres
        rw [htags] at hres
        simp only at h
        cases hx : (expand imports (Source.ofText (.ofPlace root) text).path
          (Source.ofText (.ofPlace root) text).withoutImports.nodes).run next with
        | mk x after =>
          rw [hx] at h
          cases x with
          | ok out => cases h
          | error e' =>
            cases h
            exact blames_of_failsAt hr (resolves_of_resolveAnew _ hres)
              ((failsAt_expand _ _ _).of_run_error hx)

/-- An error of a compilation points at the tag to blame, whatever the session compiled before. Either
the compiled file itself cannot be read, and the error has no location; or the error has the path of a
file that the compiled one reaches by imports, and the line, in the text of that file, of the tag that is
to blame for its cause. Only an error about several tags where one may stand has no line. -/
theorem error_points_at_culprit {options : CompileOptions} {s : Session}
    (hs : s.ReachedOn options t) {path : Path} {e : CompileError}
    (h : (s.compileFile t path).1 = .error e) :
    t.Unreadable path e ∨
      ∃ root place text, t.locate path = .ok root ∧
        ReflTransGen (t.HasImport options.includeDir) root place ∧
        t.readAt place = .ok text ∧ e.location.file = some (.ofPlace place) ∧
        t.Blames options.includeDir root place text e.cause e.location.line ∧
        (∀ tag ∈ tags (parse text), tag.StandsIn text) ∧
        (e.location.line = none ↔ ∃ name lines, e.cause = .multipleTopLevelTags name lines) := by
  obtain ⟨rfl, hf⟩ := hs.faithful
  have hanew := congrArg Prod.fst (Session.compileFile_anew hf path).1
  rw [h] at hanew
  rcases blamed_of_compileAnew hanew.symm with hu | ⟨root, hl, place, text, hreach, hr, hfile, hb, -⟩
  · exact .inl hu
  · refine .inr ⟨root, place, text, hl, hreach, hr, hfile, hb,
      fun tag hm => standsIn_of_mem_tags_parse hm, hb.line_eq_none⟩

/-- A page and a component that import each other, compiled for the second time: the cycle is closed in
the second line of the component. -/
theorem error_points_at_culprit_cycle :
    let t : FileTree := ⟨[([['p']], .file (.text "<import path=/c>".toList) 0),
      ([['c']], .file (.text "\n<import path=/p>".toList) 0)], [], rfl⟩
    let s := ((Session.start .standard).compileFile t ⟨['/', 'p']⟩).2
    let e := (Cause.importCycle [⟨['/', 'p']⟩, ⟨['/', 'c']⟩, ⟨['/', 'p']⟩]).at ⟨['/', 'c']⟩ (some 2)
    (s.compileFile t ⟨['/', 'p']⟩).1 = .error e ∧
    ∃ root place text, t.locate ⟨['/', 'p']⟩ = .ok root ∧
      ReflTransGen (t.HasImport CompileOptions.standard.includeDir) root place ∧
      t.readAt place = .ok text ∧ ⟨['/', 'c']⟩ = Path.ofPlace place ∧
      t.Blames CompileOptions.standard.includeDir root place text e.cause (some 2) := by
  intro t s e
  have h : (s.compileFile t ⟨['/', 'p']⟩).1 = .error e := by
    unfold s t e
    cbv
  refine ⟨h, ?_⟩
  rcases error_points_at_culprit (.compile _ .start) h with
    hu | ⟨root, place, text, hl, hreach, hr, hfile, hb, -⟩
  · cases hu.1
  · exact ⟨root, place, text, hl, hreach, hr, Option.some.inj hfile, hb⟩

end ComponentMarkup
