import ComponentMarkup.Proofs.Component.Acceptance
import ComponentMarkup.Proofs.Expansion.Failure
import ComponentMarkup.Proofs.Session.ImportCycle

set_option autoImplicit false

namespace ComponentMarkup

open Relation

def importAlias? (dir : Path) (tag : Tag) : Option (List Char) :=
  (tag.attr? "path".toList).map fun relative =>
    lowercase ((tag.attr? "alias".toList).getD (dir.join ⟨relative⟩).fileStem)

inductive FileTree.BadImport (t : FileTree) (dir : Path) (root place : Place) (text : List Char) :
    Tag → Cause → Prop
  | noPath {tag : Tag} : tag.attr? "path".toList = none →
      t.BadImport dir root place text tag (.missingAttribute importName "path".toList)
  | sameAlias {before after : List Element} {e e' : Element} {name : List Char} :
      findAll importName (parse text) = before ++ e :: after → e' ∈ before →
      importAlias? dir e'.tag = some name → importAlias? dir e.tag = some name →
      t.BadImport dir root place text e.tag (.duplicateAlias name)
  | notFound {tag : Tag} {relative : List Char} : tag.attr? "path".toList = some relative →
      t.locate (dir.join ⟨relative⟩) = .error .notFound →
      t.BadImport dir root place text tag (.importedFileNotFound (dir.join ⟨relative⟩))
  | unreached {tag : Tag} {relative : List Char} {reason : FileError} :
      tag.attr? "path".toList = some relative → t.locate (dir.join ⟨relative⟩) = .error reason →
      reason ≠ .notFound →
      t.BadImport dir root place text tag (.unreadable (dir.join ⟨relative⟩) reason)
  | unread {tag : Tag} {q : Place} {reason : FileError} : t.importedPlace? dir tag = some q →
      t.readAt q = .error reason → t.BadImport dir root place text tag (.unreadable (.ofPlace q) reason)
  | cycle {tag : Tag} {places : List Place} {q : Place} : t.importedPlace? dir tag = some q →
      places.head? = some root → places.getLast? = some place → t.ClosesCycle dir (places ++ [q]) →
      t.BadImport dir root place text tag (.importCycle ((places ++ [q]).map .ofPlace))

def FileTree.BindsUsage (t : FileTree) (dir : Path) (root : Place) (file : Path) (tag : Tag)
    (d : Definition) : Prop :=
  ∃ text imports, t.readAt root = .ok text ∧
    t.Resolves dir (.ofPlace root) (findAll importName (parse text)) [] imports ∧
    ComponentMarkup.BindsUsage imports (.ofPlace root) (takeElements importName (parse text)).1 file
      tag d

/-- What is wrong in the file at `place`, and the line of the tag to blame: an import, an element at top
level, or a usage with a component known in the file, which has its name and line from where it is
written and its attributes from the arguments of the usages around it. -/
inductive FileTree.Blames (t : FileTree) (dir : Path) (root place : Place) (text : List Char) :
    Cause → Option Nat → Prop
  | ofImport {e : Element} {c : Cause} : e ∈ findAll importName (parse text) →
      t.BadImport dir root place text e.tag c → t.Blames dir root place text c (some e.tag.line)
  | component {c : Cause} {line : Option Nat} : BadComponent (topTags (parse text)) c line →
      t.Blames dir root place text c line
  | usage {imports : Imports} {written tag : Tag} {d : Definition} {c : Cause} :
      t.Resolves dir (.ofPlace place) (findAll importName (parse text)) [] imports →
      written ∈ tags (parse text) → imports.find? written.name = some d →
      t.BindsUsage dir root (.ofPlace place) tag d →
      tag.name = written.name → tag.line = written.line →
      bindArguments tag.name d.parameters (usageAttributes tag) = .error c.nowhere →
      t.Blames dir root place text c (some written.line)

/-- An error has the path of a file that the compiled file reaches, and the line of the tag to blame in
it. An error without a line is not in a file of the route. -/
def FileTree.Blamed (t : FileTree) (dir : Path) (root : Place) (route : Route) (e : CompileError) :
    Prop :=
  ∃ place text, ReflTransGen (t.HasImport dir) root place ∧ t.readAt place = .ok text ∧
    e.location.file = some (.ofPlace place) ∧
    t.Blames dir root place text e.cause e.location.line ∧
    (e.location.line = none → route.contains (.ofPlace place) = false)

variable {t : FileTree} {dir file : Path} {root place : Place} {text : List Char}

theorem FileTree.BadImport.ne_multiple {tag : Tag} {c : Cause}
    (h : t.BadImport dir root place text tag c) (name : List Char) (lines : List Nat) :
    c ≠ .multipleTopLevelTags name lines := by
  cases h <;> simp

theorem FileTree.Blames.line_eq_none {c : Cause} {line : Option Nat}
    (h : t.Blames dir root place text c line) :
    line = none ↔ ∃ name lines, c = .multipleTopLevelTags name lines := by
  cases h with
  | ofImport _ hb => simpa using hb.ne_multiple
  | component hb => cases hb <;> simp
  | @usage imports written tag d c _ _ _ _ _ _ hbind =>
    have hc : c.OfUsage := cause_of_bindArguments hbind
    cases hc <;> simp

theorem FileTree.Blamed.of_line {route : Route} {e : CompileError} {line : Nat}
    (hreach : ReflTransGen (t.HasImport dir) root place) (hr : t.readAt place = .ok text)
    (hl : e.location = ⟨some (.ofPlace place), some line⟩)
    (hb : t.Blames dir root place text e.cause (some line)) : t.Blamed dir root route e := by
  refine ⟨place, text, hreach, hr, by rw [hl], by rwa [hl], fun hn => ?_⟩
  rw [hl] at hn
  cases hn

theorem FileTree.Blamed.leave {route inner : Route} {e : CompileError}
    (h : t.Blamed dir root inner e) (he : route.enter file = .ok inner) :
    t.Blamed dir root route e := by
  obtain ⟨place, text, hreach, hread, hfile, hblames, hline⟩ := h
  refine ⟨place, text, hreach, hread, hfile, hblames, fun hn => ?_⟩
  have hout := hline hn
  rw [Route.contains_enter he, Bool.or_eq_false_iff] at hout
  exact hout.1

theorem FileTree.Blamed.withLocation {route : Route} {importer : Path} {e : CompileError}
    (h : t.Blamed dir root route e) (hm : importer ∈ route.paths) (line : Option Nat) :
    t.Blamed dir root route (e.withLocation importer line) := by
  -- a line is missing only in a file that is not on the route, and the importer is on it
  have hkept : e.withLocation importer line = e := by
    obtain ⟨place, text, -, -, hfile, -, hline⟩ := h
    obtain ⟨cause, ⟨known, n⟩⟩ := e
    cases hfile
    cases n with
    | some n => exact CompileError.Located.withLocation ⟨_, n, rfl⟩ importer line
    | none =>
      have hout := hline rfl
      rw [Route.contains, List.any_eq_false] at hout
      have hother : (Path.ofPlace place).same importer = false := by
        rw [Path.same_comm]
        simpa using hout importer hm
      simp [CompileError.withLocation, hother]
  rw [hkept]
  exact h

theorem importAlias?_of_path {tag : Tag} {relative : List Char}
    (h : tag.attr? "path".toList = some relative) :
    importAlias? dir tag =
      some (lowercase ((tag.attr? "alias".toList).getD (dir.join ⟨relative⟩).fileStem)) := by
  rw [importAlias?, h]
  rfl

theorem importTarget_eq_ok {r : Registry} {table : Imports} {tag : Tag} {name : List Char}
    {path : Path} :
    importTarget r file table tag = .ok (name, path) ↔
      importAlias? r.includeDir tag = some name ∧ table.find? name = none ∧
        ∃ relative, tag.attr? "path".toList = some relative ∧ path = r.resolvePath relative := by
  unfold importTarget importAlias?
  cases tag.attr? "path".toList with
  | none => simp
  | some relative =>
    simp only [Option.map_some, Option.some.injEq, exists_eq_left']
    change _ ↔ lowercase ((tag.attr? "alias".toList).getD (r.resolvePath relative).fileStem) = name ∧ _
    split
    · rename_i hf
      constructor
      · nofun
      · rintro ⟨rfl, hn, -⟩
        rw [hn] at hf
        cases hf
    · rename_i hf
      simp only [Except.ok.injEq, Prod.mk.injEq]
      constructor
      · rintro ⟨rfl, rfl⟩
        exact ⟨rfl, by simpa using hf, rfl⟩
      · rintro ⟨rfl, -, rfl⟩
        exact ⟨rfl, rfl⟩

theorem importTarget_eq_error {table : Imports} {tag : Tag} {err : CompileError}
    (h : importTarget (.empty dir) file table tag = .error err) :
    err.location = ⟨some file, some tag.line⟩ ∧
      ((tag.attr? "path".toList = none ∧
          err.cause = .missingAttribute importName "path".toList) ∨
        ∃ name, importAlias? dir tag = some name ∧ (table.find? name).isSome = true ∧
          err.cause = .duplicateAlias name) := by
  unfold importTarget at h
  split at h
  · rename_i hr
    cases h
    exact ⟨rfl, .inl ⟨hr, rfl⟩⟩
  · rename_i relative hr
    simp only at h
    split at h
    · rename_i hknown
      cases h
      exact ⟨rfl, .inr ⟨_, importAlias?_of_path hr, hknown, rfl⟩⟩
    · cases h

theorem enterAnew_eq_error {inner : Route} {e : CompileError}
    (h : enterAnew t dir place inner = .error e) :
    (∃ reason, t.readAt place = .error reason ∧
      e = (Cause.unreadable (.ofPlace place) reason).nowhere) ∨
    ∃ text, t.readAt place = .ok text ∧
      (e.IsIn (.ofPlace place) (topTags (parse text)) ∨
        t.openComponent place = .ok (.ofText (.ofPlace place) text) ∧
          resolveAnew t dir (.ofPlace place) (findAll importName (parse text)) [] inner =
            .error e) := by
  unfold enterAnew at h
  split at h
  · rename_i ho
    cases h
    unfold FileTree.openComponent at ho
    split at ho
    · rename_i reason hr
      cases ho
      exact .inl ⟨reason, hr, rfl⟩
    · rename_i text hr
      split at ho
      · rename_i hc
        cases ho
        exact .inr ⟨text, hr, .inl (Source.isIn_of_checkTopLevel hc)⟩
      · cases ho
  · rename_i source ho
    obtain ⟨text, hr, rfl, -⟩ := FileTree.openComponent_eq_ok.1 ho
    refine .inr ⟨text, hr, ?_⟩
    split at h
    · rename_i hi
      cases h
      rw [importTags_ofText] at hi
      exact .inr ⟨ho, hi⟩
    · obtain ⟨hfile, hbad⟩ := Definition.isIn_of_ofSource h
      exact .inl ⟨hfile, hbad.of_takeElements⟩

structure FileTree.Resolving (t : FileTree) (dir : Path) (root place : Place) (text : List Char)
    (route : Route) : Prop where
  read : t.readAt place = .ok text
  reached : ReflTransGen (t.HasImport dir) root place
  follows : ∃ places, route.Follows t dir places ∧ places.head? = some root ∧
    places.getLast? = some place

theorem FileTree.Resolving.mem_paths {route : Route} (h : t.Resolving dir root place text route) :
    .ofPlace place ∈ route.paths := by
  obtain ⟨places, hf, -, hl⟩ := h.follows
  rw [hf.paths]
  exact List.mem_map_of_mem (List.mem_of_getLast? hl)

theorem FileTree.Resolving.enter {route inner : Route} {q : Place} {text' : List Char}
    (h : t.Resolving dir root place text route) (hi : t.HasImport dir place q)
    (he : route.enter (.ofPlace q) = .ok inner) (hr : t.readAt q = .ok text') :
    t.Resolving dir root q text' inner := by
  obtain ⟨places, hf, hh, hl⟩ := h.follows
  refine ⟨hr, h.reached.tail hi, places ++ [q], hf.enter hl hi he, ?_, by simp⟩
  rw [List.head?_append, hh]
  rfl

theorem FileTree.Resolving.blamed {route : Route} (h : t.Resolving dir root place text route)
    {e : Element} (he : e ∈ findAll importName (parse text)) {c : Cause}
    (hb : t.BadImport dir root place text e.tag c) {err : CompileError} (hc : err.cause = c)
    (hl : err.location = ⟨some (.ofPlace place), some e.tag.line⟩) :
    t.Blamed dir root route err := by
  refine .of_line h.reached h.read hl ?_
  rw [hc]
  exact .ofImport he hb

theorem importFailure_of_ne (path : Path) {reason : FileError} (h : reason ≠ .notFound) :
    importFailure path reason = .unreadable path reason := by
  unfold importFailure
  split
  · exact absurd rfl h
  · rfl

theorem blamed_of_loadAnew {route : Route} (h : t.Resolving dir root place text route) {e : Element}
    (he : e ∈ findAll importName (parse text)) {relative : List Char}
    {path : Path} (hrel : e.tag.attr? "path".toList = some relative)
    (hpath : path = dir.join ⟨relative⟩)
    (ih : ∀ q source inner text', t.openComponent q = .ok source →
      route.enter (.ofPlace q) = .ok inner → t.Resolving dir root q text' inner → ∀ err,
      resolveAnew t dir (.ofPlace q) (findAll importName (parse text')) [] inner = .error err →
      t.Blamed dir root inner err) {err : CompileError}
    (hload : loadAnew t dir (.ofPlace place) e.tag.line path route = .error err) :
    t.Blamed dir root route err := by
  subst hpath
  rw [loadAnew_eq] at hload
  split at hload
  · rename_i reason hloc
    cases hload
    by_cases hreason : reason = .notFound
    · subst hreason
      exact h.blamed he (.notFound hrel hloc) rfl rfl
    · refine h.blamed he (.unreached hrel hloc hreason) ?_ rfl
      rw [Cause.cause_at, importFailure_of_ne _ hreason]
  · rename_i q hloc
    have hq : t.importedPlace? dir e.tag = some q := importedPlace?_eq_some.2 ⟨relative, hrel, hloc⟩
    have hi : t.HasImport dir place q := ⟨text, h.read, e, he, hq⟩
    split at hload
    · rename_i hent
      cases hload
      obtain ⟨hc, rfl⟩ := Route.enter_eq_error hent
      obtain ⟨places, hf, hh, hl⟩ := h.follows
      refine h.blamed he (.cycle hq hh hl (hf.closesCycle hl hi hc)) ?_ rfl
      rw [CompileError.cause_withLocation, hf.paths, List.map_append]
      rfl
    · rename_i inner hent
      cases hd : enterAnew t dir q inner with
      | ok d =>
        rw [hd] at hload
        cases hload
      | error e' =>
        rw [hd] at hload
        cases hload
        -- the file cannot be read, makes no component, or does not resolve its own imports
        rcases enterAnew_eq_error hd with ⟨reason, hr, rfl⟩ | ⟨text', hr, ⟨hfile, hbad⟩ | ⟨ho, hin⟩⟩
        · exact h.blamed he (.unread hq hr) rfl rfl
        · have hout := Route.not_contains_of_enter hent
          have hb : t.Blamed dir root route e' :=
            ⟨q, text', h.reached.tail hi, hr, hfile, .component hbad, fun _ => hout⟩
          exact hb.withLocation h.mem_paths _
        · have hb := ih q _ inner text' ho hent (h.enter hi hent hr) e' hin
          exact (hb.leave hent).withLocation h.mem_paths _

theorem blamed_of_resolveAnew (route : Route) {done tags : List Element} {table : Imports}
    (h : t.Resolving dir root place text route)
    (hs : findAll importName (parse text) = done ++ tags)
    (ht : ∀ name, (table.find? name).isSome = true →
      ∃ e ∈ done, importAlias? dir e.tag = some name) {err : CompileError}
    (hr : resolveAnew t dir (.ofPlace place) tags table route = .error err) :
    t.Blamed dir root route err := by
  -- on the route, for the files that are imported; then on the tags, those before being `done`
  induction route using route_induction (t := t) generalizing place text done tags table err with
  | step route ih =>
    induction tags generalizing done table with
    | nil =>
      rw [resolveAnew] at hr
      cases hr
    | cons e es ihTags =>
      have he : e ∈ findAll importName (parse text) := by simp [hs]
      rw [resolveAnew] at hr
      split at hr
      · rename_i htarget
        cases hr
        obtain ⟨hl, ⟨hn, hc⟩ | ⟨name, halias, hknown, hc⟩⟩ := importTarget_eq_error htarget
        · exact h.blamed he (.noPath hn) hc hl
        · obtain ⟨e', he', halias'⟩ := ht name hknown
          exact h.blamed he (.sameAlias hs he' halias' halias) hc hl
      · rename_i name path htarget
        obtain ⟨halias, -, relative, hrel, hpath⟩ := importTarget_eq_ok.1 htarget
        split at hr
        · rename_i hload
          cases hr
          refine blamed_of_loadAnew h he hrel hpath ?_ hload
          intro q source inner text' ho hent hres err' hin
          exact ih q source inner ho hent hres (List.nil_append _).symm (by simp [Imports.find?]) hin
        · rename_i d hload
          have hs' : findAll importName (parse text) = (done ++ [e]) ++ es := by simp [hs]
          refine ihTags hs' (fun n hn => ?_) hr
          rw [Imports.find?_insert] at hn
          split at hn
          · rename_i hname
            exact ⟨e, by simp, hname ▸ halias⟩
          · obtain ⟨e', he', halias'⟩ := ht n hn
            exact ⟨e', by simp [he'], halias'⟩

end ComponentMarkup
