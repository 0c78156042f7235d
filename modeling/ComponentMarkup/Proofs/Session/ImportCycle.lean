import ComponentMarkup.Proofs.Component.Acceptance
import ComponentMarkup.Proofs.Expansion.Failure
import ComponentMarkup.Proofs.Session.CompileAnew
import Mathlib

/-!
Import cycles. A compilation that reports a cycle reports one that is there, from the compiled file on,
and one that succeeds has found none because there is none below the file.
-/

set_option autoImplicit false

namespace ComponentMarkup

open Relation

variable {t : FileTree} {dir file : Path} {place : Place}

/-- A chain of imports that comes back to a file on it, with no file on it twice before that. -/
structure FileTree.ClosesCycle (t : FileTree) (dir : Path) (places : List Place) : Prop where
  chain : places.IsChain (t.HasImport dir)
  distinct : (places.dropLast.map Path.ofPlace).Nodup
  closed : ∃ p ∈ places.dropLast, places.getLast? = some p

structure Route.Follows (route : Route) (t : FileTree) (dir : Path) (places : List Place) :
    Prop where
  paths : route.paths = places.map .ofPlace
  named : ∀ p ∈ places, p.all isName = true
  chain : places.IsChain (t.HasImport dir)

theorem Cause.OfFile.ne_importCycle {c : Cause} (h : c.OfFile) (r : List Path) :
    c ≠ .importCycle r := by
  rintro rfl
  cases h

theorem Cause.OfUsage.ne_importCycle {c : Cause} (h : c.OfUsage) (r : List Path) :
    c ≠ .importCycle r := by
  rintro rfl
  cases h

theorem importTarget_ne_importCycle {registry : Registry} {table : Imports} {tag : Tag}
    {e : CompileError} (h : importTarget registry file table tag = .error e) (r : List Path) :
    e.cause ≠ .importCycle r := by
  unfold importTarget at h
  split at h
  · cases h
    simp
  · simp only at h
    split at h
    · cases h
      simp
    · cases h

theorem openComponent_ne_importCycle {e : CompileError} (h : t.openComponent place = .error e)
    (r : List Path) : e.cause ≠ .importCycle r := by
  unfold FileTree.openComponent at h
  split at h
  · cases h
    simp [Cause.nowhere]
  · split at h
    · rename_i hc
      cases h
      exact (Source.cause_of_checkTopLevel hc).ne_importCycle r
    · cases h

theorem importFailure_ne_importCycle (path : Path) (reason : FileError) (r : List Path) :
    importFailure path reason ≠ .importCycle r := by
  unfold importFailure
  split <;> simp

theorem isChain_concat {α : Type} {R : α → α → Prop} {l : List α} {a b : α}
    (h : l.IsChain R) (hl : l.getLast? = some a) (hab : R a b) : (l ++ [b]).IsChain R := by
  refine h.append (List.isChain_singleton b) fun x hx y hy => ?_
  rw [hl] at hx
  cases hx
  cases hy
  exact hab

theorem Route.Follows.closesCycle {route : Route} {places : List Place} {last : Place}
    (h : route.Follows t dir places) (hl : places.getLast? = some last)
    (hi : t.HasImport dir last place) (hc : route.contains (.ofPlace place) = true) :
    t.ClosesCycle dir (places ++ [place]) := by
  refine ⟨?_, ?_, place, ?_, by simp⟩
  · exact isChain_concat h.chain hl hi
  · rw [List.dropLast_concat, ← h.paths]
    exact route.nodup_paths
  · rw [List.dropLast_concat]
    rw [Route.contains, h.paths, List.any_map, List.any_eq_true] at hc
    obtain ⟨p, hp, hs⟩ := hc
    rw [Function.comp_apply, same_ofPlace (h.named p hp) (hasImport_named hi)] at hs
    exact hs ▸ hp

theorem Route.Follows.enter {route inner : Route} {places : List Place} {last : Place}
    (h : route.Follows t dir places) (hl : places.getLast? = some last)
    (hi : t.HasImport dir last place) (he : route.enter (.ofPlace place) = .ok inner) :
    inner.Follows t dir (places ++ [place]) := by
  have hpaths : inner.paths = (places ++ [place]).map .ofPlace := by
    rw [Route.paths_enter he, h.paths, List.map_append]
    rfl
  refine ⟨hpaths, fun p hp => ?_, isChain_concat h.chain hl hi⟩
  rcases List.mem_append.1 hp with hp | hp
  · exact h.named p hp
  · rw [List.mem_singleton] at hp
    exact hp ▸ hasImport_named hi

/-- Where the cycle that going into a file reports comes from: the file is opened and one of its own
imports reports it. -/
theorem cycle_of_enterAnew {inner : Route} {e : CompileError} {r : List Path}
    (h : enterAnew t dir place inner = .error e) (hr : e.cause = .importCycle r) :
    ∃ source, t.openComponent place = .ok source ∧
      resolveAnew t dir source.path source.importTags [] inner = .error e := by
  unfold enterAnew at h
  split at h
  · rename_i ho
    cases h
    exact absurd hr (openComponent_ne_importCycle ho r)
  · rename_i source ho
    split at h
    · rename_i hi
      cases h
      exact ⟨source, ho, hi⟩
    · exact absurd hr ((Definition.cause_of_ofSource h).ne_importCycle r)

theorem cycle_of_loadAnew {importer path : Path} {line : Nat} {route : Route} {e : CompileError}
    {r : List Path} (h : loadAnew t dir importer line path route = .error e)
    (hr : e.cause = .importCycle r) :
    ∃ place, t.locate path = .ok place ∧
      ((route.contains (.ofPlace place) = true ∧ r = route.paths ++ [.ofPlace place]) ∨
        ∃ inner source e', route.enter (.ofPlace place) = .ok inner ∧
          t.openComponent place = .ok source ∧ e'.cause = .importCycle r ∧
          resolveAnew t dir source.path source.importTags [] inner = .error e') := by
  rw [loadAnew_eq] at h
  split at h
  · cases h
    rw [Cause.cause_at] at hr
    exact absurd hr (importFailure_ne_importCycle _ _ r)
  · rename_i place hp
    refine ⟨place, hp, ?_⟩
    split at h
    · rename_i he
      cases h
      obtain ⟨hc, rfl⟩ := Route.enter_eq_error he
      rw [CompileError.cause_withLocation] at hr
      exact .inl ⟨hc, (Cause.importCycle.inj hr).symm⟩
    · rename_i inner he
      cases hd : enterAnew t dir place inner with
      | ok d =>
        rw [hd] at h
        cases h
      | error e' =>
        rw [hd] at h
        cases h
        rw [CompileError.cause_withLocation] at hr
        obtain ⟨source, ho, hi⟩ := cycle_of_enterAnew hd hr
        exact .inr ⟨inner, source, e', he, ho, hr, hi⟩

theorem cycle_of_resolveAnew (route : Route) {tags : List Element} {table : Imports}
    {places : List Place} {last : Place} {e : CompileError} {r : List Path}
    (hf : route.Follows t dir places) (hl : places.getLast? = some last)
    (hi : ∀ e ∈ tags, ∀ q, t.importedPlace? dir e.tag = some q → t.HasImport dir last q)
    (h : resolveAnew t dir file tags table route = .error e) (hr : e.cause = .importCycle r) :
    ∃ more, r = (places ++ more).map .ofPlace ∧ t.ClosesCycle dir (places ++ more) := by
  induction route using route_induction (t := t)
    generalizing file tags table places last e with
  | step route ih =>
    induction tags generalizing table with
    | nil =>
      rw [resolveAnew] at h
      cases h
    | cons tag es ihTags =>
      obtain ⟨hi, his⟩ := List.forall_mem_cons.1 hi
      rw [resolveAnew] at h
      split at h
      · rename_i ht
        cases h
        exact absurd hr (importTarget_ne_importCycle ht r)
      · rename_i name path ht
        split at h
        · rename_i hload
          cases h
          obtain ⟨place, hp, hcases⟩ := cycle_of_loadAnew hload hr
          have hplace : t.HasImport dir last place :=
            hi place (by rw [importedPlace?_of_importTarget ht, hp]; rfl)
          rcases hcases with ⟨hc, rfl⟩ | ⟨inner, source, e', he, ho, hr', hinner⟩
          · exact ⟨[place], by simp [hf.paths], hf.closesCycle hl hplace hc⟩
          · obtain ⟨more, hm, hclose⟩ := ih place source inner ho he (hf.enter hl hplace he)
              (by simp) (fun e hm q hq => (hasImport_iff ho q).2 ⟨e, hm, hq⟩) hinner hr'
            rw [List.append_assoc] at hm hclose
            exact ⟨[place] ++ more, hm, hclose⟩
        · exact ihTags his h

theorem loadSource_ne_importCycle {path : Path} {e : CompileError}
    (h : t.loadSource path = .error e) (r : List Path) : e.cause ≠ .importCycle r := by
  unfold FileTree.loadSource at h
  split at h
  · cases h
    simp [Cause.nowhere]
  · split at h
    · cases h
      simp [Cause.nowhere]
    · cases h

theorem compileFile_eq_compileAnew (options : CompileOptions) (t : FileTree) (path : Path) :
    compileFile options t path = (compileAnew options t path 0).1 :=
  congrArg Prod.fst ((Session.start options).compileFile_anew
    (Registry.faithful_empty t options.includeDir) path).1

theorem cycle_of_compileAnew {options : CompileOptions} {path : Path} {next : Nat}
    {e : CompileError} {r : List Path} (h : (compileAnew options t path next).1 = .error e)
    (hr : e.cause = .importCycle r) :
    ∃ root places, t.locate path = .ok root ∧ places.head? = some root ∧
      r = places.map .ofPlace ∧ t.ClosesCycle options.includeDir places := by
  unfold compileAnew at h
  split at h
  · rename_i hs
    cases h
    exact absurd hr (loadSource_ne_importCycle hs r)
  · rename_i source hs
    obtain ⟨root, hl, hp, hi⟩ := hasImport_source options.includeDir hs
    split at h
    · rename_i hres
      cases h
      have hf : (Route.start source.path).Follows t options.includeDir [root] :=
        ⟨by rw [hp]; rfl, by simpa using FileTree.locate_named hl, List.isChain_singleton root⟩
      obtain ⟨more, hm, hc⟩ := cycle_of_resolveAnew _ hf rfl
        (fun e he q hq => (hi q).2 ⟨e, he, hq⟩) hres hr
      exact ⟨root, [root] ++ more, hl, rfl, hm, hc⟩
    · rename_i imports hres
      simp only at h
      cases hx : (expand imports source.path source.withoutImports.nodes).run next with
      | mk x after =>
        rw [hx] at h
        cases x with
        | ok out => cases h
        | error e' =>
          cases h
          have hu := (cause_of_expand imports source.path source.withoutImports.nodes).of_run_error hx
          exact absurd hr (hu.ne_importCycle r)

theorem acyclic_of_compileAnew {options : CompileOptions} {path : Path} {next : Nat}
    {page : List Char} (h : (compileAnew options t path next).1 = .ok page) :
    ∃ root, t.locate path = .ok root ∧
      ∀ a, ReflTransGen (t.HasImport options.includeDir) root a →
        ¬ TransGen (t.HasImport options.includeDir) a a := by
  unfold compileAnew at h
  split at h
  · cases h
  · rename_i source hs
    obtain ⟨root, hl, hp, hi⟩ := hasImport_source options.includeDir hs
    split at h
    · cases h
    · rename_i imports hres
      have hg : t.Grounded options.includeDir root := by
        refine Acc.intro _ fun q hq => ?_
        obtain ⟨e, he, hq⟩ := (hi q).1 hq
        exact (resolves_of_resolveAnew _ hres).grounded e he q hq
      exact ⟨root, hl, fun a ha => (hg.reaches ha).irrefl⟩

/-- A file that is compiled in a session of its own gives an import cycle only where there is one: the
report begins with the file, each file of it imports the next, and the last stands on it before. A
file that compiles has no cycle below it. -/
theorem importCycle_sound_and_complete (options : CompileOptions) (t : FileTree) (path : Path) :
    (∀ e r, compileFile options t path = .error e → e.cause = .importCycle r →
      ∃ root places, t.locate path = .ok root ∧ places.head? = some root ∧
        r = places.map .ofPlace ∧ t.ClosesCycle options.includeDir places) ∧
    ∀ page, compileFile options t path = .ok page →
      ∃ root, t.locate path = .ok root ∧
        ∀ a, ReflTransGen (t.HasImport options.includeDir) root a →
          ¬ TransGen (t.HasImport options.includeDir) a a := by
  rw [compileFile_eq_compileAnew]
  exact ⟨fun e r h hr => cycle_of_compileAnew h hr, fun page h => acyclic_of_compileAnew h⟩

/-- A file that imports itself, beside one that imports nothing. -/
theorem importCycle_of_self_import :
    let t : FileTree := ⟨[([['a']], .file (.text "<import path=\"/a\"/>".toList) 0),
      ([['b']], .file (.text ['x']) 0)], [], rfl⟩
    let dir := CompileOptions.standard.includeDir
    (∃ root places, t.locate ⟨['/', 'a']⟩ = .ok root ∧ places.head? = some root ∧
      [⟨['/', 'a']⟩, ⟨['/', 'a']⟩] = places.map Path.ofPlace ∧ t.ClosesCycle dir places) ∧
    ∃ root, t.locate ⟨['/', 'b']⟩ = .ok root ∧
      ∀ a, ReflTransGen (t.HasImport dir) root a → ¬ TransGen (t.HasImport dir) a a := by
  intro t dir
  have hcycle : compileFile .standard t ⟨['/', 'a']⟩ =
      .error ((Cause.importCycle [⟨['/', 'a']⟩, ⟨['/', 'a']⟩]).at ⟨['/', 'a']⟩ (some 1)) := by cbv
  have hpage : compileFile .standard t ⟨['/', 'b']⟩ = .ok ['x'] := by cbv
  exact ⟨(importCycle_sound_and_complete .standard t _).1 _ _ hcycle rfl,
    (importCycle_sound_and_complete .standard t _).2 _ hpage⟩

end ComponentMarkup
