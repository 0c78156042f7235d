import ComponentMarkup.Proofs.Component.Acceptance
import ComponentMarkup.Proofs.Loading.LoadOrder

/-!
Loading a file that makes no component. Main statement: `loadComponent_of_rejected`. A tag that may not
stand at top level is found before the imports of the file are resolved, every other fault behind them.
-/

set_option autoImplicit false

namespace ComponentMarkup

theorem tagsNamed_without_imports {names : List String} (h : "import" ∉ names) (heads : List Tag) :
    tagsNamed names (heads.filter (·.name != importName)) = tagsNamed names heads := by
  unfold tagsNamed
  rw [List.filter_filter]
  refine List.filter_congr fun tag _ => ?_
  have hi : importName ∉ names.map String.toList := by
    rw [List.mem_map]
    rintro ⟨name, hn, he⟩
    exact h (String.toList_injective he ▸ hn)
  by_cases ht : tag.name = importName
  · simp [ht, hi]
  · simp [ht]

theorem TemplateReads.without_imports {heads : List Tag} (h : TemplateReads heads) :
    TemplateReads (heads.filter (·.name != importName)) where
  allowed := fun tag ht => h.allowed tag (List.mem_of_mem_filter ht)
  single := by
    rw [tagsNamed_without_imports (by decide)]
    exact h.single
  unreserved := by
    rw [tagsNamed_without_imports (by decide)]
    exact h.unreserved

theorem FirstFault.without_imports {heads : List Tag} {cause : Cause} {line : Option Nat}
    (h : FirstFault heads cause line) :
    FirstFault (heads.filter (·.name != importName)) cause line := by
  have hallowed (ha : ∀ tag ∈ heads, tag.MayStandAtTop) :
      ∀ tag ∈ heads.filter (·.name != importName), tag.MayStandAtTop :=
    fun tag ht => ha tag (List.mem_of_mem_filter ht)
  cases h with
  | @disallowed before after tag hs hb ht =>
    have hkept : (tag.name != importName) = true := by
      rw [bne_iff_ne]
      intro hi
      refine ht ?_
      unfold Tag.MayStandAtTop
      rw [hi]
      decide
    have hs' : heads.filter (·.name != importName) =
        before.filter (·.name != importName) ++ tag :: after.filter (·.name != importName) := by
      rw [hs, List.filter_append, List.filter_cons, if_pos hkept]
    exact .disallowed hs' (fun t hm => hb t (List.mem_of_mem_filter hm)) ht
  | templates ha hs hm =>
    exact .templates (hallowed ha) (by rw [tagsNamed_without_imports (by decide), hs]) hm
  | reserved ha hs hr =>
    exact .reserved (hallowed ha) (by rw [tagsNamed_without_imports (by decide), hs]) hr
  | scripts hreads hs hm =>
    exact .scripts hreads.without_imports (by rw [tagsNamed_without_imports (by decide), hs]) hm
  | styles hreads hfew hs hm =>
    refine .styles hreads.without_imports ?_ (by rw [tagsNamed_without_imports (by decide), hs]) hm
    rw [tagsNamed_without_imports (by decide)]
    exact hfew

theorem ofSource_withoutImports {s : Source} {e : CompileError}
    (h : Definition.ofSource s [] = .error e) (imports : Imports) :
    Definition.ofSource s.withoutImports imports = .error e := by
  obtain ⟨cause, line, hf, rfl⟩ := Definition.ofSource_eq_error_iff.1 h
  refine Definition.ofSource_of_firstFault ?_ imports
  rw [Source.withoutImports, topTags_takeElements]
  exact hf.without_imports

theorem checkTopLevel_of_ofSource {s : Source} {e : CompileError}
    (h : Definition.ofSource s [] = .error e) :
    ((∃ tag, e.cause = .disallowedTopLevelTag tag) → s.checkTopLevel = .error e) ∧
    ((∀ tag, e.cause ≠ .disallowedTopLevelTag tag) → s.checkTopLevel = .ok ()) := by
  obtain ⟨cause, line, hf, rfl⟩ := Definition.ofSource_eq_error_iff.1 h
  cases hf with
  | disallowed hs hb ht =>
    exact ⟨fun _ => Source.checkTopLevel_of_disallowed hs hb ht, fun hne => absurd rfl (hne _)⟩
  | templates ha hs hm => exact ⟨nofun, fun _ => Source.checkTopLevel_of_allowed ha⟩
  | reserved ha hs hr => exact ⟨nofun, fun _ => Source.checkTopLevel_of_allowed ha⟩
  | scripts hreads hs hm => exact ⟨nofun, fun _ => Source.checkTopLevel_of_allowed hreads.allowed⟩
  | styles hreads hfew hs hm =>
    exact ⟨nofun, fun _ => Source.checkTopLevel_of_allowed hreads.allowed⟩

theorem CompileError.withLocation_of_elsewhere {e : CompileError} {known file : Path}
    (hk : e.location.file = some known) (h : known.same file = false) (line : Option Nat) :
    e.withLocation file line = e := by
  unfold withLocation
  rw [hk]
  simp only [h, Bool.false_eq_true, if_false]

theorem Route.not_same_of_enter {route inner : Route} {path file : Path}
    (he : route.enter path = .ok inner) (hf : route.contains file = true) :
    path.same file = false := by
  have hn := Route.not_contains_of_enter he
  rw [Route.contains, List.any_eq_false] at hn
  rw [Route.contains, List.any_eq_true] at hf
  obtain ⟨p, hp, hpf⟩ := hf
  refine Bool.eq_false_iff.2 fun hs => ?_
  exact hn p hp (Path.same_trans hpf (Path.same_symm hs))

/-- A file that is on the route is not stored by what is loaded meanwhile. -/
theorem Registry.GrowsTo.get?_of_enter {r r' : Registry} {route inner : Route} {path : Path}
    (h : r.GrowsTo r' inner) (he : route.enter path = .ok inner) (hg : r.get? path = none) :
    r'.get? path = none := by
  obtain ⟨-, more, hm, hoff⟩ := h
  rw [Registry.get?_eq_none] at hg ⊢
  rw [hm]
  refine List.forall_mem_append.2 ⟨hg, fun q hq => ?_⟩
  have hq := hoff q hq
  rw [Route.contains_enter he, Bool.or_eq_false_iff] at hq
  rw [Path.same_comm]
  exact hq.2

section Rejected

variable {t : FileTree} {importer path : Path} {line : Nat} {s : Loading} {place : Place}
  {route : Route} {text : List Char} {e : CompileError}

theorem enterComponent_of_disallowed (hr : t.readAt place = .ok text)
    (hc : (Source.ofText (.ofPlace place) text).checkTopLevel = .error e) :
    enterComponent t place route s = (.error e, s) := by
  unfold enterComponent FileTree.openComponent
  rw [hr]
  simp only [hc]

theorem enterComponent_of_rejected (hn : s.route.enter (.ofPlace place) = .ok route)
    (hr : t.readAt place = .ok text)
    (hc : (Source.ofText (.ofPlace place) text).checkTopLevel = .ok ())
    (he : Definition.ofSource (Source.ofText (.ofPlace place) text) [] = .error e)
    {r : Except CompileError Imports} {s' : Loading}
    (hi : (resolveImports t (.ofPlace place) (Source.ofText (.ofPlace place) text).importTags []
      { s with route }).1 = (r, s')) :
    enterComponent t place route s =
      (r.bind fun _ => .error e, ⟨s'.registry, s.route⟩) := by
  have hopen := FileTree.openComponent_eq_ok.2 ⟨text, hr, rfl, hc⟩
  have hroute : s'.leave.route = s.route := by
    refine leave_route hn ?_
    have hkept := (resolveImports t (.ofPlace place) (Source.ofText (.ofPlace place) text).importTags
      [] { s with route }).2
    rwa [hi] at hkept
  have hleave : s'.leave = ⟨s'.registry, s.route⟩ := by
    rw [← hroute]
    rfl
  have hinside : (resolveImports t (Source.ofText (.ofPlace place) text).path
      (Source.ofText (.ofPlace place) text).importTags [] { s with route }).1 = (r, s') := hi
  unfold enterComponent
  simp only [hopen, hinside, ← hleave]
  cases r with
  | error e' => rfl
  | ok imports =>
    simp only
    rw [ofSource_withoutImports he]
    rfl

/-- A file that makes no component is never stored, and what was stored stays as it is. One with a tag
that may not stand at top level is refused for it and nothing is loaded; any other is refused for its
fault behind its imports, which are loaded, and not at all when one of these fails. -/
theorem loadComponent_of_rejected (hp : t.locate path = .ok place)
    (hi : s.route.contains importer = true) (hn : s.route.enter (.ofPlace place) = .ok route)
    (hg : s.registry.get? (.ofPlace place) = none) (hr : t.readAt place = .ok text)
    (he : Definition.ofSource (Source.ofText (.ofPlace place) text) [] = .error e)
    (ho : LoadOrdered s.registry.definitions) :
    let tags := (Source.ofText (.ofPlace place) text).importTags
    let inside := (resolveImports t (.ofPlace place) tags [] { s with route }).1
    let outcome := (loadComponent t importer line path s).1
    ((∃ tag, e.cause = .disallowedTopLevelTag tag) → outcome = (.error e, s)) ∧
    ((∀ tag, e.cause ≠ .disallowedTopLevelTag tag) →
      (∀ table, inside.1 = .ok table → outcome = (.error e, ⟨inside.2.registry, s.route⟩)) ∧
      (∀ e', inside.1 = .error e' → outcome =
        (.error (e'.withLocation importer (some line)), ⟨inside.2.registry, s.route⟩))) ∧
    (tags = [] → outcome = (.error e, s)) ∧
    s.registry.GrowsTo outcome.2.registry s.route ∧
    outcome.2.registry.get? (.ofPlace place) = none := by
  intro tags inside outcome
  have hload : outcome = ((enterComponent t place route s).1.mapError
      (·.withLocation importer (some line)), (enterComponent t place route s).2) := by
    change (loadComponent t importer line path s).1 = _
    rw [loadComponent_eq, hp]
    simp only [hn, hg]
  have hkept : e.withLocation importer (some line) = e := by
    obtain ⟨cause, n, -, rfl⟩ := Definition.ofSource_eq_error_iff.1 he
    exact CompileError.withLocation_of_elsewhere rfl (Route.not_same_of_enter hn hi) _
  have hdisallowed : (∃ tag, e.cause = .disallowedTopLevelTag tag) → outcome = (.error e, s) := by
    intro hd
    rw [hload, enterComponent_of_disallowed hr ((checkTopLevel_of_ofSource he).1 hd)]
    simp only [Except.mapError, hkept]
  have hother (hd : ∀ tag, e.cause ≠ .disallowedTopLevelTag tag) := enterComponent_of_rejected hn hr
    ((checkTopLevel_of_ofSource he).2 hd) he (show inside = (inside.1, inside.2) from rfl)
  have hdone (hd : ∀ tag, e.cause ≠ .disallowedTopLevelTag tag) (table : Imports)
      (ht : inside.1 = .ok table) : outcome = (.error e, ⟨inside.2.registry, s.route⟩) := by
    rw [hload, hother hd, ht]
    simp only [Except.bind, Except.mapError, hkept]
  refine ⟨hdisallowed, fun hd => ⟨hdone hd, fun e' ht => ?_⟩, fun hnone => ?_, ?_⟩
  · rw [hload, hother hd, ht]
    rfl
  · by_cases hd : ∃ tag, e.cause = .disallowedTopLevelTag tag
    · exact hdisallowed hd
    · have hempty : inside = (.ok [], { s with route }) := by
        change (resolveImports t (.ofPlace place) tags [] { s with route }).1 = _
        rw [hnone, resolveImports_nil]
      rw [hdone (by simpa using hd) [] (by rw [hempty]), hempty]
  · have hgrow : s.registry.GrowsTo outcome.2.registry route := by
      by_cases hd : ∃ tag, e.cause = .disallowedTopLevelTag tag
      · rw [hdisallowed hd]
        exact .refl ho route
      · rw [hload, hother (by simpa using hd)]
        exact (growsResolving t route (.ofPlace place) tags [] { s with route } rfl ho
          (List.forall_mem_nil _)).grows
    exact ⟨hgrow.leave hn, hgrow.get?_of_enter hn hg⟩

/-- A fault behind an import that loads: the import is stored, the file is not. -/
theorem loadComponent_of_reserved_behind_import :
    let t : FileTree := ⟨[([['b']], .file (.text
      "<import path=/c><template args=children />".toList) 0), ([['c']], .file (.text []) 0)], [], rfl⟩
    let start : Loading := ⟨.empty ⟨['/']⟩, .start ⟨['/', 'a']⟩⟩
    let c : Definition := ⟨⟨['/', 'c']⟩, [], none, [], [], []⟩
    (loadComponent t ⟨['/', 'a']⟩ 1 ⟨['/', 'b']⟩ start).1 =
      (.error ⟨.reservedArgument, ⟨some ⟨['/', 'b']⟩, some 1⟩⟩,
        ⟨⟨⟨['/']⟩, [(c.path, c)]⟩, start.route⟩) := by
  intro t start c
  let route : Route := { paths := [⟨['/', 'a']⟩, ⟨['/', 'b']⟩], distinct := by decide }
  have hr : t.readAt [['b']] = .ok "<import path=/c><template args=children />".toList := by rfl
  have he : Definition.ofSource (Source.ofText (.ofPlace [['b']])
      "<import path=/c><template args=children />".toList) [] =
      .error ⟨.reservedArgument, ⟨some ⟨['/', 'b']⟩, some 1⟩⟩ := by cbv
  have hin : (resolveImports t (.ofPlace [['b']]) (Source.ofText (.ofPlace [['b']])
      "<import path=/c><template args=children />".toList).importTags [] { start with route }).1 =
      (.ok [(['c'], c)], ⟨⟨⟨['/']⟩, [(c.path, c)]⟩, route⟩) := by cbv
  have h := @loadComponent_of_rejected t ⟨['/', 'a']⟩ ⟨['/', 'b']⟩ 1 start [['b']] route _ _
    (by cbv) (by cbv) (by cbv) (by cbv) hr he .nil
  have hloaded := (h.2.1 (by simp)).1 [(['c'], c)] (by rw [hin])
  rw [hin] at hloaded
  exact hloaded

/-- A fault behind an import that fails: the import's error is told in its place. -/
theorem loadComponent_of_reserved_behind_broken_import :
    let text := "<import path=/n><template args=children />".toList
    let t : FileTree := ⟨[([['b']], .file (.text text) 0)], [], rfl⟩
    let start : Loading := ⟨.empty ⟨['/']⟩, .start ⟨['/', 'a']⟩⟩
    Definition.ofSource (Source.ofText ⟨['/', 'b']⟩ text) [] =
        .error ⟨.reservedArgument, ⟨some ⟨['/', 'b']⟩, some 1⟩⟩ ∧
      (loadComponent t ⟨['/', 'a']⟩ 1 ⟨['/', 'b']⟩ start).1 =
        (.error ⟨.importedFileNotFound ⟨['/', 'n']⟩, ⟨some ⟨['/', 'b']⟩, some 1⟩⟩, start) := by
  intro text t start
  constructor
  · unfold text
    cbv
  · unfold start t text
    cbv

end Rejected

end ComponentMarkup
