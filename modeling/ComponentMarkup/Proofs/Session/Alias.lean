import ComponentMarkup.Proofs.Markup.Openings
import ComponentMarkup.Proofs.Session.Blame
import ComponentMarkup.Proofs.Session.Configuration
import ComponentMarkup.Proofs.Text.LowerCase

/-!
Aliases as tags. Main statement: `compileSource_alias`. The name of an import is lowered over Unicode and
that of a tag over ASCII, so an alias works as a tag if both give the same.
-/

set_option autoImplicit false

namespace ComponentMarkup

variable {t : FileTree} {file : Path} {table table' : Imports} {s s' : Loading}

theorem find?_of_resolveImports {tags : List Element}
    (h : (resolveImports t file tags table s).1 = (.ok table', s')) {n : List Char}
    {d : Definition} (hd : table.find? n = some d) : table'.find? n = some d := by
  induction tags generalizing table s with
  | nil =>
    rw [resolveImports_nil] at h
    cases h
    exact hd
  | cons e es ih =>
    obtain ⟨name, path, d', s₁, htarget, -, hrest⟩ := resolveImports_cons_eq_ok.1 h
    obtain ⟨-, hnew, -⟩ := importTarget_eq_ok.1 htarget
    refine ih hrest ?_
    rw [Imports.find?_insert, if_neg ?_, hd]
    rintro rfl
    rw [hd] at hnew
    cases hnew

theorem lowercase_of_resolveImports {tags : List Element}
    (h : (resolveImports t file tags table s).1 = (.ok table', s')) {n : List Char}
    (hn : table'.find? n ≠ none) : table.find? n ≠ none ∨ ∃ x, n = lowercase x := by
  induction tags generalizing table s with
  | nil =>
    rw [resolveImports_nil] at h
    cases h
    exact .inl hn
  | cons e es ih =>
    obtain ⟨name, path, d, s₁, htarget, -, hrest⟩ := resolveImports_cons_eq_ok.1 h
    obtain ⟨halias, -, -⟩ := importTarget_eq_ok.1 htarget
    obtain ⟨relative, -, hname⟩ := Option.map_eq_some_iff.1 halias
    rcases ih hrest with hb | hx
    · rw [Imports.find?_insert] at hb
      split at hb
      · rename_i he
        exact .inr ⟨_, he.trans hname.symm⟩
      · exact .inl hb
    · exact .inr hx

theorem includeDir_of_resolveImports {tags : List Element}
    (h : (resolveImports t file tags table s).1 = (.ok table', s')) :
    s'.registry.includeDir = s.registry.includeDir := by
  have hinsert : ∀ (r : Registry) (d : Definition), r.includeDir = s.registry.includeDir →
      (r.insert d).includeDir = s.registry.includeDir := fun _ _ hr => hr
  have hkept := keptResolving t hinsert s.route file tags table s rfl rfl
  rwa [h] at hkept

theorem importAlias?_of_alias {dir : Path} {tag : Tag} {name a : List Char}
    (h : importAlias? dir tag = some name) (ha : tag.attr? "alias".toList = some a) :
    name = lowercase a := by
  obtain ⟨relative, -, rfl⟩ := Option.map_eq_some_iff.1 h
  rw [ha, Option.getD_some]

/-- A resolved import: under its alias, a table has the component of the file that it leads to. -/
structure Tag.Brings (tag : Tag) (t : FileTree) (r : Registry) (table : Imports) (place : Place)
    (d : Definition) : Prop where
  leads : t.importedPlace? r.includeDir tag = some place
  path : d.path = .ofPlace place
  stored : d.StoredIn r
  known : ∃ name, importAlias? r.includeDir tag = some name ∧ table.find? name = some d

theorem resolveImports_brings {tags : List Element} (ho : LoadOrdered s.registry.definitions)
    (htable : table.StoredIn s.registry)
    (h : (resolveImports t file tags table s).1 = (.ok table', s')) :
    ∀ e ∈ tags, ∃ place d, e.tag.Brings t s'.registry table' place d := by
  induction tags generalizing table s with
  | nil => simp
  | cons e es ih =>
    obtain ⟨name, path, d, s₁, htarget, hload, hrest⟩ := resolveImports_cons_eq_ok.1 h
    obtain ⟨halias, -, relative, hrelative, rfl⟩ := importTarget_eq_ok.1 htarget
    obtain ⟨place, hplace, hpath⟩ := path_of_loadComponent ho hload
    have hload' := grows_loadComponent file e.tag.line (s.registry.resolvePath relative) (t := t) ho
      fun _ _ inner _ _ => growsResolving t inner
    rw [hload] at hload'
    obtain ⟨hgrow, hstored⟩ := hload'
    have htable₁ := (htable.mono hgrow).insert name (hstored d rfl)
    refine List.forall_mem_cons.2 ⟨⟨place, d, ?_⟩, ih hgrow.ordered htable₁ hrest⟩
    have hgrow' := (growsResolving t s₁.route file es _ s₁ rfl hgrow.ordered htable₁).grows
    rw [hrest] at hgrow'
    rw [← includeDir_of_resolveImports h] at halias
    refine ⟨?_, hpath, hgrow'.mem (hstored d rfl), name, halias, find?_of_resolveImports hrest ?_⟩
    · rw [includeDir_of_resolveImports h]
      exact importedPlace?_eq_some.2 ⟨relative, hrelative, hplace⟩
    · rw [Imports.find?_insert, if_pos rfl]

/-- Expands nodes from within, given what an element stands for whose children are expanded. -/
def expandWith (stand : Tag → List Node → Expansion (List Node)) : List Node → Expansion (List Node)
  | [] => pure []
  | .element tag children :: rest => do
    let children ← expandWith stand children
    let output ← stand tag children
    let rest ← expandWith stand rest
    return output ++ rest
  | n :: rest => do
    let rest ← expandWith stand rest
    return n :: rest

theorem expandWith_stand (imports : Imports) (file : Path) (nodes : List Node) :
    expandWith (imports.stand file) nodes = expand imports file nodes := by
  induction nodes using nodes_induction with
  | nil => rw [expandWith, expand_nil]
  | element tag children rest hc hr => rw [expandWith, expand_element, hc, hr]
  | text chars rest hr => rw [expandWith, expand_other _ _ rfl, hr]; simp
  | comment body rest hr => rw [expandWith, expand_other _ _ rfl, hr]; simp
  | doctype body rest hr => rw [expandWith, expand_other _ _ rfl, hr]; simp

theorem Imports.stand_named (imports : Imports) (file : Path) {name : List Char}
    {own : Tag → List Node → Expansion (List Node)}
    (h : ∀ tag children, tag.name = name → imports.stand file tag children = own tag children) :
    imports.stand file = fun tag children =>
      if tag.name = name then own tag children else imports.stand file tag children := by
  funext tag children
  split
  · rename_i hn
    exact h tag children hn
  · rfl

/-- The tag is written with this name, letter for letter, and with no longer one. -/
def Opening.SpelledAs (o : Opening) (a : List Char) : Prop :=
  ∃ inside, o.own = '<' :: (a ++ inside) ∧ o.tag.name.length = a.length

theorem Opening.SpelledAs.name_eq {o : Opening} {source a : List Char} (h : o.SpelledAs a)
    (ho : o.In source) : o.tag.name = lowerAscii a := by
  obtain ⟨inside, hown, hlength⟩ := h
  obtain ⟨-, -, name, inside', hname, ⟨written, rfl, hwritten⟩, -⟩ := ho
  rw [hown, List.cons_append, List.cons.injEq] at hname
  rw [← hwritten, length_lowerAscii] at hlength
  obtain ⟨rfl, -⟩ := List.append_inj hname.2 hlength.symm
  exact hwritten.symm

theorem Session.run_compileSource {s : Session} {source : Source} {loading : Loading}
    (h : (resolveImports t source.path source.importTags []
      ⟨s.registry, .start source.path⟩).1 = (.ok table, loading)) :
    (s.compileSource t source).1 =
      ((expand table source.path source.withoutImports.nodes).run s.next).1 := by
  have htags : takeElements importName source.nodes =
      (source.withoutImports.nodes, source.importTags) := rfl
  unfold compileSource
  rw [htags]
  simp only [h]
  rfl

/-- Whatever a session was asked for before and whatever a page imports under an alias: elements written
with the alias as their tag are used as the component that the import leads to, if no character of the
alias beyond ASCII has a lower-case form other than itself; and if one has, they are left as they are. -/
theorem compileSource_alias {s : Session} {options : CompileOptions} {steps : List SessionStep}
    {text a : List Char} {e : Element} {loading : Loading}
    (hs : s = (Session.start options).after steps)
    (hr : (resolveImports t file (Source.ofText file text).importTags []
      ⟨s.registry, .start file⟩).1 = (.ok table, loading))
    (he : e ∈ (Source.ofText file text).importTags) (ha : e.tag.attr? "alias".toList = some a) :
    let page := (Source.ofText file text).withoutImports.nodes
    let outcome := (s.compileSource t (Source.ofText file text)).1
    (∀ tag ∈ tags page, ∃ o : Opening, o.In text ∧ o.tag = tag) ∧
    (∀ o : Opening, o.In text → o.SpelledAs a → o.tag.name = lowerAscii a) ∧
    ∃ place d, t.importedPlace? s.registry.includeDir e.tag = some place ∧
      d.path = .ofPlace place ∧ loading.registry.get? d.path = some d ∧
      table.find? (lowercase a) = some d ∧
      (OnlyAsciiCase a → outcome = ((expandWith (fun tag children =>
        if tag.name = lowerAscii a then d.use file tag children
        else table.stand file tag children) page).run s.next).1) ∧
      (¬OnlyAsciiCase a → outcome = ((expandWith (fun tag children =>
        if tag.name = lowerAscii a then pure [.element tag children]
        else table.stand file tag children) page).run s.next).1) := by
  intro page outcome
  have ho : LoadOrdered s.registry.definitions := hs ▸ Session.ordered_after .nil steps
  refine ⟨fun tag hm => ?_, fun o hin hspelled => hspelled.name_eq hin, ?_⟩
  · obtain ⟨openings, htags, hopenings, -⟩ := openings_parse text
    have hwritten := tags_takeElements_subset importName (parse text) tag hm
    rw [← htags] at hwritten
    obtain ⟨o, ho, rfl⟩ := List.mem_map.1 hwritten
    exact ⟨o, hopenings o ho, rfl⟩
  have hempty : Imports.StoredIn [] s.registry := List.forall_mem_nil _
  obtain ⟨place, d, hleads, hpath, hstored, name, halias, hknown⟩ :=
    resolveImports_brings ho hempty hr e he
  rw [importAlias?_of_alias halias ha] at hknown
  have hrun : outcome = ((expandWith (table.stand file) page).run s.next).1 := by
    rw [expandWith_stand]
    exact Session.run_compileSource hr
  have hordered : LoadOrdered loading.registry.definitions := by
    have hgrow := (growsResolving t (.start file) file (Source.ofText file text).importTags []
      ⟨s.registry, .start file⟩ rfl ho hempty).grows.ordered
    rwa [hr] at hgrow
  refine ⟨place, d, ?_, hpath, ?_, hknown, fun hcase => ?_, fun hcase => ?_⟩
  · rw [← includeDir_of_resolveImports hr]
    exact hleads
  · rw [Registry.get?, hordered.find hstored]
    rfl
  · have hown : ∀ tag children, tag.name = lowerAscii a →
        table.stand file tag children = d.use file tag children := by
      intro tag children hn
      rw [lowercase_of_onlyAsciiCase hcase] at hknown
      unfold Imports.stand
      rw [hn, hknown]
    exact hrun.trans (congrArg (fun stand => ((expandWith stand page).run s.next).1)
      (table.stand_named file hown))
  · have hunknown : table.find? (lowerAscii a) = none := by
      by_contra hfound
      rcases lowercase_of_resolveImports hr hfound with hfound | ⟨x, hx⟩
      · exact hfound rfl
      · exact lowercase_ne_lowerAscii hcase x hx.symm
    have hown : ∀ tag children, tag.name = lowerAscii a →
        table.stand file tag children = pure [.element tag children] := by
      intro tag children hn
      unfold Imports.stand
      rw [hn, hunknown]
    exact hrun.trans (congrArg (fun stand => ((expandWith stand page).run s.next).1)
      (table.stand_named file hown))

/-- A page that knows a component without content by an alias with a capital letter. -/
theorem compileSource_alias_capital :
    let t : FileTree := ⟨[([['c']], .file (.text "<template/>".toList) 0)], [], rfl⟩
    let source := Source.ofText ⟨['/', 'p']⟩ "<import path=/c alias=aB><aB/>".toList
    ((Session.start .standard).compileSource t source).1 = .ok [] := by
  intro t source
  let d : Definition := ⟨⟨['/', 'c']⟩, [], some ⟨⟨templateName, [], 1⟩, []⟩, [], [], []⟩
  let e : Element := ⟨⟨importName,
    [⟨"path".toList, some "/c".toList⟩, ⟨"alias".toList, some "aB".toList⟩], 1⟩, []⟩
  have hr : (resolveImports t ⟨['/', 'p']⟩ source.importTags []
      ⟨(Session.start .standard).registry, .start ⟨['/', 'p']⟩⟩).1 =
      (.ok [(['a', 'b'], d)],
        ⟨⟨CompileOptions.standard.includeDir, [(d.path, d)]⟩, .start ⟨['/', 'p']⟩⟩) := by
    unfold source t d
    cbv
  have he : e ∈ source.importTags := by
    have htags : source.importTags = [e] := by
      unfold source e
      cbv
    rw [htags]
    exact List.mem_cons_self
  have hpage : source.withoutImports.nodes = [.element ⟨['a', 'b'], [], 1⟩ []] := by
    unfold source
    cbv
  have ha : e.tag.attr? "alias".toList = some ['a', 'B'] := by cbv
  have hs : Session.start .standard = (Session.start .standard).after [] := rfl
  obtain ⟨-, -, place, d', -, -, -, hknown, hused, -⟩ := compileSource_alias hs hr he ha
  obtain rfl : d = d' := Option.some.inj (.trans (by cbv) hknown)
  rw [hused (by decide +kernel), hpage]
  unfold d
  cbv

/-- The same with an accented capital, whose lower-case form no tag can have: the tag is left, though
what it stands for is nothing. -/
theorem compileSource_alias_accented :
    let t : FileTree := ⟨[([['c']], .file (.text "<template/>".toList) 0)], [], rfl⟩
    let a := "aÉ".toList
    let source := Source.ofText ⟨['/', 'p']⟩
      ("<import path=/c alias=".toList ++ a ++ "><".toList ++ a ++ "/>".toList)
    let d : Definition := ⟨⟨['/', 'c']⟩, [], some ⟨⟨templateName, [], 1⟩, []⟩, [], [], []⟩
    startsWithLetter a ∧ a.all isTagNameChar ∧ lowerAscii a ≠ importName ∧
    source.importTags.map (·.tag.attr? "alias".toList) = [some a] ∧
    (resolveImports t ⟨['/', 'p']⟩ source.importTags []
      ⟨(Session.start .standard).registry, .start ⟨['/', 'p']⟩⟩).1.1 = .ok [(lowercase a, d)] ∧
    ((Session.start .standard).compileSource t source).1 = .ok [.element ⟨a, [], 1⟩ []] ∧
    ((d.use ⟨['/', 'p']⟩ ⟨a, [], 1⟩ []).run 0).1 = .ok [] := by
  intro t a source d
  refine ⟨by decide, by decide, by decide, ?_, ?_, ?_, ?_⟩
  · unfold source a
    cbv
  · unfold source a t d
    cbv
  · unfold source a t
    cbv
  · unfold d a
    cbv

end ComponentMarkup
