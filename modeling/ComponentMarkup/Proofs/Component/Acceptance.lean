import ComponentMarkup.Proofs.Component.Refusal
import Mathlib.Data.List.Forall2

set_option autoImplicit false

namespace ComponentMarkup

def Tag.MayStandAtTop (tag : Tag) : Prop :=
  tag.name ∈ ["template", "style", "script", "scripts", "import"].map String.toList

def tagsNamed (names : List String) (heads : List Tag) : List Tag :=
  heads.filter fun tag => tag.name ∈ names.map String.toList

def Tag.declarations (tag : Tag) : List (List Char) :=
  words ((tag.attr? "args".toList).getD [])

def Tag.DeclaresReserved (tag : Tag) : Prop :=
  "children".toList ∈ tag.declarations ∨ "?children".toList ∈ tag.declarations

/-- What a file must have for its arguments to be read. -/
structure TemplateReads (heads : List Tag) : Prop where
  allowed : ∀ tag ∈ heads, tag.MayStandAtTop
  single : (tagsNamed ["template"] heads).length ≤ 1
  unreserved : ∀ tag ∈ tagsNamed ["template"] heads, ¬tag.DeclaresReserved

structure Acceptable (heads : List Tag) : Prop extends TemplateReads heads where
  scripts : (tagsNamed ["script", "scripts"] heads).length ≤ 1
  styles : (tagsNamed ["style"] heads).length ≤ 1

/-- The fault that is told, with its line. A kind of fault counts when there is none of the kinds
before it. -/
inductive FirstFault (heads : List Tag) : Cause → Option Nat → Prop
  | disallowed {before after : List Tag} {tag : Tag} : heads = before ++ tag :: after →
      (∀ t ∈ before, t.MayStandAtTop) → ¬tag.MayStandAtTop →
      FirstFault heads (.disallowedTopLevelTag tag.name) (some tag.line)
  | templates {tag : Tag} {more : List Tag} : (∀ t ∈ heads, t.MayStandAtTop) →
      tagsNamed ["template"] heads = tag :: more → more ≠ [] →
      FirstFault heads (.multipleTopLevelTags tag.name ((tag :: more).map Tag.line)) none
  | reserved {tag : Tag} : (∀ t ∈ heads, t.MayStandAtTop) →
      tagsNamed ["template"] heads = [tag] → tag.DeclaresReserved →
      FirstFault heads .reservedArgument (some tag.line)
  | scripts {tag : Tag} {more : List Tag} : TemplateReads heads →
      tagsNamed ["script", "scripts"] heads = tag :: more → more ≠ [] →
      FirstFault heads (.multipleTopLevelTags tag.name ((tag :: more).map Tag.line)) none
  | styles {tag : Tag} {more : List Tag} : TemplateReads heads →
      (tagsNamed ["script", "scripts"] heads).length ≤ 1 →
      tagsNamed ["style"] heads = tag :: more → more ≠ [] →
      FirstFault heads (.multipleTopLevelTags tag.name ((tag :: more).map Tag.line)) none

structure Parameter.DeclaredBy (declaration : List Char) (p : Parameter) : Prop where
  spelled : declaration = if p.optional then '?' :: p.name else p.name
  required : p.optional = false → p.name.head? ≠ some '?'
  byDefault : p.byDefault = none

/-- The parameters that are declared by the templates among these tags; of those with one name the
first. -/
def Declared (heads : List Tag) (ps : List Parameter) : Prop :=
  ∃ all, List.Forall₂ Parameter.DeclaredBy
      ((tagsNamed ["template"] heads).flatMap Tag.declarations) all ∧
    ps = all.eraseDupsBy fun p q => p.name == q.name

theorem Parameter.declaredBy_ofDeclaration (declaration : List Char) :
    DeclaredBy declaration (ofDeclaration declaration) := by
  unfold ofDeclaration
  split
  · exact ⟨rfl, nofun, rfl⟩
  · rename_i hne
    refine ⟨rfl, fun _ hhead => ?_, rfl⟩
    obtain ⟨name, hname⟩ := List.head?_eq_some_iff.1 hhead
    exact hne name hname

theorem Parameter.name_ofDeclaration_eq_iff (declaration : List Char) :
    (ofDeclaration declaration).name = childrenName ↔
      declaration = "children".toList ∨ declaration = "?children".toList := by
  unfold ofDeclaration
  split
  · rename_i name
    change name = "children".toList ↔ _
    simp
  · rename_i hne
    change declaration = "children".toList ↔ _
    refine ⟨.inl, fun h => h.resolve_right fun hq => ?_⟩
    exact hne _ hq

theorem mem_topLevelNames_iff (tag : Tag) :
    topLevelNames.contains tag.name = true ↔ tag.MayStandAtTop :=
  List.contains_iff_mem

theorem scriptNames_eq : scriptNames = ["script", "scripts"].map String.toList := rfl

theorem styleNames_eq : styleNames = ["style"].map String.toList := rfl

theorem find?_disallowed {heads before after : List Tag} {tag : Tag}
    (hs : heads = before ++ tag :: after) (hb : ∀ t ∈ before, t.MayStandAtTop)
    (ht : ¬tag.MayStandAtTop) : heads.find? (!topLevelNames.contains ·.name) = some tag := by
  rw [List.find?_eq_some_iff_append]
  refine ⟨?_, before, after, hs, fun t hm => ?_⟩
  · rw [← mem_topLevelNames_iff] at ht
    simpa using ht
  · simpa using (mem_topLevelNames_iff t).2 (hb t hm)

theorem tagsNamed_eq (names : List String) (heads : List Tag) :
    heads.filter ((names.map String.toList).contains ·.name) = tagsNamed names heads := by
  simp only [tagsNamed, List.contains_eq_mem]

namespace Source

variable {s : Source}

theorem filter_elements (s : Source) (names : List String) :
    ((elements s.nodes).filter ((names.map String.toList).contains ·.tag.name)).map Element.tag =
      tagsNamed names (topTags s.nodes) := by
  rw [← tagsNamed_eq, topTags, List.filter_map]
  rfl

theorem checkTopLevel_of_allowed (h : ∀ tag ∈ topTags s.nodes, tag.MayStandAtTop) :
    s.checkTopLevel = .ok () := by
  have hnone : (elements s.nodes).find? (!topLevelNames.contains ·.tag.name) = none := by
    refine List.find?_eq_none.2 fun e he => ?_
    have := (mem_topLevelNames_iff e.tag).2 (h e.tag (List.mem_map_of_mem he))
    simp only [this, Bool.not_true, Bool.false_eq_true, not_false_eq_true]
  unfold checkTopLevel
  rw [hnone]

theorem checkTopLevel_of_disallowed {before after : List Tag} {tag : Tag}
    (hs : topTags s.nodes = before ++ tag :: after) (hb : ∀ t ∈ before, t.MayStandAtTop)
    (ht : ¬tag.MayStandAtTop) :
    s.checkTopLevel = .error ⟨.disallowedTopLevelTag tag.name, ⟨some s.path, some tag.line⟩⟩ := by
  have hfind := find?_disallowed hs hb ht
  rw [topTags, List.find?_map, Option.map_eq_some_iff] at hfind
  obtain ⟨e, he, rfl⟩ := hfind
  rw [Function.comp_def] at he
  unfold checkTopLevel
  rw [he]
  rfl

theorem pickSingle_of_few {names : List String}
    (h : (tagsNamed names (topTags s.nodes)).length ≤ 1) :
    ∃ found, s.pickSingle (names.map String.toList) = .ok found ∧
      tagsNamed names (topTags s.nodes) = (found.map Element.tag).toList := by
  rw [← filter_elements] at h ⊢
  unfold pickSingle
  split
  · rename_i hnone
    exact ⟨none, rfl, by rw [hnone]; rfl⟩
  · rename_i e hone
    exact ⟨some e, rfl, by rw [hone]; rfl⟩
  · rename_i e es hes hmany
    rw [hmany] at h
    simp only [List.map_cons, List.length_cons, List.length_map] at h
    exact absurd (List.length_eq_zero_iff.1 (by omega)) hes

theorem pickSingle_of_many {names : List String} {tag : Tag} {more : List Tag}
    (h : tagsNamed names (topTags s.nodes) = tag :: more) (hm : more ≠ []) :
    s.pickSingle (names.map String.toList) =
      .error ⟨.multipleTopLevelTags tag.name ((tag :: more).map Tag.line), ⟨some s.path, none⟩⟩ := by
  rw [← filter_elements] at h
  unfold pickSingle
  split
  · rename_i hnone
    rw [hnone] at h
    cases h
  · rename_i e hone
    rw [hone] at h
    cases h
    exact absurd rfl hm
  · rename_i e es _ hmany
    rw [hmany, List.map_cons] at h
    cases h
    simp only [List.map_cons, List.map_map]
    rfl

end Source

theorem readDeclarations_of_unreserved {declarations : List (List Char)}
    (h : ∀ d ∈ declarations, (Parameter.ofDeclaration d).name ≠ childrenName)
    (found : List Parameter) :
    readDeclarations found declarations = .ok (found ++
      ((declarations.map Parameter.ofDeclaration).filter
        fun p => !found.any (·.name == p.name)).eraseDupsBy fun p q => p.name == q.name) := by
  induction declarations generalizing found with
  | nil => simp [readDeclarations]
  | cons d declarations ih =>
    obtain ⟨hd, h⟩ := List.forall_mem_cons.1 h
    rw [readDeclarations, if_neg hd, ih h, List.map_cons]
    by_cases hknown : found.any (·.name == (Parameter.ofDeclaration d).name) = true
    · rw [if_pos hknown, List.filter_cons_of_neg (by simpa using hknown)]
    · rw [if_neg hknown, List.filter_cons_of_pos (by simpa using hknown), List.eraseDupsBy_cons,
        List.filter_filter, List.append_assoc, List.singleton_append]
      -- a name is new behind both when it is not the new one and was new before it
      congr 4
      refine List.filter_congr fun p _ => ?_
      by_cases hp : p.name = (Parameter.ofDeclaration d).name
      · simp [hp]
      · simp [hp, Ne.symm hp]

theorem readDeclarations_of_reserved {declarations : List (List Char)}
    (h : ∃ d ∈ declarations, (Parameter.ofDeclaration d).name = childrenName)
    (found : List Parameter) :
    readDeclarations found declarations = .error .reservedArgument := by
  induction declarations generalizing found with
  | nil =>
    obtain ⟨d, hd, -⟩ := h
    cases hd
  | cons d declarations ih =>
    rw [readDeclarations]
    split
    · rfl
    · rename_i hd
      obtain ⟨d', hm, hd'⟩ := h
      rcases List.mem_cons.1 hm with rfl | hm
      · exact absurd hd' hd
      · exact ih ⟨d', hm, hd'⟩ _

theorem Tag.declaresReserved_iff (tag : Tag) :
    tag.DeclaresReserved ↔
      ∃ d ∈ tag.declarations, (Parameter.ofDeclaration d).name = childrenName := by
  simp only [Parameter.name_ofDeclaration_eq_iff]
  constructor
  · rintro (h | h)
    · exact ⟨_, h, .inl rfl⟩
    · exact ⟨_, h, .inr rfl⟩
  · rintro ⟨d, hd, rfl | rfl⟩
    · exact .inl hd
    · exact .inr hd

theorem Tag.not_declaresReserved_iff (tag : Tag) :
    ¬tag.DeclaresReserved ↔
      ∀ d ∈ tag.declarations, (Parameter.ofDeclaration d).name ≠ childrenName := by
  rw [Tag.declaresReserved_iff]
  simp only [not_exists, not_and, ne_eq]

theorem readParameters_of_reserved {tag : Tag} (h : tag.DeclaresReserved) (path : Path) :
    readParameters tag path = .error ⟨.reservedArgument, ⟨some path, some tag.line⟩⟩ := by
  have hr := readDeclarations_of_reserved (tag.declaresReserved_iff.1 h) []
  unfold Tag.declarations at hr
  unfold readParameters
  rw [hr]
  rfl

theorem readParameters_of_unreserved {tag : Tag} (h : ¬tag.DeclaresReserved) (path : Path) :
    readParameters tag path = .ok ((tag.declarations.map Parameter.ofDeclaration).eraseDupsBy
      fun p q => p.name == q.name) := by
  have hr := readDeclarations_of_unreserved (tag.not_declaresReserved_iff.1 h) []
  unfold Tag.declarations at hr ⊢
  unfold readParameters
  rw [hr]
  simp only [List.any_nil, Bool.not_false, List.filter_true, List.nil_append]

def Source.readTemplate (s : Source) (template : Option Element) :
    Except CompileError (List Parameter) :=
  match template with
  | none => .ok []
  | some t => readParameters t.tag s.path

theorem Source.readTemplate_declared {s : Source} {template : Option Element}
    (ht : tagsNamed ["template"] (topTags s.nodes) = (template.map Element.tag).toList)
    (hu : ∀ tag ∈ tagsNamed ["template"] (topTags s.nodes), ¬tag.DeclaresReserved) :
    ∃ ps, s.readTemplate template = .ok ps ∧ Declared (topTags s.nodes) ps := by
  unfold Declared
  rw [ht] at hu ⊢
  cases template with
  | none => exact ⟨[], rfl, [], .nil, rfl⟩
  | some t =>
    refine ⟨_, readParameters_of_unreserved (hu t.tag List.mem_cons_self) s.path, _, ?_, rfl⟩
    simp only [Option.map_some, Option.toList_some, List.flatMap_singleton]
    exact List.forall₂_map_right_iff.2
      (List.forall₂_same.2 fun d _ => Parameter.declaredBy_ofDeclaration d)

namespace Definition

variable {s : Source} {imports : Imports}

theorem ofSource_of_template {template : Option Element} (hc : s.checkTopLevel = .ok ())
    (ht : s.pickSingle [templateName] = .ok template) :
    ofSource s imports = do
      let parameters ← s.readTemplate template
      let script ← s.pickSingle scriptNames
      let style ← s.pickSingle styleNames
      return {
        path := s.path
        imports
        template
        parameters
        script := (script.map Element.innerText).getD []
        stylesheet := (style.map Element.innerText).getD [] } := by
  unfold ofSource
  rw [hc, ht]
  cases template <;> rfl

theorem ofSource_of_templateReads (h : TemplateReads (topTags s.nodes)) (imports : Imports) :
    ∃ template ps, Declared (topTags s.nodes) ps ∧ ofSource s imports = do
      let script ← s.pickSingle scriptNames
      let style ← s.pickSingle styleNames
      return {
        path := s.path
        imports
        template
        parameters := ps
        script := (script.map Element.innerText).getD []
        stylesheet := (style.map Element.innerText).getD [] } := by
  obtain ⟨template, hpick, ht⟩ := Source.pickSingle_of_few h.single
  obtain ⟨ps, hps, hd⟩ := Source.readTemplate_declared ht h.unreserved
  refine ⟨template, ps, hd, ?_⟩
  rw [ofSource_of_template (Source.checkTopLevel_of_allowed h.allowed) hpick, hps]
  rfl

theorem ofSource_of_acceptable (h : Acceptable (topTags s.nodes)) (imports : Imports) :
    ∃ d, ofSource s imports = .ok d ∧ Declared (topTags s.nodes) d.parameters := by
  obtain ⟨template, ps, hd, hof⟩ := ofSource_of_templateReads h.toTemplateReads imports
  obtain ⟨script, hscript, -⟩ := Source.pickSingle_of_few h.scripts
  obtain ⟨style, hstyle, -⟩ := Source.pickSingle_of_few h.styles
  rw [hof, scriptNames_eq, hscript, styleNames_eq, hstyle]
  exact ⟨_, rfl, hd⟩

theorem ofSource_of_firstFault {cause : Cause} {line : Option Nat}
    (h : FirstFault (topTags s.nodes) cause line) (imports : Imports) :
    ofSource s imports = .error ⟨cause, ⟨some s.path, line⟩⟩ := by
  cases h with
  | disallowed hs hb ht =>
    unfold ofSource
    rw [Source.checkTopLevel_of_disallowed hs hb ht]
    rfl
  | templates ha ht hm =>
    unfold ofSource
    rw [Source.checkTopLevel_of_allowed ha, show [templateName] = ["template"].map String.toList
      from rfl, Source.pickSingle_of_many ht hm]
    rfl
  | @reserved tag ha ht hr =>
    have hfew : (tagsNamed ["template"] (topTags s.nodes)).length ≤ 1 := by simp [ht]
    obtain ⟨template, hpick, hpicked⟩ := Source.pickSingle_of_few hfew
    obtain ⟨t, rfl, rfl⟩ : ∃ t, template = some t ∧ t.tag = tag := by
      rw [ht] at hpicked
      cases template with
      | none => cases hpicked
      | some t =>
        cases hpicked
        exact ⟨t, rfl, rfl⟩
    rw [ofSource_of_template (Source.checkTopLevel_of_allowed ha) hpick]
    change (readParameters t.tag s.path >>= _) = _
    rw [readParameters_of_reserved hr]
    rfl
  | scripts hreads hs hm =>
    obtain ⟨template, ps, -, hof⟩ := ofSource_of_templateReads hreads imports
    rw [hof, scriptNames_eq, Source.pickSingle_of_many hs hm]
    rfl
  | styles hreads hfew hs hm =>
    obtain ⟨template, ps, -, hof⟩ := ofSource_of_templateReads hreads imports
    obtain ⟨script, hscript, -⟩ := Source.pickSingle_of_few hfew
    rw [hof, scriptNames_eq, hscript, styleNames_eq, Source.pickSingle_of_many hs hm]
    rfl

end Definition

theorem few_or_many {α : Type} (l : List α) :
    l.length ≤ 1 ∨ ∃ a more, l = a :: more ∧ more ≠ [] := by
  match l with
  | [] => exact .inl (Nat.zero_le 1)
  | [_] => exact .inl (Nat.le_refl 1)
  | a :: b :: more => exact .inr ⟨a, b :: more, rfl, List.cons_ne_nil _ _⟩

theorem first_disallowed (heads : List Tag) (h : ¬∀ tag ∈ heads, tag.MayStandAtTop) :
    ∃ before tag after, heads = before ++ tag :: after ∧ (∀ t ∈ before, t.MayStandAtTop) ∧
      ¬tag.MayStandAtTop := by
  induction heads with
  | nil => exact absurd (List.forall_mem_nil _) h
  | cons head heads ih =>
    by_cases hhead : head.MayStandAtTop
    · obtain ⟨before, tag, after, rfl, hb, ht⟩ := ih fun hall =>
        h (List.forall_mem_cons.2 ⟨hhead, hall⟩)
      exact ⟨head :: before, tag, after, rfl, List.forall_mem_cons.2 ⟨hhead, hb⟩, ht⟩
    · exact ⟨[], head, heads, rfl, List.forall_mem_nil _, hhead⟩

theorem acceptable_or_firstFault (heads : List Tag) :
    Acceptable heads ∨ ∃ cause line, FirstFault heads cause line := by
  by_cases ha : ∀ tag ∈ heads, tag.MayStandAtTop
  swap
  · obtain ⟨before, tag, after, hs, hb, ht⟩ := first_disallowed heads ha
    exact .inr ⟨_, _, .disallowed hs hb ht⟩
  rcases few_or_many (tagsNamed ["template"] heads) with hone | ⟨tag, more, hs, hm⟩
  swap
  · exact .inr ⟨_, _, .templates ha hs hm⟩
  by_cases hu : ∀ tag ∈ tagsNamed ["template"] heads, ¬tag.DeclaresReserved
  swap
  · push Not at hu
    obtain ⟨tag, hmem, hr⟩ := hu
    have hs : tagsNamed ["template"] heads = [tag] := by
      obtain ⟨only, honly⟩ := List.length_eq_one_iff.1
        (Nat.le_antisymm hone (List.length_pos_of_mem hmem))
      rw [honly, List.mem_singleton] at hmem
      rw [honly, hmem]
    exact .inr ⟨_, _, .reserved ha hs hr⟩
  have hreads : TemplateReads heads := ⟨ha, hone, hu⟩
  rcases few_or_many (tagsNamed ["script", "scripts"] heads) with hscripts | ⟨tag, more, hs, hm⟩
  swap
  · exact .inr ⟨_, _, .scripts hreads hs hm⟩
  rcases few_or_many (tagsNamed ["style"] heads) with hstyles | ⟨tag, more, hs, hm⟩
  · exact .inl { toTemplateReads := hreads, scripts := hscripts, styles := hstyles }
  · exact .inr ⟨_, _, .styles hreads hscripts hs hm⟩

namespace Definition

theorem ofSource_eq_error_iff {s : Source} {imports : Imports} {e : CompileError} :
    ofSource s imports = .error e ↔
      ∃ cause line, FirstFault (topTags s.nodes) cause line ∧ e = ⟨cause, ⟨some s.path, line⟩⟩ := by
  constructor
  · intro he
    rcases acceptable_or_firstFault (topTags s.nodes) with h | ⟨cause, line, h⟩
    · obtain ⟨d, hd, -⟩ := ofSource_of_acceptable h imports
      rw [hd] at he
      cases he
    · rw [ofSource_of_firstFault h] at he
      cases he
      exact ⟨cause, line, h, rfl⟩
  · rintro ⟨cause, line, h, rfl⟩
    exact ofSource_of_firstFault h imports

theorem ofSource_of_checkTopLevel {s : Source} {e : CompileError} (h : s.checkTopLevel = .error e)
    (imports : Imports) : ofSource s imports = .error e := by
  unfold ofSource
  rw [h]
  rfl

theorem acceptable_of_ofSource {s : Source} {imports : Imports} {d : Definition}
    (hd : ofSource s imports = .ok d) : Acceptable (topTags s.nodes) := by
  rcases acceptable_or_firstFault (topTags s.nodes) with h | ⟨cause, line, h⟩
  · exact h
  · rw [ofSource_of_firstFault h] at hd
    cases hd

/-- A file makes a component exactly when its top-level tags are acceptable, is refused for the first
fault otherwise, and declares what the `args` of its template list. -/
theorem ofSource_decided (path : Path) (text : List Char) (imports : Imports) :
    let s := Source.ofText path text
    ((∃ d, ofSource s imports = .ok d) ↔ Acceptable (topTags s.nodes)) ∧
    (∀ e, ofSource s imports = .error e ↔ ∃ cause line,
      FirstFault (topTags s.nodes) cause line ∧ e = ⟨cause, ⟨some path, line⟩⟩) ∧
    (∀ d, ofSource s imports = .ok d → Declared (topTags s.nodes) d.parameters) := by
  intro s
  refine ⟨⟨fun ⟨d, hd⟩ => acceptable_of_ofSource hd, fun h => ?_⟩, fun e => ofSource_eq_error_iff,
    fun d hd => ?_⟩
  · obtain ⟨d, hd, -⟩ := ofSource_of_acceptable h imports
    exact ⟨d, hd⟩
  · obtain ⟨d', hd', hdecl⟩ := ofSource_of_acceptable (acceptable_of_ofSource hd) imports
    rw [hd] at hd'
    cases hd'
    exact hdecl

example : ofSource (Source.ofText ⟨['c']⟩ "<style/><style/><template args=children />".toList) [] =
    .error ⟨.reservedArgument, ⟨some ⟨['c']⟩, some 1⟩⟩ := by cbv

end Definition

theorem FirstFault.bad {heads : List Tag} {cause : Cause} {line : Option Nat}
    (h : FirstFault heads cause line) : BadComponent heads cause line := by
  cases h with
  | disallowed hs hb ht => exact .disallowed (find?_disallowed hs hb ht)
  | templates _ hs hm =>
    rw [← tagsNamed_eq] at hs
    exact .multiple (show [templateName] ∈ _ by simp) hs hm
  | @reserved tag _ hs hr =>
    rw [← tagsNamed_eq] at hs
    obtain ⟨declaration, hd, hname⟩ := tag.declaresReserved_iff.1 hr
    exact .reserved hs hd hname
  | scripts _ hs hm =>
    rw [← tagsNamed_eq] at hs
    exact .multiple (show scriptNames ∈ _ by simp) hs hm
  | styles _ _ hs hm =>
    rw [← tagsNamed_eq] at hs
    exact .multiple (show styleNames ∈ _ by simp) hs hm

theorem Definition.isIn_of_ofSource {s : Source} {imports : Imports} {e : CompileError}
    (h : Definition.ofSource s imports = .error e) : e.IsIn s.path (topTags s.nodes) := by
  obtain ⟨cause, line, hf, rfl⟩ := Definition.ofSource_eq_error_iff.1 h
  exact ⟨rfl, hf.bad⟩

theorem Definition.cause_of_ofSource {s : Source} {imports : Imports} {e : CompileError}
    (h : Definition.ofSource s imports = .error e) : e.cause.OfFile :=
  (Definition.isIn_of_ofSource h).2.ofFile

theorem Source.isIn_of_checkTopLevel {s : Source} {e : CompileError}
    (h : s.checkTopLevel = .error e) : e.IsIn s.path (topTags s.nodes) :=
  Definition.isIn_of_ofSource (Definition.ofSource_of_checkTopLevel h [])

theorem Source.cause_of_checkTopLevel {s : Source} {e : CompileError}
    (h : s.checkTopLevel = .error e) : e.cause.OfFile := (Source.isIn_of_checkTopLevel h).2.ofFile

end ComponentMarkup
