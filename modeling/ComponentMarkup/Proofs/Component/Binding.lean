import ComponentMarkup.Proofs.Component.Arguments
import ComponentMarkup.Proofs.Component.Causes
import ComponentMarkup.Proofs.Component.Made
import Mathlib

set_option autoImplicit false

namespace ComponentMarkup

@[simp] theorem mem_insertName {n name : List Char} {names : List (List Char)} :
    n ∈ insertName name names ↔ n = name ∨ n ∈ names := by
  induction names with
  | nil => simp [insertName]
  | cons m ms ih =>
    rw [insertName]
    split
    · rename_i he
      simp [he]
    · split
      · rw [List.mem_cons]
      · simp only [List.mem_cons, ih, or_left_comm]

theorem pairwise_insertName {name : List Char} {names : List (List Char)}
    (h : names.Pairwise (· < ·)) : (insertName name names).Pairwise (· < ·) := by
  induction names with
  | nil => exact List.pairwise_singleton _ _
  | cons m ms ih =>
    obtain ⟨hm, hms⟩ := List.pairwise_cons.1 h
    rw [insertName]
    split
    · exact h
    · rename_i hne
      split
      · rename_i hlt
        refine List.pairwise_cons.2 ⟨fun n hn => ?_, h⟩
        rcases List.mem_cons.1 hn with rfl | hn
        · exact hlt
        · exact hlt.trans (hm n hn)
      · rename_i hle
        refine List.pairwise_cons.2 ⟨fun n hn => ?_, ih hms⟩
        rcases mem_insertName.1 hn with rfl | hn
        · exact lt_of_le_of_ne (not_lt.1 hle) (Ne.symm hne)
        · exact hm n hn

@[simp] theorem mem_sortNames {n : List Char} {names : List (List Char)} :
    n ∈ sortNames names ↔ n ∈ names := by
  induction names with
  | nil => rfl
  | cons m ms ih =>
    rw [sortNames, List.foldr_cons, mem_insertName, List.mem_cons]
    exact or_congr_right ih

theorem pairwise_sortNames (names : List (List Char)) : (sortNames names).Pairwise (· < ·) := by
  induction names with
  | nil => exact List.Pairwise.nil
  | cons m ms ih => exact pairwise_insertName ih

section Binding

variable {tag : List Char} {ps : List Parameter} {attrs : List Attribute} {p : Parameter}

theorem Parameter.value_argument_eq_none :
    (p.argument attrs).value = none ↔ p.byDefault = none ∧ p.name ∉ attrs.map Attribute.name := by
  rw [and_comm]
  simp [argument, List.find?_eq_none]

theorem Parameter.bound_iff (hd : p.byDefault = none) :
    ((p.argument attrs).value.isSome = true ∨ p.optional = true) ↔
      (p.optional = false → p.name ∈ attrs.map Attribute.name) := by
  have hnone : (p.argument attrs).value = none ↔ p.name ∉ attrs.map Attribute.name :=
    value_argument_eq_none.trans (and_iff_right hd)
  rw [Option.isSome_iff_ne_none, ne_eq, hnone, not_not, or_comm]
  cases p.optional with
  | false => simp
  | true => simp

theorem Argument.bind_eq_ok_iff :
    Argument.bind tag p attrs = .ok (p.argument attrs) ↔
      (p.argument attrs).value.isSome = true ∨ p.optional = true := by
  unfold Argument.bind Parameter.argument
  split
  · rename_i value hv
    simp [hv]
  · rename_i hv
    split
    · rename_i ho
      simp [hv, ho]
    · rename_i ho
      simp [hv, ho]

theorem Argument.bind_eq_error_iff {e : CompileError} :
    Argument.bind tag p attrs = .error e ↔ (p.argument attrs).value = none ∧ p.optional = false ∧
      e = (Cause.missingArgument tag p.name).nowhere := by
  unfold Argument.bind Parameter.argument
  split
  · rename_i value hv
    simp [hv]
  · rename_i hv
    split
    · rename_i ho
      simp [ho]
    · rename_i ho
      simp [hv, ho, eq_comm]

theorem mem_extra {n : List Char} :
    n ∈ (attrs.map Attribute.name).filter (fun n => !ps.any (·.name == n)) ↔
      n ∈ attrs.map Attribute.name ∧ n ∉ ps.map Parameter.name := by
  rw [List.mem_filter]
  simp

theorem bindArguments_of_extra (tag : List Char)
    (h : ∃ n ∈ attrs.map Attribute.name, n ∉ ps.map Parameter.name) :
    ∃ names, bindArguments tag ps attrs = .error (Cause.extraArguments names).nowhere ∧
      names.Pairwise (· < ·) ∧
      ∀ n, n ∈ names ↔ n ∈ attrs.map Attribute.name ∧ n ∉ ps.map Parameter.name := by
  obtain ⟨n, hn⟩ := h
  refine ⟨_, ?_, pairwise_sortNames _, fun n => mem_sortNames.trans mem_extra⟩
  have hne := List.ne_nil_of_mem (mem_extra.2 hn)
  simp only [bindArguments, List.isEmpty_iff, if_neg hne]

theorem bindArguments_of_known (h : ∀ n ∈ attrs.map Attribute.name, n ∈ ps.map Parameter.name) :
    bindArguments tag ps attrs = ps.mapM (Argument.bind tag · attrs) := by
  have hempty : (attrs.map Attribute.name).filter (fun n => !ps.any (·.name == n)) = [] :=
    List.eq_nil_iff_forall_not_mem.2 fun n hn => (mem_extra.1 hn).2 (h n (mem_extra.1 hn).1)
  simp only [bindArguments, hempty, List.isEmpty_nil, if_true]

theorem bindArguments_eq_ok_iff {arguments : List Argument} :
    bindArguments tag ps attrs = .ok arguments ↔
      (∀ n ∈ attrs.map Attribute.name, n ∈ ps.map Parameter.name) ∧
      (∀ p ∈ ps, (p.argument attrs).value.isSome = true ∨ p.optional = true) ∧
      arguments = ps.map (·.argument attrs) := by
  by_cases h : ∀ n ∈ attrs.map Attribute.name, n ∈ ps.map Parameter.name
  · rw [bindArguments_of_known h, mapM_bind_eq_ok]
    simp only [Argument.bind_eq_ok_iff, and_iff_right h]
  · obtain ⟨names, hb, -⟩ := bindArguments_of_extra tag (by simpa using h)
    simp only [hb, h, false_and, iff_false]
    exact nofun

theorem bindArguments_of_given (tag : List Char) (hd : ∀ p ∈ ps, p.byDefault = none)
    (h : ∀ n ∈ attrs.map Attribute.name, n ∈ ps.map Parameter.name)
    (hp : ∀ p ∈ ps, p.optional = false → p.name ∈ attrs.map Attribute.name) :
    bindArguments tag ps attrs = .ok (ps.map (·.argument attrs)) :=
  bindArguments_eq_ok_iff.2 ⟨h, fun p hm => (Parameter.bound_iff (hd p hm)).2 (hp p hm), rfl⟩

theorem bindArguments_of_missing (hd : ∀ p ∈ ps, p.byDefault = none)
    (h : ∀ n ∈ attrs.map Attribute.name, n ∈ ps.map Parameter.name) {before rest : List Parameter}
    (hs : ps = before ++ p :: rest) (ho : p.optional = false) (hn : p.name ∉ attrs.map Attribute.name)
    (hb : ∀ q ∈ before, q.optional = false → q.name ∈ attrs.map Attribute.name) :
    bindArguments tag ps attrs = .error (Cause.missingArgument tag p.name).nowhere := by
  rw [bindArguments_of_known h]
  subst hs
  simp only [List.forall_mem_append, List.forall_mem_cons] at hd
  have hnone := Parameter.value_argument_eq_none.2 ⟨hd.2.1, hn⟩
  refine mapM_append_cons_eq_error (fun q hq => ?_) (Argument.bind_eq_error_iff.2 ⟨hnone, ho, rfl⟩)
  exact ⟨_, Argument.bind_eq_ok_iff.2 ((Parameter.bound_iff (hd.1 q hq)).2 (hb q hq))⟩

theorem exists_first_missing {given : List (List Char)}
    (h : ∃ p ∈ ps, p.optional = false ∧ p.name ∉ given) :
    ∃ before p rest, ps = before ++ p :: rest ∧ p.optional = false ∧ p.name ∉ given ∧
      ∀ q ∈ before, q.optional = false → q.name ∈ given := by
  have hfound : (ps.find? fun p => !p.optional && !given.contains p.name).isSome := by
    simpa [List.find?_isSome] using h
  obtain ⟨p, hp⟩ := Option.isSome_iff_exists.1 hfound
  obtain ⟨hmiss, before, rest, hs, hb⟩ := List.find?_eq_some_iff_append.1 hp
  have hparts : p.optional = false ∧ p.name ∉ given := by simpa using hmiss
  refine ⟨before, p, rest, hs, hparts.1, hparts.2, fun q hq ho => ?_⟩
  simpa [ho] using hb q hq

/-- What an error says is so: the extra names are those that no parameter has, and an argument that is
missing is required and was not given. -/
theorem bindArguments_eq_error {e : CompileError} (h : bindArguments tag ps attrs = .error e) :
    (∃ names, e = (Cause.extraArguments names).nowhere ∧
      ∀ n, n ∈ names ↔ n ∈ attrs.map Attribute.name ∧ n ∉ ps.map Parameter.name) ∨
    ∃ p ∈ ps, e = (Cause.missingArgument tag p.name).nowhere ∧ p.optional = false ∧
      (p.argument attrs).value = none := by
  by_cases hextra : ∃ n ∈ attrs.map Attribute.name, n ∉ ps.map Parameter.name
  · obtain ⟨names, hb, -, hm⟩ := bindArguments_of_extra tag hextra
    rw [hb] at h
    cases h
    exact .inl ⟨names, rfl, hm⟩
  · rw [bindArguments_of_known (by simpa using hextra)] at h
    obtain ⟨p, hp, hb⟩ := mapM_eq_error h
    obtain ⟨hv, ho, he⟩ := Argument.bind_eq_error_iff.1 hb
    exact .inr ⟨p, hp, he, ho, hv⟩

theorem notMem_extra {e : CompileError} {names : List (List Char)} (hp : p ∈ ps)
    (h : bindArguments tag ps attrs = .error e) (he : e.cause = .extraArguments names) :
    p.name ∉ names := by
  rcases bindArguments_eq_error h with ⟨names', rfl, hm⟩ | ⟨q, -, rfl, -, -⟩
  · cases he
    exact fun hn => ((hm p.name).1 hn).2 (List.mem_map_of_mem hp)
  · cases he

theorem exists_missing {e : CompileError} {tag' n : List Char}
    (h : bindArguments tag ps attrs = .error e) (he : e.cause = .missingArgument tag' n) :
    ∃ q ∈ ps, q.name = n ∧ (q.argument attrs).value = none := by
  rcases bindArguments_eq_error h with ⟨names, rfl, -⟩ | ⟨q, hq, rfl, -, hv⟩
  · cases he
  · cases he
    exact ⟨q, hq, rfl, hv⟩

theorem mem_of_bindArguments {arguments : List Argument}
    (h : bindArguments tag ps attrs = .ok arguments) (hp : p ∈ ps) :
    ⟨p, (p.argument attrs).value⟩ ∈ arguments := by
  rw [(bindArguments_eq_ok_iff.1 h).2.2]
  exact List.mem_map_of_mem hp

theorem cause_of_bindArguments {e : CompileError} (h : bindArguments tag ps attrs = .error e) :
    e.cause.OfUsage := by
  rcases bindArguments_eq_error h with ⟨names, rfl, -⟩ | ⟨p, -, rfl, -, -⟩
  · exact .extraArguments names
  · exact .missingArgument tag p.name

end Binding

theorem lowerAscii_lowerAscii (s : List Char) : lowerAscii (lowerAscii s) = lowerAscii s := by
  unfold lowerAscii
  rw [List.map_map]
  refine List.map_congr_left fun c _ => ?_
  exact Char.toLower_eq_of_not_isUpper (by simp [Char.isUpper_toLower_eq_false])

theorem names_usageAttributes (tag : Tag) :
    (usageAttributes tag).map Attribute.name = tag.attrs.map fun a => lowerAscii a.name := by
  rw [usageAttributes, List.map_map]
  rfl

section Case

variable {tag : Tag} {p : Parameter}

theorem find?_usageAttributes (tag : Tag) (n : List Char) :
    ((usageAttributes tag).find? (·.name == n)).map Attribute.text =
      (tag.attrs.find? fun a => lowerAscii a.name == n).map Attribute.text := by
  rw [usageAttributes, List.find?_map, Option.map_map]
  rfl

theorem value_argument_of_find? (hn : lowerAscii p.name = p.name) {a : Attribute}
    (ha : tag.attrs.find? (fun a => lowerAscii a.name == lowerAscii p.name) = some a) :
    (p.argument (usageAttributes tag)).value = some a.text := by
  rw [hn] at ha
  rw [Parameter.argument, find?_usageAttributes, ha]
  rfl

theorem value_argument_of_capital (hn : lowerAscii p.name ≠ p.name) (tag : Tag) :
    (p.argument (usageAttributes tag)).value = p.byDefault := by
  have hf : tag.attrs.find? (fun a => lowerAscii a.name == p.name) = none := by
    refine List.find?_eq_none.2 fun a _ he => hn ?_
    rw [← eq_of_beq he, lowerAscii_lowerAscii]
  rw [Parameter.argument, find?_usageAttributes, hf]
  rfl

def suppliedAttributes (ps : List Parameter) : List Attribute :=
  (ps.filter fun p => !p.optional && p.byDefault.isNone).map fun p => ⟨p.name, none⟩

theorem mem_suppliedAttributes {ps : List Parameter}
    (h : ∀ p ∈ ps, p.optional = false → p.byDefault = none → lowerAscii p.name = p.name)
    (n : List Char) :
    n ∈ (suppliedAttributes ps).map (fun a => lowerAscii a.name) ↔
      ∃ p ∈ ps, p.optional = false ∧ p.byDefault = none ∧ p.name = n := by
  simp only [suppliedAttributes, List.map_map, List.mem_map, List.mem_filter]
  constructor
  · rintro ⟨p, ⟨hp, hr⟩, rfl⟩
    simp only [Bool.and_eq_true, Bool.not_eq_true', Option.isNone_iff_eq_none] at hr
    exact ⟨p, hp, hr.1, hr.2, (h p hp hr.1 hr.2).symm⟩
  · rintro ⟨p, hp, ho, hd, rfl⟩
    exact ⟨p, ⟨hp, by simp [ho, hd]⟩, h p hp ho hd⟩

theorem exists_usage_iff (d : Definition) :
    (∃ tag : Tag, ∃ arguments,
      bindArguments tag.name d.parameters (usageAttributes tag) = .ok arguments) ↔
        ∀ p ∈ d.parameters, p.optional = false → p.byDefault = none → lowerAscii p.name = p.name := by
  constructor
  · rintro ⟨tag, arguments, hb⟩ p hp ho hd
    by_contra hn
    have hbound := (bindArguments_eq_ok_iff.1 hb).2.1 p hp
    rw [value_argument_of_capital hn, hd, ho] at hbound
    simp at hbound
  · intro h
    have hnames := mem_suppliedAttributes h
    refine ⟨⟨[], suppliedAttributes d.parameters, 0⟩, _, bindArguments_eq_ok_iff.2 ⟨?_, ?_, rfl⟩⟩
    · intro n hn
      rw [names_usageAttributes, hnames] at hn
      obtain ⟨p, hp, -, -, rfl⟩ := hn
      exact List.mem_map_of_mem hp
    · intro p hp
      by_contra hmissing
      simp only [not_or, Bool.not_eq_true, Option.isSome_eq_false_iff,
        Option.isNone_iff_eq_none] at hmissing
      obtain ⟨hd, hgiven⟩ := Parameter.value_argument_eq_none.1 hmissing.1
      rw [names_usageAttributes, hnames] at hgiven
      exact hgiven ⟨p, hp, hmissing.2, hd, rfl⟩

end Case

/-- The attributes of a usage match a parameter in whatever case they are written, if it is declared
without a capital letter: none of them is extra, and the first gives the argument its value. No attribute
matches a parameter that is declared with a capital letter, and if it is required no usage binds. -/
theorem usageAttributes_ignore_case (d : Definition) :
    (∀ p ∈ d.parameters, lowerAscii p.name = p.name → ∀ tag : Tag, ∀ a,
      tag.attrs.find? (fun a => lowerAscii a.name == lowerAscii p.name) = some a →
        (∀ arguments, bindArguments tag.name d.parameters (usageAttributes tag) = .ok arguments →
          ⟨p, some a.text⟩ ∈ arguments) ∧
        ∀ e, bindArguments tag.name d.parameters (usageAttributes tag) = .error e →
          (∀ names, e.cause = .extraArguments names → lowerAscii p.name ∉ names) ∧
          e.cause ≠ .missingArgument tag.name p.name) ∧
    (∀ p ∈ d.parameters, lowerAscii p.name ≠ p.name → ∀ tag : Tag,
      (∀ arguments, bindArguments tag.name d.parameters (usageAttributes tag) = .ok arguments →
        ⟨p, p.byDefault⟩ ∈ arguments) ∧
      ∀ a ∈ tag.attrs, lowerAscii a.name = lowerAscii p.name →
        lowerAscii p.name ∉ d.parameters.map Parameter.name →
        ∃ names, bindArguments tag.name d.parameters (usageAttributes tag) =
          .error (Cause.extraArguments names).nowhere ∧ lowerAscii p.name ∈ names) ∧
    ((∃ tag : Tag, ∃ arguments,
      bindArguments tag.name d.parameters (usageAttributes tag) = .ok arguments) ↔
        ∀ p ∈ d.parameters, p.optional = false → p.byDefault = none → lowerAscii p.name = p.name) := by
  refine ⟨fun p hp hn tag a ha => ⟨fun arguments hb => ?_, fun e he => ⟨fun names hc => ?_, ?_⟩⟩,
    fun p hp hn tag => ⟨fun arguments hb => ?_, fun a ha hname hother => ?_⟩, exists_usage_iff d⟩
  · exact value_argument_of_find? hn ha ▸ mem_of_bindArguments hb hp
  · exact hn.symm ▸ notMem_extra hp he hc
  · intro hc
    obtain ⟨q, -, hq, hnone⟩ := exists_missing he hc
    rw [value_argument_of_find? (hq ▸ hn) (hq ▸ ha)] at hnone
    cases hnone
  · exact value_argument_of_capital hn tag ▸ mem_of_bindArguments hb hp
  · have hgiven : lowerAscii p.name ∈ (usageAttributes tag).map Attribute.name := by
      rw [names_usageAttributes]
      exact List.mem_map.2 ⟨a, ha, hname⟩
    obtain ⟨names, hb, -, hm⟩ := bindArguments_of_extra tag.name ⟨_, hgiven, hother⟩
    exact ⟨names, hb, (hm _).2 ⟨hgiven, hother⟩⟩

/-- Two spellings of one name: the first counts. -/
theorem usageAttributes_ignore_case_title :
    let title : Parameter := ⟨"title".toList, false, none⟩
    let d : Definition := ⟨⟨"/c".toList⟩, [], none, [title], [], []⟩
    let tag : Tag := ⟨['c'], [⟨"TITLE".toList, some ['x']⟩, ⟨"Title".toList, none⟩], 1⟩
    tag.attrs.find? (fun a => lowerAscii a.name == lowerAscii title.name) =
      some ⟨"TITLE".toList, some ['x']⟩ ∧
    ∃ arguments, bindArguments tag.name d.parameters (usageAttributes tag) = .ok arguments ∧
      ⟨title, some ['x']⟩ ∈ arguments := by
  intro title d tag
  have hfind : tag.attrs.find? (fun a => lowerAscii a.name == lowerAscii title.name) =
      some ⟨"TITLE".toList, some ['x']⟩ := by rfl
  have hbind : bindArguments tag.name d.parameters (usageAttributes tag) =
      .ok [⟨title, some ['x']⟩] := by rfl
  have h := (usageAttributes_ignore_case d).1 title (by simp [d]) (by decide) tag _ hfind
  exact ⟨hfind, _, hbind, h.1 _ hbind⟩

/-- A component declares `Title`, and a usage that gives it in that very spelling is refused for an extra
`title`. No usage of the component binds. -/
theorem capital_parameter_refused :
    let template : Element := ⟨⟨"template".toList, [⟨"args".toList, some "Title".toList⟩], 1⟩,
      [.element ⟨['p'], [], 1⟩ [.text "$Title".toList]]⟩
    let title : Parameter := ⟨"Title".toList, false, none⟩
    let d : Definition := ⟨⟨"/c".toList⟩, [], some template, [title], [], []⟩
    let usage : Tag := ⟨['c'], [⟨"Title".toList, some ['x']⟩], 1⟩
    Definition.ofSource ⟨⟨"/c".toList⟩, [template.toNode]⟩ [] = .ok d ∧
    (expand [(['c'], d)] ⟨"/page".toList⟩ [.element usage []]).run 0 =
      (.error ⟨.extraArguments ["title".toList], ⟨some ⟨"/page".toList⟩, some 1⟩⟩, 0) ∧
    ¬∃ tag : Tag, ∃ arguments,
      bindArguments tag.name d.parameters (usageAttributes tag) = .ok arguments := by
  intro template title d usage
  refine ⟨rfl, by unfold usage d title template; cbv, fun h => ?_⟩
  have hlower := (exists_usage_iff d).1 h title (by simp [d]) rfl rfl
  exact absurd hlower (by decide)

theorem run_refused_usage {imports : Imports} {tag : Tag} {d : Definition} {template : Element}
    (hu : imports.find? tag.name = some d) (ht : d.template = some template) {file : Path}
    {children inner : List Node} {next after : Nat}
    (hc : (expand imports file children).run next = (.ok inner, after)) {cause : Cause}
    (hb : bindArguments tag.name d.parameters (usageAttributes tag) = .error cause.nowhere) :
    (expand imports file [.element tag children]).run next =
      (.error ⟨cause, ⟨some file, some tag.line⟩⟩, after) := by
  rw [expand_single, Expansion.run_bind, hc]
  simp only [Imports.stand, hu]
  rw [Definition.run_use ht, Definition.instantiate_eq, hb]
  rfl

/-- Which of its outcomes a usage has, by the names of its attributes in lower case: those that the
component does not declare are refused, all of them; then the first required argument that is missing is;
or else every argument is bound to the first attribute of its name, and one that no attribute has is left
without a value. -/
theorem binding_decided {source : Source} {table : Imports} {d : Definition}
    (hd : Definition.ofSource source table = .ok d) {template : Element}
    (ht : d.template = some template) {imports : Imports} {tag : Tag}
    (hu : imports.find? tag.name = some d) {file : Path} {children inner : List Node}
    {next after : Nat} (hc : (expand imports file children).run next = (.ok inner, after)) :
    let given := tag.attrs.map fun a => lowerAscii a.name
    let declared := d.parameters.map Parameter.name
    let outcome := (expand imports file [.element tag children]).run next
    ((∃ n ∈ given, n ∉ declared) →
      ∃ names, outcome = (.error ⟨.extraArguments names, ⟨some file, some tag.line⟩⟩, after) ∧
        names.Pairwise (· < ·) ∧ ∀ n, n ∈ names ↔ n ∈ given ∧ n ∉ declared) ∧
    ((∀ n ∈ given, n ∈ declared) → (∃ p ∈ d.parameters, p.optional = false ∧ p.name ∉ given) →
      ∃ before p rest, d.parameters = before ++ p :: rest ∧ p.optional = false ∧ p.name ∉ given ∧
        (∀ q ∈ before, q.optional = false → q.name ∈ given) ∧
        outcome =
          (.error ⟨.missingArgument tag.name p.name, ⟨some file, some tag.line⟩⟩, after)) ∧
    ((∀ n ∈ given, n ∈ declared) → (∀ p ∈ d.parameters, p.optional = false → p.name ∈ given) →
      ∃ arguments, bindArguments tag.name d.parameters (usageAttributes tag) = .ok arguments ∧
        arguments.map Argument.parameter = d.parameters ∧
        (∀ a ∈ arguments, a.value =
          (tag.attrs.find? fun b => lowerAscii b.name == a.parameter.name).map Attribute.text) ∧
        d.instantiate template tag = .ok (substituteBody arguments template.children)) := by
  intro given declared outcome
  have hgiven : (usageAttributes tag).map Attribute.name = given := names_usageAttributes tag
  obtain ⟨declarations, hdecl⟩ := Definition.exists_declarations hd
  have hdefault : ∀ p ∈ d.parameters, p.byDefault = none :=
    fun p hp => (of_readDeclarations hdecl (by simp) p hp).2
  refine ⟨fun hextra => ?_, fun hknown hmissing => ?_, fun hknown hall => ?_⟩
  · rw [← hgiven] at hextra
    obtain ⟨names, hb, hsorted, hm⟩ := bindArguments_of_extra tag.name hextra
    exact ⟨names, run_refused_usage hu ht hc hb, hsorted, hgiven ▸ hm⟩
  · obtain ⟨before, p, rest, hs, ho, hn, hb⟩ := exists_first_missing hmissing
    refine ⟨before, p, rest, hs, ho, hn, hb, run_refused_usage hu ht hc ?_⟩
    rw [← hgiven] at hknown hn hb
    exact bindArguments_of_missing hdefault hknown hs ho hn hb
  · rw [← hgiven] at hknown hall
    have hb := bindArguments_of_given tag.name hdefault hknown hall
    refine ⟨_, hb, parameters_of_bindArguments hb, fun a ha => ?_, ?_⟩
    · obtain ⟨p, hp, rfl⟩ := List.mem_map.1 ha
      rw [Parameter.argument, find?_usageAttributes, hdefault p hp, Option.or_none]
    · rw [Definition.instantiate_eq, hb]
      rfl

/-- One usage for each outcome: names that are extra, one of them twice, a required argument that is
missing, and arguments that are bound. -/
theorem binding_decided_outcomes :
    let template : Element := ⟨⟨"template".toList, [⟨"args".toList, some "?b a a".toList⟩], 1⟩,
      [.text "$a".toList]⟩
    let a : Parameter := ⟨['a'], false, none⟩
    let b : Parameter := ⟨['b'], true, none⟩
    let d : Definition := ⟨⟨"/c".toList⟩, [], some template, [b, a], [], []⟩
    let place : Location := ⟨some ⟨"/page".toList⟩, some 3⟩
    let outcome (attrs : List Attribute) :=
      (expand [(['c'], d)] ⟨"/page".toList⟩ [.element ⟨['c'], attrs, 3⟩ []]).run 5
    Definition.ofSource ⟨⟨"/c".toList⟩, [template.toNode]⟩ [] = .ok d ∧
    (∃ names,
      outcome [⟨['D'], none⟩, ⟨['C'], none⟩, ⟨['d'], none⟩] =
        (.error ⟨.extraArguments names, place⟩, 5) ∧
      names.Pairwise (· < ·) ∧
      ∀ n, n ∈ names ↔ n ∈ [['d'], ['c'], ['d']] ∧ n ∉ [['b'], ['a']]) ∧
    (∃ before p rest, [b, a] = before ++ p :: rest ∧ p.optional = false ∧ p.name ∉ [['b']] ∧
      (∀ q ∈ before, q.optional = false → q.name ∈ [['b']]) ∧
      outcome [⟨['B'], none⟩] = (.error ⟨.missingArgument ['c'] p.name, place⟩, 5)) ∧
    ∃ arguments,
      bindArguments ['c'] [b, a] (usageAttributes ⟨['c'], [⟨['A'], none⟩], 3⟩) = .ok arguments ∧
      arguments.map Argument.parameter = [b, a] ∧
      (∀ x ∈ arguments, x.value =
        ([⟨['A'], none⟩].find? fun y : Attribute => lowerAscii y.name == x.parameter.name).map
          Attribute.text) ∧
      d.instantiate template ⟨['c'], [⟨['A'], none⟩], 3⟩ =
        .ok (substituteBody arguments template.children) := by
  intro template a b d place outcome
  have hd : Definition.ofSource ⟨⟨"/c".toList⟩, [template.toNode]⟩ [] = .ok d := rfl
  have hc : (expand [(['c'], d)] ⟨"/page".toList⟩ []).run 5 = (.ok [], 5) := by
    rw [expand_nil]
    rfl
  have hu : ∀ attrs, Imports.find? [(['c'], d)] (Tag.mk ['c'] attrs 3).name = some d := fun _ => rfl
  have hextra := (binding_decided hd rfl (hu [⟨['D'], none⟩, ⟨['C'], none⟩, ⟨['d'], none⟩]) hc).1
  have hmissing := (binding_decided hd rfl (hu [⟨['B'], none⟩]) hc).2.1
  have hbound := (binding_decided hd rfl (hu [⟨['A'], none⟩]) hc).2.2
  exact ⟨hd, hextra (by decide), hmissing (by decide) (by decide), hbound (by decide) (by decide)⟩

end ComponentMarkup
