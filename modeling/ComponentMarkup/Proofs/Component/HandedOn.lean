import ComponentMarkup.Proofs.Component.Binding

/-!
Arguments that a template hands on to a usage of its own. Main statements: `HandsOn.bindArguments`, what
is handed on under its placeholders binds to the arguments that were given, and
`substituteBody_forwarding`.
-/

set_option autoImplicit false

namespace ComponentMarkup

def Tag.Unmarked (tag : Tag) : Prop := ∀ a ∈ tag.attrs, ∀ value ∈ a.value, '!' ∉ value

instance (tag : Tag) : Decidable tag.Unmarked :=
  inferInstanceAs (Decidable (∀ a ∈ tag.attrs, ∀ value ∈ a.value, '!' ∉ value))

theorem Tag.Unmarked.text {tag : Tag} (h : tag.Unmarked) {a : Attribute} (ha : a ∈ tag.attrs) :
    '!' ∉ a.text := by
  unfold Attribute.text
  cases hv : a.value with
  | none => simp
  | some value => exact h a ha value hv

theorem replaceToken_childrenSlot {name : List Char} (h : name ≠ childrenName) (value : List Char) :
    replaceToken '$' name value childrenSlot = childrenSlot := by
  have hm : isNameChar '$' = false := by decide
  have hw : ∀ c ∈ childrenName, isNameChar c = true := List.all_eq_true.1 (by decide)
  have hnil : replaceToken '$' name value [] = [] := by rw [replaceToken]
  by_cases hp : name <+: childrenName
  · have hrun := replaceToken_run hm (fun c hc => hw c (hp.subset hc)) value hw stopsAt_nil
    rw [List.append_nil, if_neg h.symm, hnil, List.append_nil] at hrun
    exact hrun
  · have hrest := replaceToken_names hm name value hw []
    rw [List.append_nil, hnil, List.append_nil] at hrest
    rw [childrenSlot, replaceToken, if_neg (by simp [hp]), hrest]

theorem identifyTokens_unmarked {value : List Char} (h : '!' ∉ value) (d : Drawing) :
    identifyTokens value d = (value, d) := by
  induction value with
  | nil => rw [identifyTokens]
  | cons c cs ih =>
    rw [List.mem_cons, not_or] at h
    rw [identifyTokens, ih h.2]
    exact fun _ _ he => absurd he.symm h.1

theorem identifyAttributes_unmarked {attrs : List Attribute}
    (h : ∀ a ∈ attrs, ∀ value ∈ a.value, '!' ∉ value) (d : Drawing) :
    identifyAttributes attrs d = (attrs, d) := by
  induction attrs with
  | nil => rfl
  | cons a attrs ih =>
    obtain ⟨ha, hattrs⟩ := List.forall_mem_cons.1 h
    obtain ⟨name, _ | value⟩ := a
    · simp [identifyAttributes, ih hattrs]
    · simp [identifyAttributes, identifyTokens_unmarked (ha value rfl), ih hattrs]

namespace Parameter

/-- The attribute by which an argument is handed on: none for one without a value, and one without a
value for the empty value. -/
def handedOn (given : List Attribute) (p : Parameter) : Option Attribute :=
  (p.argument given).value.map fun value => ⟨p.name, if value.isEmpty then none else some value⟩

variable {given : List Attribute} {p : Parameter}

@[simp] theorem parameter_argument : (p.argument given).parameter = p := rfl

theorem handedOn_eq_some {a : Attribute} (h : p.handedOn given = some a) :
    a.name = p.name ∧ (p.argument given).value = some a.text := by
  obtain ⟨value, hv, rfl⟩ := Option.map_eq_some_iff.1 h
  refine ⟨rfl, hv.trans ?_⟩
  cases value <;> rfl

theorem value_eq_some {value : List Char} (h : (p.argument given).value = some value) :
    (∃ a ∈ given, a.name = p.name ∧ a.text = value) ∨ p.byDefault = some value := by
  rw [argument, Option.or_eq_some_iff] at h
  rcases h with h | ⟨-, h⟩
  · obtain ⟨a, ha, rfl⟩ := Option.map_eq_some_iff.1 h
    exact .inl ⟨a, List.mem_of_find?_eq_some ha, by simpa using List.find?_some ha, rfl⟩
  · exact .inr h

theorem value_congr {q : Parameter} (hn : q.name = p.name) (hd : q.byDefault = p.byDefault) :
    (q.argument given).value = (p.argument given).value := by
  rw [argument, argument, hn, hd]

end Parameter

/-- Parameters whose values arrive as they are when they are handed on under their names: none is taken
for the slot, and a value by default is found by its name, the same for all parameters of one name,
and draws no identifier. -/
structure Forwardable (ps : List Parameter) : Prop where
  reserved : ∀ p ∈ ps, p.name ≠ childrenName
  found : ∀ p ∈ ps, p.byDefault.isSome = true → lowerAscii p.name = p.name
  alike : ∀ p ∈ ps, ∀ q ∈ ps, p.name = q.name → p.byDefault = q.byDefault
  unmarked : ∀ p ∈ ps, ∀ value ∈ p.byDefault, '!' ∉ value

theorem forwardable_of_readDeclarations {declarations : List (List Char)} {ps : List Parameter}
    (h : readDeclarations [] declarations = .ok ps) : Forwardable ps := by
  have hps := of_readDeclarations h (by simp)
  refine ⟨fun p hp => (hps p hp).1, fun p hp hsome => ?_, fun p hp q hq _ => ?_,
    fun p hp value hvalue => ?_⟩
  · rw [(hps p hp).2] at hsome
    cases hsome
  · rw [(hps p hp).2, (hps q hq).2]
  · rw [(hps p hp).2] at hvalue
    cases hvalue

def HandsOn (ps : List Parameter) (given handed : List Attribute) : Prop :=
  ∀ a, a ∈ handed ↔ ∃ p ∈ ps, p.handedOn given = some a

section HandsOn

variable {ps : List Parameter} {given handed : List Attribute}

theorem substituteAttribute_placeholder (hf : Forwardable ps) {p : Parameter} (hp : p ∈ ps) :
    substituteAttribute (ps.map (·.argument given)) ⟨p.placeholder, none⟩ = p.handedOn given := by
  -- the first parameter of that name, if there are more
  obtain ⟨q, hfind⟩ : ∃ q, ps.find? (fun q => p.placeholder == q.placeholder) = some q :=
    Option.isSome_iff_exists.1 (List.find?_isSome.2 ⟨p, hp, beq_self_eq_true _⟩)
  have hn : p.name = q.name := by simpa [Parameter.placeholder] using List.find?_some hfind
  have hd : p.byDefault = q.byDefault := hf.alike p hp q (List.mem_of_find?_eq_some hfind) hn
  unfold substituteAttribute Parameter.handedOn Parameter.argument
  rw [List.find?_map]
  simp [hfind, hn, hd]

theorem handsOn_of_perm (hf : Forwardable ps) {attrs : List Attribute}
    (ha : attrs.Perm (ps.map fun p => ⟨p.placeholder, none⟩)) :
    HandsOn ps given (attrs.filterMap (substituteAttribute (ps.map (·.argument given)))) := by
  intro a
  rw [List.mem_filterMap]
  constructor
  · rintro ⟨b, hb, hs⟩
    obtain ⟨p, hp, rfl⟩ := List.mem_map.1 (ha.mem_iff.1 hb)
    exact ⟨p, hp, (substituteAttribute_placeholder hf hp).symm.trans hs⟩
  · rintro ⟨p, hp, hs⟩
    exact ⟨_, ha.mem_iff.2 (List.mem_map_of_mem hp),
      (substituteAttribute_placeholder hf hp).trans hs⟩

namespace HandsOn

/-- Every argument arrives as it was given, or as it is by default. -/
theorem argument (h : HandsOn ps given handed) (hf : Forwardable ps) {p : Parameter}
    (hp : p ∈ ps) : p.argument handed = p.argument given := by
  have hsame : ∀ a ∈ handed, a.name = p.name → (p.argument given).value = some a.text := by
    intro a ha hn
    obtain ⟨q, hq, hq'⟩ := (h a).1 ha
    obtain ⟨hqn, hv⟩ := Parameter.handedOn_eq_some hq'
    rw [← hv]
    have hpq : p.name = q.name := hn.symm.trans hqn
    exact Parameter.value_congr hpq (hf.alike p hp q hq hpq)
  have hvalue : (p.argument handed).value = (p.argument given).value := by
    cases hfind : handed.find? (·.name == p.name) with
    | some a =>
      rw [hsame a (List.mem_of_find?_eq_some hfind) (by simpa using List.find?_some hfind),
        Parameter.argument, hfind]
      rfl
    | none =>
      -- nothing of this name was handed on, so it has no value, not even by default
      have hnone : (p.argument given).value = none := by
        rw [Option.eq_none_iff_forall_ne_some]
        intro value hv
        have hm := (h ⟨p.name, if value.isEmpty then none else some value⟩).2
          ⟨p, hp, by rw [Parameter.handedOn, hv]; rfl⟩
        simpa using List.find?_eq_none.1 hfind _ hm
      have hdefault : p.byDefault = none := (Option.or_eq_none_iff.1 hnone).2
      rw [hnone, Parameter.argument, hfind, hdefault]
      rfl
  exact congrArg (Argument.mk p) hvalue

theorem bindArguments {tag tag' : List Char} {arguments : List Argument}
    (h : HandsOn ps given handed) (hf : Forwardable ps)
    (hb : bindArguments tag ps given = .ok arguments) :
    ComponentMarkup.bindArguments tag' ps handed = .ok arguments := by
  obtain ⟨-, hall, rfl⟩ := bindArguments_eq_ok_iff.1 hb
  refine bindArguments_eq_ok_iff.2
    ⟨fun n hn => ?_, fun p hp => ?_, List.map_congr_left fun p hp => (h.argument hf hp).symm⟩
  · obtain ⟨a, ha, rfl⟩ := List.mem_map.1 hn
    obtain ⟨p, hp, hp'⟩ := (h a).1 ha
    exact List.mem_map.2 ⟨p, hp, (Parameter.handedOn_eq_some hp').1.symm⟩
  · rw [h.argument hf hp]
    exact hall p hp

theorem exists_given (h : HandsOn ps given handed) {a : Attribute} (ha : a ∈ handed) :
    (∃ b ∈ given, b.name = a.name ∧ b.text = a.text) ∨
      ∃ p ∈ ps, p.name = a.name ∧ p.byDefault = some a.text := by
  obtain ⟨p, hp, hp'⟩ := (h a).1 ha
  obtain ⟨hn, hv⟩ := Parameter.handedOn_eq_some hp'
  rw [hn]
  exact (Parameter.value_eq_some hv).imp_right fun hd => ⟨p, hp, rfl, hd⟩

theorem usageAttributes {tag : Tag} (h : HandsOn ps (usageAttributes tag) handed)
    (hf : Forwardable ps) (name : List Char) (line : Nat) :
    ComponentMarkup.usageAttributes ⟨name, handed, line⟩ = handed := by
  refine (List.map_congr_left fun a ha => ?_).trans (List.map_id _)
  have hlower : lowerAscii a.name = a.name := by
    rcases h.exists_given ha with ⟨b, hm, hn, -⟩ | ⟨p, hp, hn, hd⟩
    · obtain ⟨c, -, rfl⟩ := List.mem_map.1 hm
      rw [← hn, lowerAscii_lowerAscii]
    · rw [← hn]
      exact hf.found p hp (by rw [hd]; rfl)
  rw [hlower]
  rfl

theorem unmarked {tag : Tag} (h : HandsOn ps (ComponentMarkup.usageAttributes tag) handed)
    (hf : Forwardable ps) (hu : tag.Unmarked) (name : List Char) (line : Nat) :
    Tag.Unmarked ⟨name, handed, line⟩ := by
  intro a ha value hv
  have htext : a.text = value := by
    rw [Attribute.text, hv]
    rfl
  rcases h.exists_given ha with ⟨b, hm, -, ht⟩ | ⟨p, hp, -, hd⟩
  · obtain ⟨c, hc, rfl⟩ := List.mem_map.1 hm
    rw [← htext, ← ht]
    exact hu.text (a := c) hc
  · rw [← htext]
    exact hf.unmarked p hp a.text hd

end HandsOn

end HandsOn

theorem substituteBody_forwarding {arguments : List Argument} {usage : Tag}
    (hn : ∀ a ∈ arguments, a.parameter.name ≠ childrenName) (he : arguments = [] → usage.attrs = []) :
    substituteBody arguments [.element usage [.text childrenSlot]] =
      [.element { usage with attrs := usage.attrs.filterMap (substituteAttribute arguments) }
        [.text childrenSlot]] := by
  have htext : arguments.foldl (fun text a => a.substituteText text) childrenSlot = childrenSlot := by
    clear he
    induction arguments with
    | nil => rfl
    | cons a arguments ih =>
      obtain ⟨ha, hn⟩ := List.forall_mem_cons.1 hn
      rw [List.foldl_cons, Argument.substituteText, replaceToken_childrenSlot ha, ih hn]
  unfold substituteBody
  split
  · rename_i hempty
    obtain ⟨name, attrs, line⟩ := usage
    obtain rfl := he (List.isEmpty_iff.1 hempty)
    rfl
  · simp [visitTags, Node.visitTags, mapTexts, Node.mapTexts, htext]

end ComponentMarkup
