import ComponentMarkup.Proofs.Component.Made
import ComponentMarkup.Proofs.Component.Placeholders
import ComponentMarkup.Proofs.Expansion.Outcome
import Mathlib

set_option autoImplicit false

namespace ComponentMarkup

def isTextMark (c : Char) : Bool := c == '$'

def isValueMark (c : Char) : Bool := c == '$' || c == '!'

theorem marksApart_isTextMark : MarksApart isTextMark := by
  intro c hc
  obtain rfl : c = '$' := by simpa [isTextMark] using hc
  decide

theorem marksApart_isValueMark : MarksApart isValueMark := by
  intro c hc
  simp only [isValueMark, Bool.or_eq_true, beq_iff_eq] at hc
  rcases hc with rfl | rfl
  · decide
  · decide

namespace Argument

def inText (a : Argument) : Replacement := ⟨'$', a.parameter.name, a.value.getD []⟩

/-- An attribute value knows a second mark, which stays where the argument has no value. -/
def inValue (a : Argument) : List Replacement :=
  a.inText :: (a.value.map fun value => ⟨'!', a.parameter.name, value⟩).toList

theorem substitute_eq (a : Argument) (text : List Char) :
    a.substitute text = replaceEach a.inValue text := by
  unfold substitute inValue inText
  cases a.value with
  | none => rfl
  | some value => rfl

theorem token_inValue {a : Argument} {r : Replacement} (h : r ∈ a.inValue) :
    isValueMark r.mark = true ∧ r.name = a.parameter.name := by
  unfold inValue at h
  rcases List.mem_cons.1 h with rfl | h
  · exact ⟨rfl, rfl⟩
  · obtain ⟨value, -, rfl⟩ := Option.map_eq_some_iff.1 (Option.mem_toList.1 h)
    exact ⟨rfl, rfl⟩

end Argument

def textReplacements (arguments : List Argument) : List Replacement := arguments.map Argument.inText

def valueReplacements (arguments : List Argument) : List Replacement :=
  arguments.flatMap Argument.inValue

def writeText (arguments : List Argument) (text : List Char) : List Char :=
  replaceAtOnce isTextMark (textReplacements arguments) text

def writeAttribute (arguments : List Argument) (attr : Attribute) : Option Attribute :=
  match arguments.find? (fun a => attr.name == a.parameter.placeholder) with
  | some a => a.value.map fun value =>
      ⟨a.parameter.name, if value.isEmpty then none else some value⟩
  | none =>
    match attr.value with
    | none => some attr
    | some value =>
      let value := replaceAtOnce isValueMark (valueReplacements arguments) value
      if allBlank value then none else some ⟨attr.name, some value⟩

def writeTag (arguments : List Argument) (tag : Tag) : Tag :=
  { tag with attrs := tag.attrs.filterMap (writeAttribute arguments) }

def writeBody (arguments : List Argument) (body : List Node) : List Node :=
  if arguments.isEmpty then body
  else mapTexts (writeText arguments)
    (visitTags (fun tag (_ : Unit) => (writeTag arguments tag, ())) body ()).1

/-- No token of the body is made or broken as values are put in. An attribute named by a token is
not read for others. -/
structure UndisturbedBody (arguments : List Argument) (body : List Node) : Prop where
  texts : ∀ text ∈ texts body, Undisturbed isTextMark (textReplacements arguments) text
  values : ∀ tag ∈ tags body, ∀ attr ∈ tag.attrs,
    (∀ a ∈ arguments, attr.name ≠ a.parameter.placeholder) → ∀ value ∈ attr.value,
      Undisturbed isValueMark (valueReplacements arguments) value

/-- Arguments of parameters with different names, all of which a token can hold. -/
structure Distinct (arguments : List Argument) : Prop where
  nodup : (arguments.map (·.parameter.name)).Nodup
  names : ∀ a ∈ arguments, ∀ c ∈ a.parameter.name, isNameChar c = true

theorem Distinct.tail {a : Argument} {arguments : List Argument} (h : Distinct (a :: arguments)) :
    Distinct arguments :=
  ⟨(List.nodup_cons.1 h.nodup).2, fun b hb => h.names b (List.mem_cons_of_mem _ hb)⟩

theorem Distinct.nodup_textReplacements {arguments : List Argument} (h : Distinct arguments) :
    ((textReplacements arguments).map Replacement.token).Nodup := by
  have hinj : ∀ a ∈ arguments, ∀ b ∈ arguments, a.inText.token = b.inText.token → a = b := by
    intro a ha b hb he
    refine List.inj_on_of_nodup_map h.nodup ha hb ?_
    exact (TextPart.run.inj he).2
  unfold textReplacements
  rw [List.map_map]
  exact h.nodup.of_map.map_on hinj

theorem Distinct.nodup_valueReplacements {arguments : List Argument} (h : Distinct arguments) :
    ((valueReplacements arguments).map Replacement.token).Nodup := by
  induction arguments with
  | nil => exact List.nodup_nil
  | cons a arguments ih =>
    have hown : (a.inValue.map Replacement.token).Nodup := by
      unfold Argument.inValue
      cases a.value with
      | none => simp
      | some value => simp [Replacement.token, Argument.inText]
    have hrest := ih h.tail
    unfold valueReplacements at hrest ⊢
    rw [List.flatMap_cons, List.map_append]
    refine List.nodup_append.2 ⟨hown, hrest, ?_⟩
    rintro t ht _ ht' rfl
    obtain ⟨r, hr, rfl⟩ := List.mem_map.1 ht
    obtain ⟨r', hr', he⟩ := List.mem_map.1 ht'
    obtain ⟨b, hb, hr'⟩ := List.mem_flatMap.1 hr'
    have hname : b.parameter.name = a.parameter.name := by
      rw [← (Argument.token_inValue hr).2, ← (Argument.token_inValue hr').2]
      exact (TextPart.run.inj he).2
    exact (List.nodup_cons.1 h.nodup).1 (List.mem_map.2 ⟨b, hb, hname⟩)

theorem foldl_substituteText {arguments : List Argument} (hd : Distinct arguments)
    {text : List Char} (h : Undisturbed isTextMark (textReplacements arguments) text) :
    arguments.foldl (fun text a => a.substituteText text) text = writeText arguments text := by
  unfold writeText
  rw [← replaceEach_eq marksApart_isTextMark h hd.nodup_textReplacements]
  · unfold replaceEach textReplacements
    rw [List.foldl_map]
    rfl
  · intro r hr
    obtain ⟨a, ha, rfl⟩ := List.mem_map.1 hr
    exact ⟨rfl, hd.names a ha⟩

theorem foldl_substitute {arguments : List Argument} (hd : Distinct arguments) {value : List Char}
    (h : Undisturbed isValueMark (valueReplacements arguments) value) :
    arguments.foldl (fun value a => a.substitute value) value =
      replaceAtOnce isValueMark (valueReplacements arguments) value := by
  rw [← replaceEach_eq marksApart_isValueMark h hd.nodup_valueReplacements]
  · unfold replaceEach valueReplacements
    rw [List.foldl_flatMap]
    simp only [Argument.substitute_eq, replaceEach]
  · intro r hr
    obtain ⟨a, ha, hr⟩ := List.mem_flatMap.1 hr
    obtain ⟨hm, hn⟩ := Argument.token_inValue hr
    exact ⟨hm, hn ▸ hd.names a ha⟩

theorem visitTags_congr {σ : Type} {f g : Tag → σ → Tag × σ} (nodes : List Node)
    (h : ∀ tag ∈ tags nodes, ∀ s, f tag s = g tag s) (s : σ) :
    visitTags f nodes s = visitTags g nodes s := by
  induction nodes using nodes_induction generalizing s with
  | nil => rfl
  | element tag children rest hc hr =>
    simp only [tags, Node.tags, List.mem_cons, List.mem_append] at h
    simp only [visitTags, Node.visitTags, h tag (.inl (.inl rfl)),
      hc fun tag ht => h tag (.inl (.inr ht)), hr fun tag ht => h tag (.inr ht)]
  | text chars rest hr =>
    simp only [visitTags, Node.visitTags, hr h]
  | comment body rest hr =>
    simp only [visitTags, Node.visitTags, hr h]
  | doctype body rest hr =>
    simp only [visitTags, Node.visitTags, hr h]

theorem texts_visitTags {σ : Type} (f : Tag → σ → Tag × σ) (nodes : List Node) (s : σ) :
    texts (visitTags f nodes s).1 = texts nodes := by
  induction nodes using nodes_induction generalizing s with
  | nil => rfl
  | element tag children rest hc hr => simp [visitTags, Node.visitTags, texts, Node.texts, hc, hr]
  | text chars rest hr => simp [visitTags, Node.visitTags, texts, Node.texts, hr]
  | comment body rest hr => simp [visitTags, Node.visitTags, texts, Node.texts, hr]
  | doctype body rest hr => simp [visitTags, Node.visitTags, texts, Node.texts, hr]

theorem mapTexts_congr {f g : List Char → List Char} (nodes : List Node)
    (h : ∀ text ∈ texts nodes, f text = g text) : mapTexts f nodes = mapTexts g nodes := by
  induction nodes using nodes_induction with
  | nil => rfl
  | element tag children rest hc hr =>
    simp only [texts, Node.texts, List.mem_append] at h
    simp only [mapTexts, Node.mapTexts, hc fun t ht => h t (.inl ht), hr fun t ht => h t (.inr ht)]
  | text chars rest hr =>
    simp only [texts, Node.texts, List.singleton_append, List.mem_cons] at h
    simp only [mapTexts, Node.mapTexts, h chars (.inl rfl), hr fun t ht => h t (.inr ht)]
  | comment body rest hr => simp only [mapTexts, Node.mapTexts, hr h]
  | doctype body rest hr => simp only [mapTexts, Node.mapTexts, hr h]

/-- Arguments that are put in one after the other are put in at once. -/
theorem substituteBody_eq {arguments : List Argument} (hd : Distinct arguments) {body : List Node}
    (h : UndisturbedBody arguments body) :
    substituteBody arguments body = writeBody arguments body := by
  have htag : ∀ tag ∈ tags body, ∀ s : Unit,
      ({ tag with attrs := tag.attrs.filterMap (substituteAttribute arguments) }, ()) =
        (writeTag arguments tag, s) := by
    intro tag ht s
    have hattr : ∀ attr ∈ tag.attrs,
        substituteAttribute arguments attr = writeAttribute arguments attr := by
      intro attr ha
      unfold substituteAttribute writeAttribute
      cases hf : arguments.find? (fun a => attr.name == a.parameter.placeholder) with
      | some a => rfl
      | none =>
        have hnone : ∀ a ∈ arguments, attr.name ≠ a.parameter.placeholder := by
          simpa using hf
        cases hv : attr.value with
        | none => rfl
        | some value => simp only [foldl_substitute hd (h.values tag ht attr ha hnone value hv)]
    rw [writeTag, List.filterMap_congr hattr]
  unfold substituteBody writeBody
  rw [visitTags_congr body htag]
  refine if_congr Iff.rfl rfl (mapTexts_congr _ fun text ht => ?_)
  rw [texts_visitTags] at ht
  exact foldl_substituteText hd (h.texts text ht)

theorem writeBody_perm {arguments arguments' : List Argument} (hp : arguments.Perm arguments')
    (hd : Distinct arguments) (body : List Node) :
    writeBody arguments body = writeBody arguments' body := by
  have htexts : (textReplacements arguments).Perm (textReplacements arguments') :=
    hp.map Argument.inText
  have hvalues : (valueReplacements arguments).Perm (valueReplacements arguments') :=
    hp.flatMap_right Argument.inValue
  have htext : writeText arguments = writeText arguments' := by
    funext text
    exact replaceAtOnce_perm htexts hd.nodup_textReplacements text
  have hattr : writeAttribute arguments = writeAttribute arguments' := by
    funext attr
    unfold writeAttribute
    simp only [replaceAtOnce_perm hvalues hd.nodup_valueReplacements]
    rw [List.find?_eq_find?_of_perm hp]
    rintro a ⟨ha, h⟩ b ⟨hb, h'⟩
    refine List.inj_on_of_nodup_map hd.nodup ha hb ?_
    simp only [beq_iff_eq] at h h'
    exact (List.cons.inj (h.symm.trans h')).2
  have hempty : arguments.isEmpty = arguments'.isEmpty := by
    rw [Bool.eq_iff_iff, List.isEmpty_iff, List.isEmpty_iff]
    exact ⟨fun h => (h ▸ hp).nil_eq.symm, fun h => (h ▸ hp).eq_nil⟩
  unfold writeBody writeTag
  rw [htext, hattr, hempty]

def Parameter.argument (attrs : List Attribute) (p : Parameter) : Argument :=
  ⟨p, ((attrs.find? (·.name == p.name)).map Attribute.text).or p.byDefault⟩

theorem Argument.bind_eq_ok {tag : List Char} {p : Parameter} {attrs : List Attribute}
    {a : Argument} (h : Argument.bind tag p attrs = .ok a) : a = p.argument attrs := by
  unfold Argument.bind at h
  unfold Parameter.argument
  split at h
  · rename_i value hv
    cases h
    rw [hv]
  · rename_i hv
    split at h
    · cases h
      rw [hv]
    · cases h

theorem mapM_bind_eq_ok {tag : List Char} {attrs : List Attribute} {ps : List Parameter}
    {arguments : List Argument} :
    ps.mapM (Argument.bind tag · attrs) = .ok arguments ↔
      (∀ p ∈ ps, Argument.bind tag p attrs = .ok (p.argument attrs)) ∧
        arguments = ps.map (·.argument attrs) := by
  induction ps generalizing arguments with
  | nil =>
    simp only [List.mapM_nil, List.map_nil, List.not_mem_nil, false_implies, implies_true, true_and]
    exact ⟨fun h => by cases h; rfl, fun h => by rw [h]; rfl⟩
  | cons p ps ih =>
    rw [List.mapM_cons, List.forall_mem_cons, List.map_cons]
    cases hp : Argument.bind tag p attrs with
    | error e =>
      refine ⟨fun h => ?_, fun h => ?_⟩
      · cases h
      · cases h.1.1
    | ok a =>
      obtain rfl := Argument.bind_eq_ok hp
      cases hps : ps.mapM (Argument.bind tag · attrs) with
      | error e =>
        refine ⟨fun h => ?_, fun h => ?_⟩
        · cases h
        · have := ih.2 ⟨h.1.2, rfl⟩
          rw [hps] at this
          cases this
      | ok as =>
        obtain ⟨hall, rfl⟩ := ih.1 hps
        refine ⟨fun h => ?_, fun h => ?_⟩
        · cases h
          exact ⟨⟨rfl, hall⟩, rfl⟩
        · rw [h.2]
          rfl

theorem bindArguments_perm {tag : List Char} {attrs : List Attribute} {ps ps' : List Parameter}
    {arguments : List Argument} (hp : ps.Perm ps')
    (h : bindArguments tag ps attrs = .ok arguments) :
    ∃ arguments', bindArguments tag ps' attrs = .ok arguments' ∧ arguments.Perm arguments' := by
  have hany : ∀ n, ps.any (·.name == n) = ps'.any (·.name == n) := fun n => hp.any_eq
  unfold bindArguments at h ⊢
  simp only [hany] at h ⊢
  split at h
  · rename_i hextra
    obtain ⟨hall, rfl⟩ := mapM_bind_eq_ok.1 h
    rw [if_pos hextra]
    have hall' : ∀ p ∈ ps', Argument.bind tag p attrs = .ok (p.argument attrs) :=
      fun p hp' => hall p (hp.mem_iff.2 hp')
    exact ⟨_, mapM_bind_eq_ok.2 ⟨hall', rfl⟩, hp.map _⟩
  · cases h

theorem parameters_of_bindArguments {tag : List Char} {attrs : List Attribute} {ps : List Parameter}
    {arguments : List Argument} (h : bindArguments tag ps attrs = .ok arguments) :
    arguments.map Argument.parameter = ps := by
  simp only [bindArguments] at h
  split at h
  · obtain ⟨-, rfl⟩ := mapM_bind_eq_ok.1 h
    rw [List.map_map]
    exact List.map_id ps
  · cases h

theorem bind_eq_ok {ε α β : Type} {x : Except ε α} {f : α → Except ε β} {b : β} :
    x >>= f = .ok b ↔ ∃ a, x = .ok a ∧ f a = .ok b := by
  cases x with
  | error e => exact ⟨nofun, nofun⟩
  | ok a => exact ⟨fun h => ⟨a, rfl, h⟩, fun ⟨_, ha, h⟩ => by cases ha; exact h⟩

theorem nodup_readDeclarations {ds : List (List Char)} {found ps : List Parameter}
    (h : readDeclarations found ds = .ok ps) (hf : (found.map Parameter.name).Nodup) :
    (ps.map Parameter.name).Nodup := by
  -- the names found so far stay different
  induction ds generalizing found with
  | nil =>
    cases h
    exact hf
  | cons d ds ih =>
    rw [readDeclarations] at h
    split at h
    · cases h
    · refine ih h ?_
      split
      · exact hf
      · rename_i hnew
        rw [List.map_append]
        refine List.nodup_append.2 ⟨hf, List.nodup_singleton _, ?_⟩
        intro n hn n' hn' he
        obtain ⟨p, hp, rfl⟩ := List.mem_map.1 hn
        simp only [List.map_cons, List.map_nil, List.mem_singleton] at hn'
        exact hnew (List.any_eq_true.2 ⟨p, hp, by simp [he, hn']⟩)

theorem Definition.nodup_parameters {s : Source} {imports : Imports} {d : Definition}
    (h : Definition.ofSource s imports = .ok d) : (d.parameters.map Parameter.name).Nodup := by
  obtain ⟨declarations, hd⟩ := Definition.exists_declarations h
  exact nodup_readDeclarations hd List.nodup_nil

theorem UndisturbedBody.perm {arguments arguments' : List Argument} {body : List Node}
    (h : UndisturbedBody arguments body) (hp : arguments.Perm arguments')
    (hd : Distinct arguments) :
    UndisturbedBody arguments' body where
  texts text ht := (h.texts text ht).perm (hp.map Argument.inText) hd.nodup_textReplacements
  values tag ht attr ha hn value hv :=
    (h.values tag ht attr ha (fun a ha => hn a (hp.mem_iff.1 ha)) value hv).perm
      (hp.flatMap_right Argument.inValue) hd.nodup_valueReplacements

theorem Definition.instantiate_eq (d : Definition) (template : Element) (tag : Tag) :
    d.instantiate template tag =
      (bindArguments tag.name d.parameters (usageAttributes tag)).map
        (substituteBody · template.children) := by
  unfold instantiate
  cases bindArguments tag.name d.parameters (usageAttributes tag) with
  | error e => rfl
  | ok arguments => rfl

/-- A usage that binds puts every value where the template has its token, whatever the order of the
parameters. What is put in is then read for identifiers, for usages and for the slot of the children
like the template's own text. -/
theorem instantiate_at_once {source : Source} {imports : Imports} {d : Definition}
    (hd : Definition.ofSource source imports = .ok d)
    (hn : ∀ p ∈ d.parameters, ∀ c ∈ p.name, isNameChar c = true)
    {template : Element} (ht : d.template = some template) {tag : Tag} {arguments : List Argument}
    (hb : bindArguments tag.name d.parameters (usageAttributes tag) = .ok arguments)
    (hu : UndisturbedBody arguments template.children)
    {ps : List Parameter} (hp : ps.Perm d.parameters) :
    { d with parameters := ps }.instantiate template tag =
      .ok (writeBody arguments template.children) ∧
    ∀ file children, { d with parameters := ps }.use file tag children =
      Expansion.locate file tag.line do
        let body ← Expansion.identify (writeBody arguments template.children)
        let body ← expand d.imports d.path body
        return fillSlots children body := by
  obtain ⟨arguments', hb', hperm⟩ := bindArguments_perm hp.symm hb
  have hparams := parameters_of_bindArguments hb
  have hdist : Distinct arguments := by
    refine ⟨?_, fun a ha => hn _ (hparams ▸ List.mem_map_of_mem ha)⟩
    have hnodup := Definition.nodup_parameters hd
    rw [← hparams, List.map_map] at hnodup
    exact hnodup
  -- another order binds the same arguments in that order
  have hdist' : Distinct arguments' :=
    ⟨(hperm.map _).nodup_iff.1 hdist.nodup, fun a ha => hdist.names a (hperm.mem_iff.2 ha)⟩
  have hu' : UndisturbedBody arguments' template.children := hu.perm hperm hdist
  have hi : { d with parameters := ps }.instantiate template tag =
      .ok (writeBody arguments template.children) := by
    unfold Definition.instantiate
    simp only [hb', writeBody_perm hperm hdist]
    rw [← substituteBody_eq hdist' hu']
    rfl
  refine ⟨hi, fun file children => ?_⟩
  simp only [Definition.use, ht]
  rw [ht] at hi
  rw [hi]
  rfl

/-- A price behind a bare dollar, and a token without a value. -/
theorem instantiate_at_once_price :
    let template : Element :=
      ⟨⟨"template".toList, [⟨"args".toList, some ['a', ' ', '?', 'b']⟩], 1⟩,
        [.element ⟨['p'], [⟨['t'], some ['$', 'a', ' ', '!', 'a']⟩], 1⟩
          [.text ['$', '$', 'a', '$', 'b']]]⟩
    let a : Parameter := ⟨['a'], false, none⟩
    let b : Parameter := ⟨['b'], true, none⟩
    let d : Definition := ⟨⟨"/c".toList⟩, [], some template, [a, b], [], []⟩
    Definition.ofSource ⟨⟨"/c".toList⟩, [template.toNode]⟩ [] = .ok d ∧
    { d with parameters := [b, a] }.instantiate template ⟨['c'], [⟨['A'], some ['5']⟩], 1⟩ =
      .ok [.element ⟨['p'], [⟨['t'], some ['5', ' ', '5']⟩], 1⟩ [.text ['$', '5']]] := by
  have htext : textParts isTextMark ['$', '$', 'a', '$', 'b'] =
      [.run '$' [], .run '$' ['a'], .run '$' ['b']] := by cbv
  have hvalue : textParts isValueMark ['$', 'a', ' ', '!', 'a'] =
      [.run '$' ['a'], .char ' ', .run '!' ['a']] := by cbv
  have hfive :
      textParts isTextMark ['5'] = [.char '5'] ∧ textParts isValueMark ['5'] = [.char '5'] :=
    ⟨by cbv, by cbv⟩
  have hname : isNameChar '5' = true := by decide
  have hu : UndisturbedBody [⟨⟨['a'], false, none⟩, some ['5']⟩, ⟨⟨['b'], true, none⟩, none⟩]
      [.element ⟨['p'], [⟨['t'], some ['$', 'a', ' ', '!', 'a']⟩], 1⟩
        [.text ['$', '$', 'a', '$', 'b']]] := by
    constructor
    · intro text ht
      obtain rfl := List.mem_singleton.1 ht
      constructor
      · simp [htext, hfive, hname, KeepsTokens, Keeps, valueOf, textReplacements, Argument.inText,
          Replacement.token]
      · simp [htext, hfive, valueOf, textReplacements, Argument.inText, Replacement.token]
    · intro tag ht attr ha _ value hv
      obtain rfl := List.mem_singleton.1 ht
      obtain rfl := List.mem_singleton.1 ha
      obtain rfl := Option.some.inj hv
      constructor
      · simp [hvalue, KeepsTokens, Keeps, valueOf, valueReplacements, Argument.inText,
          Argument.inValue, Replacement.token]
      · simp [hvalue, hfive, valueOf, valueReplacements, Argument.inText, Argument.inValue,
          Replacement.token]
  have hbody : writeBody [⟨⟨['a'], false, none⟩, some ['5']⟩, ⟨⟨['b'], true, none⟩, none⟩]
      [.element ⟨['p'], [⟨['t'], some ['$', 'a', ' ', '!', 'a']⟩], 1⟩
        [.text ['$', '$', 'a', '$', 'b']]] =
      [.element ⟨['p'], [⟨['t'], some ['5', ' ', '5']⟩], 1⟩ [.text ['$', '5']]] := by cbv
  intro template a b d
  have hd : Definition.ofSource ⟨⟨"/c".toList⟩, [template.toNode]⟩ [] = .ok d := rfl
  have hb : bindArguments ['c'] [a, b] [⟨['a'], some ['5']⟩] =
      .ok [⟨a, some ['5']⟩, ⟨b, none⟩] := rfl
  have hletters : isNameChar 'a' = true ∧ isNameChar 'b' = true := by decide
  have hn : ∀ p ∈ d.parameters, ∀ c ∈ p.name, isNameChar c = true := by
    simp [d, a, b, hletters]
  refine ⟨hd, ?_⟩
  exact (instantiate_at_once hd hn rfl hb hu (.swap a b [])).1.trans (congrArg _ hbody)

/-- Arguments are put in one after the other, so values that run together with tokens, or hold
tokens of later arguments, make the result depend on the order; and values are read for identifiers
and for the slot. -/
theorem instantiate_not_verbatim :
    let template (value text : List Char) : Element :=
      ⟨⟨"template".toList, [], 1⟩, [.element ⟨['p'], [⟨['t'], some value⟩], 1⟩ [.text text]]⟩
    let a : Parameter := ⟨['a'], false, none⟩
    let b : Parameter := ⟨['b'], false, none⟩
    let component (ps : List Parameter) (value text : List Char) : Definition :=
      ⟨⟨"/c".toList⟩, [], some (template value text), ps, [], []⟩
    let usage (x y : List Char) : Tag := ⟨['c'], [⟨['a'], some x⟩, ⟨['b'], some y⟩], 1⟩
    let result (value text : List Char) : List Node :=
      [.element ⟨['p'], [⟨['t'], some value⟩], 1⟩ [.text text]]
    -- two tokens side by side, and a value that is a token
    (component [b, a] ['x'] ['$', 'a', '$', 'b']).instantiate (template ['x'] ['$', 'a', '$', 'b'])
      (usage ['x'] ['y']) = .ok (result ['x'] ['$', 'a', 'y']) ∧
    (component [a, b] ['x'] ['$', 'a', '$', 'b']).instantiate (template ['x'] ['$', 'a', '$', 'b'])
      (usage ['x'] ['y']) = .ok (result ['x'] ['x', 'y']) ∧
    (component [a, b] ['x'] ['$', 'a']).instantiate (template ['x'] ['$', 'a'])
      (usage ['$', 'b'] ['y']) = .ok (result ['x'] ['y']) ∧
    -- values that hold a mark of an identifier, and the slot
    ((component [a] ['$', 'a'] ['z']).use ⟨['/']⟩ ⟨['c'], [⟨['a'], some ['!', 'x']⟩], 1⟩ []).run 0 =
      (.ok (result ['A'] ['z']), 1) ∧
    ((component [a] ['x'] ['$', 'a']).use ⟨['/']⟩
      ⟨['c'], [⟨['a'], some "$children".toList⟩], 1⟩ [.text ['z']]).run 0 =
      (.ok (result ['x'] ['z']), 0) := by
  refine ⟨?_, ?_, ?_, ?_, ?_⟩
  · cbv
  · cbv
  · cbv
  · cbv
  · cbv

end ComponentMarkup
