import ComponentMarkup.Proofs.Component.Arguments
import ComponentMarkup.Proofs.Component.Made
import ComponentMarkup.Proofs.Component.Naming
import ComponentMarkup.Proofs.Expansion.Failure
import ComponentMarkup.Proofs.Loading.Equations
import ComponentMarkup.Proofs.Markup.ParsedShape
import ComponentMarkup.Proofs.Markup.PieceReading

set_option autoImplicit false

namespace ComponentMarkup

def Tag.attributeNames (t : Tag) : List (List Char) := t.attrs.map Attribute.name

/-- One attribute is to take the name of an argument that has a value, and another one has that name. -/
def Tag.Clashes (t : Tag) (arguments : List Argument) : Prop :=
  ∃ x ∈ arguments, x.value ≠ none ∧ x.parameter.placeholder ∈ t.attributeNames ∧
    x.parameter.name ∈ t.attributeNames

theorem name_of_substituteAttribute {arguments : List Argument} {a b : Attribute}
    (h : substituteAttribute arguments a = some b) :
    (∃ x ∈ arguments, x.value ≠ none ∧ a.name = x.parameter.placeholder ∧
        b.name = x.parameter.name) ∨ b.name = a.name := by
  unfold substituteAttribute at h
  split at h
  · rename_i x hx
    obtain ⟨value, hvalue, rfl⟩ := Option.map_eq_some_iff.1 h
    refine .inl ⟨x, List.mem_of_find?_eq_some hx, ?_, by simpa using List.find?_some hx, rfl⟩
    exact Option.ne_none_iff_exists'.2 ⟨value, hvalue⟩
  · split at h
    · cases h
      exact .inr rfl
    · dsimp only at h
      split at h
      · cases h
      · cases h
        exact .inr rfl

theorem nodup_substituteAttribute {tag : Tag} {arguments : List Argument}
    (hd : tag.attributeNames.Nodup) (hc : ¬tag.Clashes arguments) :
    ((tag.attrs.filterMap (substituteAttribute arguments)).map Attribute.name).Nodup := by
  have hno : ∀ x ∈ arguments, x.value ≠ none → ∀ a ∈ tag.attrs, ∀ a' ∈ tag.attrs,
      a.name = x.parameter.placeholder → a'.name ≠ x.parameter.name := by
    intro x hx hvalue a ha a' ha' hname hname'
    refine hc ⟨x, hx, hvalue, ?_, ?_⟩
    · exact List.mem_map.2 ⟨a, ha, hname⟩
    · exact List.mem_map.2 ⟨a', ha', hname'⟩
  rw [Tag.attributeNames, List.Nodup, List.pairwise_map] at hd
  rw [List.Nodup, List.pairwise_map, List.pairwise_filterMap]
  refine hd.imp_of_mem fun {a a'} ha ha' hne b hb b' hb' he => ?_
  -- two that take their names are named by different placeholders; one that does meets no other
  rcases name_of_substituteAttribute hb with ⟨x, hx, hvx, hax, hbx⟩ | hba
  · rcases name_of_substituteAttribute hb' with ⟨y, hy, hvy, hay, hby⟩ | hba'
    · refine hne ?_
      rw [hax, hay, Parameter.placeholder, Parameter.placeholder, ← hbx, ← hby, he]
    · exact hno x hx hvx a ha a' ha' hax (hba' ▸ he ▸ hbx)
  · rcases name_of_substituteAttribute hb' with ⟨y, hy, hvy, hay, hby⟩ | hba'
    · exact hno y hy hvy a' ha' a ha hay (by rw [← hba, he, hby])
    · exact hne (by rw [← hba, he, hba'])

theorem exists_of_mem_tags_visitTags {σ : Type} {f : Tag → σ → Tag × σ} {nodes : List Node} {s : σ}
    {tag : Tag} (h : tag ∈ tags (visitTags f nodes s).1) :
    ∃ origin ∈ tags nodes, ∃ s, tag = (f origin s).1 := by
  induction nodes using nodes_induction generalizing s with
  | nil => simp [visitTags, tags] at h
  | element head children rest hc hr =>
    simp only [visitTags, Node.visitTags, tags, Node.tags, List.cons_append, List.mem_cons,
      List.mem_append] at h ⊢
    rcases h with h | h | h
    · exact ⟨head, .inl rfl, s, h⟩
    · obtain ⟨origin, ho, he⟩ := hc h
      exact ⟨origin, .inr (.inl ho), he⟩
    · obtain ⟨origin, ho, he⟩ := hr h
      exact ⟨origin, .inr (.inr ho), he⟩
  | text chars rest hr => exact hr h
  | comment body rest hr => exact hr h
  | doctype body rest hr => exact hr h

theorem exists_of_mem_tags_identifyBody {body : List Node} {next : Nat} {tag : Tag}
    (h : tag ∈ tags (identifyBody body next).1) :
    ∃ origin ∈ tags body, origin.name = tag.name ∧ origin.line = tag.line ∧
      origin.attributeNames = tag.attributeNames := by
  rw [identifyBody_eq] at h
  obtain ⟨origin, ho, -, rfl⟩ := exists_of_mem_tags_visitTags h
  refine ⟨origin, ho, rfl, rfl, ?_⟩
  simp [Tag.nameTokens, Tag.attributeNames, Attribute.nameTokens]

theorem exists_of_mem_tags_substituteBody {arguments : List Argument} {body : List Node} {tag : Tag}
    (h : tag ∈ tags (substituteBody arguments body)) :
    tag ∈ tags body ∨ ∃ origin ∈ tags body,
      tag = { origin with attrs := origin.attrs.filterMap (substituteAttribute arguments) } := by
  unfold substituteBody at h
  split at h
  · exact .inl h
  · rw [tags_mapTexts] at h
    obtain ⟨origin, ho, -, he⟩ := exists_of_mem_tags_visitTags h
    exact .inr ⟨origin, ho, he⟩

/-- An element of a usage's body is made of one of the template's: it has the attributes that the
arguments leave of those written there. -/
def Tag.IsMadeOf (tag origin : Tag) (arguments : List Argument) : Prop :=
  origin.name = tag.name ∧ origin.line = tag.line ∧
    tag.attributeNames = (origin.attrs.filterMap (substituteAttribute arguments)).map Attribute.name

theorem nodup_or_isMadeOf {arguments : List Argument} {template : Element}
    (ht : ∀ tag ∈ tags template.children, tag.attributeNames.Nodup) {next : Nat} {tag : Tag}
    (h : tag ∈ tags (identifyBody (substituteBody arguments template.children) next).1) :
    tag.attributeNames.Nodup ∨ ∃ origin ∈ tags template.children,
      tag.IsMadeOf origin arguments ∧ origin.Clashes arguments := by
  obtain ⟨substituted, hs, hname, hline, hnames⟩ := exists_of_mem_tags_identifyBody h
  rcases exists_of_mem_tags_substituteBody hs with hs | ⟨origin, ho, rfl⟩
  · exact .inl (hnames ▸ ht _ hs)
  by_cases hc : origin.Clashes arguments
  · exact .inr ⟨origin, ho, ⟨hname, hline, hnames.symm⟩, hc⟩
  · exact .inl (hnames ▸ nodup_substituteAttribute (ht _ ho) hc)

/-- What holds of the tags of the nodes, and of each body of a usage that is expanded, holds of the
expansion's. -/
theorem expand_tags {P : Tag → Prop} {imports : Imports} {nodes : List Node} {file : Path}
    (hb : ∀ file' d template usage body, BindsUsage imports file nodes file' usage d →
      d.template = some template → d.instantiate template usage = .ok body →
      ∀ next, ∀ tag ∈ tags (identifyBody body next).1, P tag)
    (hn : ∀ tag ∈ tags nodes, P tag) :
    (expand imports file nodes).Gives (fun out => ∀ tag ∈ tags out, P tag) fun _ => True := by
  induction imports, nodes using expansion_induction generalizing file with
  | nil imports =>
    rw [expand_nil]
    exact .pure hn
  | other imports n rest he hr =>
    have htags : ∀ ns, tags (n :: ns) = tags ns := by
      intro ns
      cases n with
      | element tag children => cases he
      | text chars => rfl
      | comment body => rfl
      | doctype body => rfl
    rw [htags] at hn
    rw [expand_other _ _ he]
    have hrest := hr (fun file' d template usage body hbinds =>
      hb file' d template usage body (hbinds.mono (htags rest ▸ fun _ h => h))) hn
    refine hrest.bind fun out ho => .pure ?_
    rwa [htags]
  | element imports tag children rest hc hr hbody =>
    simp only [tags, Node.tags, List.cons_append, List.forall_mem_cons,
      List.forall_mem_append] at hn
    obtain ⟨htag, hchildren, hrest⟩ := hn
    have hmem : tag ∈ tags (.element tag children :: rest) := by simp [tags, Node.tags]
    rw [expand_element]
    have hinner := hc (fun file' d template usage body hbinds =>
      hb file' d template usage body (hbinds.mono (by simp +contextual [tags, Node.tags]))) hchildren
    refine hinner.bind fun inner hinner => ?_
    have hstand : (imports.stand file tag inner).Gives (fun out => ∀ tag ∈ tags out, P tag)
        fun _ => True := by
      unfold Imports.stand
      split
      · refine .pure ?_
        simp only [tags, Node.tags, List.append_nil, List.forall_mem_cons]
        exact ⟨htag, hinner⟩
      · rename_i d hd
        refine Definition.gives_use (by simp [tags]) (fun template body ht hi next => ?_) file
        have hpart := hb file d template tag body (.here hmem hd) ht hi next
        have hin := hbody d _ hd (fun file' d' template' usage body' hbinds =>
          hb file' d' template' usage body' (.within next hmem hd ht hi hbinds)) hpart
        exact hin.mono (fun out hout t hm => (tags_fillSlots out hm).elim (hout t) (hinner t))
          fun _ h => h
    have hlast := hr (fun file' d template usage body hbinds =>
      hb file' d template usage body (hbinds.mono (by simp +contextual [tags, Node.tags]))) hrest
    refine hstand.bind fun output hout => hlast.bind fun last hlast => .pure ?_
    rw [tags_append, List.forall_mem_append]
    exact ⟨hout, hlast⟩

theorem BindsUsage.reaches {imports : Imports} {nodes : List Node} {file file' : Path} {tag : Tag}
    {d : Definition} (h : BindsUsage imports file nodes file' tag d) : imports.Reaches d := by
  induction h with
  | here _ hd => exact .direct hd
  | within _ _ hd _ _ _ ih => exact .through hd ih

def IsParsed (nodes : List Node) : Prop :=
  ∃ text, nodes = parse text ∨ nodes = (takeElements importName (parse text)).1

theorem IsParsed.nodup {nodes : List Node} (h : IsParsed nodes) :
    ∀ tag ∈ tags nodes, tag.attributeNames.Nodup := by
  obtain ⟨text, rfl | rfl⟩ := h
  · exact fun tag hm => ((shaped_parse text).tag tag hm).distinct
  · exact fun tag hm =>
      ((shaped_parse text).tag tag (tags_takeElements_subset _ _ tag hm)).distinct

def Imports.Parsed (imports : Imports) : Prop :=
  ∀ d, imports.Reaches d → ∃ s table, IsParsed s.nodes ∧ Definition.ofSource s table = .ok d

theorem Imports.Parsed.nodup {imports : Imports} (h : imports.Parsed) {d : Definition}
    {template : Element} (hd : imports.Reaches d) (ht : d.template = some template) :
    ∀ tag ∈ tags template.children, tag.attributeNames.Nodup := by
  obtain ⟨s, table, hs, hmade⟩ := h d hd
  have hpick := (Definition.madeFrom_of_ofSource hmade).template
  rw [ht] at hpick
  have hmem := (Source.mem_of_pickSingle hpick).1
  exact fun tag hm => hs.nodup tag (tags_subset_of_mem_elements hmem tag hm)

/-- An element of an expansion repeats no attribute, unless it comes from a usage that is expanded and
has an argument whose placeholder and whose name are both attributes of the element in the template
that it is made of. -/
theorem expand_attribute_names {imports : Imports} {nodes : List Node} (hi : imports.Parsed)
    (hn : IsParsed nodes) {file : Path} {next after : Nat} {out : List Node}
    (hr : (expand imports file nodes).run next = (.ok out, after)) :
    ∀ tag ∈ tags out, tag.attributeNames.Nodup ∨
      ∃ file' usage d template arguments n, BindsUsage imports file nodes file' usage d ∧
        d.template = some template ∧
        bindArguments usage.name d.parameters (usageAttributes usage) = .ok arguments ∧
        tag ∈ tags (identifyBody (substituteBody arguments template.children) n).1 ∧
        ∃ origin ∈ tags template.children, tag.IsMadeOf origin arguments ∧
          origin.Clashes arguments := by
  refine (expand_tags ?_ ?_).of_run hr
  · intro file' d template usage body hbinds ht hbody n tag hm
    obtain ⟨arguments, hb, hsubstituted⟩ := bind_eq_ok.1 hbody
    cases hsubstituted
    rcases nodup_or_isMadeOf (hi.nodup hbinds.reaches ht) hm with h | h
    · exact .inl h
    · exact .inr ⟨file', usage, d, template, arguments, n, hbinds, ht, hb, hm, h⟩
  · exact fun tag hm => .inl (hn.nodup tag hm)

theorem Imports.parsed_of_forall {imports : Imports}
    (h : ∀ i ∈ imports, (∃ s table, IsParsed s.nodes ∧ Definition.ofSource s table = .ok i.2) ∧
      Imports.Parsed i.2.imports) : imports.Parsed := by
  intro d hd
  cases hd with
  | direct hf => exact (h _ (Imports.mem_of_find? hf)).1
  | through hf hd => exact (h _ (Imports.mem_of_find? hf)).2 d hd

def repeating : Definition :=
  ⟨⟨"/c.html".toList⟩, [], some ⟨⟨"template".toList, [⟨"args".toList, some ['?', 'x']⟩], 1⟩,
    [.element ⟨['p'], [⟨['$', 'x'], none⟩, ⟨['x'], some ['1']⟩], 1⟩ []]⟩,
    [⟨['x'], true, none⟩], [], []⟩

theorem parsed_repeating : Imports.Parsed [(['c'], repeating)] := by
  have hparse : parse "<template args='?x'><p $x x='1'></p></template>".toList =
      [.element ⟨"template".toList, [⟨"args".toList, some ['?', 'x']⟩], 1⟩
        [.element ⟨['p'], [⟨['$', 'x'], none⟩, ⟨['x'], some ['1']⟩], 1⟩ []]] := by
    have h₁ : Token.next "<template args='?x'><p $x x='1'></p></template>".toList =
        some (⟨[], .tagOpen "template".toList, "<template".toList⟩,
          " args='?x'><p $x x='1'></p></template>".toList) := by cbv
    have ha : readAttributes .start " args='?x'><p $x x='1'></p></template>".toList =
        ⟨[⟨"args".toList, some ['?', 'x']⟩], false, " args='?x'>".toList,
          "<p $x x='1'></p></template>".toList⟩ := by cbv
    have h₂ : Token.next "<p $x x='1'></p></template>".toList =
        some (⟨[], .tagOpen ['p'], "<p".toList⟩, " $x x='1'></p></template>".toList) := by cbv
    have hp : readAttributes .start " $x x='1'></p></template>".toList =
        ⟨[⟨['$', 'x'], none⟩, ⟨['x'], some ['1']⟩], false, " $x x='1'>".toList,
          "</p></template>".toList⟩ := by cbv
    have h₃ : Token.next "</p></template>".toList =
        some (⟨[], .tagClose ['p'], "</p>".toList⟩, "</template>".toList) := by cbv
    have h₄ : Token.next "</template>".toList =
        some (⟨[], .tagClose "template".toList, "</template>".toList⟩, []) := by cbv
    rw [parse, pieces, TreeBuilder.readPieces_open h₁ ha rfl, TreeBuilder.readPieces_open h₂ hp rfl,
      TreeBuilder.readPieces_next h₃, TreeBuilder.readPieces_next h₄, TreeBuilder.readPieces_nil]
    rfl
  have hmade : Definition.ofSource (.ofText ⟨"/c.html".toList⟩
      "<template args='?x'><p $x x='1'></p></template>".toList) [] = .ok repeating := by
    rw [Source.ofText, hparse]
    rfl
  refine Imports.parsed_of_forall fun i hi => ?_
  obtain rfl := List.mem_singleton.1 hi
  refine ⟨⟨_, _, ⟨_, .inl rfl⟩, hmade⟩, Imports.parsed_of_forall ?_⟩
  simp [repeating]

/-- Without the argument its placeholder goes. -/
theorem expand_attribute_names_of_default :
    let imports : Imports := [(['c'], repeating)]
    let out : List Node := [.element ⟨['p'], [⟨['x'], some ['1']⟩], 1⟩ []]
    (expand imports ⟨"/page".toList⟩ [.element ⟨['c'], [], 1⟩ []]).run 0 = (.ok out, 0) ∧
      ∀ tag ∈ tags out, tag.attributeNames.Nodup ∨
        ∃ file' usage d template arguments n,
          BindsUsage imports ⟨"/page".toList⟩ [.element ⟨['c'], [], 1⟩ []] file' usage d ∧
          d.template = some template ∧
          bindArguments usage.name d.parameters (usageAttributes usage) = .ok arguments ∧
          tag ∈ tags (identifyBody (substituteBody arguments template.children) n).1 ∧
          ∃ origin ∈ tags template.children, tag.IsMadeOf origin arguments ∧
            origin.Clashes arguments := by
  intro imports out
  have hparse : parse "<c/>".toList = [.element ⟨['c'], [], 1⟩ []] := by
    have h : Token.next "<c/>".toList =
        some (⟨[], .tagOpen ['c'], "<c".toList⟩, "/>".toList) := by cbv
    have ha : readAttributes .start "/>".toList = ⟨[], true, "/>".toList, []⟩ := by cbv
    rw [parse, pieces, TreeBuilder.readPieces_open h ha rfl, TreeBuilder.readPieces_nil]
    rfl
  have hrun : (expand imports ⟨"/page".toList⟩ [.element ⟨['c'], [], 1⟩ []]).run 0 =
      (.ok out, 0) := by
    unfold imports out
    cbv
  exact ⟨hrun, expand_attribute_names parsed_repeating ⟨_, .inl hparse.symm⟩ hrun⟩

/-- The argument's name is the paragraph's own: the value given stands next to the one written. -/
theorem expand_repeated_attribute :
    let out : List Node := [.element ⟨['p'], [⟨['x'], some ['1']⟩, ⟨['x'], some ['1']⟩], 1⟩ []]
    Imports.Parsed [(['c'], repeating)] ∧ IsParsed [.element ⟨['c'], [⟨['x'], some ['1']⟩], 1⟩ []] ∧
      (expand [(['c'], repeating)] ⟨"/page".toList⟩
        [.element ⟨['c'], [⟨['x'], some ['1']⟩], 1⟩ []]).run 0 = (.ok out, 0) ∧
      ¬∀ tag ∈ tags out, tag.attributeNames.Nodup := by
  have hparse : parse "<c x='1'/>".toList = [.element ⟨['c'], [⟨['x'], some ['1']⟩], 1⟩ []] := by
    have h : Token.next "<c x='1'/>".toList =
        some (⟨[], .tagOpen ['c'], "<c".toList⟩, " x='1'/>".toList) := by cbv
    have ha : readAttributes .start " x='1'/>".toList =
        ⟨[⟨['x'], some ['1']⟩], true, " x='1'/>".toList, []⟩ := by cbv
    rw [parse, pieces, TreeBuilder.readPieces_open h ha rfl, TreeBuilder.readPieces_nil]
    rfl
  exact ⟨parsed_repeating, ⟨_, .inl hparse.symm⟩, by cbv, by decide⟩

end ComponentMarkup
