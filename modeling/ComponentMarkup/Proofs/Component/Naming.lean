import ComponentMarkup.Proofs.Component.Numbering

/-!
The identification of a template's body as a naming of its tokens. Main statements:
`identifyBody_eq`, every token of a body is replaced by what the site knows of it in the end, and
`Drawing.since_drawAll`, which identifiers these are.
-/

set_option autoImplicit false

namespace ComponentMarkup

inductive ValuePart where
  | plain (chars : List Char)
  | token (chars : List Char)
  deriving DecidableEq, Repr

/-- A name that ends elsewhere than before a blank or at the end makes no token. -/
def ValuePart.ofName (chars rest : List Char) : ValuePart :=
  if endsToken rest then .token chars else .plain chars

def valueParts : List Char → List ValuePart
  | [] => []
  | '!' :: c :: cs =>
    if c.isAlpha then
      .ofName ('!' :: c :: cs.takeWhile isTokenChar) (cs.dropWhile isTokenChar) ::
        valueParts (cs.dropWhile isTokenChar)
    else .plain ['!'] :: valueParts (c :: cs)
  | c :: cs => .plain [c] :: valueParts cs
termination_by value => value.length
decreasing_by
  · have := length_dropWhile_le isTokenChar cs
    simp only [List.length_cons]
    omega
  · simp
  · simp

def ValuePart.write (name : List Char → List Char) : ValuePart → List Char
  | .plain chars => chars
  | .token chars => name chars

def ValuePart.token? : ValuePart → Option (List Char)
  | .plain _ => none
  | .token chars => some chars

def tokensIn (value : List Char) : List (List Char) := (valueParts value).filterMap ValuePart.token?

def nameTokens (name : List Char → List Char) (value : List Char) : List Char :=
  (valueParts value).flatMap (ValuePart.write name)

namespace Drawing

def drawAll (d : Drawing) (tokens : List (List Char)) : Drawing :=
  tokens.foldl (fun d token => (d.identify token).2) d

@[simp] theorem drawAll_cons (d : Drawing) (token : List Char) (tokens : List (List Char)) :
    d.drawAll (token :: tokens) = (d.identify token).2.drawAll tokens := rfl

theorem drawAll_append (d : Drawing) (a b : List (List Char)) :
    d.drawAll (a ++ b) = (d.drawAll a).drawAll b := List.foldl_append

theorem lookup_drawAll_of_known {d : Drawing} {t id : List Char} (h : d.site.lookup t = some id)
    (tokens : List (List Char)) : (d.drawAll tokens).site.lookup t = some id := by
  induction tokens generalizing d with
  | nil => exact h
  | cons token tokens ih => exact ih (lookup_identify_of_known h token)

theorem exists_lookup_drawAll {t : List Char} {tokens : List (List Char)} (ht : t ∈ tokens)
    (d : Drawing) : ∃ id, (d.drawAll tokens).site.lookup t = some id := by
  induction tokens generalizing d with
  | nil => cases ht
  | cons token tokens ih =>
    rcases List.mem_cons.1 ht with rfl | ht
    · exact ⟨_, lookup_drawAll_of_known (lookup_identify d t) tokens⟩
    · exact ih ht _

/-- A site that was new when `first` was the next number. -/
structure Since (first : Nat) (d : Drawing) : Prop where
  le_next : first ≤ d.next
  numbered : Numbered first d.next (d.site.lookup ·)

theorem since_new (first : Nat) : Since first ⟨[], first⟩ :=
  ⟨Nat.le_refl _, fun _ _ h => by simp at h, fun _ _ _ h => by simp at h⟩

theorem Since.identify {first : Nat} {d : Drawing} (h : Since first d) (token : List Char) :
    Since first (d.identify token).2 := by
  cases hk : d.site.lookup token with
  | some known => rwa [identify_known hk]
  | none =>
    have hn : (d.identify token).2.next = d.next + 1 := by rw [identify_unknown hk]
    refine ⟨hn ▸ Nat.le_succ_of_le h.le_next, hn ▸ h.numbered.add h.le_next token ?_⟩
    intro t id ht
    rcases lookup_of_identify ht with ht | ⟨he, hid⟩
    · exact .inl ht
    · exact .inr ⟨he, hid⟩

theorem since_drawAll {first : Nat} {d : Drawing} (h : Since first d) (tokens : List (List Char)) :
    Since first (d.drawAll tokens) := by
  induction tokens generalizing d with
  | nil => exact h
  | cons token tokens ih => exact ih (h.identify token)

def NamedBy (d : Drawing) (name : List Char → List Char) : Prop :=
  ∀ t id, d.site.lookup t = some id → name t = id

theorem NamedBy.of_drawAll {d : Drawing} {tokens : List (List Char)} {name : List Char → List Char}
    (h : (d.drawAll tokens).NamedBy name) : d.NamedBy name :=
  fun t id hl => h t id (lookup_drawAll_of_known hl tokens)

end Drawing

def ValuePart.identify (p : ValuePart) (d : Drawing) : List Char × Drawing :=
  match p with
  | .plain chars => (chars, d)
  | .token chars => d.identify chars

def identifyParts : List ValuePart → Drawing → List Char × Drawing
  | [], d => ([], d)
  | p :: ps, d =>
    let (written, d) := p.identify d
    let (rest, d) := identifyParts ps d
    (written ++ rest, d)

theorem identifyTokens_eq_parts (value : List Char) (d : Drawing) :
    identifyTokens value d = identifyParts (valueParts value) d := by
  fun_induction valueParts value generalizing d with
  | case1 => simp [identifyTokens, identifyParts]
  | case2 c cs hc ih =>
    rw [identifyTokens, if_pos hc]
    by_cases he : endsToken (cs.dropWhile isTokenChar) = true
    · simp [ih, identifyParts, ValuePart.ofName, ValuePart.identify, he]
    · simp [ih, identifyParts, ValuePart.ofName, ValuePart.identify, he]
  | case3 c cs hc ih =>
    rw [identifyTokens, if_neg hc]
    simp [ih, identifyParts, ValuePart.identify]
  | case4 c cs hc ih =>
    rw [identifyTokens]
    · simp [ih, identifyParts, ValuePart.identify]
    · exact hc

theorem identifyParts_eq {name : List Char → List Char} (ps : List ValuePart) (d : Drawing)
    (h : (d.drawAll (ps.filterMap ValuePart.token?)).NamedBy name) :
    identifyParts ps d =
      (ps.flatMap (ValuePart.write name), d.drawAll (ps.filterMap ValuePart.token?)) := by
  -- the names are those of the end, so a token is named before the site has drawn for it
  induction ps generalizing d with
  | nil => rfl
  | cons p ps ih =>
    cases p with
    | plain chars =>
      rw [List.filterMap_cons_none (by rfl)] at h ⊢
      have hr := ih d h
      simp [identifyParts, ValuePart.identify, ValuePart.write, hr]
    | token chars =>
      rw [List.filterMap_cons_some (by rfl), Drawing.drawAll_cons] at h ⊢
      have hr := ih _ h
      have hn := h.of_drawAll chars _ (Drawing.lookup_identify d chars)
      simp [identifyParts, ValuePart.identify, ValuePart.write, hr, hn]

theorem identifyTokens_eq {name : List Char → List Char} (value : List Char) (d : Drawing)
    (h : (d.drawAll (tokensIn value)).NamedBy name) :
    identifyTokens value d = (nameTokens name value, d.drawAll (tokensIn value)) := by
  rw [identifyTokens_eq_parts]
  exact identifyParts_eq _ d h

def Attribute.tokens (a : Attribute) : List (List Char) := (a.value.map tokensIn).getD []

def Attribute.nameTokens (name : List Char → List Char) (a : Attribute) : Attribute :=
  { a with value := a.value.map (ComponentMarkup.nameTokens name) }

theorem identifyAttributes_eq {name : List Char → List Char} (as : List Attribute) (d : Drawing)
    (h : (d.drawAll (as.flatMap Attribute.tokens)).NamedBy name) :
    identifyAttributes as d =
      (as.map (Attribute.nameTokens name), d.drawAll (as.flatMap Attribute.tokens)) := by
  induction as generalizing d with
  | nil => rfl
  | cons a as ih =>
    obtain ⟨n, value⟩ := a
    cases value with
    | none =>
      have hr := ih d (by simpa [Attribute.tokens] using h)
      simp [identifyAttributes, Attribute.nameTokens, Attribute.tokens, hr]
    | some value =>
      simp only [List.flatMap_cons, Attribute.tokens, Option.map_some, Option.getD_some,
        Drawing.drawAll_append] at h
      have hv := identifyTokens_eq value d h.of_drawAll
      have hr := ih _ h
      simp [identifyAttributes, Attribute.nameTokens, Attribute.tokens, Drawing.drawAll_append, hv,
        hr]

def Tag.tokens (t : Tag) : List (List Char) := t.attrs.flatMap Attribute.tokens

def Tag.nameTokens (name : List Char → List Char) (t : Tag) : Tag :=
  { t with attrs := t.attrs.map (Attribute.nameTokens name) }

def bodyTokens (body : List Node) : List (List Char) := (tags body).flatMap Tag.tokens

def nameBody (name : List Char → List Char) (body : List Node) : List Node :=
  (visitTags (fun tag (_ : Unit) => (tag.nameTokens name, ())) body ()).1

@[simp] theorem bodyTokens_element (tag : Tag) (children rest : List Node) :
    bodyTokens (.element tag children :: rest) =
      tag.tokens ++ (bodyTokens children ++ bodyTokens rest) := by
  simp [bodyTokens, tags, Node.tags]

theorem bodyTokens_other {n : Node} (h : n.element? = none) (rest : List Node) :
    bodyTokens (n :: rest) = bodyTokens rest := by
  cases n with
  | element tag children => cases h
  | text chars => rfl
  | comment body => rfl
  | doctype body => rfl

theorem visitTags_identify {name : List Char → List Char} (body : List Node) (d : Drawing)
    (h : (d.drawAll (bodyTokens body)).NamedBy name) :
    visitTags (fun tag d =>
        let (attrs, d) := identifyAttributes tag.attrs d
        ({ tag with attrs }, d)) body d =
      (nameBody name body, d.drawAll (bodyTokens body)) := by
  unfold nameBody
  induction body using nodes_induction generalizing d with
  | nil => rfl
  | element tag children rest hc hr =>
    rw [bodyTokens_element, Drawing.drawAll_append, Drawing.drawAll_append] at h
    have ha := identifyAttributes_eq tag.attrs d h.of_drawAll.of_drawAll
    have hc := hc _ h.of_drawAll
    have hr := hr _ h
    simp only [Tag.tokens] at hc hr
    simp [visitTags, Node.visitTags, Tag.nameTokens, Tag.tokens, Drawing.drawAll_append, ha, hc, hr]
  | text chars rest hr =>
    rw [bodyTokens_other rfl] at h ⊢
    simp [visitTags, Node.visitTags, hr d h]
  | comment body rest hr =>
    rw [bodyTokens_other rfl] at h ⊢
    simp [visitTags, Node.visitTags, hr d h]
  | doctype body rest hr =>
    rw [bodyTokens_other rfl] at h ⊢
    simp [visitTags, Node.visitTags, hr d h]

def bodyDrawing (body : List Node) (next : Nat) : Drawing :=
  Drawing.drawAll ⟨[], next⟩ (bodyTokens body)

def Site.nameOf (s : Site) (token : List Char) : List Char := (s.lookup token).getD token

theorem Drawing.namedBy_nameOf (d : Drawing) : d.NamedBy (Site.nameOf d.site) := by
  intro t id hl
  simp [Site.nameOf, hl]

theorem identifyBody_eq (body : List Node) (next : Nat) :
    identifyBody body next =
      (nameBody (Site.nameOf (bodyDrawing body next).site) body, (bodyDrawing body next).next) := by
  have h := visitTags_identify body ⟨[], next⟩ (Drawing.namedBy_nameOf (bodyDrawing body next))
  unfold identifyBody
  rw [h]
  rfl

/-- The name that a site has for one of its tokens is an identifier of a number drawn for it. -/
theorem nameOf_bodyDrawing {body : List Node} {t : List Char} (ht : t ∈ bodyTokens body)
    (next : Nat) :
    ∃ n, next ≤ n ∧ n < (bodyDrawing body next).next ∧
      Site.nameOf (bodyDrawing body next).site t = identifier n := by
  obtain ⟨id, hl⟩ := Drawing.exists_lookup_drawAll ht ⟨[], next⟩
  have hs := Drawing.since_drawAll (Drawing.since_new next) (bodyTokens body)
  obtain ⟨n, hf, hn, he⟩ := hs.numbered.drawn t id hl
  exact ⟨n, hf, hn, (Drawing.namedBy_nameOf _ t id hl).trans he⟩

theorem nameOf_bodyDrawing_injective {body : List Node} {t u : List Char} (ht : t ∈ bodyTokens body)
    (hu : u ∈ bodyTokens body) {next : Nat}
    (h : Site.nameOf (bodyDrawing body next).site t = Site.nameOf (bodyDrawing body next).site u) :
    t = u := by
  obtain ⟨i, hi⟩ := Drawing.exists_lookup_drawAll ht ⟨[], next⟩
  obtain ⟨j, hj⟩ := Drawing.exists_lookup_drawAll hu ⟨[], next⟩
  have hs := Drawing.since_drawAll (Drawing.since_new next) (bodyTokens body)
  have hij : i = j := by
    rw [← Drawing.namedBy_nameOf _ t i hi, ← Drawing.namedBy_nameOf _ u j hj]
    exact h
  exact hs.numbered.single t u i hi (hij ▸ hj)

end ComponentMarkup
