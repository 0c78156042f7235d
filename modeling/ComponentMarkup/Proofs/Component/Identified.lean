import Mathlib.Data.List.Basic
import Mathlib.Data.List.Infix
import Mathlib.Data.List.TakeWhile
import ComponentMarkup.Proofs.Component.Naming
import ComponentMarkup.Proofs.Text.Occurrences

set_option autoImplicit false

namespace ComponentMarkup

theorem not_mark_mem_name {c : Char} (hc : c.isAlpha = true) (cs : List Char) :
    '!' ∉ c :: cs.takeWhile isTokenChar := by
  intro hmem
  rcases List.mem_cons.1 hmem with rfl | hmem
  · exact absurd hc (by decide)
  · exact absurd (List.mem_takeWhile_imp hmem) (by decide)

/-- A `!`, an ASCII letter and the longest run of ASCII letters, `_` and `-`, before a blank or at the
end of the text. -/
def uniqueToken : TokenKind where
  mark := '!'
  first?
    | '!' :: c :: cs =>
      if c.isAlpha ∧ endsToken (cs.dropWhile isTokenChar) then
        some ('!' :: c :: cs.takeWhile isTokenChar)
      else none
    | _ => none
  begins := by
    intro s t h
    split at h
    · rename_i c cs
      simp only [Option.ite_none_right_eq_some, Option.some.injEq] at h
      obtain ⟨⟨hc, -⟩, rfl⟩ := h
      refine ⟨_, rfl, not_mark_mem_name hc cs, ?_⟩
      exact List.cons_prefix_cons.2 ⟨rfl, List.cons_prefix_cons.2 ⟨rfl, List.takeWhile_prefix _⟩⟩
    · cases h

@[simp] theorem mark_uniqueToken : uniqueToken.mark = '!' := rfl

theorem first?_uniqueToken (c : Char) (cs : List Char) :
    uniqueToken.first? ('!' :: c :: cs) =
      if c.isAlpha ∧ endsToken (cs.dropWhile isTokenChar) then
        some ('!' :: c :: cs.takeWhile isTokenChar)
      else none := rfl

theorem first?_uniqueToken_other {c : Char} {cs : List Char}
    (h : ∀ d ds, c = '!' → cs = d :: ds → False) : uniqueToken.first? (c :: cs) = none := by
  rcases eq_or_ne c '!' with rfl | hc
  · cases cs with
    | nil => rfl
    | cons d ds => exact (h d ds rfl rfl).elim
  · exact TokenKind.first?_of_not_mark (by simpa using hc)

/-- A name behind the mark is a token with it, or no token begins before its end. -/
theorem uniqueToken_name {c : Char} (hc : c.isAlpha = true) (cs : List Char)
    (f : List Char → List Char) :
    uniqueToken.rewrite f ('!' :: c :: cs) =
        (if endsToken (cs.dropWhile isTokenChar) then f ('!' :: c :: cs.takeWhile isTokenChar)
          else '!' :: c :: cs.takeWhile isTokenChar) ++
          uniqueToken.rewrite f (cs.dropWhile isTokenChar) ∧
      uniqueToken.found ('!' :: c :: cs) =
        (if endsToken (cs.dropWhile isTokenChar) then ['!' :: c :: cs.takeWhile isTokenChar]
          else []) ++ uniqueToken.found (cs.dropWhile isTokenChar) := by
  have hfirst := first?_uniqueToken c cs
  have hsplit := List.takeWhile_append_dropWhile (p := isTokenChar) (l := cs)
  by_cases he : endsToken (cs.dropWhile isTokenChar) = true
  · rw [if_pos ⟨hc, he⟩] at hfirst
    have htoken : uniqueToken.first?
        (('!' :: c :: cs.takeWhile isTokenChar) ++ cs.dropWhile isTokenChar) =
          some ('!' :: c :: cs.takeWhile isTokenChar) := by
      rw [List.cons_append, List.cons_append, hsplit]
      exact hfirst
    have hrewrite := TokenKind.rewrite_token (f := f) htoken
    have hfound := TokenKind.found_token htoken
    rw [List.cons_append, List.cons_append, hsplit] at hrewrite hfound
    rw [if_pos he, if_pos he]
    exact ⟨hrewrite, hfound⟩
  · rw [if_neg (fun h => he h.2)] at hfirst
    have hname := not_mark_mem_name hc cs
    have hrewrite := TokenKind.rewrite_run (k := uniqueToken) (f := f) hname
      (cs.dropWhile isTokenChar)
    have hfound := TokenKind.found_run (k := uniqueToken) hname (cs.dropWhile isTokenChar)
    rw [List.cons_append, hsplit] at hrewrite hfound
    rw [if_neg he, if_neg he, TokenKind.rewrite_cons hfirst, TokenKind.found_cons hfirst, hrewrite,
      hfound]
    exact ⟨rfl, rfl⟩

theorem valueParts_uniqueToken (name : List Char → List Char) (value : List Char) :
    nameTokens name value = uniqueToken.rewrite name value ∧
      tokensIn value = uniqueToken.found value := by
  unfold nameTokens tokensIn
  fun_induction valueParts value with
  | case1 => exact ⟨rfl, rfl⟩
  | case2 c cs hc ih =>
    obtain ⟨hrewrite, hfound⟩ := uniqueToken_name hc cs name
    rw [hrewrite, hfound, ← ih.1, ← ih.2, List.flatMap_cons, List.filterMap_cons, ValuePart.ofName]
    split <;> exact ⟨rfl, rfl⟩
  | case3 c cs hc ih =>
    have hfirst := first?_uniqueToken c cs
    rw [if_neg (fun h => hc h.1)] at hfirst
    rw [TokenKind.rewrite_cons hfirst, TokenKind.found_cons hfirst, ← ih.1, ← ih.2]
    exact ⟨rfl, rfl⟩
  | case4 c cs hc ih =>
    have hfirst := first?_uniqueToken_other hc
    rw [TokenKind.rewrite_cons hfirst, TokenKind.found_cons hfirst, ← ih.1, ← ih.2]
    exact ⟨rfl, rfl⟩

mutual

def Node.mapValues (f : List Char → List Char) : Node → Node
  | .element tag children =>
    .element { tag with attrs := tag.attrs.map fun a => { a with value := a.value.map f } }
      (mapValues f children)
  | n@(.text _) | n@(.comment _) | n@(.doctype _) => n

def mapValues (f : List Char → List Char) : List Node → List Node
  | [] => []
  | n :: ns => n.mapValues f :: mapValues f ns

end

def attributeValues (nodes : List Node) : List (List Char) :=
  (tags nodes).flatMap fun tag => tag.attrs.filterMap Attribute.value

def uniqueTokens (nodes : List Node) : List (List Char) :=
  (attributeValues nodes).flatMap uniqueToken.found

theorem nameBody_element (name : List Char → List Char) (tag : Tag) (children rest : List Node) :
    nameBody name (.element tag children :: rest) =
      .element (tag.nameTokens name) (nameBody name children) :: nameBody name rest := rfl

theorem nameBody_other {n : Node} (h : n.element? = none) (name : List Char → List Char)
    (rest : List Node) : nameBody name (n :: rest) = n :: nameBody name rest := by
  cases n with
  | element tag children => cases h
  | text chars => rfl
  | comment body => rfl
  | doctype body => rfl

theorem nameBody_eq_mapValues (name : List Char → List Char) (body : List Node) :
    nameBody name body = mapValues (uniqueToken.rewrite name) body := by
  have hvalue : nameTokens name = uniqueToken.rewrite name := by
    funext value
    exact (valueParts_uniqueToken name value).1
  induction body using nodes_induction with
  | nil => rfl
  | element tag children rest hc hr =>
    rw [nameBody_element, hc, hr, mapValues, Node.mapValues, ← hvalue]
    rfl
  | text chars rest hr => rw [nameBody_other rfl, hr]; rfl
  | comment body rest hr => rw [nameBody_other rfl, hr]; rfl
  | doctype body rest hr => rw [nameBody_other rfl, hr]; rfl

theorem bodyTokens_eq (body : List Node) : bodyTokens body = uniqueTokens body := by
  unfold bodyTokens uniqueTokens attributeValues
  rw [List.flatMap_assoc]
  refine List.flatMap_congr fun tag _ => ?_
  rw [Tag.tokens, List.filterMap_eq_flatMap_toList, List.flatMap_assoc]
  refine List.flatMap_congr fun a _ => ?_
  cases h : a.value with
  | none => simp [Attribute.tokens, h]
  | some value => simp [Attribute.tokens, h, (valueParts_uniqueToken id value).2]

namespace Drawing

/-- A site that began with the number `first` and has met these tokens in this order. -/
structure Numbers (first : Nat) (met : List (List Char)) (d : Drawing) : Prop where
  next : d.next = first + met.length
  unknown : ∀ t, d.site.lookup t = none ↔ t ∉ met
  names : met.map (Site.nameOf d.site) = (List.range' first met.length).map identifier

theorem numbers_new (first : Nat) : Numbers first [] ⟨[], first⟩ :=
  ⟨rfl, by simp, rfl⟩

theorem Numbers.identify {first : Nat} {met : List (List Char)} {d : Drawing}
    (h : Numbers first met d) (t : List Char) :
    Numbers first (if t ∈ met then met else met ++ [t]) (d.identify t).2 := by
  by_cases ht : t ∈ met
  · obtain ⟨id, hid⟩ := Option.ne_none_iff_exists'.1 (mt (h.unknown t).1 (not_not_intro ht))
    rwa [if_pos ht, identify_known hid]
  · have hnew := (h.unknown t).2 ht
    rw [if_neg ht, identify_unknown hnew]
    refine ⟨?_, fun u => ?_, ?_⟩
    · simp [h.next, Nat.add_assoc]
    · have hu := h.unknown u
      rcases eq_or_ne u t with rfl | hne
      · simp
      · have hbeq : (u == t) = false := beq_eq_false_iff_ne.2 hne
        simp [List.lookup_cons, hbeq, hu, hne]
    · have hmet : met.map (Site.nameOf ((t, identifier d.next) :: d.site)) =
          met.map (Site.nameOf d.site) := by
        refine List.map_congr_left fun u hu => ?_
        have hbeq : (u == t) = false := beq_eq_false_iff_ne.2 fun he => ht (he ▸ hu)
        simp [Site.nameOf, List.lookup_cons, hbeq]
      rw [List.map_append, hmet, h.names, List.length_append, List.length_singleton,
        List.range'_1_concat, List.map_append, h.next]
      simp [Site.nameOf]

theorem numbers_drawAll (first : Nat) (tokens : List (List Char)) :
    Numbers first tokens.eraseDups (drawAll ⟨[], first⟩ tokens) := by
  induction tokens using List.reverseRecOn with
  | nil => exact numbers_new first
  | append_singleton tokens t ih =>
    have h := ih.identify t
    rw [drawAll_append, List.eraseDups_append]
    by_cases ht : t ∈ tokens
    · simpa [List.removeAll, ht, drawAll] using h
    · simpa [List.removeAll, ht, drawAll, List.eraseDups_cons] using h

end Drawing

/-- Identification replaces every token in the attribute values of a body by its name, each at its
place, and changes nothing else. Distinct tokens have distinct names. The names of the tokens, in the
order in which these first stand in the document, are the identifiers of the numbers from `next` on,
and behind the last of them the numbering goes on. -/
theorem identifyBody_exact (body : List Node) (next : Nat) :
    ∃ name : List Char → List Char,
      (identifyBody body next).1 = mapValues (uniqueToken.rewrite name) body ∧
      (∀ t ∈ uniqueTokens body, ∀ u ∈ uniqueTokens body, name t = name u ↔ t = u) ∧
      (uniqueTokens body).eraseDups.map name =
        (List.range' next (uniqueTokens body).eraseDups.length).map identifier ∧
      (identifyBody body next).2 = next + (uniqueTokens body).eraseDups.length := by
  have hnumbers := Drawing.numbers_drawAll next (bodyTokens body)
  rw [identifyBody_eq, nameBody_eq_mapValues]
  rw [← bodyTokens_eq]
  refine ⟨_, rfl, fun t ht u hu => ⟨nameOf_bodyDrawing_injective ht hu, ?_⟩, hnumbers.names,
    hnumbers.next⟩
  rintro rfl
  rfl

end ComponentMarkup
