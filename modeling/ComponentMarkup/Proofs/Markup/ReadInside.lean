import ComponentMarkup.Proofs.Markup.Enclosed
import ComponentMarkup.Proofs.Markup.Reproduction

/-!
A text that is read inside of an element as it is read by itself. Main statement:
`reproduced_inside_iff`, an element gives back the text between its tags exactly where the text comes
back by itself, unless it breaks off in a doctype.
-/

set_option autoImplicit false

namespace ComponentMarkup

def BreaksOffInDoctype (s : List Char) : Prop :=
  ∃ before body, s = before ++ '<' :: '!' :: body ∧
    startsWithCaseless "doctype".toList body = true ∧ '>' ∉ body

theorem not_breaksOffInDoctype_nil : ¬BreaksOffInDoctype [] := by
  rintro ⟨before, body, heq, -⟩
  simp at heq

theorem BreaksOffInDoctype.append {s : List Char} (h : BreaksOffInDoctype s) (before : List Char) :
    BreaksOffInDoctype (before ++ s) := by
  obtain ⟨before', body, rfl, hword, hbody⟩ := h
  exact ⟨before ++ before', body, by rw [List.append_assoc], hword, hbody⟩

theorem breaksOffInDoctype_bracket_iff (s rest : List Char) :
    BreaksOffInDoctype (s ++ '>' :: rest) ↔ BreaksOffInDoctype rest := by
  refine ⟨?_, fun h => by simpa using h.append (s ++ ['>'])⟩
  rintro ⟨before, body, heq, hword, hbody⟩
  rcases List.append_eq_append_iff.1 heq with ⟨between, rfl, hrest⟩ | ⟨between, rfl, hrest⟩
  · cases between with
    | nil => cases hrest
    | cons c between =>
      obtain ⟨rfl, rfl⟩ := List.cons.inj hrest
      exact ⟨between, body, rfl, hword, hbody⟩
  · -- the bracket would stand in the doctype
    have hmem : '>' ∈ '<' :: '!' :: body := by
      rw [hrest]
      simp
    simp [hbody] at hmem

theorem opensMarkup_of_end {cs : List Char} (h : opensMarkup true cs = true) :
    opensMarkup false cs = true := by
  unfold opensMarkup at h
  split at h
  · simp only [opensMarkup, Bool.or_eq_true, Bool.and_eq_true, Bool.not_false, Bool.true_or,
      and_true] at h ⊢
    exact h.imp_right And.left
  · exact h
  · rename_i h₁ h₂
    rwa [opensMarkup]
    · exact h₁
    · exact h₂

theorem isPlain_of_inside {chars : List Char} (h : isPlain false chars = true) :
    isPlain true chars = true := by
  induction chars with
  | nil => rfl
  | cons c cs ih =>
    simp only [isPlain, Bool.and_eq_true, Bool.not_eq_true', Bool.and_eq_false_iff] at h ⊢
    refine ⟨h.1.imp_right fun hcs => ?_, ih h.2⟩
    exact Bool.eq_false_iff.2 fun hopens => absurd (opensMarkup_of_end hopens) (by simp [hcs])

theorem isPlain_inside {chars : List Char} (h : isPlain true chars = true)
    (hd : ¬BreaksOffInDoctype chars) : isPlain false chars = true := by
  induction chars with
  | nil => rfl
  | cons c cs ih =>
    simp only [isPlain, Bool.and_eq_true, Bool.not_eq_true', Bool.and_eq_false_iff] at h ⊢
    refine ⟨?_, ih h.2 fun hcs => hd (hcs.append [c])⟩
    by_cases hc : c = '<'
    · right
      have hend : breaksOff true (cs ++ []) = false := by
        rw [List.append_nil]
        refine Bool.eq_false_iff.2 fun hb => hd ?_
        obtain ⟨body, rfl, hword, hbody, -⟩ := exists_of_breaksOff hb
        exact ⟨[], body, by rw [hc]; rfl, hword, hbody⟩
      refine Bool.eq_false_iff.2 fun hopens => ?_
      have hcs := opensMarkup_append hopens hend
      rw [List.append_nil] at hcs
      simp [hc, hcs] at h
    · exact .inl (by simpa using hc)

theorem staysText_inside_iff {chars : List Char} :
    StaysText false chars ↔ StaysText true chars ∧ ¬BreaksOffInDoctype chars := by
  constructor
  · rintro (h | ⟨u, v, -, -, hv⟩)
    · refine ⟨.inl (isPlain_of_inside h), ?_⟩
      rintro ⟨before, body, rfl, hword, -⟩
      have hopens : opensMarkup false ('!' :: body) = true := by
        simp only [opensMarkup, hword, Bool.not_false, Bool.true_or, Bool.and_true, Bool.or_true]
      have hbreak := isPlain_of_suffix h (List.suffix_append _ _)
      simp [isPlain, hopens] at hbreak
    · obtain ⟨-, -, -, -, hend⟩ := exists_of_breaksOff hv
      cases hend
  · rintro ⟨h | ⟨u, v, rfl, -, hv⟩, hd⟩
    · exact .inl (isPlain_inside h hd)
    · obtain ⟨body, rfl, hword, hbody, -⟩ := exists_of_breaksOff hv
      exact absurd ⟨u, body, rfl, hword, hbody⟩ hd

theorem breaksOffInDoctype_render_cons {n : Node} (hn : n.isText = false) (before : List Char)
    (ns : List Node) : BreaksOffInDoctype (before ++ render false (n :: ns)) ↔
      BreaksOffInDoctype (render false ns) := by
  obtain ⟨s, hs⟩ := markup_eq_concat hn
  rw [render_cons, hs, List.append_assoc, ← List.append_assoc]
  exact breaksOffInDoctype_bracket_iff _ _

theorem breaksOffInDoctype_render_tail {n : Node} (hn : n.isText = false) (ns : List Node) :
    BreaksOffInDoctype (render false (n :: ns)) ↔ BreaksOffInDoctype (render false ns) :=
  breaksOffInDoctype_render_cons hn [] ns

/-- What may stand at the end of everything may stand inside of an element as well, except for a
doctype that breaks off. -/
theorem plain_inside_iff {ns : List Node} (hs : Shaped ns) :
    Plain none false ns ↔ Plain none true ns ∧ ¬BreaksOffInDoctype (render false ns) := by
  induction ns using nodes_induction with
  | nil =>
    rw [Plain, Plain, render_nil]
    exact ⟨fun _ => ⟨trivial, not_breaksOffInDoctype_nil⟩, fun _ => trivial⟩
  | element tag children rest _ hrest =>
    rw [Plain, Plain, hrest hs.2.2, breaksOffInDoctype_render_tail rfl, and_assoc]
  | text chars rest hrest =>
    rw [Plain, Plain, hrest hs.2.2, behindRaw, Bool.false_and]
    have hrender : render false (.text chars :: rest) = chars ++ render false rest := by
      rw [render_cons, markup_text]
    rw [hrender]
    cases rest with
    | nil =>
      have hnil := not_breaksOffInDoctype_nil
      rw [staysText_inside_iff, render_nil, List.append_nil, List.isEmpty_nil, Bool.and_true,
        Plain]
      tauto
    | cons n rest =>
      have hn : n.isText = false := by simpa [startsWithText, Node.isText] using hs.2.1
      rw [breaksOffInDoctype_render_cons hn chars rest, breaksOffInDoctype_render_tail hn,
        List.isEmpty_cons, Bool.and_false, and_assoc]
  | comment body rest hrest =>
    rw [Plain, Plain, hrest hs.2.2, breaksOffInDoctype_render_tail rfl]
  | doctype body rest hrest =>
    rw [Plain, Plain, hrest hs.2.2, breaksOffInDoctype_render_tail rfl]

def Deeper (n : Nat) (p : Nat × Glyph) : Nat × Glyph := (p.1 + n, p.2)

theorem deeper_injective (n : Nat) : Function.Injective (Deeper n) := by
  rintro ⟨d, g⟩ ⟨d', g'⟩ h
  simp only [Deeper, Prod.mk.injEq, Nat.add_right_cancel_iff] at h
  exact Prod.ext h.1 h.2

theorem placed_deeper (n depth : Nat) (ns : List Node) :
    placed (depth + n) ns = (placed depth ns).map (Deeper n) := by
  induction ns using nodes_induction generalizing depth with
  | nil => rfl
  | element tag children rest hchildren hrest =>
    have hinside := hchildren (depth + 1)
    rw [Nat.add_right_comm] at hinside
    simp only [placed, Node.placed, List.map_append, List.map_cons, hinside, hrest, Deeper]
  | text chars rest hrest =>
    simp only [placed, Node.placed, List.map_append, List.map_map, hrest]
    rfl
  | comment body rest hrest =>
    simp only [placed, Node.placed, List.map_append, List.map_cons, List.map_nil, hrest, Deeper]
  | doctype body rest hrest =>
    simp only [placed, Node.placed, List.map_append, List.map_cons, List.map_nil, hrest, Deeper]

theorem closed_append {name : List Char} {names outer : List (List Char)} (h : name ∉ outer) :
    closed name (names ++ outer) = closed name names ++ outer := by
  have hno : outer.findIdx? (· == name) = none := by
    rw [List.findIdx?_eq_none_iff]
    intro n hn
    simpa using fun he : n = name => h (he ▸ hn)
  unfold closed
  rw [List.findIdx?_append, hno]
  cases hfind : names.findIdx? (· == name) with
  | none => rfl
  | some depth =>
    obtain ⟨hlt, -⟩ := List.findIdx?_eq_some_iff_getElem.1 hfind
    simp only [Option.map_none, Option.or_none]
    exact List.drop_append_of_le_length hlt

/-- No element of the nodes has a close tag that closes one of these. -/
def ClosesNone (outer : List (List Char)) (ns : List Node) : Prop :=
  ∀ tag ∈ tags ns, isVoid tag.name = false → trimRight tag.name ∉ outer

theorem closesNone_nil (outer : List (List Char)) : ClosesNone outer [] :=
  fun _ ht => (List.not_mem_nil ht).elim

theorem closesNone_element_iff {outer : List (List Char)} {tag : Tag} {children ns : List Node} :
    ClosesNone outer (.element tag children :: ns) ↔
      (isVoid tag.name = false → trimRight tag.name ∉ outer) ∧ ClosesNone outer children ∧
        ClosesNone outer ns := by
  unfold ClosesNone
  simp only [tags, Node.tags, List.cons_append, List.forall_mem_cons, List.forall_mem_append]

theorem openBehind_of_closesNone {outer : List (List Char)} {ns : List Node} (h : ClosesNone outer ns)
    (names : List (List Char)) : openBehind (names ++ outer) ns = openBehind names ns ++ outer := by
  induction ns using nodes_induction generalizing names with
  | nil => rfl
  | element tag children rest hchildren hrest =>
    obtain ⟨htag, hinside, hbehind⟩ := closesNone_element_iff.1 h
    simp only [openBehind, Node.openBehind]
    cases hv : isVoid tag.name with
    | true => exact hrest hbehind names
    | false =>
      have hopen := hchildren hinside (tag.name :: names)
      rw [List.cons_append] at hopen
      simp only [Bool.false_eq_true, if_false, hopen, closed_append (htag hv), hrest hbehind]
  | text chars rest hrest => exact hrest h names
  | comment body rest hrest => exact hrest h names
  | doctype body rest hrest => exact hrest h names

theorem placedAnew_of_closesNone {outer : List (List Char)} {ns : List Node} (h : ClosesNone outer ns)
    (names : List (List Char)) :
    placedAnew (names ++ outer) ns = (placedAnew names ns).map (Deeper outer.length) := by
  induction ns using nodes_induction generalizing names with
  | nil => rfl
  | element tag children rest hchildren hrest =>
    obtain ⟨htag, hinside, hbehind⟩ := closesNone_element_iff.1 h
    have hopen : (Node.element tag children).openBehind (names ++ outer) =
        (Node.element tag children).openBehind names ++ outer :=
      openBehind_of_closesNone (closesNone_element_iff.2 ⟨htag, hinside, closesNone_nil outer⟩) names
    simp only [placedAnew, hopen, hrest hbehind, List.map_append, Node.placedAnew, List.map_cons,
      Deeper, List.length_append]
    cases hv : isVoid tag.name with
    | true => rfl
    | false =>
      have hchild := hchildren hinside (tag.name :: names)
      rw [List.cons_append] at hchild
      simp only [Bool.false_eq_true, if_false, hchild]
  | text chars rest hrest =>
    simp only [placedAnew, Node.placedAnew, Node.openBehind, hrest h, List.map_append, List.map_map,
      List.length_append]
    rfl
  | comment body rest hrest | doctype body rest hrest =>
    simp only [placedAnew, Node.placedAnew, Node.openBehind, hrest h, List.map_append, List.map_cons,
      List.map_nil, Deeper, List.length_append]

theorem closing_infix_renderClose (tag : Tag) : closing (trimRight tag.name) <:+: tag.renderClose := by
  have hname : trimRight tag.name <+: tag.name ++ ['>'] :=
    (List.rdropWhile_prefix isBlank tag.name).trans (List.prefix_append _ _)
  exact (List.cons_prefix_cons.2 ⟨rfl, List.cons_prefix_cons.2 ⟨rfl, hname⟩⟩).isInfix

theorem closing_infix_render {ns : List Node} (hs : Shaped ns) :
    ∀ tag ∈ tags ns, isVoid tag.name = false → closing (trimRight tag.name) <:+: render false ns := by
  induction ns using nodes_induction with
  | nil => exact List.forall_mem_nil _
  | element tag children rest hchildren hrest =>
    obtain ⟨⟨-, hvoid, hinside⟩, -, hbehind⟩ := hs
    have hmarkup : (Node.element tag children).markup <:+:
        render false (.element tag children :: rest) := by
      rw [render_cons]
      exact (List.prefix_append _ _).isInfix
    simp only [tags, Node.tags, List.cons_append, List.forall_mem_cons, List.forall_mem_append]
    refine ⟨fun hv => ?_, fun t ht hv => ?_, fun t ht hv => ?_⟩
    · rw [markup_element hv] at hmarkup
      refine (closing_infix_renderClose tag).trans (List.IsInfix.trans ?_ hmarkup)
      rw [← List.append_assoc]
      exact (List.suffix_append _ _).isInfix
    · cases hvt : isVoid tag.name with
      | true =>
        rw [hvoid hvt] at ht
        cases ht
      | false =>
        rw [markup_element hvt] at hmarkup
        exact (hchildren hinside t ht hv).trans ((List.infix_append' _ _ _).trans hmarkup)
    · rw [render_cons]
      exact (hrest hbehind t ht hv).trans (List.suffix_append _ _).isInfix
  | text chars rest hrest | comment body rest hrest | doctype body rest hrest =>
    intro t ht hv
    rw [render_cons]
    exact (hrest hs.2.2 t ht hv).trans (List.suffix_append _ _).isInfix

theorem closesNone_of_absent {name : List Char} {ns : List Node} (hn : IsElementName name)
    (hs : Shaped ns) (h : ¬closing name <:+: lowerAscii (render false ns)) : ClosesNone [name] ns := by
  intro tag ht hv hmem
  have hinfix := closing_infix_render hs tag ht hv
  rw [List.mem_singleton.1 hmem] at hinfix
  have hlower : lowerAscii (closing name) = closing name := by
    rw [closing, lowerAscii_cons, lowerAscii_cons, hn.lowerAscii_eq]
    rfl
  exact h (hlower ▸ hinfix.map Char.toLower)

theorem render_eq_of_placed {a b : List Node} (ha : Shaped a) (hb : Shaped b)
    (h : placed 0 a = placed 0 b) : render false a = render false b := by
  have hend := endsSiblings_nil 0
  have hu := (unnumbered_eq_of_placed ha hb hend hend (by rw [h])).1
  rw [render, ← renderNodes_unnumbered, hu, renderNodes_unnumbered, render]

section Inside

variable {tag : Tag} {ns : List Node}

theorem placedAnew_element (hv : isVoid tag.name = false) (hattrs : tag.attrs = [])
    (h : ClosesNone [tag.name] ns) :
    placedAnew [] [.element tag ns] =
      (0, .tag tag.name tag.attrs) :: (placedAnew [] ns).map (Deeper 1) := by
  have hinside := placedAnew_of_closesNone h []
  rw [List.nil_append] at hinside
  simp [placedAnew, Node.placedAnew, hv, hattrs, hinside]

theorem placed_element (tag : Tag) (ns : List Node) :
    placed 0 [.element tag ns] =
      (0, .tag tag.name tag.attrs) :: (placed 0 ns).map (Deeper 1) := by
  have hinside := placed_deeper 1 0 ns
  rw [Nat.zero_add] at hinside
  simp [placed, Node.placed, hinside]

theorem placedAnew_element_iff (hv : isVoid tag.name = false) (hattrs : tag.attrs = [])
    (h : ClosesNone [tag.name] ns) :
    placedAnew [] [.element tag ns] = placed 0 [.element tag ns] ↔ placedAnew [] ns = placed 0 ns := by
  rw [placedAnew_element hv hattrs h, placed_element, List.cons_inj_right,
    (List.map_injective_iff.2 (deeper_injective 1)).eq_iff]

theorem plain_element_iff (hraw : isRawText tag.name = false) :
    Plain none true [.element tag ns] ↔ Plain none false ns := by
  rw [Plain, if_neg (by simp [hraw]), Plain, and_true]

variable {text : List Char}

theorem reproduced_of_inside (ht : tag.Shaped) (hattrs : tag.attrs = []) (hv : isVoid tag.name = false)
    (hraw : isRawText tag.name = false) (h : ¬closing tag.name <:+: lowerAscii text)
    (hparse : parse (tag.renderOpen ++ (text ++ tag.renderClose)) = [.element tag ns])
    (hrender : render false ns = text) :
    render false (parse text) = text ∧ ¬BreaksOffInDoctype text := by
  have hwrite : render false [.element tag ns] = tag.renderOpen ++ (text ++ tag.renderClose) := by
    rw [render_cons, markup_element hv, render_nil, List.append_nil, hrender]
  obtain ⟨⟨⟨-, -, hs⟩, -⟩, ⟨⟨-, hraws⟩, -⟩, hplain, hplaced⟩ :=
    plain_of_reproduced (by rw [hwrite, hparse])
  have hnone := closesNone_of_absent ht.name hs (hrender ▸ h)
  rw [placedAnew_element_iff hv hattrs hnone] at hplaced
  rw [plain_element_iff hraw, plain_inside_iff hs, hrender] at hplain
  refine ⟨?_, hplain.2⟩
  have hread := placed_parse_render hs hraws hplain.1
  rw [hrender, hplaced] at hread
  rw [render_eq_of_placed (shaped_parse text) hs hread, hrender]

/-- A text that comes back by itself is given back by an element, unless it breaks off in a doctype,
which would end with the element's close tag. -/
theorem inside_of_reproduced (ht : tag.Shaped) (hattrs : tag.attrs = []) (hv : isVoid tag.name = false)
    (hraw : isRawText tag.name = false) (h : ¬closing tag.name <:+: lowerAscii text)
    (hparse : parse (tag.renderOpen ++ (text ++ tag.renderClose)) = [.element tag ns])
    (hrender : render false (parse text) = text) (hd : ¬BreaksOffInDoctype text) :
    render false ns = text := by
  obtain ⟨hs, hraws, hplain, hplaced⟩ := plain_of_reproduced (by rw [hrender])
  have hnone := closesNone_of_absent ht.name hs (hrender.symm ▸ h)
  have hwrite : render false [.element tag (parse text)] =
      tag.renderOpen ++ (text ++ tag.renderClose) := by
    rw [render_cons, markup_element hv, render_nil, List.append_nil, hrender]
  have hshaped : Shaped [.element tag (parse text)] :=
    ⟨⟨ht, by simp [hv], hs⟩, by simp [Node.isText], trivial⟩
  have hrawsOuter : RawAsText [.element tag (parse text)] :=
    ⟨⟨by simp [hraw], hraws⟩, trivial⟩
  have hplainOuter : Plain none true [.element tag (parse text)] := by
    rw [plain_element_iff hraw, plain_inside_iff hs, hrender]
    exact ⟨hplain, hd⟩
  have hread := placed_parse_render hshaped hrawsOuter hplainOuter
  rw [hwrite, hparse, (placedAnew_element_iff hv hattrs hnone).2 hplaced, placed_element,
    placed_element, List.cons_inj_right,
    (List.map_injective_iff.2 (deeper_injective 1)).eq_iff] at hread
  have hsChildren : Shaped ns := by
    have hparsed := shaped_parse (tag.renderOpen ++ (text ++ tag.renderClose))
    rw [hparse] at hparsed
    exact hparsed.1.2.2
  rw [render_eq_of_placed hsChildren hs hread, hrender]

theorem reproduced_inside_iff (ht : tag.Shaped) (hattrs : tag.attrs = []) (hl : tag.line = 1)
    (hv : isVoid tag.name = false) (hraw : isRawText tag.name = false)
    (h : ¬closing tag.name <:+: lowerAscii text) :
    ∃ children, parse (tag.renderOpen ++ (text ++ tag.renderClose)) = [.element tag children] ∧
      (render false children = text ↔
        render false (parse text) = text ∧ ¬BreaksOffInDoctype text) := by
  obtain ⟨children, hparse⟩ := parse_enclosed ht hattrs hl hv hraw h
  refine ⟨children, hparse, fun hrender => ?_, fun ⟨hrender, hd⟩ => ?_⟩
  · exact reproduced_of_inside ht hattrs hv hraw h hparse hrender
  · exact inside_of_reproduced ht hattrs hv hraw h hparse hrender hd

end Inside

end ComponentMarkup
