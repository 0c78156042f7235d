import ComponentMarkup.Markup.Document
import ComponentMarkup.Proofs.Markup.Shape

set_option autoImplicit false

namespace ComponentMarkup

theorem isTagNameChar_toLower {c : Char} (h : isTagNameChar c = true) :
    isTagNameChar c.toLower = true := by
  by_cases hu : c.isUpper = true
  · have hl : c.toLower.isLower = true := by simp [Char.isAlpha, hu]
    exact isTagNameChar_of_isLower hl
  · rwa [Char.toLower_eq_of_not_isUpper hu]

theorem isElementName_lowerAscii {name : List Char} (hn : startsWithLetter name = true)
    (hc : ∀ c ∈ name, isTagNameChar c = true) : IsElementName (lowerAscii name) := by
  cases name with
  | nil => cases hn
  | cons c cs =>
    refine ⟨(Char.isLower_toLower_eq_isAlpha c).trans hn, fun d hd => ?_⟩
    obtain ⟨e, he, rfl⟩ := List.mem_map.1 hd
    exact ⟨isTagNameChar_toLower (hc e (List.mem_cons_of_mem _ he)),
      Char.isUpper_toLower_eq_false e⟩

theorem startsWithLetter_takeWhile {cs : List Char} (h : startsWithLetter cs = true) :
    startsWithLetter (cs.takeWhile isTagNameChar) = true := by
  cases cs with
  | nil => cases h
  | cons c cs =>
    rw [List.takeWhile_cons, if_pos (isTagNameChar_of_isAlpha h)]
    exact h

def Token.Shaped : Token → Prop
  | .tagOpen name => IsElementName name
  | .comment body => (Node.comment body).Shaped
  | .doctype body => (Node.doctype body).Shaped
  | .tagClose _ | .text | .error => True

theorem Token.shaped_readComment (cs : List Char) : (readComment cs).1.token.Shaped := by
  have h := absent_splitWhere_exact (List.cons_ne_nil '-' ['-', '>']) cs
  unfold readComment
  split
  · rename_i hs
    rwa [hs] at h
  · rename_i hs
    rwa [hs] at h

theorem Token.shaped_readDoctype {cs : List Char}
    (h : startsWithCaseless "doctype".toList cs = true) : (readDoctype cs).1.token.Shaped := by
  have hbody : '>' ∉ cs.takeWhile (· != '>') := by
    intro hmem
    simpa using List.mem_takeWhile_imp hmem
  have hword : startsWithCaseless "doctype".toList (cs.takeWhile (· != '>')) = true := by
    rw [startsWithCaseless_iff] at h ⊢
    have hsplit := List.takeWhile_append_dropWhile (p := (· != '>')) (l := cs)
    rw [← hsplit, lowerAscii_append] at h
    rcases prefix_append_cases h with h | ⟨q, hq, he, hqr⟩
    · exact h
    · -- the word would go on behind the angle bracket
      obtain ⟨c, q, rfl⟩ := List.exists_cons_of_ne_nil hq
      have hstop := stopsAt_dropWhile (· != '>') cs
      cases hd : cs.dropWhile (· != '>') with
      | nil =>
        rw [hd] at hqr
        simp at hqr
      | cons d ds =>
        rw [hd] at hqr hstop
        obtain rfl : d = '>' := by simpa using hstop
        obtain ⟨rfl, -⟩ := List.cons_prefix_cons.1 hqr
        have hmem : '>' ∈ "doctype".toList := he ▸ List.mem_append_right _ List.mem_cons_self
        simp at hmem
  unfold readDoctype
  dsimp only
  split
  · trivial
  · exact ⟨hword, hbody⟩

theorem Token.shaped_readMarkup (cs : List Char) : (readMarkup cs).1.token.Shaped := by
  unfold readMarkup
  split
  · split
    · exact shaped_readComment _
    · split
      · rename_i h
        exact shaped_readDoctype h
      · trivial
  · split
    · unfold readClose
      dsimp only
      split
      · trivial
      · split
        · trivial
        · trivial
    · trivial
  · split
    · rename_i hl
      exact isElementName_lowerAscii (startsWithLetter_takeWhile hl) fun c hc =>
        List.mem_takeWhile_imp hc
    · trivial

theorem Token.shaped_next {s rest : List Char} {l : Lexeme Token} (h : next s = some (l, rest)) :
    l.token.Shaped := by
  unfold next at h
  split at h
  · cases h
  · split at h
    · have h := Option.some.inj h
      have := shaped_readMarkup ‹_›
      rwa [h] at this
    · cases h
      trivial

structure AttributesShaped (attrs : List Attribute) : Prop where
  names : ∀ a ∈ attrs, IsAttributeName a.name
  distinct : (attrs.map Attribute.name).Nodup

theorem AttributesShaped.add {attrs : List Attribute} (h : AttributesShaped attrs) {a : Attribute}
    (ha : IsAttributeName a.name) : AttributesShaped (addAttribute attrs a) := by
  unfold addAttribute
  by_cases hknown : attrs.any (·.name == a.name) = true
  · rwa [if_pos hknown]
  · rw [if_neg hknown]
    constructor
    · intro b hb
      rcases List.mem_append.1 hb with hb | hb
      · exact h.names b hb
      · rwa [List.mem_singleton.1 hb]
    · rw [List.map_append]
      refine List.nodup_append.2 ⟨h.distinct, List.nodup_singleton _, ?_⟩
      intro n hn n' hn' he
      obtain ⟨b, hb, rfl⟩ := List.mem_map.1 hn
      obtain rfl : n' = a.name := by simpa using hn'
      exact hknown (List.any_eq_true.2 ⟨b, hb, by simp [he]⟩)

structure TagReader.Shaped (r : TagReader) : Prop where
  attrs : AttributesShaped r.attrs
  pending : ∀ name ∈ r.pending, IsAttributeName name

theorem TagReader.shaped_start : TagReader.start.Shaped :=
  ⟨⟨by simp [start], by simp [start]⟩, by simp [start]⟩

theorem TagReader.Shaped.finish {r : TagReader} (h : r.Shaped) (value : Option (List Char)) :
    (r.finish value).Shaped := by
  unfold TagReader.finish
  cases hp : r.pending with
  | none => exact h
  | some name => exact ⟨h.attrs.add (h.pending name hp), by simp⟩

theorem TagToken.name_of_next {s rest : List Char} {l : Lexeme TagToken} {name : List Char}
    (h : next s = some (l, rest)) (hl : l.token = .name name) : IsAttributeName name := by
  unfold next at h
  split at h
  · cases h
  · rename_i c cs _
    simp only [Option.some.injEq, Prod.mk.injEq] at h
    obtain ⟨rfl, -⟩ := h
    have hread : (read c cs).1 = .name name := hl
    unfold read at hread
    split at hread
    · cases hread
    · split at hread
      · cases hread
      · split at hread
        · split at hread <;> cases hread
        · split at hread
          · unfold readQuoted at hread
            dsimp only at hread
            split at hread <;> cases hread
          · split at hread
            · rename_i hc
              cases hread
              refine ⟨List.cons_ne_nil _ _, List.forall_mem_cons.2 ⟨hc, fun d hd => ?_⟩⟩
              exact List.mem_takeWhile_imp hd
            · cases hread

theorem shaped_readAttributes {r : TagReader} (h : r.Shaped) (s : List Char) :
    AttributesShaped (readAttributes r s).attrs := by
  fun_induction readAttributes r s with
  | case1 r s _ => exact (h.finish none).attrs
  | case2 r s l rest _ _ _ => exact (h.finish none).attrs
  | case3 r s l rest _ _ _ => exact (h.finish none).attrs
  | case4 r s l rest _ _ _ _ _ ih => exact ih ⟨h.attrs, h.pending⟩
  | case5 r s l rest _ _ _ _ gap value rest' _ _ ih => exact ih (h.finish _)
  | case6 r s l rest _ _ _ _ ih => exact ih h
  | case7 r s l rest _ _ value _ ih =>
    refine ih ?_
    unfold TagReader.quoted
    split
    · exact ⟨(h.finish _).attrs, (h.finish _).pending⟩
    · exact h
  | case8 r s l rest hn _ name ht ih =>
    -- the only case in which a name begins to wait
    refine ih ⟨(h.finish none).attrs, ?_⟩
    rintro n hn'
    cases hn'
    exact TagToken.name_of_next hn ht
  | case9 r s l rest _ _ _ ih => exact ih h
  | case10 r s l rest _ _ _ ih => exact ih h

def Piece.Shaped : Piece → Prop
  | .openTag tag _ => tag.Shaped
  | .closeTag _ => True
  | .comment body => (Node.comment body).Shaped
  | .doctype body => (Node.doctype body).Shaped
  | .text chars => chars ≠ []

theorem shaped_readPieces (line : Nat) (s : List Char) : ∀ p ∈ readPieces line s, p.Shaped := by
  fun_induction readPieces line s with
  | case1 => simp
  | case2 line s l rest hn _ _ name ht inside raw _ ih =>
    have hname := Token.shaped_next hn
    have hattrs := shaped_readAttributes TagReader.shaped_start rest
    rw [ht] at hname
    refine List.forall_mem_cons.2 ⟨⟨hname, hattrs.names, hattrs.distinct⟩, fun p hp => ?_⟩
    rcases List.mem_append.1 hp with hp | hp
    · unfold textPieces at hp
      split at hp
      · simp at hp
      · rename_i hne
        rw [List.mem_singleton.1 hp]
        simpa [Piece.Shaped] using hne
    · exact ih p hp
  | case3 line s l rest _ _ _ name _ ih => exact List.forall_mem_cons.2 ⟨trivial, ih⟩
  | case4 line s l rest hn _ _ body ht ih =>
    have hbody := Token.shaped_next hn
    rw [ht] at hbody
    exact List.forall_mem_cons.2 ⟨hbody, ih⟩
  | case5 line s l rest hn _ _ body ht ih =>
    have hbody := Token.shaped_next hn
    rw [ht] at hbody
    exact List.forall_mem_cons.2 ⟨hbody, ih⟩
  | case6 line s l rest hn _ _ _ ih =>
    exact List.forall_mem_cons.2 ⟨Token.next_chars_ne_nil hn, ih⟩
  | case7 line s l rest hn _ _ _ ih =>
    exact List.forall_mem_cons.2 ⟨Token.next_chars_ne_nil hn, ih⟩

theorem shaped_cons {n : Node} {ns : List Node} (hn : n.Shaped) (ht : n.isText = false)
    (hs : Shaped ns) : Shaped (n :: ns) :=
  ⟨hn, by simp [ht], hs⟩

theorem shaped_iff {ns : List Node} :
    Shaped ns ↔
      (∀ n ∈ ns, n.Shaped) ∧ ns.IsChain fun m n => ¬(m.isText = true ∧ n.isText = true) := by
  induction ns with
  | nil => simp [Shaped]
  | cons n ns ih =>
    rw [Shaped, ih, List.forall_mem_cons]
    cases ns with
    | nil => simp [startsWithText]
    | cons m ns =>
      rw [List.isChain_cons_cons]
      simp only [startsWithText, List.head?_cons, Option.any_some]
      tauto

theorem shaped_reverse {ns : List Node} : Shaped ns.reverse ↔ Shaped ns := by
  rw [shaped_iff, shaped_iff, List.isChain_reverse]
  simp only [List.mem_reverse, and_comm]

theorem shaped_joinText {chars : List Char} (hc : chars ≠ []) {ns : List Node} (hs : Shaped ns) :
    Shaped (joinText chars ns) := by
  cases ns with
  | nil => exact ⟨hc, by simp [startsWithText], trivial⟩
  | cons n ns =>
    cases n with
    | text before => exact ⟨List.append_ne_nil_of_right_ne_nil before hc, hs.2.1, hs.2.2⟩
    | element tag children => exact ⟨hc, by simp [startsWithText, Node.isText], hs⟩
    | comment body => exact ⟨hc, by simp [startsWithText, Node.isText], hs⟩
    | doctype body => exact ⟨hc, by simp [startsWithText, Node.isText], hs⟩

namespace TreeBuilder

/-- What has been built so far, latest first, has its shape, and what is open can be closed. -/
structure Shaped (b : TreeBuilder) : Prop where
  roots : ComponentMarkup.Shaped b.roots
  opened : ∀ e ∈ b.opened,
    e.tag.Shaped ∧ isVoid e.tag.name = false ∧ ComponentMarkup.Shaped e.children

theorem shaped_start : start.Shaped := ⟨trivial, by simp [start]⟩

theorem Shaped.modifySiblings {f : List Node → List Node} {b : TreeBuilder} (h : b.Shaped)
    (hf : ∀ ns, ComponentMarkup.Shaped ns → ComponentMarkup.Shaped (f ns)) :
    (b.modifySiblings f).Shaped := by
  obtain ⟨opened, roots⟩ := b
  cases opened with
  | nil => exact ⟨hf _ h.roots, h.opened⟩
  | cons e es =>
    obtain ⟨he, hes⟩ := List.forall_mem_cons.1 h.opened
    exact ⟨h.roots, List.forall_mem_cons.2 ⟨⟨he.1, he.2.1, hf _ he.2.2⟩, hes⟩⟩

theorem Shaped.push {n : Node} (hn : n.Shaped) (ht : n.isText = false) {b : TreeBuilder}
    (h : b.Shaped) : (b.push n).Shaped :=
  h.modifySiblings fun _ hs => shaped_cons hn ht hs

theorem Shaped.closeInnermost {b : TreeBuilder} (h : b.Shaped) : b.closeInnermost.Shaped := by
  obtain ⟨opened, roots⟩ := b
  cases opened with
  | nil => exact h
  | cons e es =>
    obtain ⟨⟨htag, hvoid, hchildren⟩, hes⟩ := List.forall_mem_cons.1 h.opened
    have hn : (Node.element e.tag e.children.reverse).Shaped :=
      ⟨htag, by simp [hvoid], shaped_reverse.2 hchildren⟩
    exact Shaped.push hn rfl ⟨h.roots, hes⟩

theorem Shaped.closeMany (n : Nat) {b : TreeBuilder} (h : b.Shaped) : (b.closeMany n).Shaped := by
  induction n generalizing b with
  | zero => exact h
  | succ n ih => exact ih h.closeInnermost

theorem Shaped.add {b : TreeBuilder} (h : b.Shaped) {p : Piece} (hp : p.Shaped) :
    (b.add p).Shaped := by
  cases p with
  | openTag tag selfClosing =>
    simp only [TreeBuilder.add]
    split
    · have hn : (Node.element tag []).Shaped := ⟨hp, fun _ => rfl, trivial⟩
      exact h.push hn rfl
    · rename_i hv
      have hvoid : isVoid tag.name = false := by simp_all
      exact ⟨h.roots, List.forall_mem_cons.2 ⟨⟨hp, hvoid, trivial⟩, h.opened⟩⟩
  | closeTag name =>
    simp only [TreeBuilder.add, TreeBuilder.close]
    split
    · exact h
    · exact h.closeMany _
  | comment body => exact h.push hp rfl
  | doctype body => exact h.push hp rfl
  | text chars => exact h.modifySiblings fun _ hs => shaped_joinText hp hs

theorem Shaped.foldl_add {ps : List Piece} (hps : ∀ p ∈ ps, p.Shaped) {b : TreeBuilder}
    (h : b.Shaped) : (ps.foldl TreeBuilder.add b).Shaped := by
  induction ps generalizing b with
  | nil => exact h
  | cons p ps ih =>
    obtain ⟨hp, hps⟩ := List.forall_mem_cons.1 hps
    exact ih hps (h.add hp)

end TreeBuilder

theorem shaped_parse (source : List Char) : Shaped (parse source) := by
  have hbuilt := TreeBuilder.shaped_start.foldl_add (shaped_readPieces 1 source)
  exact shaped_reverse.2 (hbuilt.closeMany _).roots

end ComponentMarkup
