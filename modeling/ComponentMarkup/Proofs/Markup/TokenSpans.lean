import Mathlib.Data.List.TakeWhile
import ComponentMarkup.Markup.TagToken
import ComponentMarkup.Proofs.Text.ByteView

set_option autoImplicit false

namespace ComponentMarkup

def Lexeme.sources {α : Type} (ls : List (Lexeme α)) : List Char := ls.flatMap Lexeme.source

@[simp] theorem Lexeme.sources_nil {α : Type} : sources ([] : List (Lexeme α)) = [] := rfl

@[simp] theorem Lexeme.sources_cons {α : Type} (l : Lexeme α) (ls : List (Lexeme α)) :
    sources (l :: ls) = l.gap ++ (l.chars ++ sources ls) := by
  rw [sources, List.flatMap_cons, source, List.append_assoc]
  rfl

section

variable {α : Type} {ls : List (Lexeme α)}

theorem Lexeme.textBetween_spans (before after : List Char) {sp : Spanned α}
    (h : sp ∈ spans (byteLength before) ls) :
    ∃ l ∈ ls, TextBetween (before ++ (sources ls ++ after)) sp.start sp.stop l.chars := by
  induction ls generalizing before with
  | nil => cases h
  | cons l ls ih =>
    rcases List.mem_cons.1 h with rfl | h
    · refine ⟨l, List.mem_cons_self, before ++ l.gap, sources ls ++ after, ?_, ?_, ?_⟩
      · simp
      · rw [byteLength_append]
      · rw [byteLength_append]
    · rw [← byteLength_append, ← byteLength_append] at h
      obtain ⟨l', hl', hbetween⟩ := ih ((before ++ l.gap) ++ l.chars) h
      refine ⟨l', List.mem_cons_of_mem _ hl', ?_⟩
      simpa using hbetween

theorem Lexeme.lt_of_mem_spans (hchars : ∀ l ∈ ls, l.chars ≠ []) {offset : Nat} {sp : Spanned α}
    (h : sp ∈ spans offset ls) : sp.start < sp.stop := by
  induction ls generalizing offset with
  | nil => cases h
  | cons l ls ih =>
    rcases List.mem_cons.1 h with rfl | h
    · have hpos := byteLength_eq_zero.not.2 (hchars l List.mem_cons_self)
      dsimp only
      omega
    · exact ih (fun l hl => hchars l (List.mem_cons_of_mem _ hl)) h

theorem Lexeme.le_of_mem_spans {offset : Nat} {sp : Spanned α} (h : sp ∈ spans offset ls) :
    offset ≤ sp.start := by
  induction ls generalizing offset with
  | nil => cases h
  | cons l ls ih =>
    rcases List.mem_cons.1 h with rfl | h
    · exact Nat.le_add_right _ _
    · have := ih h
      omega

theorem Lexeme.pairwise_spans (offset : Nat) (ls : List (Lexeme α)) :
    (spans offset ls).Pairwise fun a b => a.stop ≤ b.start := by
  induction ls generalizing offset with
  | nil => exact .nil
  | cons l ls ih => exact List.pairwise_cons.2 ⟨fun _ h => le_of_mem_spans h, ih _⟩

theorem Lexeme.starts_spans (hgap : ∀ l ∈ ls, l.gap = []) (offset : Nat) :
    (spans offset ls).map Spanned.start ++ [offset + byteLength (sources ls)] =
      offset :: (spans offset ls).map Spanned.stop := by
  induction ls generalizing offset with
  | nil => rfl
  | cons l ls ih =>
    have hrest := ih (fun l hl => hgap l (List.mem_cons_of_mem _ hl)) (offset + byteLength l.chars)
    have hl := hgap l List.mem_cons_self
    simp only [spans, hl, byteLength_nil, Nat.add_zero, List.map_cons, List.cons_append,
      sources_cons, List.nil_append, byteLength_append, ← Nat.add_assoc, hrest]

def spaceBytes : List UInt8 := utf8Bytes [' ', '\t', '\r', '\n', '\x0c']

theorem mem_spaceBytes {s : List Char} (hs : ∀ c ∈ s, isSpace c = true) {b : UInt8}
    (h : b ∈ utf8Bytes s) : b ∈ spaceBytes := by
  obtain ⟨c, hc, hb⟩ := List.mem_flatMap.1 h
  have hspace := hs c hc
  rw [isSpace, List.contains_iff_mem] at hspace
  exact List.mem_flatMap.2 ⟨c, hspace, hb⟩

theorem Lexeme.mem_spaceBytes_outside {after : List Char}
    (hgap : ∀ l ∈ ls, ∀ c ∈ l.gap, isSpace c = true) (hafter : ∀ c ∈ after, isSpace c = true)
    (offset : Nat) {i : Nat} {b : UInt8} (hb : (utf8Bytes (sources ls ++ after))[i]? = some b)
    (hout : ∀ sp ∈ spans offset ls, ¬(sp.start ≤ offset + i ∧ offset + i < sp.stop)) :
    b ∈ spaceBytes := by
  induction ls generalizing offset i with
  | nil => exact mem_spaceBytes hafter (List.mem_of_getElem? hb)
  | cons l ls ih =>
    have hfirst := hout _ List.mem_cons_self
    simp only [sources_cons, List.append_assoc, utf8Bytes_append l.gap,
      utf8Bytes_append l.chars] at hb
    dsimp only at hfirst
    by_cases hin : i < byteLength l.gap
    · rw [List.getElem?_append_left (by simpa using hin)] at hb
      exact mem_spaceBytes (hgap l List.mem_cons_self) (List.mem_of_getElem? hb)
    · have hbehind : byteLength l.gap + byteLength l.chars ≤ i := by omega
      rw [List.getElem?_append_right (by simpa using hin), length_utf8Bytes,
        List.getElem?_append_right (by simp; omega), length_utf8Bytes] at hb
      refine ih (fun l hl => hgap l (List.mem_cons_of_mem _ hl))
        (offset + byteLength l.gap + byteLength l.chars) hb fun sp hsp hmem => ?_
      refine hout sp (List.mem_cons_of_mem _ hsp) ?_
      omega

end

theorem Token.gap_readMarkup (cs : List Char) : (readMarkup cs).1.gap = [] := by
  have hcomment : ∀ cs, (readComment cs).1.gap = [] := fun cs => by unfold readComment; split <;> rfl
  have hdoctype : ∀ cs, (readDoctype cs).1.gap = [] := fun cs => by unfold readDoctype; split <;> rfl
  have hclose : ∀ cs, (readClose cs).1.gap = [] := fun cs => by
    unfold readClose
    dsimp only
    split
    · rfl
    · split <;> rfl
  unfold readMarkup
  split
  · split
    · exact hcomment _
    · split
      · exact hdoctype _
      · rfl
  · split
    · exact hclose _
    · rfl
  · split <;> rfl

theorem Token.gap_next {s rest : List Char} {l : Lexeme Token} (h : next s = some (l, rest)) :
    l.gap = [] := by
  unfold next at h
  split at h
  · cases h
  · split at h
    · have hgap := gap_readMarkup ‹_›
      rwa [Option.some.inj h] at hgap
    · cases h
      rfl

theorem Token.lex_spec (s : List Char) :
    Lexeme.sources (lex s) = s ∧ ∀ l ∈ lex s, l.gap = [] ∧ l.chars ≠ [] := by
  fun_induction lex s with
  | case1 s h =>
    cases s with
    | nil => exact ⟨rfl, fun l hl => by cases hl⟩
    | cons c cs =>
      simp only [next] at h
      split at h <;> exact absurd h (Option.some_ne_none _)
  | case2 s l rest h _ ih =>
    have hgap := gap_next h
    refine ⟨?_, fun l' hl' => ?_⟩
    · rw [Lexeme.sources_cons, hgap, ih.1, List.nil_append, next_append h]
    · rcases List.mem_cons.1 hl' with rfl | hl'
      · exact ⟨hgap, next_chars_ne_nil h⟩
      · exact ih.2 l' hl'

theorem TagToken.next_eq_some {s rest : List Char} {l : Lexeme TagToken}
    (h : next s = some (l, rest)) : (∀ c ∈ l.gap, isSpace c = true) ∧ l.chars ≠ [] := by
  unfold next at h
  split at h
  · cases h
  · simp only [Option.some.injEq, Prod.mk.injEq] at h
    obtain ⟨rfl, -⟩ := h
    exact ⟨fun c hc => List.all_eq_true.1 List.all_takeWhile c hc, read_chars_ne_nil _ _⟩

theorem TagToken.lex_spec (s : List Char) :
    (∃ after, s = Lexeme.sources (lex s) ++ after ∧ ∀ c ∈ after, isSpace c = true) ∧
      ∀ l ∈ lex s, (∀ c ∈ l.gap, isSpace c = true) ∧ l.chars ≠ [] := by
  fun_induction lex s with
  | case1 s h =>
    refine ⟨⟨s, rfl, ?_⟩, fun l hl => by cases hl⟩
    unfold next at h
    split at h
    · rename_i hnil
      exact List.dropWhile_eq_nil_iff.1 hnil
    · cases h
  | case2 s l rest h _ ih =>
    obtain ⟨⟨after, hrest, hafter⟩, hall⟩ := ih
    refine ⟨⟨after, ?_, hafter⟩, fun l' hl' => ?_⟩
    · rw [Lexeme.sources_cons, List.append_assoc, List.append_assoc, ← hrest, ← next_append h,
        Lexeme.source, List.append_assoc]
    · rcases List.mem_cons.1 hl' with rfl | hl'
      · exact next_eq_some h
      · exact hall l' hl'

/-- The tokens of a text, errors among them, have at least one character each and lie between
characters of the text. Between tags the first starts at byte 0, each further one where the one
before it stops, and the last stops at the end of the text. Inside a tag each starts where the one
before it stops or behind it, and all bytes that belong to none are white space. -/
theorem spans_cover (s : List Char) :
    ((∀ sp ∈ Lexeme.spans 0 (Token.lex s), sp.start < sp.stop ∧
        ∃ chars, TextBetween s sp.start sp.stop chars) ∧
      (Lexeme.spans 0 (Token.lex s)).map Spanned.start ++ [byteLength s] =
        0 :: (Lexeme.spans 0 (Token.lex s)).map Spanned.stop) ∧
    (∀ sp ∈ Lexeme.spans 0 (TagToken.lex s), sp.start < sp.stop ∧
        ∃ chars, TextBetween s sp.start sp.stop chars) ∧
      (Lexeme.spans 0 (TagToken.lex s)).Pairwise (fun a b => a.stop ≤ b.start) ∧
      ∀ i b, (utf8Bytes s)[i]? = some b →
        (∀ sp ∈ Lexeme.spans 0 (TagToken.lex s), ¬(sp.start ≤ i ∧ i < sp.stop)) →
        b ∈ spaceBytes := by
  obtain ⟨hsource, hcontent⟩ := Token.lex_spec s
  obtain ⟨⟨after, htag, hafter⟩, hinside⟩ := TagToken.lex_spec s
  refine ⟨⟨fun sp hsp => ⟨?_, ?_⟩, ?_⟩, fun sp hsp => ⟨?_, ?_⟩, Lexeme.pairwise_spans 0 _,
    fun i b hb hout => ?_⟩
  · exact Lexeme.lt_of_mem_spans (fun l hl => (hcontent l hl).2) hsp
  · obtain ⟨l, -, hbetween⟩ := Lexeme.textBetween_spans [] [] hsp
    rw [hsource] at hbetween
    exact ⟨l.chars, by simpa using hbetween⟩
  · have hstarts := Lexeme.starts_spans (fun l hl => (hcontent l hl).1) 0
    rwa [hsource, Nat.zero_add] at hstarts
  · exact Lexeme.lt_of_mem_spans (fun l hl => (hinside l hl).2) hsp
  · obtain ⟨l, -, hbetween⟩ := Lexeme.textBetween_spans [] after hsp
    rw [List.nil_append, ← htag] at hbetween
    exact ⟨l.chars, hbetween⟩
  · rw [htag] at hb
    exact Lexeme.mem_spaceBytes_outside (fun l hl => (hinside l hl).1) hafter 0 hb
      (by simpa using hout)

end ComponentMarkup
