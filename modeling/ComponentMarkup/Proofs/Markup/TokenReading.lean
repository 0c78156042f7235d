import ComponentMarkup.Markup.Token
import ComponentMarkup.Proofs.Text.Runs
import ComponentMarkup.Proofs.Text.Searching

set_option autoImplicit false

namespace ComponentMarkup

def AtBracket (s : List Char) : Prop := StopsAt (· != '<') s

theorem atBracket_nil : AtBracket [] := stopsAt_nil

theorem atBracket_cons (s : List Char) : AtBracket ('<' :: s) := by simp [AtBracket]

theorem AtBracket.cases {s : List Char} (h : AtBracket s) : s = [] ∨ ∃ t, s = '<' :: t := by
  cases s with
  | nil => exact .inl rfl
  | cons c t => exact .inr ⟨t, by simpa [AtBracket] using h⟩

theorem AtBracket.stopsAt {s : List Char} (h : AtBracket s) {p : Char → Bool} (hp : p '<' = false) :
    StopsAt p s := by
  rcases h.cases with rfl | ⟨t, rfl⟩
  · exact stopsAt_nil
  · exact stopsAt_cons.2 hp

theorem AtBracket.lowerAscii {s : List Char} (h : AtBracket s) : AtBracket (lowerAscii s) := by
  rcases h.cases with rfl | ⟨t, rfl⟩
  · exact atBracket_nil
  · exact atBracket_cons _

theorem AtBracket.prefix_of_append {pattern s rest : List Char} (h : AtBracket rest)
    (hp : '<' ∉ pattern) (hs : pattern <+: s ++ rest) : pattern <+: s := by
  rcases prefix_append_cases hs with hs | ⟨q, hq, rfl, hqr⟩
  · exact hs
  · obtain ⟨c, q, rfl⟩ := List.exists_cons_of_ne_nil hq
    rcases h.cases with rfl | ⟨t, rfl⟩
    · simp at hqr
    · obtain ⟨rfl, -⟩ := List.cons_prefix_cons.1 hqr
      simp at hp

theorem AtBracket.noOverlap {pattern s rest : List Char} (h : AtBracket rest)
    (hp : '<' ∉ pattern.tail) : NoOverlap pattern s rest := by
  rintro t q ht hq rfl - hqr
  obtain ⟨c, q, rfl⟩ := List.exists_cons_of_ne_nil hq
  rcases h.cases with rfl | ⟨t', rfl⟩
  · simp at hqr
  · obtain ⟨rfl, -⟩ := List.cons_prefix_cons.1 hqr
    obtain ⟨d, t, rfl⟩ := List.exists_cons_of_ne_nil ht
    simp at hp

/-- A tag, a comment or a doctype begins with the bracket before these characters. At the end of
everything a doctype without an end is none. -/
def opensMarkup (atEnd : Bool) : List Char → Bool
  | '!' :: cs =>
    ['-', '-'].isPrefixOf cs ||
      (startsWithCaseless "doctype".toList cs && (!atEnd || cs.contains '>'))
  | '/' :: cs =>
    startsWithLetter cs && ((cs.dropWhile isTagNameChar).dropWhile isSpace).head? == some '>'
  | cs => startsWithLetter cs

def isPlain (atEnd : Bool) : List Char → Bool
  | [] => true
  | c :: cs => !(c == '<' && opensMarkup atEnd cs) && isPlain atEnd cs

theorem isPlain_of_suffix {atEnd : Bool} {s t : List Char} (h : isPlain atEnd s = true)
    (ht : t <:+ s) : isPlain atEnd t = true := by
  induction s with
  | nil =>
    rw [List.suffix_nil.1 ht]
    rfl
  | cons c s ih =>
    rcases List.suffix_cons_iff.1 ht with rfl | ht
    · exact h
    · simp only [isPlain, Bool.and_eq_true] at h
      exact ih h.2 ht

theorem isPlain_of_noBracket {atEnd : Bool} {s : List Char} (h : '<' ∉ s) :
    isPlain atEnd s = true := by
  induction s with
  | nil => rfl
  | cons c s ih =>
    simp only [List.mem_cons, not_or] at h
    have hc : (c == '<') = false := by simpa using fun he => h.1 he.symm
    simp [isPlain, hc, ih h.2]

namespace Token

theorem readMarkup_other {cs : List Char} (h : startsWithLetter cs = false)
    (h₁ : cs.head? ≠ some '!') (h₂ : cs.head? ≠ some '/') : readMarkup cs = readBracket cs := by
  unfold readMarkup
  split
  · simp at h₁
  · simp at h₂
  · rw [if_neg (by simp [h])]

theorem readMarkup_plain {atEnd : Bool} {cs rest : List Char} (h : opensMarkup atEnd cs = false)
    (hr : AtBracket rest) (he : atEnd = true → rest = []) :
    ∃ u v token, cs = u ++ v ∧ readMarkup (cs ++ rest) = (⟨[], token, '<' :: u⟩, v ++ rest) ∧
      (token = .text ∨ token = .error) := by
  have hletter : startsWithLetter rest = false := by
    rcases hr.cases with rfl | ⟨t, rfl⟩
    · rfl
    · rfl
  -- nothing begins here
  have hbracket : readMarkup (cs ++ rest) = readBracket (cs ++ rest) →
      ∃ u v token, cs = u ++ v ∧ readMarkup (cs ++ rest) = (⟨[], token, '<' :: u⟩, v ++ rest) ∧
        (token = .text ∨ token = .error) :=
    fun h => ⟨[], cs, .text, rfl, h, .inl rfl⟩
  unfold opensMarkup at h
  split at h
  · rename_i cs
    simp only [Bool.or_eq_false_iff] at h
    obtain ⟨hdash, hdoctype⟩ := h
    have hdash' : ¬['-', '-'].isPrefixOf (cs ++ rest) = true := by
      rw [List.isPrefixOf_iff_prefix]
      intro hp
      have := hr.prefix_of_append (by simp) hp
      rw [← List.isPrefixOf_iff_prefix, hdash] at this
      cases this
    by_cases hd : startsWithCaseless "doctype".toList cs = true
    · rw [hd, Bool.true_and] at hdoctype
      have hend : atEnd = true ∧ '>' ∉ cs := by simpa using hdoctype
      obtain rfl := he hend.1
      have hall : cs.takeWhile (· != '>') = cs := by
        simpa using takeWhile_run (ne_of_notMem hend.2) stopsAt_nil
      have hno : cs.dropWhile (· != '>') = [] := by
        simpa using dropWhile_run (ne_of_notMem hend.2) stopsAt_nil
      refine ⟨'!' :: cs, [], .error, by simp, ?_, .inr rfl⟩
      rw [List.append_nil] at hdash' ⊢
      simp only [readMarkup, hd, readDoctype, hno, hall, if_neg hdash', if_true]
      rfl
    · have hd' : ¬startsWithCaseless "doctype".toList (cs ++ rest) = true := by
        intro hp
        rw [startsWithCaseless_iff, lowerAscii_append] at hp
        exact hd (startsWithCaseless_iff.2 (hr.lowerAscii.prefix_of_append (by decide) hp))
      refine hbracket ?_
      simp only [List.cons_append, readMarkup, if_neg hdash', if_neg hd']
  · rename_i cs
    cases hl : startsWithLetter cs with
    | false =>
      have hl' : startsWithLetter (cs ++ rest) = false := by
        cases cs with
        | nil => exact hletter
        | cons c cs => exact hl
      refine hbracket ?_
      simp [readMarkup, hl']
    | true =>
      have hl' : startsWithLetter (cs ++ rest) = true := by
        cases cs with
        | nil => cases hl
        | cons c cs => exact hl
      have hname : StopsAt isTagNameChar rest := hr.stopsAt (by decide)
      have hspace : StopsAt isSpace rest := hr.stopsAt (by decide)
      refine ⟨'/' :: (cs.takeWhile isTagNameChar ++ (cs.dropWhile isTagNameChar).takeWhile isSpace),
        (cs.dropWhile isTagNameChar).dropWhile isSpace, .error, ?_, ?_, .inr rfl⟩
      · simp
      · simp only [List.cons_append, readMarkup, hl', if_true, readClose,
          takeWhile_append_stopsAt _ hname, dropWhile_append_stopsAt _ hname,
          takeWhile_append_stopsAt _ hspace, dropWhile_append_stopsAt _ hspace]
        simp only [hl, Bool.true_and, beq_eq_false_iff_ne, ne_eq] at h
        generalize (cs.dropWhile isTagNameChar).dropWhile isSpace = after at h
        cases after with
        | nil =>
          rcases hr.cases with rfl | ⟨t, rfl⟩
          · rfl
          · rfl
        | cons c after =>
          have hc : ¬c = '>' := by simpa using h
          simp only [List.cons_append, if_neg hc]
  · rename_i h₁ h₂
    refine hbracket (readMarkup_other ?_ ?_ ?_)
    · cases cs with
      | nil => exact hletter
      | cons c cs => exact h
    · cases cs with
      | nil =>
        rcases hr.cases with rfl | ⟨t, rfl⟩
        · simp
        · simp
      | cons c cs =>
        rintro hc
        obtain rfl := Option.some.inj hc
        exact h₁ cs rfl
    · cases cs with
      | nil =>
        rcases hr.cases with rfl | ⟨t, rfl⟩
        · simp
        · simp
      | cons c cs =>
        rintro hc
        obtain rfl := Option.some.inj hc
        exact h₂ cs rfl

theorem next_bracket (cs : List Char) : next ('<' :: cs) = some (readMarkup cs) := rfl

theorem readMarkup_comment {body : List Char} (h : ¬"-->".toList <:+: body) (rest : List Char) :
    readMarkup ("!--".toList ++ (body ++ ("-->".toList ++ rest))) =
      (⟨[], .comment body, "<!--".toList ++ (body ++ "-->".toList)⟩, rest) := by
  have hover : NoOverlap ['-', '-', '>'] body ('-' :: '-' :: '>' :: rest) := by
    rintro t q ht hq he - hp
    rcases t with _ | ⟨a, _ | ⟨b, t⟩⟩
    · exact ht rfl
    · obtain ⟨-, rfl⟩ := List.cons.inj he
      simp at hp
    · obtain ⟨-, he⟩ := List.cons.inj (List.cons.inj he).2
      cases t with
      | nil =>
        obtain rfl := he
        simp at hp
      | cons d t => exact hq (List.append_eq_nil_iff.1 (List.cons.inj he).2.symm).2
  have hsplit : splitWhere (['-', '-', '>'].isPrefixOf ·) (body ++ '-' :: '-' :: '>' :: rest) =
      (body, '-' :: '-' :: '>' :: rest) := by
    have hbody : (splitWhere (['-', '-', '>'].isPrefixOf ·) body).2 = [] :=
      splitWhere_exact_of_absent h
    rw [splitWhere_append_exact hover, if_pos hbody, splitWhere_of_match (by simp)]
    simp
  simp [readMarkup, readComment, hsplit]

theorem readMarkup_doctype {body : List Char} (h : startsWithCaseless "doctype".toList body = true)
    (hb : '>' ∉ body) (rest : List Char) :
    readMarkup ('!' :: (body ++ '>' :: rest)) =
      (⟨[], .doctype body, '<' :: '!' :: (body ++ ['>'])⟩, rest) := by
  have hrun := ne_of_notMem hb
  have hstop : StopsAt (· != '>') ('>' :: rest) := by simp
  have hd : startsWithCaseless "doctype".toList (body ++ '>' :: rest) = true := by
    rw [startsWithCaseless_iff, lowerAscii_append]
    exact (startsWithCaseless_iff.1 h).trans (List.prefix_append _ _)
  have hdash : ¬['-', '-'].isPrefixOf (body ++ '>' :: rest) = true := by
    intro hp
    obtain ⟨t, ht⟩ := List.isPrefixOf_iff_prefix.1 hp
    rw [← ht] at hd
    exact absurd hd (by simp [startsWithCaseless])
  simp only [readMarkup, if_neg hdash, hd, if_true, readDoctype, takeWhile_run hrun hstop,
    dropWhile_run hrun hstop]
  simp

theorem readMarkup_open {name rest : List Char} (hn : startsWithLetter name = true)
    (hc : ∀ c ∈ name, isTagNameChar c = true) (hr : StopsAt isTagNameChar rest) :
    readMarkup (name ++ rest) = (⟨[], .tagOpen (lowerAscii name), '<' :: name⟩, rest) := by
  obtain ⟨c, cs, rfl⟩ : ∃ c cs, name = c :: cs := by
    cases name with
    | nil => cases hn
    | cons c cs => exact ⟨c, cs, rfl⟩
  have hbang : c ≠ '!' := by
    rintro rfl
    cases hn
  have hslash : c ≠ '/' := by
    rintro rfl
    cases hn
  have hl : startsWithLetter (c :: cs ++ rest) = true := hn
  have hread : readMarkup (c :: cs ++ rest) = readOpen (c :: cs ++ rest) := by
    unfold readMarkup
    split
    · rename_i he
      exact absurd (List.cons.inj he).1 hbang
    · rename_i he
      exact absurd (List.cons.inj he).1 hslash
    · rw [if_pos hl]
  rw [hread, readOpen, takeWhile_run hc hr, dropWhile_run hc hr]

theorem readMarkup_closeSpaced {name space : List Char} (hn : startsWithLetter name = true)
    (hc : ∀ c ∈ name, isTagNameChar c = true) (hs : ∀ c ∈ space, isSpace c = true)
    (rest : List Char) :
    readMarkup ('/' :: (name ++ (space ++ '>' :: rest))) =
      (⟨[], .tagClose (lowerAscii (trimRight (name ++ space))),
        '<' :: '/' :: (name ++ space ++ ['>'])⟩, rest) := by
  have hl : startsWithLetter (name ++ (space ++ '>' :: rest)) = true := by
    cases name with
    | nil => cases hn
    | cons c cs => exact hn
  have hstop : StopsAt isTagNameChar (space ++ '>' :: rest) := by
    cases space with
    | nil => exact stopsAt_cons.2 (by decide)
    | cons c cs => exact stopsAt_cons.2 (by simp [isTagNameChar, hs c List.mem_cons_self])
  have hgap : StopsAt isSpace ('>' :: rest) := stopsAt_cons.2 (by decide)
  simp only [readMarkup, hl, if_true, readClose, takeWhile_run hc hstop, dropWhile_run hc hstop,
    takeWhile_run hs hgap, dropWhile_run hs hgap]

theorem readMarkup_close {name : List Char} (hn : startsWithLetter name = true)
    (hc : ∀ c ∈ name, isTagNameChar c = true) (rest : List Char) :
    readMarkup ('/' :: (name ++ '>' :: rest)) =
      (⟨[], .tagClose (lowerAscii (trimRight name)), '<' :: '/' :: (name ++ ['>'])⟩, rest) := by
  have hspace : ∀ c ∈ ([] : List Char), isSpace c = true := nofun
  simpa using readMarkup_closeSpaced hn hc hspace rest

end Token

end ComponentMarkup
