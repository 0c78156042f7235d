import ComponentMarkup.Text.Case
import ComponentMarkup.Text.Split
import Mathlib.Data.List.Infix

set_option autoImplicit false

namespace ComponentMarkup

section Test

variable {p : List Char → Bool} {a b s : List Char}

theorem splitWhere_of_match (h : p s = true) : splitWhere p s = ([], s) := by
  cases s with
  | nil => rfl
  | cons c s => rw [splitWhere, if_pos h]

theorem splitWhere_of_append (hb : ∀ t, p t = true → p (t ++ b) = true)
    (ha : ∀ t, t ≠ [] → t <:+ a → p (t ++ b) = true → p t = true) :
    splitWhere p (a ++ b) =
      if (splitWhere p a).2 = [] then (a ++ (splitWhere p b).1, (splitWhere p b).2)
      else ((splitWhere p a).1, (splitWhere p a).2 ++ b) := by
  induction a with
  | nil => rfl
  | cons c a ih =>
    have ih := ih fun t ht hs => ha t ht (hs.trans (List.suffix_cons c a))
    by_cases hc : p (c :: a) = true
    · have hcb : p (c :: (a ++ b)) = true := hb _ hc
      rw [List.cons_append, splitWhere_of_match hc, splitWhere_of_match hcb,
        if_neg (List.cons_ne_nil c a)]
      rfl
    · have hcb : ¬p (c :: (a ++ b)) = true :=
        fun h => hc (ha _ (List.cons_ne_nil c a) (List.suffix_refl _) h)
      rw [List.cons_append, splitWhere, if_neg hcb, ih, splitWhere, if_neg hc]
      by_cases hn : (splitWhere p a).2 = []
      · rw [if_pos hn, if_pos hn]
        rfl
      · rw [if_neg hn, if_neg hn]

theorem splitWhere_snd_eq_nil (h : ∀ t, t ≠ [] → t <:+ s → p t = false) :
    (splitWhere p s).2 = [] := by
  induction s with
  | nil => rfl
  | cons c s ih =>
    have hc : p (c :: s) = false := h _ (List.cons_ne_nil c s) (List.suffix_refl _)
    rw [splitWhere, if_neg (by simp [hc])]
    exact ih fun t ht hs => h t ht (hs.trans (List.suffix_cons c s))

theorem test_splitWhere_fst (p : List Char → Bool) (s : List Char) :
    ∀ t, t ≠ [] → t <:+ (splitWhere p s).1 → p (t ++ (splitWhere p s).2) = false := by
  induction s with
  | nil =>
    intro t ht hs
    exact absurd (List.suffix_nil.1 hs) ht
  | cons c s ih =>
    rw [splitWhere]
    by_cases hc : p (c :: s) = true
    · rw [if_pos hc]
      intro t ht hs
      exact absurd (List.suffix_nil.1 hs) ht
    · rw [if_neg hc]
      intro t ht hs
      rcases List.suffix_cons_iff.1 hs with rfl | hs
      · rw [List.cons_append, splitWhere_append]
        simpa using hc
      · exact ih t ht hs

theorem test_splitWhere_snd (p : List Char → Bool) (s : List Char) (h : (splitWhere p s).2 ≠ []) :
    p (splitWhere p s).2 = true := by
  induction s with
  | nil => exact absurd rfl h
  | cons c s ih =>
    rw [splitWhere] at h ⊢
    by_cases hc : p (c :: s) = true
    · rw [if_pos hc]
      exact hc
    · rw [if_neg hc] at h ⊢
      exact ih h

theorem splitWhere_eq (ha : ∀ t, t ≠ [] → t <:+ a → p (t ++ b) = false)
    (hb : b ≠ [] → p b = true) : splitWhere p (a ++ b) = (a, b) := by
  induction a with
  | nil =>
    cases b with
    | nil => rfl
    | cons c b => exact splitWhere_of_match (hb (List.cons_ne_nil c b))
  | cons c a ih =>
    have hc := ha (c :: a) (List.cons_ne_nil c a) (List.suffix_refl _)
    rw [List.cons_append] at hc ⊢
    rw [splitWhere, hc, ih fun t ht hs => ha t ht (hs.trans (List.suffix_cons c a))]
    rfl

end Test

/-- A pattern before two texts lies in the first, or begins there and ends in the second. -/
theorem prefix_append_cases {pattern a b : List Char} (h : pattern <+: a ++ b) :
    pattern <+: a ∨ ∃ q, q ≠ [] ∧ pattern = a ++ q ∧ q <+: b := by
  rcases List.prefix_or_prefix_of_prefix h (List.prefix_append a b) with hp | ⟨q, rfl⟩
  · exact .inl hp
  · cases q with
    | nil => exact .inl (by rw [List.append_nil])
    | cons c q =>
      rw [List.prefix_append_right_inj] at h
      exact .inr ⟨c :: q, List.cons_ne_nil c q, rfl, h⟩

def NoOverlap (pattern a b : List Char) : Prop :=
  ∀ t q, t ≠ [] → q ≠ [] → pattern = t ++ q → t <:+ a → ¬q <+: b

theorem NoOverlap.prefix_of_append {pattern a b t : List Char} (h : NoOverlap pattern a b)
    (ht : t ≠ []) (hs : t <:+ a) (hp : pattern <+: t ++ b) : pattern <+: t := by
  rcases prefix_append_cases hp with hp | ⟨q, hq, he, hp⟩
  · exact hp
  · exact absurd hp (h t q ht hq he hs)

theorem splitWhere_append_exact {pattern a b : List Char} (h : NoOverlap pattern a b) :
    splitWhere (pattern.isPrefixOf ·) (a ++ b) =
      if (splitWhere (pattern.isPrefixOf ·) a).2 = [] then
        (a ++ (splitWhere (pattern.isPrefixOf ·) b).1, (splitWhere (pattern.isPrefixOf ·) b).2)
      else
        ((splitWhere (pattern.isPrefixOf ·) a).1,
          (splitWhere (pattern.isPrefixOf ·) a).2 ++ b) := by
  apply splitWhere_of_append
  · intro t ht
    rw [List.isPrefixOf_iff_prefix] at ht ⊢
    exact ht.trans (List.prefix_append t b)
  · intro t ht hs hp
    rw [List.isPrefixOf_iff_prefix] at hp ⊢
    exact h.prefix_of_append ht hs hp

theorem startsWithCaseless_iff {pattern s : List Char} :
    startsWithCaseless pattern s = true ↔ pattern <+: lowerAscii s := by
  rw [startsWithCaseless, beq_iff_eq, List.prefix_iff_eq_take, lowerAscii, List.map_take]
  exact eq_comm

theorem splitWhere_append_caseless {pattern a b : List Char}
    (h : NoOverlap pattern (lowerAscii a) (lowerAscii b)) :
    splitWhere (startsWithCaseless pattern) (a ++ b) =
      if (splitWhere (startsWithCaseless pattern) a).2 = [] then
        (a ++ (splitWhere (startsWithCaseless pattern) b).1,
          (splitWhere (startsWithCaseless pattern) b).2)
      else
        ((splitWhere (startsWithCaseless pattern) a).1,
          (splitWhere (startsWithCaseless pattern) a).2 ++ b) := by
  apply splitWhere_of_append
  · intro t ht
    rw [startsWithCaseless_iff, lowerAscii_append]
    exact (startsWithCaseless_iff.1 ht).trans (List.prefix_append _ _)
  · intro t ht hs hp
    rw [startsWithCaseless_iff, lowerAscii_append] at hp
    refine startsWithCaseless_iff.2 (h.prefix_of_append ?_ (hs.map Char.toLower) hp)
    simpa [lowerAscii] using ht

theorem splitWhere_caseless_of_absent {pattern s : List Char} (h : ¬pattern <:+: lowerAscii s) :
    (splitWhere (startsWithCaseless pattern) s).2 = [] := by
  refine splitWhere_snd_eq_nil fun t _ hs => ?_
  rw [Bool.eq_false_iff, ne_eq, startsWithCaseless_iff]
  exact fun hp => h (hp.isInfix.trans (hs.map Char.toLower).isInfix)

theorem splitWhere_caseless_eq_nil_iff {pattern s : List Char} (hp : pattern ≠ []) :
    (splitWhere (startsWithCaseless pattern) s).2 = [] ↔ ¬pattern <:+: lowerAscii s := by
  refine ⟨fun hcut hinfix => ?_, splitWhere_caseless_of_absent⟩
  obtain ⟨v, ⟨before, after, hs⟩, rfl⟩ := List.infix_map_iff.1 hinfix
  rw [List.append_assoc] at hs
  have hall := splitWhere_append (startsWithCaseless (v.map Char.toLower)) s
  rw [hcut, List.append_nil] at hall
  have hne : v ++ after ≠ [] := List.append_ne_nil_of_left_ne_nil (by simpa using hp) after
  have htest := test_splitWhere_fst (startsWithCaseless (v.map Char.toLower)) s (v ++ after) hne
    (by rw [hall]; exact ⟨before, hs⟩)
  rw [hcut, List.append_nil, Bool.eq_false_iff, ne_eq, startsWithCaseless_iff,
    lowerAscii_append] at htest
  exact htest (List.prefix_append _ _)

theorem splitWhere_exact_of_absent {pattern s : List Char} (h : ¬pattern <:+: s) :
    (splitWhere (pattern.isPrefixOf ·) s).2 = [] := by
  refine splitWhere_snd_eq_nil fun t _ hs => ?_
  rw [Bool.eq_false_iff, ne_eq, List.isPrefixOf_iff_prefix]
  exact fun hp => h (hp.isInfix.trans hs.isInfix)

theorem absent_splitWhere_exact {pattern : List Char} (hp : pattern ≠ []) (s : List Char) :
    ¬pattern <:+: (splitWhere (pattern.isPrefixOf ·) s).1 := by
  rintro ⟨before, after, he⟩
  have hs : pattern ++ after <:+ (splitWhere (pattern.isPrefixOf ·) s).1 :=
    ⟨before, by rw [← he, List.append_assoc]⟩
  have h := test_splitWhere_fst _ s _ (List.append_ne_nil_of_left_ne_nil hp after) hs
  rw [Bool.eq_false_iff, ne_eq, List.isPrefixOf_iff_prefix, List.append_assoc] at h
  exact h (List.prefix_append _ _)

end ComponentMarkup
