import Mathlib.Data.List.Infix
import ComponentMarkup.Proofs.Component.Placeholders
import ComponentMarkup.Proofs.Text.Occurrences

set_option autoImplicit false

namespace ComponentMarkup

/-- A mark behind which the longest run of name characters is this name. -/
def nameToken (mark : Char) (hm : isNameChar mark = false) (name : List Char) : TokenKind where
  mark := mark
  first?
    | [] => none
    | c :: cs => if c = mark ∧ cs.takeWhile isNameChar = name then some (mark :: name) else none
  begins := by
    intro s t h
    cases s with
    | nil => cases h
    | cons c cs =>
      simp only [Option.ite_none_right_eq_some, Option.some.injEq] at h
      obtain ⟨⟨rfl, rfl⟩, rfl⟩ := h
      refine ⟨_, rfl, fun hmem => ?_, ?_⟩
      · rw [List.mem_takeWhile_imp hmem] at hm
        cases hm
      · exact List.cons_prefix_cons.2 ⟨rfl, List.takeWhile_prefix _⟩

section Mark

variable {mark : Char} {name : List Char}

@[simp] theorem mark_nameToken (hm : isNameChar mark = false) :
    (nameToken mark hm name).mark = mark := rfl

theorem first?_nameToken (hm : isNameChar mark = false) (name : List Char) (c : Char)
    (cs : List Char) : (nameToken mark hm name).first? (c :: cs) =
      if c = mark ∧ cs.takeWhile isNameChar = name then some (mark :: name) else none := rfl

theorem rewrite_nameToken (hm : isNameChar mark = false) (f : List Char → List Char)
    {w : List Char} (hw : ∀ c ∈ w, isNameChar c = true) {rest : List Char}
    (hr : StopsAt isNameChar rest) :
    (nameToken mark hm name).rewrite f (mark :: (w ++ rest)) =
      (if w = name then f (mark :: w) else mark :: w) ++ (nameToken mark hm name).rewrite f rest := by
  have hfirst := first?_nameToken hm name mark (w ++ rest)
  rw [takeWhile_run hw hr] at hfirst
  by_cases he : w = name
  · subst he
    rw [if_pos ⟨rfl, rfl⟩] at hfirst
    rw [if_pos rfl]
    exact TokenKind.rewrite_token (t := mark :: w) hfirst
  · have hmark : (nameToken mark hm name).mark ∉ w := fun hmem => by
      rw [show isNameChar mark = true from hw mark hmem] at hm
      cases hm
    rw [if_neg (fun h => he h.2)] at hfirst
    rw [if_neg he, TokenKind.rewrite_cons hfirst, TokenKind.rewrite_run hmark, List.cons_append]

/-- Searching for the token, and looking at what follows it, finds these places. -/
theorem replaceToken_eq_rewrite (hm : isNameChar mark = false)
    (hn : ∀ c ∈ name, isNameChar c = true) (value text : List Char) :
    replaceToken mark name value text = (nameToken mark hm name).rewrite (fun _ => value) text := by
  fun_induction textParts (· == mark) text with
  | case1 => rw [replaceToken]; rfl
  | case2 c cs hc ih =>
    obtain rfl : c = mark := by simpa using hc
    have hw : ∀ d ∈ cs.takeWhile isNameChar, isNameChar d = true :=
      fun d hd => List.mem_takeWhile_imp hd
    have hr := stopsAt_dropWhile isNameChar cs
    rw [← List.takeWhile_append_dropWhile (p := isNameChar) (l := cs),
      replaceToken_run hm hn value hw hr, rewrite_nameToken hm (fun _ => value) hw hr, ih]
  | case3 c cs hc ih =>
    have hne : c ≠ mark := by simpa using hc
    rw [replaceToken, if_neg (fun h => hne h.1), ih,
      TokenKind.rewrite_cons (TokenKind.first?_of_not_mark (by simpa using hne))]

theorem textParts_append {isMark : Char → Bool} (a : List Char) {b : List Char}
    (hb : StopsAt isNameChar b) :
    textParts isMark (a ++ b) = textParts isMark a ++ textParts isMark b := by
  fun_induction textParts isMark a with
  | case1 => rfl
  | case2 c cs hc ih =>
    rw [List.cons_append, textParts_mark hc, takeWhile_append_stopsAt cs hb,
      dropWhile_append_stopsAt cs hb, ih, List.cons_append]
  | case3 c cs hc ih =>
    rw [List.cons_append, textParts_char (by simpa using hc), ih, List.cons_append]

theorem replaceToken_append (hm : isNameChar mark = false) (hn : ∀ c ∈ name, isNameChar c = true)
    (value a : List Char) {b : List Char} (hb : StopsAt isNameChar b) :
    replaceToken mark name value (a ++ b) =
      replaceToken mark name value a ++ replaceToken mark name value b := by
  have hi : MarksApart (· == mark) := by
    intro c hc
    obtain rfl : c = mark := by simpa using hc
    exact hm
  have heq := replaceToken_eq hi (r := ⟨mark, name, value⟩) (by simp) hn
  simp only [replaceAtOnce] at heq
  rw [heq, heq, heq, textParts_append a hb, List.flatMap_append]

/-- Replacing the placeholder of a name, whatever its mark (`$` and `!` are), replaces each mark whose
longest following run of name characters is the name, with this run, and copies every other
character. No value is read again: what stands between the placeholders is the same for every value.
The placeholder of another name stays as it is, also when one of the names begins the other. -/
theorem replaceToken_maximal_munch (hm : isNameChar mark = false)
    (hn : ∀ c ∈ name, isNameChar c = true) (text : List Char) :
    (∀ value, replaceToken mark name value text =
      (nameToken mark hm name).rewrite (fun _ => value) text) ∧
    (∃ between : List (List Char), (mark :: name).intercalate between = text ∧
      ∀ value, replaceToken mark name value text = value.intercalate between) ∧
    ∀ before other after, text = before ++ mark :: (other ++ after) →
      (∀ c ∈ other, isNameChar c = true) → StopsAt isNameChar after → other ≠ name →
      ∀ value, replaceToken mark name value text =
        replaceToken mark name value before ++
          mark :: (other ++ replaceToken mark name value after) := by
  refine ⟨fun value => replaceToken_eq_rewrite hm hn value text, ?_, ?_⟩
  · obtain ⟨between, hb⟩ := (nameToken mark hm name).exists_rewrite_eq_intercalate text
    refine ⟨between, ?_, fun value => (replaceToken_eq_rewrite hm hn value text).trans (hb value)⟩
    rw [← hb]
    refine TokenKind.rewrite_eq_self (fun s t ht => ?_) text
    cases s with
    | nil => cases ht
    | cons c cs =>
      rw [first?_nameToken] at ht
      split at ht
      · exact Option.some.inj ht
      · cases ht
  · rintro before other after rfl ho ha hne value
    rw [replaceToken_append hm hn value before (stopsAt_cons.2 hm),
      replaceToken_run hm hn value ho ha, if_neg hne, List.cons_append]

end Mark

theorem replaceToken_maximal_munch_dollar :
    isNameChar '$' = false ∧ (∀ c ∈ "ab".toList, isNameChar c = true) ∧
      replaceToken '$' "ab".toList "x$ab".toList "$ab$ab$abc-$a é$abé".toList =
        "x$abx$ab$abc-$a éx$abé".toList := by
  have hname : ∀ c ∈ "ab".toList, isNameChar c = true := List.all_eq_true.1 (by decide)
  refine ⟨by decide, hname, ?_⟩
  rw [(replaceToken_maximal_munch (by decide) hname _).1]
  decide

end ComponentMarkup
