import Mathlib.Data.List.Basic
import Mathlib.Data.List.Infix
import Mathlib.Data.List.Range

/-!
Tokens at the places of a text, and the text with something else in their places, place by place.
Main statements: `TokenKind.rewrite_token`, `TokenKind.found_token` and their companions for
characters outside of tokens, what a reader from left to right may go by.
-/

set_option autoImplicit false

namespace ComponentMarkup

/-- A kind of token: a mark with something behind it in which the mark does not stand, so that two
tokens never overlap. `first?` tells the token that a text begins with. -/
structure TokenKind where
  mark : Char
  first? : List Char → Option (List Char)
  begins : ∀ {s t}, first? s = some t → ∃ run, t = mark :: run ∧ mark ∉ run ∧ t <+: s

namespace TokenKind

variable (k : TokenKind) (f : List Char → List Char)

def at? (s : List Char) (i : Nat) : Option (List Char) := k.first? (s.drop i)

def covers (s : List Char) (i : Nat) : Bool :=
  (List.range i).any fun j => (k.at? s j).any fun t => i < j + t.length

/-- What is written for a place: for a token all at once where it begins, else the character. -/
def writtenAt (s : List Char) (i : Nat) : List Char :=
  match k.at? s i with
  | some t => f t
  | none => if k.covers s i then [] else s[i]?.toList

def rewrite (s : List Char) : List Char := (List.range s.length).flatMap (k.writtenAt f s)

def found (s : List Char) : List (List Char) := (List.range s.length).filterMap (k.at? s)

variable {k f} {s t : List Char}

theorem first?_of_not_mark {s : List Char} (h : ∀ c ∈ s.head?, c ≠ k.mark) : k.first? s = none := by
  cases hf : k.first? s with
  | none => rfl
  | some t =>
    obtain ⟨run, rfl, -, rest, rfl⟩ := k.begins hf
    exact absurd rfl (h k.mark rfl)

theorem at?_inside {rest : List Char} (h : k.first? (t ++ rest) = some t) {i : Nat} (hi : 0 < i)
    (hit : i < t.length) : k.at? (t ++ rest) i = none := by
  obtain ⟨run, rfl, hrun, -⟩ := k.begins h
  obtain ⟨i, rfl⟩ := Nat.exists_eq_add_one_of_ne_zero hi.ne'
  refine first?_of_not_mark fun c hc => ?_
  rintro rfl
  rw [List.head?_drop, List.getElem?_append_left hit, List.getElem?_cons_succ] at hc
  exact hrun (List.mem_of_getElem? hc)

theorem at?_append (a b : List Char) (i : Nat) : k.at? (a ++ b) (a.length + i) = k.at? b i := by
  rw [at?, at?, List.drop_length_add_append]

/-- A first part over whose end no token reaches does not matter for what stands behind it. -/
theorem covers_append {a b : List Char}
    (h : ∀ j < a.length, ∀ u ∈ k.at? (a ++ b) j, j + u.length ≤ a.length) (i : Nat) :
    k.covers (a ++ b) (a.length + i) = k.covers b i := by
  have hfirst : (List.range a.length).any (fun j =>
      (k.at? (a ++ b) j).any fun u => a.length + i < j + u.length) = false := by
    rw [List.any_eq_false]
    intro j hj
    cases hu : k.at? (a ++ b) j with
    | none => simp
    | some u =>
      have := h j (List.mem_range.1 hj) u hu
      simp only [Option.any_some, decide_eq_true_eq]
      omega
  unfold covers
  rw [List.range_add, List.any_append, hfirst, Bool.false_or, List.any_map]
  refine List.any_congr rfl fun j => ?_
  simp only [Function.comp_apply, at?_append, Nat.add_assoc, Nat.add_lt_add_iff_left]

theorem writtenAt_append {a b : List Char}
    (h : ∀ j < a.length, ∀ u ∈ k.at? (a ++ b) j, j + u.length ≤ a.length) (i : Nat) :
    k.writtenAt f (a ++ b) (a.length + i) = k.writtenAt f b i := by
  have hget : (a ++ b)[a.length + i]? = b[i]? := by
    rw [List.getElem?_append_right (Nat.le_add_right _ _), Nat.add_sub_cancel_left]
  rw [writtenAt, writtenAt, at?_append, covers_append h, hget]

theorem rewrite_append {a b : List Char}
    (h : ∀ j < a.length, ∀ u ∈ k.at? (a ++ b) j, j + u.length ≤ a.length) :
    k.rewrite f (a ++ b) =
      (List.range a.length).flatMap (k.writtenAt f (a ++ b)) ++ k.rewrite f b := by
  unfold rewrite
  rw [List.length_append, List.range_add, List.flatMap_append, List.flatMap_map]
  simp only [writtenAt_append h]

theorem found_append (a b : List Char) :
    k.found (a ++ b) = (List.range a.length).filterMap (k.at? (a ++ b)) ++ k.found b := by
  unfold found
  rw [List.length_append, List.range_add, List.filterMap_append, List.filterMap_map]
  simp only [Function.comp_def, at?_append]

@[simp] theorem rewrite_nil : k.rewrite f [] = [] := rfl

@[simp] theorem found_nil : k.found [] = [] := rfl

theorem at?_cons_zero {c : Char} (h : k.first? (c :: s) = none) :
    ∀ j < [c].length, k.at? ([c] ++ s) j = none := by
  intro j hj
  obtain rfl : j = 0 := by simpa using hj
  exact h

theorem rewrite_cons {c : Char} (h : k.first? (c :: s) = none) :
    k.rewrite f (c :: s) = c :: k.rewrite f s := by
  have hnone := at?_cons_zero h
  have happ := rewrite_append (k := k) (f := f) (a := [c]) (b := s) fun j hj u hu => by
    rw [hnone j hj] at hu
    cases hu
  have hwritten : k.writtenAt f (c :: s) 0 = [c] := by
    rw [writtenAt, at?, List.drop_zero, h]
    rfl
  simpa [hwritten] using happ

theorem found_cons {c : Char} (h : k.first? (c :: s) = none) : k.found (c :: s) = k.found s := by
  have happ := found_append (k := k) [c] s
  simpa [at?, h] using happ

theorem rewrite_run {a : List Char} (ha : k.mark ∉ a) (b : List Char) :
    k.rewrite f (a ++ b) = a ++ k.rewrite f b := by
  induction a with
  | nil => rfl
  | cons c a ih =>
    obtain ⟨hc, ha⟩ := List.ne_and_not_mem_of_not_mem_cons ha
    rw [List.cons_append, rewrite_cons (first?_of_not_mark (by simpa using Ne.symm hc)), ih ha]
    rfl

theorem found_run {a : List Char} (ha : k.mark ∉ a) (b : List Char) :
    k.found (a ++ b) = k.found b := by
  induction a with
  | nil => rfl
  | cons c a ih =>
    obtain ⟨hc, ha⟩ := List.ne_and_not_mem_of_not_mem_cons ha
    rw [List.cons_append, found_cons (first?_of_not_mark (by simpa using Ne.symm hc)), ih ha]

theorem rewrite_token {rest : List Char} (h : k.first? (t ++ rest) = some t) :
    k.rewrite f (t ++ rest) = f t ++ k.rewrite f rest := by
  obtain ⟨run, rfl, hrun, -⟩ := k.begins h
  have hinside := fun i => at?_inside h (i := i)
  rw [rewrite_append]
  · rw [List.length_cons, List.range_succ_eq_map, List.flatMap_cons, List.flatMap_map]
    have hstart : k.writtenAt f (k.mark :: run ++ rest) 0 = f (k.mark :: run) := by
      rw [writtenAt, at?, List.drop_zero, h]
    have hlater : (List.range run.length).flatMap
        (fun i => k.writtenAt f (k.mark :: run ++ rest) (i + 1)) = [] := by
      rw [List.flatMap_eq_nil_iff]
      intro i hi
      have hlt : i + 1 < (k.mark :: run).length := by simpa using hi
      have hcovers : k.covers (k.mark :: run ++ rest) (i + 1) = true := by
        rw [covers, List.any_eq_true]
        refine ⟨0, by simp, ?_⟩
        rw [at?, List.drop_zero, h]
        simpa using hi
      rw [writtenAt, hinside _ (Nat.succ_pos i) hlt, hcovers]
      rfl
    rw [hstart, hlater, List.append_nil]
  · intro j hj u hu
    rcases Nat.eq_zero_or_pos j with rfl | hpos
    · rw [at?, List.drop_zero, h] at hu
      cases hu
      omega
    · rw [hinside j hpos hj] at hu
      cases hu

theorem found_token {rest : List Char} (h : k.first? (t ++ rest) = some t) :
    k.found (t ++ rest) = t :: k.found rest := by
  obtain ⟨run, rfl, hrun, -⟩ := k.begins h
  rw [found_append, List.length_cons, List.range_succ_eq_map, List.filterMap_cons,
    List.filterMap_map, at?, List.drop_zero, h]
  have hlater : (List.range run.length).filterMap
      (k.at? (k.mark :: run ++ rest) ∘ Nat.succ) = [] := by
    rw [List.filterMap_eq_nil_iff]
    intro i hi
    exact at?_inside h (Nat.succ_pos i) (by simpa using hi)
  rw [hlater]
  rfl

/-- Induction as a reader goes: a token at once, or a character with which none begins. -/
@[elab_as_elim]
theorem induction {motive : List Char → Prop} (nil : motive [])
    (char : ∀ c s, k.first? (c :: s) = none → motive s → motive (c :: s))
    (token : ∀ t rest, k.first? (t ++ rest) = some t → motive rest → motive (t ++ rest))
    (s : List Char) : motive s := by
  generalize hn : s.length = n
  induction n using Nat.strongRecOn generalizing s with
  | ind n ih =>
    subst hn
    cases s with
    | nil => exact nil
    | cons c s =>
      cases hf : k.first? (c :: s) with
      | none => exact char c s hf (ih s.length (Nat.lt_succ_self _) s rfl)
      | some t =>
        obtain ⟨run, rfl, -, rest, he⟩ := k.begins hf
        rw [← he] at hf ⊢
        refine token _ rest hf (ih rest.length ?_ rest rfl)
        rw [← he, List.length_append, List.length_cons]
        omega

theorem rewrite_eq_self (h : ∀ s t, k.first? s = some t → f t = t) (s : List Char) :
    k.rewrite f s = s := by
  induction s using k.induction with
  | nil => rfl
  | char c s hn ih => rw [rewrite_cons hn, ih]
  | token t rest ht ih => rw [rewrite_token ht, h _ _ ht, ih]

theorem exists_rewrite_eq_intercalate (k : TokenKind) (s : List Char) :
    ∃ between : List (List Char), ∀ value,
      k.rewrite (fun _ => value) s = value.intercalate between := by
  suffices h : ∃ b bs, ∀ value, k.rewrite (fun _ => value) s = value.intercalate (b :: bs) by
    obtain ⟨b, bs, h⟩ := h
    exact ⟨b :: bs, h⟩
  induction s using k.induction with
  | nil => exact ⟨[], [], fun value => by simp⟩
  | char c s hn ih =>
    obtain ⟨b, bs, ih⟩ := ih
    refine ⟨c :: b, bs, fun value => ?_⟩
    rw [rewrite_cons hn, ih]
    cases bs with
    | nil => simp
    | cons b' bs => simp [List.intercalate_cons_cons]
  | token t rest ht ih =>
    obtain ⟨b, bs, ih⟩ := ih
    refine ⟨[], b :: bs, fun value => ?_⟩
    rw [rewrite_token ht, ih, List.intercalate_cons_cons, List.nil_append]

end TokenKind

end ComponentMarkup
