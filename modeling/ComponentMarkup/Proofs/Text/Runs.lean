import ComponentMarkup.Text.Split

set_option autoImplicit false

namespace ComponentMarkup

def StopsAt (p : Char → Bool) (s : List Char) : Prop := ∀ c ∈ s.head?, p c = false

variable {p : Char → Bool} {a b : List Char}

@[simp] theorem stopsAt_nil : StopsAt p [] := by simp [StopsAt]

@[simp] theorem stopsAt_cons {c : Char} {s : List Char} : StopsAt p (c :: s) ↔ p c = false := by
  simp [StopsAt]

theorem stopsAt_dropWhile (p : Char → Bool) (s : List Char) : StopsAt p (s.dropWhile p) := by
  induction s with
  | nil => simp
  | cons c s ih =>
    rw [List.dropWhile_cons]
    split
    · exact ih
    · rename_i h
      simpa using h

theorem takeWhile_of_stopsAt (h : StopsAt p b) : b.takeWhile p = [] := by
  cases b with
  | nil => rfl
  | cons c s => simp [stopsAt_cons.1 h]

theorem dropWhile_of_stopsAt (h : StopsAt p b) : b.dropWhile p = b := by
  cases b with
  | nil => rfl
  | cons c s => simp [stopsAt_cons.1 h]

theorem takeWhile_run (ha : ∀ c ∈ a, p c = true) (hb : StopsAt p b) : (a ++ b).takeWhile p = a := by
  rw [List.takeWhile_append_of_pos ha, takeWhile_of_stopsAt hb, List.append_nil]

theorem dropWhile_run (ha : ∀ c ∈ a, p c = true) (hb : StopsAt p b) : (a ++ b).dropWhile p = b := by
  rw [List.dropWhile_append_of_pos ha, dropWhile_of_stopsAt hb]

theorem ne_of_notMem {c : Char} (h : c ∉ a) : ∀ d ∈ a, (d != c) = true := by
  intro d hd
  simp only [bne_iff_ne, ne_eq]
  rintro rfl
  exact h hd

theorem takeWhile_append_stopsAt (a : List Char) (hb : StopsAt p b) :
    (a ++ b).takeWhile p = a.takeWhile p := by
  induction a with
  | nil => exact takeWhile_of_stopsAt hb
  | cons c a ih => rw [List.cons_append, List.takeWhile_cons, List.takeWhile_cons, ih]

theorem dropWhile_append_stopsAt (a : List Char) (hb : StopsAt p b) :
    (a ++ b).dropWhile p = a.dropWhile p ++ b := by
  induction a with
  | nil => exact dropWhile_of_stopsAt hb
  | cons c a ih =>
    rw [List.cons_append, List.dropWhile_cons, List.dropWhile_cons, ih]
    split
    · rfl
    · rfl

theorem prefix_takeWhile {s : List Char} (ha : ∀ c ∈ a, p c = true) (h : a <+: s) :
    a <+: s.takeWhile p := by
  obtain ⟨t, rfl⟩ := h
  rw [List.takeWhile_append_of_pos ha]
  exact List.prefix_append a _

end ComponentMarkup
