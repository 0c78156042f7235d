import ComponentMarkup.Component.Definition

set_option autoImplicit false

namespace ComponentMarkup

inductive Cause.OfFile : Cause → Prop
  | disallowedTopLevelTag (tag : List Char) : OfFile (.disallowedTopLevelTag tag)
  | multipleTopLevelTags (tag : List Char) (lines : List Nat) :
      OfFile (.multipleTopLevelTags tag lines)
  | reservedArgument : OfFile .reservedArgument

inductive Cause.OfUsage : Cause → Prop
  | extraArguments (names : List (List Char)) : OfUsage (.extraArguments names)
  | missingArgument (tag arg : List Char) : OfUsage (.missingArgument tag arg)

theorem bind_eq_error {ε α β : Type} {x : Except ε α} {f : α → Except ε β} {e : ε}
    (h : x >>= f = .error e) : x = .error e ∨ ∃ a, x = .ok a ∧ f a = .error e := by
  cases x with
  | error e' =>
    cases h
    exact .inl rfl
  | ok a => exact .inr ⟨a, rfl, h⟩

theorem mapM_eq_error {ε α β : Type} {f : α → Except ε β} {l : List α} {e : ε}
    (h : l.mapM f = .error e) : ∃ a ∈ l, f a = .error e := by
  induction l with
  | nil => cases h
  | cons a l ih =>
    rw [List.mapM_cons] at h
    rcases bind_eq_error h with h | ⟨b, -, h⟩
    · exact ⟨a, List.mem_cons_self, h⟩
    · rcases bind_eq_error h with h | ⟨bs, -, h⟩
      · obtain ⟨c, hc, hf⟩ := ih h
        exact ⟨c, List.mem_cons_of_mem _ hc, hf⟩
      · cases h

theorem mapM_append_cons_eq_error {ε α β : Type} {f : α → Except ε β} {before rest : List α} {a : α}
    {e : ε} (hb : ∀ b ∈ before, ∃ c, f b = .ok c) (ha : f a = .error e) :
    (before ++ a :: rest).mapM f = .error e := by
  induction before with
  | nil =>
    rw [List.nil_append, List.mapM_cons, ha]
    rfl
  | cons b before ih =>
    obtain ⟨⟨c, hc⟩, hb⟩ := List.forall_mem_cons.1 hb
    rw [List.cons_append, List.mapM_cons, hc, ih hb]
    rfl

end ComponentMarkup
