set_option autoImplicit false

namespace ComponentMarkup

theorem length_dropWhile_le (p : Char → Bool) (s : List Char) :
    (s.dropWhile p).length ≤ s.length := by
  induction s with
  | nil => simp
  | cons c s ih =>
    rw [List.dropWhile_cons]
    split
    · simp only [List.length_cons]
      omega
    · exact Nat.le_refl _

/-- Cuts before the first suffix that satisfies `p`; without one, everything stands before. -/
def splitWhere (p : List Char → Bool) : List Char → List Char × List Char
  | [] => ([], [])
  | c :: cs =>
    if p (c :: cs) then ([], c :: cs)
    else
      let (before, after) := splitWhere p cs
      (c :: before, after)

theorem splitWhere_append (p : List Char → Bool) (s : List Char) :
    (splitWhere p s).1 ++ (splitWhere p s).2 = s := by
  induction s with
  | nil => rfl
  | cons c s ih =>
    unfold splitWhere
    split
    · rfl
    · simpa using ih

def startsWithCaseless (pattern s : List Char) : Bool :=
  (s.take pattern.length).map Char.toLower == pattern

end ComponentMarkup
