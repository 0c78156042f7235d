import ComponentMarkup.Component.Identifier

set_option autoImplicit false

namespace ComponentMarkup

def identifierNumber : List Char → Nat
  | [] => 0
  | c :: cs => (c.toNat - 'A'.toNat) + identifierRadix * identifierNumber cs

theorem toNat_identifierDigit {d : Nat} (h : d < identifierRadix) :
    (identifierDigit d).toNat = 'A'.toNat + d := by
  have hv : Nat.isValidChar ('A'.toNat + d) := by
    left
    have : 'A'.toNat = 65 := rfl
    simp only [identifierRadix] at h
    omega
  rw [identifierDigit, Char.ofNat, dif_pos hv]
  rfl

theorem identifierDigits_zero : identifierDigits 0 = [] := by
  rw [identifierDigits, dif_pos rfl]

theorem identifierDigits_of_ne_zero {n : Nat} (h : n ≠ 0) :
    identifierDigits n =
      identifierDigit (n % identifierRadix) :: identifierDigits (n / identifierRadix) := by
  rw [identifierDigits, dif_neg h]

theorem identifierNumber_identifierDigits (n : Nat) :
    identifierNumber (identifierDigits n) = n := by
  induction n using Nat.strongRecOn with
  | ind n ih =>
    rcases Nat.eq_zero_or_pos n with rfl | hpos
    · rw [identifierDigits_zero, identifierNumber]
    · have hlt : n / identifierRadix < n := Nat.div_lt_self hpos (by decide)
      have hm : n % identifierRadix < identifierRadix := Nat.mod_lt n (by decide)
      have hd := Nat.mod_add_div n identifierRadix
      rw [identifierDigits_of_ne_zero (Nat.pos_iff_ne_zero.1 hpos), identifierNumber, ih _ hlt,
        toNat_identifierDigit hm]
      omega

theorem identifierNumber_identifier (n : Nat) : identifierNumber (identifier n) = n := by
  unfold identifier
  split
  · rename_i h
    subst h
    rfl
  · exact identifierNumber_identifierDigits n

theorem identifier_injective {i j : Nat} (h : identifier i = identifier j) : i = j := by
  have hn := congrArg identifierNumber h
  rwa [identifierNumber_identifier, identifierNumber_identifier] at hn

/-- Everything known has an identifier of its own, whose number was drawn from `first` on and before
`next`. -/
structure Numbered {κ : Type} (first next : Nat) (known : κ → Option (List Char)) : Prop where
  drawn : ∀ k id, known k = some id → ∃ n, first ≤ n ∧ n < next ∧ id = identifier n
  single : ∀ k l id, known k = some id → known l = some id → k = l

namespace Numbered

variable {κ : Type} {first next : Nat} {known known' : κ → Option (List Char)}

theorem not_next (h : Numbered first next known) {n : Nat} (hn : next ≤ n) (k : κ) :
    known k ≠ some (identifier n) := by
  intro hk
  obtain ⟨m, -, hm, he⟩ := h.drawn k _ hk
  have := identifier_injective he
  omega

theorem mono (h : Numbered first next known) {next' : Nat} (hn : next ≤ next') :
    Numbered first next' known := by
  refine ⟨fun k id hk => ?_, h.single⟩
  obtain ⟨n, hf, hn', he⟩ := h.drawn k id hk
  exact ⟨n, hf, by omega, he⟩

theorem add (h : Numbered first next known) (hf : first ≤ next) (new : κ)
    (hk : ∀ k id, known' k = some id → known k = some id ∨ (k = new ∧ id = identifier next)) :
    Numbered first (next + 1) known' := by
  refine ⟨fun k id hki => ?_, fun k l id hki hli => ?_⟩
  · rcases hk k id hki with hki | ⟨-, rfl⟩
    · exact (h.mono (Nat.le_succ next)).drawn k id hki
    · exact ⟨next, hf, Nat.lt_succ_self next, rfl⟩
  · rcases hk k id hki with hki | ⟨rfl, rfl⟩
    · rcases hk l id hli with hli | ⟨-, rfl⟩
      · exact h.single k l id hki hli
      · exact absurd hki (h.not_next (Nat.le_refl next) k)
    · rcases hk l _ hli with hli | ⟨rfl, -⟩
      · exact absurd hli (h.not_next (Nat.le_refl next) l)
      · rfl

end Numbered

namespace Drawing

theorem identify_known {d : Drawing} {token id : List Char} (h : d.site.lookup token = some id) :
    d.identify token = (id, d) := by
  simp [identify, h]

theorem identify_unknown {d : Drawing} {token : List Char} (h : d.site.lookup token = none) :
    d.identify token =
      (identifier d.next, ⟨(token, identifier d.next) :: d.site, d.next + 1⟩) := by
  simp [identify, h]

theorem lookup_identify (d : Drawing) (token : List Char) :
    (d.identify token).2.site.lookup token = some (d.identify token).1 := by
  cases h : d.site.lookup token with
  | some id => rwa [identify_known h]
  | none => simp [identify_unknown h]

theorem lookup_identify_of_known {d : Drawing} {t id : List Char} (h : d.site.lookup t = some id)
    (token : List Char) : (d.identify token).2.site.lookup t = some id := by
  cases hk : d.site.lookup token with
  | some known => rwa [identify_known hk]
  | none =>
    have hne : (t == token) = false := by
      rw [beq_eq_false_iff_ne]
      rintro rfl
      rw [hk] at h
      cases h
    simp [identify_unknown hk, List.lookup_cons, hne, h]

theorem lookup_of_identify {d : Drawing} {t id token : List Char}
    (h : (d.identify token).2.site.lookup t = some id) :
    d.site.lookup t = some id ∨ (t = token ∧ id = identifier d.next) := by
  cases hk : d.site.lookup token with
  | some known =>
    rw [identify_known hk] at h
    exact .inl h
  | none =>
    rw [identify_unknown hk, List.lookup_cons] at h
    split at h
    · rename_i he
      exact .inr ⟨by simpa using he, (Option.some.inj h).symm⟩
    · exact .inl h

end Drawing

end ComponentMarkup
