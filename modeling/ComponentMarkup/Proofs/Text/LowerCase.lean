import ComponentMarkup.Text.Case
import Mathlib

/-!
Two ways to lower case. Main statements: a text has one lower-case form over ASCII and over Unicode
(`lowercase_of_onlyAsciiCase`) unless a character of it beyond ASCII has a lower-case form other than
itself, and then its form over ASCII is the form over Unicode of no text (`lowercase_ne_lowerAscii`).
-/

set_option autoImplicit false

namespace ComponentMarkup

namespace CaseRun

def oneParity (r : CaseRun) : Bool := Nat.beq (r.step % 2) 0 || Nat.beq r.first r.last

/-- No code point from `lo` to `hi` is in the run; with `second`, only every second one counts. -/
def misses (lo hi : Nat) (second : Bool) (r : CaseRun) : Bool :=
  Nat.blt hi r.first || Nat.blt r.last lo || second && r.oneParity && Nat.beq ((lo + r.first) % 2) 1

def avoids (r r' : CaseRun) : Bool :=
  r'.misses (r.first + r.shift).toNat (r.last + r.shift).toNat r.oneParity

theorem covers_iff {r : CaseRun} {n : Nat} :
    r.covers n = true ↔ r.first ≤ n ∧ n ≤ r.last ∧ (n - r.first) % r.step = 0 := by
  simp [covers, and_assoc]

theorem mod_two_of_oneParity {r : CaseRun} {n : Nat} (h : r.oneParity = true)
    (hn : r.covers n = true) : (n - r.first) % 2 = 0 := by
  obtain ⟨hfirst, hlast, hstep⟩ := covers_iff.1 hn
  rw [oneParity, Bool.or_eq_true, Nat.beq_eq, Nat.beq_eq] at h
  rcases h with h | h
  · rw [← Nat.dvd_iff_mod_eq_zero] at h hstep ⊢
    exact Nat.dvd_trans h hstep
  · omega

theorem not_covers_of_avoids {r r' : CaseRun} (h : r.avoids r' = true)
    (hpos : 0 ≤ r.first + r.shift) {n : Nat} (hn : r.covers n = true) :
    r'.covers (n + r.shift).toNat = false := by
  refine Bool.eq_false_iff.2 fun hc => ?_
  obtain ⟨hfirst, hlast, -⟩ := covers_iff.1 hn
  obtain ⟨hfirst', hlast', -⟩ := covers_iff.1 hc
  simp only [avoids, misses, Bool.or_eq_true, Bool.and_eq_true, Nat.blt_eq, Nat.beq_eq] at h
  rcases h with (h | h) | ⟨⟨hr, hr'⟩, h⟩
  · omega
  · omega
  · have hmod := mod_two_of_oneParity hr hn
    have hmod' := mod_two_of_oneParity hr' hc
    omega

end CaseRun

theorem lowercaseRuns_avoid : lowercaseRuns.all (fun r => lowercaseRuns.all r.avoids) = true := by
  -- two runs are compared by functions that the kernel has for numbers
  decide +kernel

/-- The capital I with a dot, which has a form of its own, is the form of nothing. -/
theorem lowercaseRuns_avoid_dotted :
    lowercaseRuns.all (CaseRun.avoids · ⟨0x130, 0x130, 1, 0⟩) = true := by decide +kernel

theorem lowercaseRuns_nonneg : lowercaseRuns.all (fun r => 0 ≤ r.first + r.shift) = true := by
  decide +kernel

theorem lowerChar_of_not_covers {c : Char} (hc : c ≠ 'İ')
    (h : ∀ r ∈ lowercaseRuns, r.covers c.toNat = false) : lowerChar c = [c] := by
  unfold lowerChar
  rw [if_neg (by simpa using hc), List.find?_eq_none.2 fun r hr => by simp [h r hr]]

theorem lowerChar_of_shifted {r : CaseRun} (hr : r ∈ lowercaseRuns) {n : Nat}
    (hn : r.covers n = true) :
    lowerChar (Char.ofNat (n + r.shift).toNat) = [Char.ofNat (n + r.shift).toNat] := by
  have hpos : 0 ≤ r.first + r.shift := by simpa using List.all_eq_true.1 lowercaseRuns_nonneg r hr
  -- a number that is no code point stands for the first character
  by_cases hv : (n + r.shift).toNat.isValidChar
  · have htoNat : (Char.ofNat (n + r.shift).toNat).toNat = (n + r.shift).toNat := by
      unfold Char.ofNat
      rw [dif_pos hv]
      rfl
    refine lowerChar_of_not_covers (fun hdotted => ?_) fun r' hr' => ?_
    · have hmiss := CaseRun.not_covers_of_avoids
        (List.all_eq_true.1 lowercaseRuns_avoid_dotted r hr) hpos hn
      rw [← htoNat, hdotted] at hmiss
      exact absurd hmiss (by decide)
    · have havoid := List.all_eq_true.1 (List.all_eq_true.1 lowercaseRuns_avoid r hr) r' hr'
      rw [htoNat]
      exact CaseRun.not_covers_of_avoids havoid hpos hn
  · have hzero : Char.ofNat (n + r.shift).toNat = '\x00' := by
      unfold Char.ofNat
      rw [dif_neg hv]
      rfl
    rw [hzero]
    decide +kernel

theorem lowerChar_of_mem_lowerChar {c c' : Char} (h : c' ∈ lowerChar c) : lowerChar c' = [c'] := by
  unfold lowerChar at h
  split at h
  · simp only [List.mem_cons, List.not_mem_nil, or_false] at h
    rcases h with rfl | rfl
    · decide +kernel
    · decide +kernel
  · rename_i hc
    split at h
    · rename_i r hf
      rw [List.mem_singleton.1 h]
      exact lowerChar_of_shifted (List.mem_of_find?_eq_some hf) (by simpa using List.find?_some hf)
    · rename_i hf
      rw [List.mem_singleton.1 h]
      exact lowerChar_of_not_covers (by simpa using hc) (by simpa using hf)

theorem lowerChar_of_mem_lowercaseAfter {c : Char} (before s : List Char)
    (h : c ∈ lowercaseAfter before s) : lowerChar c = [c] := by
  induction s generalizing before with
  | nil => cases h
  | cons d s ih =>
    rw [lowercaseAfter, List.mem_append] at h
    rcases h with h | h
    · split at h
      · have hsigma : c = 'ς' ∨ c = 'σ' := by
          split at h
          · exact .inl (List.mem_singleton.1 h)
          · exact .inr (List.mem_singleton.1 h)
        rcases hsigma with rfl | rfl
        · decide +kernel
        · decide +kernel
      · exact lowerChar_of_mem_lowerChar h
    · exact ih _ h

theorem lowerChar_of_mem_lowercase {c : Char} {s : List Char} (h : c ∈ lowercase s) :
    lowerChar c = [c] := lowerChar_of_mem_lowercaseAfter [] s h

theorem lowerChar_of_ascii {c : Char} (h : c.toNat < 128) : lowerChar c = [c.toLower] := by
  have hall : ∀ n < 128, lowerChar (Char.ofNat n) = [(Char.ofNat n).toLower] := by decide +kernel
  have hc := hall c.toNat h
  rwa [Char.ofNat_toNat] at hc

theorem toLower_of_not_ascii {c : Char} (h : 128 ≤ c.toNat) : c.toLower = c := by
  refine Char.toLower_eq_of_not_isUpper fun hu => ?_
  rw [Char.isUpper, decide_eq_true_iff] at hu
  have hz : c.toNat ≤ 90 := UInt32.le_iff_toNat_le.1 hu.2
  omega

/-- No character beyond ASCII has a lower-case form other than itself. -/
def OnlyAsciiCase (s : List Char) : Prop := ∀ c ∈ s, 128 ≤ c.toNat → lowerChar c = [c]

instance (s : List Char) : Decidable (OnlyAsciiCase s) := List.decidableBAll _ s

theorem lowercaseAfter_of_onlyAsciiCase (before : List Char) {s : List Char} (h : OnlyAsciiCase s) :
    lowercaseAfter before s = lowerAscii s := by
  induction s generalizing before with
  | nil => rfl
  | cons c s ih =>
    obtain ⟨hc, hs⟩ := List.forall_mem_cons.1 h
    have hsigma : c ≠ 'Σ' := by
      rintro rfl
      exact absurd (hc (by decide)) (by decide +kernel)
    have hlower : lowerChar c = [c.toLower] := by
      by_cases ha : c.toNat < 128
      · exact lowerChar_of_ascii ha
      · rw [hc (Nat.le_of_not_lt ha), toLower_of_not_ascii (Nat.le_of_not_lt ha)]
    rw [lowercaseAfter, if_neg (by simpa using hsigma), hlower, ih _ hs]
    rfl

theorem lowercase_of_onlyAsciiCase {s : List Char} (h : OnlyAsciiCase s) :
    lowercase s = lowerAscii s := lowercaseAfter_of_onlyAsciiCase [] h

theorem lowercase_ne_lowerAscii {s : List Char} (h : ¬OnlyAsciiCase s) (x : List Char) :
    lowercase x ≠ lowerAscii s := by
  intro he
  refine h fun c hc ha => lowerChar_of_mem_lowercase (s := x) ?_
  rw [he, lowerAscii, ← toLower_of_not_ascii ha]
  exact List.mem_map_of_mem hc

example : OnlyAsciiCase "aB→é".toList ∧ ¬OnlyAsciiCase "aÉ".toList := by decide +kernel

end ComponentMarkup
