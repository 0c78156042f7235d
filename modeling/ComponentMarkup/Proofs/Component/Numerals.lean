import Mathlib.Data.Nat.Digits.Lemmas
import Mathlib.Data.Set.Function
import ComponentMarkup.Proofs.Component.Numbering

set_option autoImplicit false

namespace ComponentMarkup

def isIdentifierDigit (c : Char) : Bool := 'A' ≤ c && c ≤ 'y'

def digitNumber (c : Char) : Nat := c.toNat - 'A'.toNat

theorem isIdentifierDigit_iff {c : Char} :
    isIdentifierDigit c = true ↔ 'A'.toNat ≤ c.toNat ∧ c.toNat < 'A'.toNat + identifierRadix := by
  simp only [isIdentifierDigit, Bool.and_eq_true, decide_eq_true_eq]
  exact and_congr_right fun _ => Nat.lt_succ_iff.symm

theorem digitNumber_lt {c : Char} (h : isIdentifierDigit c = true) :
    digitNumber c < identifierRadix := by
  have := isIdentifierDigit_iff.1 h
  unfold digitNumber
  omega

theorem digitNumber_identifierDigit {d : Nat} (h : d < identifierRadix) :
    digitNumber (identifierDigit d) = d := by
  rw [digitNumber, toNat_identifierDigit h, Nat.add_sub_cancel_left]

theorem isIdentifierDigit_identifierDigit {d : Nat} (h : d < identifierRadix) :
    isIdentifierDigit (identifierDigit d) = true := by
  rw [isIdentifierDigit_iff, toNat_identifierDigit h]
  omega

theorem identifierDigit_digitNumber {c : Char} (h : isIdentifierDigit c = true) :
    identifierDigit (digitNumber c) = c := by
  have hc := isIdentifierDigit_iff.1 h
  refine Char.toNat_inj.1 ?_
  rw [toNat_identifierDigit (digitNumber_lt h), digitNumber]
  omega

theorem digitNumber_eq_zero_iff {c : Char} (h : isIdentifierDigit c = true) :
    digitNumber c = 0 ↔ c = 'A' := by
  constructor
  · intro h0
    rw [← identifierDigit_digitNumber h, h0]
    rfl
  · rintro rfl
    rfl

theorem identifierDigits_eq_digits (n : Nat) :
    identifierDigits n = (Nat.digits identifierRadix n).map identifierDigit := by
  induction n using Nat.strongRecOn with
  | ind n ih =>
    rcases Nat.eq_zero_or_pos n with rfl | hpos
    · rw [identifierDigits_zero, Nat.digits_zero, List.map_nil]
    · have hlt : n / identifierRadix < n := Nat.div_lt_self hpos (by decide)
      rw [identifierDigits_of_ne_zero hpos.ne', ih _ hlt, Nat.digits_def' (by decide) hpos,
        List.map_cons]

theorem identifierNumber_eq_ofDigits (s : List Char) :
    identifierNumber s = Nat.ofDigits identifierRadix (s.map digitNumber) := by
  induction s with
  | nil => rfl
  | cons c s ih => rw [identifierNumber, ih, List.map_cons, Nat.ofDigits_cons, digitNumber]

/-- The zero digit alone, or digits of which the last, the most significant one, is not zero. -/
def IsNumeral (s : List Char) : Prop :=
  s = ['A'] ∨ s ≠ [] ∧ (∀ c ∈ s, isIdentifierDigit c = true) ∧ s.getLast? ≠ some 'A'

theorem isIdentifierDigit_of_mem_identifierDigits {n : Nat} {c : Char}
    (h : c ∈ identifierDigits n) : isIdentifierDigit c = true := by
  rw [identifierDigits_eq_digits] at h
  obtain ⟨d, hd, rfl⟩ := List.mem_map.1 h
  exact isIdentifierDigit_identifierDigit (Nat.digits_lt_base (by decide) hd)

theorem getLast?_identifierDigits_ne (n : Nat) : (identifierDigits n).getLast? ≠ some 'A' := by
  intro hlast
  rw [identifierDigits_eq_digits, List.getLast?_map, Option.map_eq_some_iff] at hlast
  obtain ⟨d, hd, hzero⟩ := hlast
  have hmem : d ∈ Nat.digits identifierRadix n := List.mem_of_getLast? hd
  have hd0 : d = 0 := by
    rw [← digitNumber_identifierDigit (Nat.digits_lt_base (by decide) hmem), hzero]
    rfl
  have hn : n ≠ 0 := Nat.digits_ne_nil_iff_ne_zero.1 (List.ne_nil_of_mem hmem)
  have hlast := Nat.getLast_digit_ne_zero identifierRadix hn
  rw [List.getLast?_eq_some_getLast (List.ne_nil_of_mem hmem), Option.some.injEq] at hd
  exact hlast (hd.trans hd0)

theorem isNumeral_identifier (n : Nat) : IsNumeral (identifier n) := by
  unfold identifier
  split
  · exact .inl rfl
  · rename_i h
    refine .inr ⟨?_, fun c => isIdentifierDigit_of_mem_identifierDigits,
      getLast?_identifierDigits_ne n⟩
    rw [identifierDigits_of_ne_zero h]
    exact List.cons_ne_nil _ _

/-- The digits of the number that a row of digits stands for are this row, unless it ends in a
zero. -/
theorem identifierDigits_identifierNumber {s : List Char}
    (hs : ∀ c ∈ s, isIdentifierDigit c = true) (hlast : s.getLast? ≠ some 'A') :
    identifierDigits (identifierNumber s) = s := by
  have hdigits : Nat.digits identifierRadix (Nat.ofDigits identifierRadix (s.map digitNumber)) =
      s.map digitNumber := by
    refine Nat.digits_ofDigits identifierRadix (by decide) _ ?_ fun hne => ?_
    · simp only [List.forall_mem_map]
      exact fun c hc => digitNumber_lt (hs c hc)
    · have hs' : s ≠ [] := by simpa using hne
      rw [List.getLast_map, ne_eq, digitNumber_eq_zero_iff (hs _ (List.getLast_mem hs'))]
      intro hzero
      exact hlast (by rw [List.getLast?_eq_some_getLast hs', hzero])
  rw [identifierNumber_eq_ofDigits, identifierDigits_eq_digits, hdigits, List.map_map]
  exact (List.map_congr_left fun c hc => identifierDigit_digitNumber (hs c hc)).trans s.map_id

theorem identifier_identifierNumber {s : List Char} (h : IsNumeral s) :
    identifier (identifierNumber s) = s := by
  rcases h with rfl | ⟨hne, hs, hlast⟩
  · rfl
  · have hdigits := identifierDigits_identifierNumber hs hlast
    have hpos : identifierNumber s ≠ 0 := by
      intro h0
      rw [h0, identifierDigits_zero] at hdigits
      exact hne hdigits.symm
    rw [identifier, if_neg hpos, hdigits]

def byteDigit? (d : UInt64) : Option Char :=
  if 'A'.toNat + d.toNat < UInt8.size then some (Char.ofUInt8 ('A'.toUInt8 + d.toUInt8)) else none

/-- Writes the digits of a word behind what is written, lowest first, in at most so many rounds. -/
def writeDigits? : Nat → UInt64 → List Char → Option (List Char)
  | 0, n, written => if n = 0 then some written else none
  | rounds + 1, n, written =>
    if n = 0 then some written
    else
      (byteDigit? (n % UInt64.ofNat identifierRadix)).bind fun c =>
        writeDigits? rounds (n / UInt64.ofNat identifierRadix) (written ++ [c])

def identifierOfWord? (rounds : Nat) (n : UInt64) : Option (List Char) :=
  if n = 0 then some ['A'] else writeDigits? rounds n []

theorem byteDigit?_eq {d : UInt64} (h : d.toNat < identifierRadix) :
    byteDigit? d = some (identifierDigit d.toNat) := by
  have hsum : 'A'.toNat + d.toNat < UInt8.size := by
    have : 'A'.toNat + identifierRadix ≤ UInt8.size := by decide
    omega
  have hbyte : ('A'.toUInt8 + d.toUInt8).toNat = 'A'.toNat + d.toNat := by
    rw [UInt8.toNat_add, UInt64.toNat_toUInt8, Nat.add_mod_mod]
    exact Nat.mod_eq_of_lt hsum
  rw [byteDigit?, if_pos hsum, Option.some.injEq, ← Char.toNat_inj, toNat_identifierDigit h,
    ← hbyte]
  rfl

/-- Each round takes one digit from the word, so as many rounds as the word has digits are
enough. -/
theorem writeDigits?_eq {rounds : Nat} {n : UInt64} (h : n.toNat < identifierRadix ^ rounds)
    (written : List Char) :
    writeDigits? rounds n written = some (written ++ identifierDigits n.toNat) := by
  induction rounds generalizing n written with
  | zero =>
    obtain rfl : n = 0 := UInt64.toNat_inj.1 (Nat.lt_one_iff.1 h)
    rw [writeDigits?, if_pos rfl, UInt64.toNat_zero, identifierDigits_zero, List.append_nil]
  | succ rounds ih =>
    rw [writeDigits?]
    split
    · rename_i h0
      rw [h0, UInt64.toNat_zero, identifierDigits_zero, List.append_nil]
    · rename_i h0
      have hmod : (n % UInt64.ofNat identifierRadix).toNat = n.toNat % identifierRadix :=
        UInt64.toNat_mod n _
      have hdiv : (n / UInt64.ofNat identifierRadix).toNat = n.toNat / identifierRadix :=
        UInt64.toNat_div n _
      have hdigit : (n % UInt64.ofNat identifierRadix).toNat < identifierRadix :=
        hmod ▸ Nat.mod_lt _ (by decide)
      have hrest : (n / UInt64.ofNat identifierRadix).toNat < identifierRadix ^ rounds := by
        rw [hdiv]
        exact Nat.div_lt_of_lt_mul (by rwa [← Nat.pow_succ'])
      have hpos : n.toNat ≠ 0 := fun h => h0 (UInt64.toNat_inj.1 h)
      rw [byteDigit?_eq hdigit, Option.bind_some, ih hrest, hmod, hdiv,
        identifierDigits_of_ne_zero hpos, List.append_assoc, List.singleton_append]

theorem identifierOfWord?_eq {rounds : Nat} (h : 11 ≤ rounds) (n : UInt64) :
    identifierOfWord? rounds n = some (identifier n.toNat) := by
  unfold identifierOfWord?
  split
  · rename_i h0
    rw [h0]
    rfl
  · rename_i h0
    have hpos : n.toNat ≠ 0 := fun h => h0 (UInt64.toNat_inj.1 h)
    have henough : n.toNat < identifierRadix ^ rounds :=
      calc n.toNat < 2 ^ 64 := n.toNat_lt
        _ ≤ identifierRadix ^ 11 := by decide
        _ ≤ identifierRadix ^ rounds := Nat.pow_le_pow_right (by decide) h
    rw [writeDigits?_eq henough, List.nil_append, identifier, if_neg hpos]

/-- The identifiers of the numbers of sixty-four bits are just the numerals of such numbers, each of
one number, and the number is read back from its identifier. Dividing a word and adding up the
characters of the digits in bytes ends after at most eleven rounds, with the identifier of the
word. -/
theorem identifier_bijOn :
    Set.BijOn identifier {n | n < 2 ^ 64} {s | IsNumeral s ∧ identifierNumber s < 2 ^ 64} ∧
      Set.InvOn identifierNumber identifier {n | n < 2 ^ 64}
        {s | IsNumeral s ∧ identifierNumber s < 2 ^ 64} ∧
      ∀ (n : UInt64) (rounds : Nat), 11 ≤ rounds →
        identifierOfWord? rounds n = some (identifier n.toNat) := by
  have hinv : Set.InvOn identifierNumber identifier {n | n < 2 ^ 64}
      {s | IsNumeral s ∧ identifierNumber s < 2 ^ 64} :=
    ⟨fun n _ => identifierNumber_identifier n, fun s hs => identifier_identifierNumber hs.1⟩
  refine ⟨hinv.bijOn (fun n hn => ⟨isNumeral_identifier n, ?_⟩) fun s hs => hs.2, hinv,
    fun n rounds h => identifierOfWord?_eq h n⟩
  rw [identifierNumber_identifier]
  exact hn

/-- The greatest number of sixty-four bits needs all eleven rounds. -/
theorem identifier_bijOn_greatest :
    2 ^ 64 - 1 < 2 ^ 64 ∧ identifierNumber (identifier (2 ^ 64 - 1)) = 2 ^ 64 - 1 ∧
      IsNumeral "wLUMSi\\pSws".toList ∧ identifierNumber "wLUMSi\\pSws".toList < 2 ^ 64 ∧
      identifier (2 ^ 64 - 1) = "wLUMSi\\pSws".toList ∧
      identifierOfWord? 10 (UInt64.ofNat (2 ^ 64 - 1)) = none ∧
      identifierOfWord? 11 (UInt64.ofNat (2 ^ 64 - 1)) = some "wLUMSi\\pSws".toList := by
  obtain ⟨-, ⟨hread, hwritten⟩, hword⟩ := identifier_bijOn
  have hn : 2 ^ 64 - 1 < 2 ^ 64 := by decide
  have hdigits : ∀ c ∈ "wLUMSi\\pSws".toList, isIdentifierDigit c = true :=
    List.all_eq_true.1 (by decide)
  have hs : IsNumeral "wLUMSi\\pSws".toList := .inr ⟨by decide, hdigits, by decide⟩
  have hnumber : identifierNumber "wLUMSi\\pSws".toList = 2 ^ 64 - 1 := by decide
  have hlt : identifierNumber "wLUMSi\\pSws".toList < 2 ^ 64 := hnumber ▸ hn
  have hidentifier : identifier (2 ^ 64 - 1) = "wLUMSi\\pSws".toList := hnumber ▸ hwritten ⟨hs, hlt⟩
  refine ⟨hn, hread hn, hs, hlt, hidentifier, by decide, ?_⟩
  rw [hword _ 11 (Nat.le_refl 11), ← hidentifier]
  rfl

end ComponentMarkup
