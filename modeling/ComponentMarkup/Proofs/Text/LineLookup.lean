import ComponentMarkup.Proofs.Text.ByteView
import ComponentMarkup.Proofs.Text.LineTable

set_option autoImplicit false

namespace ComponentMarkup

def Bisection.Places (xs : List Nat) (x : Nat) : Bisection → Prop
  | .hit i => xs[i]? = some x
  | .miss i => i ≤ xs.length ∧ ∀ j y, xs[j]? = some y → (j < i → y < x) ∧ (i ≤ j → x < y)

theorem lt_of_getElem?_lt {xs : List Nat} (hasc : xs.Pairwise (· < ·)) {i j y z : Nat}
    (hi : xs[i]? = some y) (hj : xs[j]? = some z) (hij : i < j) : y < z := by
  obtain ⟨hi', rfl⟩ := List.getElem?_eq_some_iff.1 hi
  obtain ⟨hj', rfl⟩ := List.getElem?_eq_some_iff.1 hj
  exact List.pairwise_iff_getElem.1 hasc i j hi' hj' hij

/-- What is left of the list between `lo` and `hi` is all that can hold the number. -/
theorem places_bisect {xs : List Nat} {x lo hi : Nat} (hasc : xs.Pairwise (· < ·)) (hle : lo ≤ hi)
    (hhi : hi ≤ xs.length) (hbelow : ∀ j y, xs[j]? = some y → j < lo → y < x)
    (habove : ∀ j y, xs[j]? = some y → hi ≤ j → x < y) : (bisect xs x lo hi).Places xs x := by
  fun_induction bisect xs x lo hi with
  | case1 lo hi hlt mid hnone =>
    have hmid := List.getElem?_eq_none_iff.1 hnone
    omega
  | case2 lo hi hlt mid hsome => exact hsome
  | case3 lo hi hlt mid y hsome hne hless ih =>
    refine ih (by omega) hhi (fun j z hz hj => ?_) habove
    rcases Nat.lt_or_eq_of_le (Nat.le_of_lt_succ hj) with hj | rfl
    · exact Nat.lt_trans (lt_of_getElem?_lt hasc hz hsome hj) hless
    · rw [hsome] at hz
      exact Option.some.inj hz ▸ hless
  | case4 lo hi hlt mid y hsome hne hless ih =>
    have hxy : x < y := by omega
    refine ih (by omega) (by omega) hbelow (fun j z hz hj => ?_)
    rcases Nat.lt_or_eq_of_le hj with hj | rfl
    · exact Nat.lt_trans hxy (lt_of_getElem?_lt hasc hsome hz hj)
    · rw [hsome] at hz
      exact Option.some.inj hz ▸ hxy
  | case5 lo hi hlt =>
    obtain rfl : lo = hi := by omega
    exact ⟨hhi, fun j y hy => ⟨hbelow j y hy, habove j y hy⟩⟩

/-- The line of a byte has behind it just the lines that start behind the byte. -/
theorem LineIndex.lineOf_spec {ix : LineIndex} (hasc : ix.starts.Pairwise (· < ·)) (offset : Nat) :
    ix.lineOf offset ≤ ix.starts.length ∧
      ∀ j y, ix.starts[j]? = some y → (y ≤ offset ↔ j < ix.lineOf offset) := by
  have hplaces : (bisect ix.starts offset 0 ix.starts.length).Places ix.starts offset := by
    refine places_bisect hasc (Nat.zero_le _) (Nat.le_refl _) (fun j y _ hj => ?_) fun j y hy hj => ?_
    · omega
    · obtain ⟨hlt, -⟩ := List.getElem?_eq_some_iff.1 hy
      omega
  unfold lineOf
  cases hb : bisect ix.starts offset 0 ix.starts.length with
  | hit i =>
    rw [hb] at hplaces
    have hi : ix.starts[i]? = some offset := hplaces
    obtain ⟨hlt, -⟩ := List.getElem?_eq_some_iff.1 hi
    refine ⟨hlt, fun j y hy => ?_⟩
    dsimp only
    rcases Nat.lt_trichotomy j i with hj | rfl | hj
    · have := lt_of_getElem?_lt hasc hy hi hj
      omega
    · rw [hi] at hy
      obtain rfl := Option.some.inj hy
      omega
    · have := lt_of_getElem?_lt hasc hi hy hj
      omega
  | miss i =>
    rw [hb] at hplaces
    refine ⟨hplaces.1, fun j y hy => ?_⟩
    obtain ⟨hless, hmore⟩ := hplaces.2 j y hy
    dsimp only
    by_cases hj : j < i
    · have := hless hj
      omega
    · have := hmore (Nat.le_of_not_lt hj)
      omega

theorem lt_of_mem_startsAfter {s : List Char} {offset y : Nat} (h : y ∈ startsAfter offset s) :
    offset < y := by
  induction s generalizing offset with
  | nil => cases h
  | cons c s ih =>
    unfold startsAfter at h
    split at h
    · rcases List.mem_cons.1 h with rfl | h
      · exact Nat.lt_succ_self offset
      · exact Nat.lt_of_succ_lt (ih h)
    · exact Nat.lt_of_le_of_lt (Nat.le_add_right _ _) (ih h)

theorem pairwise_startsAfter (offset : Nat) (s : List Char) :
    (startsAfter offset s).Pairwise (· < ·) := by
  induction s generalizing offset with
  | nil => exact .nil
  | cons c s ih =>
    unfold startsAfter
    split
    · exact List.pairwise_cons.2 ⟨fun y hy => lt_of_mem_startsAfter hy, ih _⟩
    · exact ih _

theorem pairwise_starts (s : List Char) : (LineIndex.ofText s).starts.Pairwise (· < ·) :=
  List.pairwise_cons.2 ⟨fun _ hy => lt_of_mem_startsAfter hy, pairwise_startsAfter 0 s⟩

theorem length_textLines (s : List Char) : (textLines s).length = lineFeeds s + 1 := by
  induction s with
  | nil => rfl
  | cons c s ih =>
    rcases eq_or_ne c '\n' with rfl | hc
    · rw [textLines_lineFeed, List.length_cons, ih]
      simp [lineFeeds]
    · obtain ⟨l, ls, h, hcons⟩ := textLines_char hc s
      rw [h] at ih
      rw [hcons, List.length_cons]
      rw [List.length_cons] at ih
      simpa [lineFeeds, hc] using ih

theorem getElem?_starts_ofText (s : List Char) (i : Nat) :
    (LineIndex.ofText s).starts[i]? =
      if i < (textLines s).length then some (byteLength (linesBefore s i)) else none := by
  rw [LineIndex.ofText, getElem?_starts]
  simp

theorem not_mem_textLines {s l : List Char} (h : l ∈ textLines s) : '\n' ∉ l := by
  induction s generalizing l with
  | nil =>
    obtain rfl := List.mem_singleton.1 h
    exact List.not_mem_nil
  | cons c s ih =>
    rcases eq_or_ne c '\n' with rfl | hc
    · rw [textLines_lineFeed, List.mem_cons] at h
      rcases h with rfl | h
      · exact List.not_mem_nil
      · exact ih h
    · obtain ⟨m, ms, hm, hcons⟩ := textLines_char hc s
      rw [hcons, List.mem_cons] at h
      rcases h with rfl | h
      · rw [List.mem_cons, not_or]
        exact ⟨Ne.symm hc, ih (hm ▸ List.mem_cons_self)⟩
      · exact ih (hm ▸ List.mem_cons_of_mem _ h)

theorem intercalate_textLines (s : List Char) : ['\n'].intercalate (textLines s) = s :=
  List.intercalate_splitOn '\n'

def lineFeedsBefore (s : List Char) (offset : Nat) : Nat :=
  ((utf8Bytes s).take offset).count (UInt8.ofNat '\n'.toNat)

theorem lineFeedsBefore_lineFeed (s : List Char) (offset : Nat) :
    lineFeedsBefore ('\n' :: s) (offset + 1) = lineFeedsBefore s offset + 1 := by
  have henc : String.utf8EncodeChar '\n' = [UInt8.ofNat '\n'.toNat] :=
    utf8EncodeChar_of_ascii (by decide)
  rw [lineFeedsBefore, utf8Bytes_cons, henc, List.singleton_append, List.take_succ_cons,
    List.count_cons_self, lineFeedsBefore]

theorem lineFeedsBefore_char {c : Char} (hc : c ≠ '\n') (s : List Char) (offset : Nat) :
    lineFeedsBefore (c :: s) offset = lineFeedsBefore s (offset - c.utf8Size) := by
  have hnone : UInt8.ofNat '\n'.toNat ∉ String.utf8EncodeChar c := by
    intro h
    rcases Nat.lt_or_ge c.toNat 128 with hascii | hlarge
    · rw [utf8EncodeChar_of_ascii hascii, List.mem_singleton] at h
      have hn := congrArg UInt8.toNat h
      rw [UInt8.toNat_ofNat', UInt8.toNat_ofNat'] at hn
      refine hc (Char.toNat_inj.1 ?_)
      have : '\n'.toNat = 10 := rfl
      omega
    · have := le_of_mem_utf8EncodeChar hlarge h
      exact absurd this (by decide)
  rw [lineFeedsBefore, utf8Bytes_cons, List.take_append, List.count_append,
    List.count_eq_zero_of_not_mem fun h => hnone (List.mem_of_mem_take h), Nat.zero_add,
    String.length_utf8EncodeChar, lineFeedsBefore]

theorem lineFeedsBefore_append (s t : List Char) :
    lineFeedsBefore (s ++ t) (byteLength s) = lineFeeds s := by
  induction s with
  | nil => rfl
  | cons c s ih =>
    rcases eq_or_ne c '\n' with rfl | hc
    · have hsize : '\n'.utf8Size = 1 := rfl
      rw [byteLength_cons, hsize, Nat.add_comm, List.cons_append, lineFeedsBefore_lineFeed, ih]
      simp [lineFeeds]
    · rw [byteLength_cons, List.cons_append, lineFeedsBefore_char hc, Nat.add_sub_cancel_left, ih]
      simp [lineFeeds, hc]

theorem countP_startsAfter (s : List Char) (first offset : Nat) :
    (startsAfter first s).countP (· ≤ offset) = lineFeedsBefore s (offset - first) := by
  induction s generalizing first with
  | nil => simp [startsAfter, lineFeedsBefore]
  | cons c s ih =>
    rcases eq_or_ne c '\n' with rfl | hc
    · rw [startsAfter, if_pos rfl, List.countP_cons, ih]
      rcases Nat.lt_or_ge first offset with hlt | hle
      · obtain ⟨n, hn⟩ := Nat.exists_eq_add_of_lt hlt
        have h₁ : offset - first = n + 1 := by omega
        have h₂ : offset - (first + 1) = n := by omega
        rw [h₁, h₂, lineFeedsBefore_lineFeed, if_pos (decide_eq_true (Nat.succ_le_of_lt hlt))]
      · have h₁ : offset - first = 0 := by omega
        have h₂ : offset - (first + 1) = 0 := by omega
        rw [h₁, h₂, if_neg (by simpa using Nat.lt_succ_of_le hle)]
        rfl
    · rw [startsAfter, if_neg hc, ih, lineFeedsBefore_char hc, Nat.sub_add_eq]

theorem countP_of_le_iff {xs : List Nat} {x n : Nat} (hn : n ≤ xs.length)
    (h : ∀ j y, xs[j]? = some y → (y ≤ x ↔ j < n)) : xs.countP (· ≤ x) = n := by
  induction xs generalizing n with
  | nil => exact (Nat.le_zero.1 hn).symm
  | cons y xs ih =>
    have hfirst := h 0 y rfl
    cases n with
    | zero =>
      have hrest := ih (Nat.zero_le _) fun j z hz => by simpa using h (j + 1) z hz
      rw [List.countP_cons, hrest, if_neg (by simpa using hfirst)]
    | succ n =>
      have hrest := ih (Nat.le_of_succ_le_succ hn) fun j z hz => by simpa using h (j + 1) z hz
      rw [List.countP_cons, hrest, if_pos (by simpa using hfirst)]

theorem lineOf_ofText (s : List Char) (offset : Nat) :
    (LineIndex.ofText s).lineOf offset = 1 + lineFeedsBefore s offset := by
  obtain ⟨hle, hiff⟩ := LineIndex.lineOf_spec (pairwise_starts s) offset
  rw [← countP_of_le_iff hle hiff, LineIndex.ofText, List.countP_cons, countP_startsAfter,
    Nat.sub_zero, if_pos (by simp), Nat.add_comm]

theorem lineSpan?_isSome_iff (s : List Char) (n : Nat) :
    ((LineIndex.ofText s).lineSpan? n).isSome ↔ 1 ≤ n ∧ n ≤ lineFeeds s + 1 := by
  cases n with
  | zero => simp [LineIndex.lineSpan?]
  | succ i =>
    rw [LineIndex.lineSpan?, if_neg (Nat.succ_ne_zero i), Nat.add_sub_cancel,
      Option.isSome_map, getElem?_starts_ofText, length_textLines]
    split <;> simp <;> omega

theorem textBetween_lineSpan? {s l : List Char} {i : Nat} (h : (textLines s)[i]? = some l) :
    ∃ start stop, (LineIndex.ofText s).lineSpan? (i + 1) = some (start, stop) ∧
      TextBetween s start stop l := by
  obtain ⟨after, hs⟩ := exists_eq_linesBefore_append h
  exact ⟨_, _, lineSpan?_ofText h, linesBefore s i, after, hs, rfl, rfl⟩

theorem lineSpan?_lineOf {s : List Char} {offset : Nat} (h : offset ≤ byteLength s) :
    ∃ i l, (LineIndex.ofText s).lineOf offset = i + 1 ∧ (textLines s)[i]? = some l ∧
      byteLength (linesBefore s i) ≤ offset ∧
      offset ≤ byteLength (linesBefore s i) + byteLength l := by
  obtain ⟨hle, hiff⟩ := LineIndex.lineOf_spec (pairwise_starts s) offset
  obtain ⟨i, hi⟩ : ∃ i, (LineIndex.ofText s).lineOf offset = i + 1 :=
    ⟨lineFeedsBefore s offset, by rw [lineOf_ofText, Nat.add_comm]⟩
  rw [hi] at hle hiff
  have hlength : i < (textLines s).length := by
    by_contra hout
    have hnone := getElem?_starts_ofText s i
    rw [if_neg hout, List.getElem?_eq_none_iff] at hnone
    omega
  obtain ⟨l, hl⟩ : ∃ l, (textLines s)[i]? = some l := ⟨_, List.getElem?_eq_getElem hlength⟩
  have hstart := getElem?_starts_ofText s i
  rw [if_pos hlength] at hstart
  refine ⟨i, l, hi, hl, (hiff i _ hstart).2 (Nat.lt_succ_self i), ?_⟩
  have hnext := congrArg byteLength (linesBefore_succ hl)
  have hsize : '\n'.utf8Size = 1 := rfl
  simp only [byteLength_append, byteLength_cons, byteLength_nil, hsize] at hnext
  by_cases hlast : i + 1 < (textLines s).length
  · have hbehind := getElem?_starts_ofText s (i + 1)
    rw [if_pos hlast] at hbehind
    have := (hiff (i + 1) _ hbehind).not.2 (Nat.lt_irrefl _)
    omega
  · have hall := congrArg byteLength (linesBefore_length s)
    have hlength : (textLines s).length = i + 1 := by omega
    simp only [hlength, byteLength_append, byteLength_cons, byteLength_nil, hsize] at hall
    omega

/-- A byte is on the line whose number is the line feeds before it and one more. The bytes that the
table has for this line lie around it and hold no line feed; the table has bytes for every line and
for nothing else, and the texts of all lines make up the source. -/
theorem lineOf_within_lineSpan (s : List Char) :
    (∀ offset, (LineIndex.ofText s).lineOf offset = 1 + lineFeedsBefore s offset) ∧
      (∀ offset, offset ≤ byteLength s → ∃ start stop line,
        (LineIndex.ofText s).lineSpan? ((LineIndex.ofText s).lineOf offset) = some (start, stop) ∧
        start ≤ offset ∧ offset ≤ stop ∧ TextBetween s start stop line ∧ '\n' ∉ line) ∧
      (∀ n, ((LineIndex.ofText s).lineSpan? n).isSome ↔ 1 ≤ n ∧ n ≤ lineFeeds s + 1) ∧
      ∃ lines, lines.length = lineFeeds s + 1 ∧
        (∀ i line, lines[i]? = some line → ∃ start stop,
          (LineIndex.ofText s).lineSpan? (i + 1) = some (start, stop) ∧
          TextBetween s start stop line) ∧
        ['\n'].intercalate lines = s := by
  refine ⟨lineOf_ofText s, fun offset h => ?_, lineSpan?_isSome_iff s, textLines s,
    length_textLines s, fun i line => textBetween_lineSpan?, intercalate_textLines s⟩
  obtain ⟨i, l, hi, hl, hstart, hstop⟩ := lineSpan?_lineOf h
  obtain ⟨after, hs⟩ := exists_eq_linesBefore_append hl
  refine ⟨_, _, l, by rw [hi, lineSpan?_ofText hl], hstart, hstop,
    ⟨linesBefore s i, after, hs, rfl, rfl⟩, not_mem_textLines (List.mem_of_getElem? hl)⟩

/-- Behind two line feeds, at the end of the text: the third line is empty. -/
theorem lineOf_within_lineSpan_at_end :
    4 ≤ byteLength "é\n\n".toList ∧ (LineIndex.ofText "é\n\n".toList).lineOf 4 = 3 ∧
      ∃ line, TextBetween "é\n\n".toList 4 4 line ∧ '\n' ∉ line := by
  have hall := lineOf_within_lineSpan "é\n\n".toList
  have hend : 4 ≤ byteLength "é\n\n".toList := by decide
  have hline : (LineIndex.ofText "é\n\n".toList).lineOf 4 = 3 := (hall.1 4).trans (by decide)
  obtain ⟨start, stop, line, hspan, -, -, hbetween, hfree⟩ := hall.2.1 4 hend
  rw [hline] at hspan
  obtain ⟨rfl, rfl⟩ : start = 4 ∧ stop = 4 := by
    have hthird : (LineIndex.ofText "é\n\n".toList).lineSpan? 3 = some (4, 4) := by decide
    simpa [eq_comm] using hthird.symm.trans hspan
  exact ⟨hend, hline, line, hbetween, hfree⟩

end ComponentMarkup
