import Mathlib.Data.List.Basic
import ComponentMarkup.Text.Lines

set_option autoImplicit false

namespace ComponentMarkup

def textLines (s : List Char) : List (List Char) := s.splitOn '\n'

def linesBefore (s : List Char) (i : Nat) : List Char :=
  ((textLines s).take i).flatMap (· ++ ['\n'])

@[simp] theorem textLines_nil : textLines [] = [[]] := List.splitOn_nil '\n'

theorem textLines_lineFeed (cs : List Char) : textLines ('\n' :: cs) = [] :: textLines cs := by
  rw [textLines, List.splitOn, List.splitOnP_cons_eq_if_modifyHead]
  rfl

theorem textLines_char {c : Char} (hc : c ≠ '\n') (cs : List Char) :
    ∃ l ls, textLines cs = l :: ls ∧ textLines (c :: cs) = (c :: l) :: ls := by
  obtain ⟨l, ls, h⟩ := List.exists_cons_of_ne_nil (List.splitOn_ne_nil '\n' cs)
  refine ⟨l, ls, h, ?_⟩
  rw [List.splitOn] at h
  rw [textLines, List.splitOn, List.splitOnP_cons_eq_if_modifyHead, if_neg (by simpa using hc), h]
  rfl

@[simp] theorem linesBefore_zero (s : List Char) : linesBefore s 0 = [] := rfl

theorem linesBefore_succ {s l : List Char} {i : Nat} (h : (textLines s)[i]? = some l) :
    linesBefore s (i + 1) = linesBefore s i ++ (l ++ ['\n']) := by
  rw [linesBefore, List.take_add_one, h, List.flatMap_append]
  simp [linesBefore]

theorem linesBefore_lineFeed (cs : List Char) (i : Nat) :
    linesBefore ('\n' :: cs) (i + 1) = '\n' :: linesBefore cs i := by
  rw [linesBefore, textLines_lineFeed, List.take_succ_cons]
  rfl

theorem linesBefore_char {c : Char} (hc : c ≠ '\n') (cs : List Char) (i : Nat) :
    linesBefore (c :: cs) (i + 1) = c :: linesBefore cs (i + 1) := by
  obtain ⟨l, ls, h, hcons⟩ := textLines_char hc cs
  rw [linesBefore, linesBefore, h, hcons]
  rfl

theorem linesBefore_length (s : List Char) :
    linesBefore s (textLines s).length = s ++ ['\n'] := by
  induction s with
  | nil => simp [linesBefore]
  | cons c cs ih =>
    rcases eq_or_ne c '\n' with rfl | hc
    · rw [textLines_lineFeed, List.length_cons, linesBefore_lineFeed, ih]
      rfl
    · obtain ⟨l, ls, h, hcons⟩ := textLines_char hc cs
      rw [h] at ih
      rw [hcons, List.length_cons, linesBefore_char hc]
      rw [List.length_cons] at ih
      rw [ih]
      rfl

theorem getElem?_starts (s : List Char) (offset i : Nat) :
    (offset :: startsAfter offset s)[i]? =
      if i < (textLines s).length then some (offset + byteLength (linesBefore s i)) else none := by
  induction s generalizing offset i with
  | nil => cases i <;> simp [startsAfter]
  | cons c cs ih =>
    rcases eq_or_ne c '\n' with rfl | hc
    · rw [startsAfter, if_pos rfl, textLines_lineFeed]
      cases i with
      | zero => simp
      | succ i =>
        have hsize : '\n'.utf8Size = 1 := rfl
        rw [List.getElem?_cons_succ, ih, linesBefore_lineFeed]
        simp [Nat.add_assoc, hsize]
    · obtain ⟨l, ls, h, hcons⟩ := textLines_char hc cs
      rw [startsAfter, if_neg hc]
      cases i with
      | zero => simp [hcons]
      | succ i =>
        have hi := ih (offset + c.utf8Size) (i + 1)
        rw [List.getElem?_cons_succ] at hi ⊢
        rw [hi, linesBefore_char hc, h, hcons]
        simp [Nat.add_assoc]

theorem exists_eq_linesBefore_append {s l : List Char} {i : Nat}
    (h : (textLines s)[i]? = some l) : ∃ after, s = linesBefore s i ++ (l ++ after) := by
  have hlong : linesBefore s (i + 1) <+: s ++ ['\n'] := by
    have hall := linesBefore_length s
    rw [linesBefore, List.take_length, ← List.take_append_drop (i + 1) (textLines s),
      List.flatMap_append] at hall
    exact ⟨_, hall⟩
  rw [linesBefore_succ h, ← List.append_assoc] at hlong
  have hle : (linesBefore s i ++ l).length ≤ s.length := by
    simpa [← Nat.add_assoc] using hlong.length_le
  obtain ⟨after, hafter⟩ := List.prefix_of_prefix_length_le ((List.prefix_append _ _).trans hlong)
    (List.prefix_append s ['\n']) hle
  exact ⟨after, by rw [← List.append_assoc, hafter]⟩

theorem lineSpan?_ofText {s l : List Char} {i : Nat} (h : (textLines s)[i]? = some l) :
    (LineIndex.ofText s).lineSpan? (i + 1) =
      some (byteLength (linesBefore s i), byteLength (linesBefore s i) + byteLength l) := by
  obtain ⟨hi, -⟩ := List.getElem?_eq_some_iff.1 h
  have hnext := congrArg byteLength (linesBefore_succ h)
  have hsize : '\n'.utf8Size = 1 := rfl
  simp only [byteLength_append, byteLength_cons, byteLength_nil, hsize] at hnext
  rw [LineIndex.lineSpan?, if_neg (Nat.succ_ne_zero i), Nat.add_sub_cancel, LineIndex.ofText,
    getElem?_starts, getElem?_starts, if_pos hi, Option.map_some]
  by_cases hlast : i + 1 < (textLines s).length
  · rw [if_pos hlast]
    simp only [Option.some.injEq, Prod.mk.injEq]
    omega
  · have hall := congrArg byteLength (linesBefore_length s)
    have hlength : (textLines s).length = i + 1 := by omega
    simp only [hlength, byteLength_append, byteLength_cons, byteLength_nil, hsize] at hall
    rw [if_neg hlast]
    simp only [Option.some.injEq, Prod.mk.injEq]
    omega

theorem length_le_byteLength (s : List Char) : s.length ≤ byteLength s := by
  induction s with
  | nil => simp
  | cons c s ih =>
    have := c.utf8Size_pos
    rw [List.length_cons, byteLength_cons]
    omega

theorem byteLength_eq_length {s : List Char} :
    byteLength s = s.length ↔ ∀ c ∈ s, c.toNat < 128 := by
  induction s with
  | nil => simp
  | cons c s ih =>
    have hsize : c.utf8Size = 1 ↔ c.toNat < 128 := by
      rw [Char.utf8Size_eq_one_iff, UInt32.le_iff_toNat_le]
      exact Nat.lt_succ_iff.symm
    have hpos := c.utf8Size_pos
    have hle := length_le_byteLength s
    rw [List.forall_mem_cons, ← ih, ← hsize, byteLength_cons, List.length_cons]
    omega

end ComponentMarkup
