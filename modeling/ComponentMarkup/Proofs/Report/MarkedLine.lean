import ComponentMarkup.Proofs.Text.LineTable
import ComponentMarkup.Report

set_option autoImplicit false

namespace ComponentMarkup

/-- The text that the report of an error marks; positions of a label are counted in characters. -/
def CompileError.markedText? (e : CompileError) (source : List Char) : Option (List Char) :=
  (e.labelSpan? source).map fun span => source.extract span.1 span.2

/-- The mark of an error on a line of the source has the bytes of the line for its positions: they
are the positions of the line's characters, which the report counts, if and only if no character
before the end of the line is beyond ASCII, and then the text of the line is marked. -/
theorem labelSpan_of_line {e : CompileError} {source : List Char} {n : Nat}
    (hline : e.location.line = some n) (hfirst : 1 ≤ n) (hlast : n ≤ (textLines source).length) :
    ∃ before line after, source = before ++ (line ++ after) ∧
      (textLines source)[n - 1]? = some line ∧
      before = ((textLines source).take (n - 1)).flatMap (· ++ ['\n']) ∧
      e.labelSpan? source = some (byteLength before, byteLength before + byteLength line) ∧
      (e.labelSpan? source = some (before.length, before.length + line.length) ↔
        ∀ c ∈ before ++ line, c.toNat < 128) ∧
      ((∀ c ∈ before ++ line, c.toNat < 128) → e.markedText? source = some line) := by
  obtain ⟨i, rfl⟩ := Nat.exists_eq_add_of_le' hfirst
  obtain ⟨line, hget⟩ : ∃ line, (textLines source)[i]? = some line :=
    ⟨_, List.getElem?_eq_getElem hlast⟩
  obtain ⟨after, hsource⟩ := exists_eq_linesBefore_append hget
  have hspan : e.labelSpan? source = some (byteLength (linesBefore source i),
      byteLength (linesBefore source i) + byteLength line) := by
    rw [CompileError.labelSpan?, hline, Option.bind_some]
    exact lineSpan?_ofText hget
  refine ⟨linesBefore source i, line, after, hsource, hget, rfl, hspan, ?_, fun hascii => ?_⟩
  · rw [hspan, List.forall_mem_append, ← byteLength_eq_length, ← byteLength_eq_length]
    simp only [Option.some.injEq, Prod.mk.injEq]
    omega
  · rw [List.forall_mem_append, ← byteLength_eq_length, ← byteLength_eq_length] at hascii
    rw [CompileError.markedText?, hspan, hascii.1, hascii.2, Option.map_some,
      List.extract_eq_take_drop, Nat.add_sub_cancel_left]
    generalize linesBefore source i = before at hsource
    rw [hsource, List.drop_left, List.take_left]

theorem labelSpan_of_line_before_accent :
    (Cause.reservedArgument.at ⟨"card.htmlp".toList⟩ (some 2)).location.line = some 2 ∧
      1 ≤ 2 ∧ 2 ≤ (textLines "<style></style>\n<div></div>\né".toList).length ∧
      (Cause.reservedArgument.at ⟨"card.htmlp".toList⟩ (some 2)).markedText?
        "<style></style>\n<div></div>\né".toList = some "<div></div>".toList := by
  refine ⟨rfl, by decide, by decide, ?_⟩
  obtain ⟨before, line, -, -, hget, hbefore, -, -, hmarked⟩ :=
    @labelSpan_of_line (Cause.reservedArgument.at ⟨"card.htmlp".toList⟩ (some 2))
      "<style></style>\n<div></div>\né".toList 2 rfl (by decide) (by decide)
  obtain rfl : line = "<div></div>".toList := Option.some.inj (hget.symm.trans (by decide))
  obtain rfl : before = "<style></style>\n".toList := hbefore.trans (by decide)
  have hascii : ("<style></style>\n".toList ++ "<div></div>".toList).all
      (fun c => decide (c.toNat < 128)) = true := by decide
  exact hmarked fun c hc => of_decide_eq_true (List.all_eq_true.1 hascii c hc)

/-- Two accents on the line before: an error on the second line is marked on the third. -/
theorem markedText_behind_accents :
    (textLines "éé\na\nb\n".toList)[1]? = some ['a'] ∧
      (Cause.reservedArgument.at ⟨"card.htmlp".toList⟩ (some 2)).location.line = some 2 ∧
      (Cause.reservedArgument.at ⟨"card.htmlp".toList⟩ (some 2)).markedText?
        "éé\na\nb\n".toList = some ['b'] := by
  decide

end ComponentMarkup
