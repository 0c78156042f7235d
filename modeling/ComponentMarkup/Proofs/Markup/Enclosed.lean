import ComponentMarkup.Proofs.Markup.DocumentOrder
import ComponentMarkup.Proofs.Markup.ParsedShape
import ComponentMarkup.Proofs.Markup.Rereading
import ComponentMarkup.Proofs.Markup.WrittenPieces

set_option autoImplicit false

namespace ComponentMarkup

namespace TreeBuilder

/-- Everything is inside of the outermost open element, which has this tag. -/
def Encloses (tag : Tag) (b : TreeBuilder) : Prop :=
  b.roots = [] ∧ ∃ inner children, b.opened = inner ++ [⟨tag, children⟩]

variable {tag : Tag} {b : TreeBuilder}

theorem encloses_start (tag : Tag) : (start.enter tag).Encloses tag := ⟨rfl, [], [], rfl⟩

theorem Encloses.modifySiblings (h : b.Encloses tag) (f : List Node → List Node) :
    (b.modifySiblings f).Encloses tag := by
  obtain ⟨opened, roots⟩ := b
  obtain ⟨hroots, inner, children, rfl⟩ := h
  cases inner with
  | nil => exact ⟨hroots, [], f children, rfl⟩
  | cons e inner => exact ⟨hroots, { e with children := f e.children } :: inner, children, rfl⟩

theorem Encloses.enter (h : b.Encloses tag) (inside : Tag) : (b.enter inside).Encloses tag := by
  obtain ⟨hroots, inner, children, hopened⟩ := h
  exact ⟨hroots, ⟨inside, []⟩ :: inner, children, by rw [TreeBuilder.enter, hopened]; rfl⟩

theorem Encloses.closeMany {n : Nat} (h : b.Encloses tag) (hn : n < b.opened.length) :
    (b.closeMany n).Encloses tag := by
  induction n generalizing b with
  | zero => exact h
  | succ n ih =>
    have hlength := opened_closeInnermost b
    refine ih ?_ (by omega)
    obtain ⟨opened, roots⟩ := b
    obtain ⟨hroots, inner, children, rfl⟩ := h
    cases inner with
    | nil => simp at hn
    | cons e inner =>
      have h : (TreeBuilder.mk (inner ++ [⟨tag, children⟩]) roots).Encloses tag :=
        ⟨hroots, inner, children, rfl⟩
      exact h.modifySiblings _

theorem Encloses.close {name : List Char} (h : b.Encloses tag) (hn : name ≠ tag.name) :
    (b.close name).Encloses tag := by
  unfold TreeBuilder.close
  split
  · exact h
  · rename_i depth hfind
    refine h.closeMany ?_
    obtain ⟨-, inner, children, hopened⟩ := h
    obtain ⟨hlt, hname, -⟩ := List.findIdx?_eq_some_iff_getElem.1 hfind
    simp only [hopened, List.length_append, List.length_singleton] at hlt hname ⊢
    -- the outermost element has another name
    have hne : depth ≠ inner.length := by
      rintro rfl
      simp only [List.getElem_append_right (Nat.le_refl _), Nat.sub_self, List.getElem_cons_zero,
        beq_iff_eq] at hname
      exact hn hname.symm
    omega

theorem finish_closeInnermost (b : TreeBuilder) : b.closeInnermost.finish = b.finish := by
  have hlength := opened_closeInnermost b
  obtain ⟨opened, roots⟩ := b
  cases opened with
  | nil => rfl
  | cons e es =>
    rw [TreeBuilder.finish, hlength]
    rfl

theorem finish_closeMany (n : Nat) (b : TreeBuilder) : (b.closeMany n).finish = b.finish := by
  induction n generalizing b with
  | zero => rfl
  | succ n ih => rw [closeMany, ih, finish_closeInnermost]

theorem finish_close (name : List Char) (b : TreeBuilder) : (b.close name).finish = b.finish := by
  unfold TreeBuilder.close
  split
  · rfl
  · exact finish_closeMany _ b

theorem Encloses.finish (h : b.Encloses tag) : ∃ children, b.finish = [.element tag children] := by
  have hlength := opened_closeMany (b.opened.length - 1) b
  have hpos : 0 < b.opened.length := by
    obtain ⟨-, inner, children, hopened⟩ := h
    simp [hopened]
  have hlast := h.closeMany (Nat.sub_lt hpos Nat.one_pos)
  rw [← finish_closeMany (b.opened.length - 1) b]
  generalize b.closeMany (b.opened.length - 1) = last at hlength hlast ⊢
  obtain ⟨opened, roots⟩ := last
  obtain ⟨rfl, inner, children, rfl⟩ := hlast
  obtain rfl : inner = [] := by
    rw [← List.length_eq_zero_iff]
    simp only [List.length_append, List.length_singleton] at hlength
    omega
  exact ⟨children.reverse, rfl⟩

end TreeBuilder

/-- What begins as the close tag does, in any case of ASCII, is the close tag at the end. -/
def ClosedLast (name s : List Char) : Prop :=
  ∀ u, u <:+ s → closing name <+: lowerAscii u → u = closing name ++ ['>']

theorem ClosedLast.of_append {name a b : List Char} (h : ClosedLast name (a ++ b)) :
    ClosedLast name b := fun u hu => h u (hu.trans (List.suffix_append a b))

theorem closedLast_append {name s : List Char} (hn : IsElementName name)
    (h : ¬closing name <:+: lowerAscii s) : ClosedLast name (s ++ (closing name ++ ['>'])) := by
  intro u hu hp
  rcases List.suffix_or_suffix_of_suffix hu (List.suffix_append s _) with hu | ⟨v, rfl⟩
  · rcases List.suffix_cons_iff.1 hu with hu | hu
    · exact hu
    rcases List.suffix_cons_iff.1 hu with rfl | hu
    · cases (List.cons_prefix_cons.1 hp).1
    · have hlong := hp.length_le
      have hshort : u.length ≤ (name ++ ['>']).length := hu.length_le
      simp only [closing, List.length_cons, length_lowerAscii, List.length_append,
        List.length_nil] at hlong hshort
      omega
  · obtain ⟨w, hw⟩ := hu
    rw [← List.append_assoc] at hw
    have hs : v <:+ s := ⟨w, List.append_cancel_right hw⟩
    by_cases hv : v = []
    · rw [hv, List.nil_append]
    · -- the close tag would begin in the text, and end there, for its bracket is its first character
      have hover : NoOverlap (closing name) (lowerAscii s) (lowerAscii (closing name ++ ['>'])) :=
        AtBracket.noOverlap (atBracket_cons _) (bracket_notMem_tail hn)
      rw [lowerAscii_append] at hp
      have hp := hover.prefix_of_append (by simpa [lowerAscii] using hv) (hs.map Char.toLower) hp
      exact absurd (hp.isInfix.trans (hs.map Char.toLower).isInfix) h

theorem closing_prefix_of_isWritten {name own rest : List Char}
    (h : (Token.tagClose name).IsWritten own rest) :
    ∃ inside, own = '<' :: '/' :: (inside ++ ['>']) ∧ closing name <+: lowerAscii own := by
  obtain ⟨inside, rfl, rfl⟩ := h
  have hp : trimRight inside <+: inside ++ ['>'] :=
    (List.rdropWhile_prefix isBlank inside).trans (List.prefix_append inside _)
  refine ⟨inside, rfl, ?_⟩
  rw [closing, lowerAscii_cons, lowerAscii_cons]
  exact List.cons_prefix_cons.2 ⟨rfl, List.cons_prefix_cons.2 ⟨rfl, hp.map _⟩⟩

theorem Written.eq_nil {line : Nat} {before : Option Piece} {ps : List Piece}
    (h : Written line before ps [])
    (hs : ∀ p ∈ ps, p.Shaped) : ps = [] := by
  cases ps with
  | nil => rfl
  | cons p ps =>
    obtain ⟨own, rest, hown, hp, -, -⟩ := h
    obtain ⟨rfl, rfl⟩ := List.append_eq_nil_iff.1 hown.symm
    have hshaped := hs p List.mem_cons_self
    cases p with
    | openTag tag selfClosing =>
      obtain ⟨-, name, inside, hown, ⟨written, rfl, -⟩, -⟩ := hp
      cases hown
    | closeTag name =>
      obtain ⟨inside, hown, -⟩ := hp
      cases hown
    | comment body =>
      rcases hp with hown | ⟨hown, -⟩
      · cases hown
      · cases hown
    | doctype body => cases hp
    | text chars => exact absurd hp.symm hshaped

namespace TreeBuilder

variable {tag : Tag} {b : TreeBuilder}

theorem Encloses.add (h : b.Encloses tag) {p : Piece} (hp : p ≠ .closeTag tag.name) :
    (b.add p).Encloses tag := by
  cases p with
  | openTag inside selfClosing =>
    simp only [TreeBuilder.add]
    split
    · exact h.modifySiblings _
    · exact h.enter inside
  | closeTag name =>
    refine h.close ?_
    rintro rfl
    exact hp rfl
  | comment body => exact h.modifySiblings _
  | doctype body => exact h.modifySiblings _
  | text chars => exact h.modifySiblings _

/-- The element stays the outermost one, up to its close tag at the end. -/
theorem Encloses.finish_foldl {line : Nat} {before : Option Piece} {ps : List Piece} {s : List Char}
    (h : b.Encloses tag) (hw : Written line before ps s) (hs : ∀ p ∈ ps, p.Shaped)
    (hn : '>' ∉ tag.name) (hc : ClosedLast tag.name s) :
    ∃ children, (ps.foldl TreeBuilder.add b).finish = [.element tag children] := by
  induction ps generalizing b line before s with
  | nil => exact h.finish
  | cons p ps ih =>
    obtain ⟨own, rest, rfl, hown, -, hrest⟩ := hw
    have hps := (List.forall_mem_cons.1 hs).2
    by_cases hp : p = .closeTag tag.name
    · subst hp
      have hclose : (Token.tagClose tag.name).IsWritten own rest := hown
      obtain ⟨inside, rfl, hprefix⟩ := closing_prefix_of_isWritten hclose
      have hlast := hc _ (List.suffix_refl _) (by
        rw [lowerAscii_append]
        exact hprefix.trans (List.prefix_append _ _))
      obtain rfl : rest = [] := by
        have hend : inside ++ ['>'] ++ rest = tag.name ++ ['>'] :=
          (List.cons.inj (List.cons.inj hlast).2).2
        rcases List.eq_nil_or_concat' rest with rfl | ⟨rest, c, rfl⟩
        · rfl
        · rw [← List.append_assoc] at hend
          obtain ⟨hname, -⟩ := List.append_inj' hend rfl
          exact absurd (hname ▸ by simp) hn
      obtain rfl := hrest.eq_nil hps
      obtain ⟨children, hchildren⟩ := h.finish
      refine ⟨children, ?_⟩
      rw [← hchildren, ← finish_close tag.name b]
      rfl
    · exact ih (h.add hp) hrest hps hc.of_append

end TreeBuilder

theorem parse_enclosed {tag : Tag} (ht : tag.Shaped) (hattrs : tag.attrs = []) (hl : tag.line = 1)
    (hv : isVoid tag.name = false) (hraw : isRawText tag.name = false) {text : List Char}
    (h : ¬closing tag.name <:+: lowerAscii text) :
    ∃ children, parse (tag.renderOpen ++ (text ++ tag.renderClose)) = [.element tag children] := by
  have hopen := TreeBuilder.readFrom_open ht (text ++ tag.renderClose) .start 1
  have hwritten : tag.written 1 = tag := by rw [Tag.written, hattrs, ← hl, List.map_nil, ← hattrs]
  have hadd : TreeBuilder.start.add (.openTag tag false) = TreeBuilder.start.enter tag := by
    simp [TreeBuilder.add, TreeBuilder.enter, hv]
  rw [splitRawText_of_not_raw (.inr hraw), hwritten, hadd, TreeBuilder.addText_nil] at hopen
  have hclose : tag.renderClose = closing tag.name ++ ['>'] := rfl
  have hname : '>' ∉ tag.name := fun hc => absurd (ht.name.chars _ hc) (by decide)
  rw [← TreeBuilder.finish_readFrom, hopen]
  exact (TreeBuilder.encloses_start tag).finish_foldl (written_readPieces _ _ none rfl)
    (shaped_readPieces _ _) hname (hclose ▸ closedLast_append ht.name h)

end ComponentMarkup
