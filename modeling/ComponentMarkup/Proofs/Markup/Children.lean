import ComponentMarkup.Proofs.Markup.Openings
import ComponentMarkup.Proofs.Markup.PieceReading

set_option autoImplicit false

namespace ComponentMarkup

mutual

def Node.allElements : Node → List Element
  | .element tag children => ⟨tag, children⟩ :: allElements children
  | .text _ | .comment _ | .doctype _ => []

def allElements : List Node → List Element
  | [] => []
  | n :: ns => n.allElements ++ allElements ns

end

theorem allElements_append (a b : List Node) :
    allElements (a ++ b) = allElements a ++ allElements b := by
  induction a with
  | nil => rfl
  | cons n a ih => simp [allElements, ih]

def textNodes (chars : List Char) : List Node := if chars.isEmpty then [] else [.text chars]

theorem allElements_textNodes (chars : List Char) : allElements (textNodes chars) = [] := by
  unfold textNodes
  split <;> rfl

theorem allElements_joinText (chars : List Char) (ns : List Node) :
    allElements (joinText chars ns).reverse = allElements ns.reverse := by
  unfold joinText
  split <;> simp [allElements_append, allElements, Node.allElements]

def startsNoText : List Piece → Prop
  | .text _ :: _ => False
  | _ => True

theorem textPieces_append_inj {chars chars' : List Char} {ps ps' : List Piece}
    (h : textPieces chars ++ ps = textPieces chars' ++ ps') (hp : startsNoText ps)
    (hp' : startsNoText ps') : chars = chars' := by
  unfold textPieces at h
  split at h
  · rename_i he
    split at h
    · rename_i he'
      rw [List.isEmpty_iff.1 he, List.isEmpty_iff.1 he']
    · rw [List.nil_append] at h
      rw [h] at hp
      exact hp.elim
  · split at h
    · rw [List.nil_append] at h
      rw [← h] at hp'
      exact hp'.elim
    · simpa using (List.cons.inj h).1

/-- The next piece closes an element of this name, or no piece is left. -/
def ClosesNext (name : List Char) (ps : List Piece) : Prop :=
  ps = [] ∨ ∃ qs, ps = .closeTag name :: qs

theorem ClosesNext.startsNoText {name : List Char} {ps : List Piece} (h : ClosesNext name ps) :
    startsNoText ps := by
  rcases h with rfl | ⟨qs, rfl⟩
  · trivial
  · trivial

theorem ClosesNext.openPieces_tail {name : List Char} {ps : List Piece} (h : ClosesNext name ps) :
    openPieces ps.tail = openPieces ps := by
  rcases h with rfl | ⟨qs, rfl⟩
  · rfl
  · rfl

/-- What an element may hold, as far as its tag and the pieces behind it tell at once. -/
def OpenPiece.Encloses (p : OpenPiece) (children : List Node) : Prop :=
  if p.selfClosing || isVoid p.tag.name then children = []
  else ∀ chars ps, p.behind = textPieces chars ++ ps → ClosesNext p.tag.name ps →
    children = textNodes chars

def OpenPiece.Holds (p : OpenPiece) (e : Element) : Prop :=
  e.tag = p.tag ∧ p.Encloses e.children

abbrev Begun := Tag × Option (List Node)

def Element.begun (e : Element) : Begun := (e.tag, some e.children)

/-- Whatever an open element comes to hold may be what it holds. -/
def OpenPiece.Fits (p : OpenPiece) (b : Begun) : Prop :=
  b.1 = p.tag ∧ ∀ children, b.2 = none ∨ b.2 = some children → p.Encloses children

theorem OpenPiece.fits_begun {p : OpenPiece} {e : Element} : p.Fits e.begun ↔ p.Holds e := by
  constructor
  · exact fun h => ⟨h.1, h.2 _ (.inr rfl)⟩
  · rintro ⟨htag, h⟩
    refine ⟨htag, ?_⟩
    rintro children (hc | hc)
    · cases hc
    · cases hc
      exact h

theorem OpenPiece.fits_close {ps : List OpenPiece} {before after : List Begun} {tag : Tag}
    (h : List.Forall₂ Fits ps (before ++ (tag, none) :: after)) (children : List Node) :
    List.Forall₂ Fits ps (before ++ (tag, some children) :: after) := by
  induction before generalizing ps with
  | nil =>
    cases h with
    | cons hp hrest => exact hrest.cons ⟨hp.1, fun children _ => hp.2 children (.inl rfl)⟩
  | cons b before ih =>
    cases h with
    | cons hp hrest => exact (ih hrest).cons hp

namespace TreeBuilder

def openedBegun : List OpenElement → List Begun
  | [] => []
  | e :: es =>
    openedBegun es ++ (e.tag, none) :: (allElements e.children.reverse).map Element.begun

def begun (b : TreeBuilder) : List Begun :=
  (allElements b.roots.reverse).map Element.begun ++ openedBegun b.opened

theorem begun_push (n : Node) (b : TreeBuilder) :
    (b.push n).begun = b.begun ++ n.allElements.map Element.begun := by
  obtain ⟨opened, roots⟩ := b
  cases opened with
  | nil => simp [push, modifySiblings, begun, openedBegun, allElements_append, allElements]
  | cons e es => simp [push, modifySiblings, begun, openedBegun, allElements_append, allElements]

theorem begun_text (chars : List Char) (b : TreeBuilder) :
    (b.modifySiblings (joinText chars)).begun = b.begun := by
  obtain ⟨opened, roots⟩ := b
  cases opened with
  | nil => simp [modifySiblings, begun, openedBegun, allElements_joinText]
  | cons e es => simp [modifySiblings, begun, openedBegun, allElements_joinText]

theorem begun_enter (tag : Tag) (b : TreeBuilder) :
    (b.enter tag).begun = b.begun ++ [(tag, none)] := by
  simp [enter, begun, openedBegun, allElements]

theorem fits_closeInnermost {ps : List OpenPiece} {b : TreeBuilder}
    (h : List.Forall₂ OpenPiece.Fits ps b.begun) :
    List.Forall₂ OpenPiece.Fits ps b.closeInnermost.begun := by
  obtain ⟨opened, roots⟩ := b
  cases opened with
  | nil => exact h
  | cons e es =>
    rw [begun, openedBegun, ← List.append_assoc] at h
    have hclosed := OpenPiece.fits_close h e.children.reverse
    rw [closeInnermost, begun_push]
    simpa [begun, Node.allElements, Element.begun] using hclosed

theorem fits_closeMany (n : Nat) {ps : List OpenPiece} {b : TreeBuilder}
    (h : List.Forall₂ OpenPiece.Fits ps b.begun) :
    List.Forall₂ OpenPiece.Fits ps (b.closeMany n).begun := by
  induction n generalizing b with
  | zero => exact h
  | succ n ih => exact ih (fits_closeInnermost h)

theorem holds_finish {ps : List OpenPiece} {b : TreeBuilder}
    (h : List.Forall₂ OpenPiece.Fits ps b.begun) :
    List.Forall₂ OpenPiece.Holds ps (allElements b.finish) := by
  have hclosed := fits_closeMany b.opened.length h
  rw [begun, opened_closeMany_all, openedBegun, List.append_nil,
    List.forall₂_map_right_iff] at hclosed
  exact hclosed.imp fun p e hp => OpenPiece.fits_begun.1 hp

theorem fits_add {ps : List OpenPiece} {b : TreeBuilder}
    (h : List.Forall₂ OpenPiece.Fits ps b.begun) {p : Piece} (hp : openPieces [p] = []) :
    List.Forall₂ OpenPiece.Fits ps (b.add p).begun := by
  cases p with
  | openTag tag selfClosing => cases hp
  | closeTag name =>
    simp only [add, close]
    split
    · exact h
    · exact fits_closeMany _ h
  | comment body => simpa [add, begun_push, Node.allElements] using h
  | doctype body => simpa [add, begun_push, Node.allElements] using h
  | text chars => rwa [add, begun_text]

theorem foldl_add_textPieces (chars : List Char) (tag : Tag) (b : TreeBuilder) :
    (textPieces chars).foldl add (b.enter tag) = (b.enter tag).pushAll (textNodes chars) := by
  unfold textPieces textNodes
  split
  · simp
  · rfl

theorem finish_enter_pushAll (tag : Tag) (children : List Node) (b : TreeBuilder) :
    ((b.enter tag).pushAll children).finish = (b.push (.element tag children)).finish := by
  have hlength : (b.push (.element tag children)).opened.length = b.opened.length := by
    obtain ⟨opened, roots⟩ := b
    cases opened with
    | nil => rfl
    | cons e es => rfl
  rw [finish, finish, hlength]
  simp [enter, pushAll, modifySiblings, closeMany, closeInnermost]

theorem finish_enclosed {tag : Tag} {qs : List Piece} (h : ClosesNext tag.name qs)
    (chars : List Char) (b : TreeBuilder) :
    ((textPieces chars ++ qs).foldl add (b.enter tag)).finish =
      (qs.tail.foldl add (b.push (.element tag (textNodes chars)))).finish := by
  rw [List.foldl_append, foldl_add_textPieces]
  rcases h with rfl | ⟨qs, rfl⟩
  · exact finish_enter_pushAll tag _ b
  · rw [List.foldl_cons, add, close_enter_pushAll, List.tail_cons]

theorem fits_push {ps : List OpenPiece} {b : TreeBuilder}
    (h : List.Forall₂ OpenPiece.Fits ps b.begun) {p : OpenPiece} {children : List Node}
    (hc : allElements children = []) (hp : p.Encloses children) :
    List.Forall₂ OpenPiece.Fits (ps ++ [p]) (b.push (.element p.tag children)).begun := by
  have hfits : p.Fits (Element.begun ⟨p.tag, children⟩) := OpenPiece.fits_begun.2 ⟨rfl, hp⟩
  simpa [begun_push, Node.allElements, hc] using
    List.rel_append h (List.Forall₂.cons hfits .nil)

theorem holds_foldl_add (ps : List Piece) {before : List OpenPiece} {b : TreeBuilder}
    (h : List.Forall₂ OpenPiece.Fits before b.begun) :
    List.Forall₂ OpenPiece.Holds (before ++ openPieces ps)
      (allElements (ps.foldl add b).finish) := by
  induction hn : ps.length using Nat.strong_induction_on generalizing ps before b with
  | _ n ih =>
    subst hn
    cases ps with
    | nil => simpa [openPieces] using holds_finish h
    | cons p ps =>
      have hnext {before : List OpenPiece} {b : TreeBuilder}
          (h : List.Forall₂ OpenPiece.Fits before b.begun) :
          List.Forall₂ OpenPiece.Holds (before ++ openPieces ps)
            (allElements (ps.foldl add b).finish) := ih ps.length (by simp) ps h rfl
      rw [List.foldl_cons]
      cases p with
      | closeTag name => exact hnext (fits_add h rfl)
      | comment body => exact hnext (fits_add h rfl)
      | doctype body => exact hnext (fits_add h rfl)
      | text chars => exact hnext (fits_add h rfl)
      | openTag tag selfClosing =>
        rw [openPieces, List.append_cons]
        by_cases hv : (selfClosing || isVoid tag.name) = true
        · rw [add, if_pos hv]
          refine hnext (fits_push (p := ⟨tag, selfClosing, ps⟩) h rfl ?_)
          rw [OpenPiece.Encloses, if_pos hv]
        rw [add, if_neg hv]
        change List.Forall₂ _ _ (allElements (ps.foldl add (b.enter tag)).finish)
        by_cases hc : ∃ chars qs, ps = textPieces chars ++ qs ∧ ClosesNext tag.name qs
        · -- the element is closed behind its text, or at the end with all others
          obtain ⟨chars, qs, rfl, hqs⟩ := hc
          have hp : (⟨tag, selfClosing, textPieces chars ++ qs⟩ : OpenPiece).Encloses
              (textNodes chars) := by
            rw [OpenPiece.Encloses, if_neg hv]
            intro chars' qs' he hqs'
            rw [textPieces_append_inj he hqs.startsNoText hqs'.startsNoText]
          have hpush := fits_push h (allElements_textNodes chars) hp
          rw [openPieces_textPieces, ← hqs.openPieces_tail, finish_enclosed hqs]
          exact ih qs.tail.length (by simp; omega) qs.tail hpush rfl
        · refine hnext ?_
          rw [begun_enter]
          refine List.rel_append h (.cons ⟨rfl, fun children _ => ?_⟩ .nil)
          rw [OpenPiece.Encloses, if_neg hv]
          exact fun chars qs he hqs => absurd ⟨chars, qs, he, hqs⟩ hc

end TreeBuilder

theorem holds_treeOfPieces (ps : List Piece) :
    List.Forall₂ OpenPiece.Holds (openPieces ps) (allElements (treeOfPieces ps)) := by
  have hstart : List.Forall₂ OpenPiece.Fits [] TreeBuilder.start.begun := .nil
  exact TreeBuilder.holds_foldl_add ps hstart

end ComponentMarkup
