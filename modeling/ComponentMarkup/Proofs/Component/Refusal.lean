import ComponentMarkup.Component.Loading
import ComponentMarkup.Proofs.Component.Causes
import ComponentMarkup.Proofs.Component.Made

set_option autoImplicit false

namespace ComponentMarkup

def topTags (nodes : List Node) : List Tag := (elements nodes).map Element.tag

/-- Why elements at top level make no component, and the line of the one to blame. Of several tags where
one may stand none is. -/
inductive BadComponent (heads : List Tag) : Cause → Option Nat → Prop
  | disallowed {tag : Tag} : heads.find? (!topLevelNames.contains ·.name) = some tag →
      BadComponent heads (.disallowedTopLevelTag tag.name) (some tag.line)
  | multiple {names : List (List Char)} {tag : Tag} {more : List Tag} :
      names ∈ [[templateName], scriptNames, styleNames] →
      heads.filter (names.contains ·.name) = tag :: more → more ≠ [] →
      BadComponent heads (.multipleTopLevelTags tag.name ((tag :: more).map Tag.line)) none
  | reserved {tag : Tag} {declaration : List Char} :
      heads.filter ([templateName].contains ·.name) = [tag] →
      declaration ∈ words ((tag.attr? "args".toList).getD []) →
      (Parameter.ofDeclaration declaration).name = childrenName →
      BadComponent heads .reservedArgument (some tag.line)

def CompileError.IsIn (e : CompileError) (file : Path) (heads : List Tag) : Prop :=
  e.location.file = some file ∧ BadComponent heads e.cause e.location.line

theorem elements_append (a b : List Node) : elements (a ++ b) = elements a ++ elements b :=
  List.filterMap_append

theorem topTags_takeElements (name : List Char) (nodes : List Node) :
    topTags (takeElements name nodes).1 = (topTags nodes).filter (·.name != name) := by
  unfold topTags
  induction nodes with
  | nil => rfl
  | cons n nodes ih =>
    rw [takeElements, elements_append, List.map_append, ih]
    cases n with
    | element tag children =>
      by_cases h : tag.name = name <;> simp [Node.take, elements, Node.element?, h]
    | text chars => simp [Node.take, elements, List.filterMap_cons, Node.element?]
    | comment body => simp [Node.take, elements, List.filterMap_cons, Node.element?]
    | doctype body => simp [Node.take, elements, List.filterMap_cons, Node.element?]

theorem BadComponent.of_takeElements {nodes : List Node} {c : Cause} {line : Option Nat}
    (h : BadComponent (topTags (takeElements importName nodes).1) c line) :
    BadComponent (topTags nodes) c line := by
  rw [topTags_takeElements] at h
  -- an import is allowed at top level, and is none of the tags that may stand there once
  have hfilter : ∀ names : List (List Char), importName ∉ names →
      ((topTags nodes).filter (·.name != importName)).filter (names.contains ·.name) =
        (topTags nodes).filter (names.contains ·.name) := by
    intro names hn
    rw [List.filter_filter]
    refine List.filter_congr fun tag _ => ?_
    by_cases ht : tag.name = importName
    · simp [ht, hn]
    · simp [ht]
  cases h with
  | disallowed hf =>
    rw [List.find?_filter] at hf
    refine .disallowed (hf ▸ ?_)
    congr 1
    funext tag
    by_cases ht : tag.name = importName
    · rw [ht]
      decide
    · simp [ht]
  | multiple hn hf hm =>
    rw [hfilter _ (by revert hn; simp; rintro (rfl | rfl | rfl) <;> decide)] at hf
    exact .multiple hn hf hm
  | reserved hf hd hc =>
    rw [hfilter _ (by decide)] at hf
    exact .reserved hf hd hc

theorem BadComponent.ofFile {heads : List Tag} {c : Cause} {line : Option Nat}
    (h : BadComponent heads c line) : c.OfFile := by
  cases h with
  | disallowed _ => exact .disallowedTopLevelTag _
  | multiple _ _ _ => exact .multipleTopLevelTags _ _
  | reserved _ _ _ => exact .reservedArgument

end ComponentMarkup
