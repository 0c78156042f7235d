import ComponentMarkup.Proofs.Files.PlacePath
import ComponentMarkup.Proofs.Loading.Equations
import ComponentMarkup.Proofs.Markup.VoidElements
import Mathlib.Logic.Relation

/-!
The graph of imports in a file tree, and the files whose imports resolve. Nothing that can be
reached from such a file reaches itself.
-/

set_option autoImplicit false

namespace ComponentMarkup

open Relation

def FileTree.importedPlace? (t : FileTree) (dir : Path) (tag : Tag) : Option Place :=
  (tag.attr? "path".toList).bind fun relative => (t.locate (dir.join ⟨relative⟩)).toOption

def FileTree.HasImport (t : FileTree) (dir : Path) (a b : Place) : Prop :=
  ∃ text, t.readAt a = .ok text ∧
    ∃ e ∈ findAll importName (parse text), t.importedPlace? dir e.tag = some b

variable {t : FileTree} {dir file : Path} {place : Place} {source : Source}

theorem importedPlace?_eq_some {tag : Tag} :
    t.importedPlace? dir tag = some place ↔
      ∃ relative, tag.attr? "path".toList = some relative ∧
        t.locate (dir.join ⟨relative⟩) = .ok place := by
  unfold FileTree.importedPlace?
  rw [Option.bind_eq_some_iff]
  refine exists_congr fun relative => and_congr_right fun _ => ?_
  cases t.locate (dir.join ⟨relative⟩) <;> simp [Except.toOption]

theorem importedPlace?_named {tag : Tag} (h : t.importedPlace? dir tag = some place) :
    place.all isName = true := by
  obtain ⟨_, _, hl⟩ := importedPlace?_eq_some.1 h
  exact FileTree.locate_named hl

theorem importTags_ofText (path : Path) (text : List Char) :
    (Source.ofText path text).importTags = findAll importName (parse text) :=
  takeElements_parse (by decide) text

theorem hasImport_iff (h : t.openComponent place = .ok source) (q : Place) :
    t.HasImport dir place q ↔ ∃ e ∈ source.importTags, t.importedPlace? dir e.tag = some q := by
  obtain ⟨text, hr, rfl, -⟩ := FileTree.openComponent_eq_ok.1 h
  rw [importTags_ofText]
  simp [FileTree.HasImport, hr]

theorem hasImport_named {a b : Place} (h : t.HasImport dir a b) : b.all isName = true := by
  obtain ⟨_, _, _, _, hb⟩ := h
  exact importedPlace?_named hb

theorem reaches_named {a b : Place} (ha : a.all isName = true)
    (h : ReflTransGen (t.HasImport dir) a b) : b.all isName = true := by
  cases h with
  | refl => exact ha
  | tail _ h => exact hasImport_named h

theorem importTarget_congr {r r' : Registry} (h : r.includeDir = r'.includeDir) (table : Imports)
    (tag : Tag) : importTarget r file table tag = importTarget r' file table tag := by
  unfold importTarget Registry.resolvePath
  rw [h]

theorem importedPlace?_of_importTarget {table : Imports} {tag : Tag} {name : List Char}
    {path : Path} (h : importTarget (.empty dir) file table tag = .ok (name, path)) :
    t.importedPlace? dir tag = (t.locate path).toOption := by
  unfold importTarget at h
  split at h
  · cases h
  · rename_i relative hr
    simp only at h
    split at h
    · cases h
    · cases h
      unfold FileTree.importedPlace?
      rw [hr]
      rfl

/-- Tags of a file resolve to a table: each leads to a file that can be opened, whose own tags
resolve and that makes a component. No route and no registry has a say in it. -/
inductive FileTree.Resolves (t : FileTree) (dir : Path) :
    Path → List Element → Imports → Imports → Prop
  | nil (file : Path) (table : Imports) : t.Resolves dir file [] table table
  | cons {file path : Path} {e : Element} {es : List Element} {table table' imports : Imports}
      {name : List Char} {place : Place} {source : Source} {d : Definition}
      (target : importTarget (.empty dir) file table e.tag = .ok (name, path))
      (found : t.locate path = .ok place) (opened : t.openComponent place = .ok source)
      (inner : t.Resolves dir source.path source.importTags [] imports)
      (made : Definition.ofSource source.withoutImports imports = .ok d)
      (rest : t.Resolves dir file es (table.insert name d) table') :
      t.Resolves dir file (e :: es) table table'

def FileTree.Makes (t : FileTree) (dir : Path) (place : Place) (d : Definition) : Prop :=
  ∃ source imports, t.openComponent place = .ok source ∧
    t.Resolves dir source.path source.importTags [] imports ∧
    Definition.ofSource source.withoutImports imports = .ok d

def FileTree.Grounded (t : FileTree) (dir : Path) (place : Place) : Prop :=
  Acc (fun b a => t.HasImport dir a b) place

theorem grounded_of_tags (h : t.openComponent place = .ok source)
    (hg : ∀ e ∈ source.importTags, ∀ q, t.importedPlace? dir e.tag = some q → t.Grounded dir q) :
    t.Grounded dir place := by
  refine Acc.intro _ fun q hq => ?_
  obtain ⟨e, he, hp⟩ := (hasImport_iff h q).1 hq
  exact hg e he q hp

theorem FileTree.Resolves.grounded {tags : List Element} {table table' : Imports}
    (h : t.Resolves dir file tags table table') :
    ∀ e ∈ tags, ∀ q, t.importedPlace? dir e.tag = some q → t.Grounded dir q := by
  induction h with
  | nil => simp
  | cons target found opened inner made rest ihInner ihRest =>
    rw [List.forall_mem_cons]
    refine ⟨fun q hq => ?_, ihRest⟩
    rw [importedPlace?_of_importTarget target, found] at hq
    cases hq
    exact grounded_of_tags opened ihInner

theorem FileTree.Makes.grounded {d : Definition} (h : t.Makes dir place d) :
    t.Grounded dir place := by
  obtain ⟨source, imports, ho, hr, -⟩ := h
  exact grounded_of_tags ho hr.grounded

theorem FileTree.Grounded.reaches {q : Place} (h : t.Grounded dir place)
    (hq : ReflTransGen (t.HasImport dir) place q) : t.Grounded dir q := by
  induction hq with
  | refl => exact h
  | tail _ hs ih => exact ih.inv hs

theorem FileTree.Grounded.irrefl (h : t.Grounded dir place) :
    ¬ TransGen (t.HasImport dir) place place := by
  induction h with
  | intro p _ ih =>
    intro hc
    obtain ⟨q, hq, hb⟩ := TransGen.head'_iff.1 hc
    exact ih q hq (TransGen.tail' hb hq)

end ComponentMarkup
