import ComponentMarkup.Component.Definition
import ComponentMarkup.Component.Identifier

/-!
Expansion: every usage of a component is replaced by what it stands for. A usage's children are
expanded where they are written, the template's body with the component's own imports.
-/

set_option autoImplicit false

namespace ComponentMarkup

/-- A computation that draws identifiers by number and may fail. What was drawn stays drawn when it
fails. -/
abbrev Expansion := ExceptT CompileError (StateM Nat)

/-- Errors that arise in here belong to this line, unless they have a place already. -/
def Expansion.locate {α : Type} (file : Path) (line : Nat) (x : Expansion α) : Expansion α :=
  tryCatch x fun e => throw (e.withLocation file (some line))

def Expansion.identify (body : List Node) : Expansion (List Node) :=
  ExceptT.lift (modifyGet (identifyBody body))

def childrenSlot : List Char := '$' :: childrenName

mutual

def Node.fillSlots (children : List Node) : Node → List Node
  | .element tag inner => [.element tag (fillSlots children inner)]
  | .text chars => if trim chars = childrenSlot then children else [.text chars]
  | n@(.comment _) | n@(.doctype _) => [n]

def fillSlots (children : List Node) : List Node → List Node
  | [] => []
  | n :: ns => n.fillSlots children ++ fillSlots children ns

end

/-- Attributes as a usage gives them: their names do not depend on case. -/
def usageAttributes (tag : Tag) : List Attribute :=
  tag.attrs.map fun a => { a with name := lowerAscii a.name }

def Definition.instantiate (d : Definition) (template : Element) (tag : Tag) :
    Except CompileError (List Node) := do
  let arguments ← bindArguments tag.name d.parameters (usageAttributes tag)
  return substituteBody arguments template.children

theorem Definition.sizeOf_imports_lt {name : List Char} {imports : Imports} {d : Definition}
    (h : imports.find? name = some d) : sizeOf d.imports < sizeOf imports := by
  have hm : ∃ a, (a, d) ∈ imports := by
    unfold Imports.find? at h
    induction imports with
    | nil => cases h
    | cons p ps ih =>
      obtain ⟨a, e⟩ := p
      rw [List.lookup_cons] at h
      split at h
      · cases h; exact ⟨a, List.mem_cons_self⟩
      · obtain ⟨b, hb⟩ := ih h
        exact ⟨b, List.mem_cons_of_mem _ hb⟩
  obtain ⟨a, hm⟩ := hm
  have := List.sizeOf_lt_of_mem hm
  cases d
  simp at this ⊢
  omega

def expand (imports : Imports) (file : Path) : List Node → Expansion (List Node)
  | [] => pure []
  | .element tag children :: rest => do
    let output ← match h : imports.find? tag.name with
      | none => do
        let children ← expand imports file children
        pure [.element tag children]
      | some d => Expansion.locate file tag.line do
        let children ← expand imports file children
        match d.template with
        | none => pure []
        | some template =>
          have := Definition.sizeOf_imports_lt h
          let body ← ExceptT.mk (pure (d.instantiate template tag))
          let body ← Expansion.identify body
          let body ← expand d.imports d.path body
          return fillSlots children body
    let rest ← expand imports file rest
    return output ++ rest
  | n :: rest => do
    let rest ← expand imports file rest
    return n :: rest
termination_by nodes => (sizeOf imports, sizeOf nodes)

end ComponentMarkup
