import ComponentMarkup.Component.Parameter
import ComponentMarkup.Markup.Document
import ComponentMarkup.Markup.Render

set_option autoImplicit false

namespace ComponentMarkup

/-- A component. Without a template, a usage of it stands for nothing. -/
structure Definition where
  path : Path
  /-- The components known in the template, by alias, in the order of their imports. -/
  imports : List (List Char × Definition)
  template : Option Element
  parameters : List Parameter
  script : List Char
  stylesheet : List Char
  deriving Inhabited

abbrev Imports := List (List Char × Definition)

/-- Binds an alias; one that was bound before keeps its place in the order. -/
def Imports.insert (name : List Char) (d : Definition) : Imports → Imports
  | [] => [(name, d)]
  | (a, e) :: rest =>
    if a = name then (a, d) :: rest else (a, e) :: Imports.insert name d rest

def Imports.find? (imports : Imports) (name : List Char) : Option Definition := imports.lookup name

/-- What class names of the component's stylesheet begin with: the name of its file. -/
def Definition.stylePrefix (d : Definition) : List Char := d.path.fileStem

def Definition.globalClass (d : Definition) (localName : List Char) : List Char :=
  d.stylePrefix ++ localName

def Definition.hasParameter (d : Definition) (name : List Char) : Bool :=
  d.parameters.any (·.name == name)

structure Source where
  path : Path
  nodes : List Node

def Source.ofText (path : Path) (text : List Char) : Source := ⟨path, parse text⟩

def templateName : List Char := "template".toList

def styleNames : List (List Char) := ["style".toList]

def scriptNames : List (List Char) := ["script".toList, "scripts".toList]

def topLevelNames : List (List Char) :=
  templateName :: styleNames ++ scriptNames ++ ["import".toList]

def Source.checkTopLevel (s : Source) : Except CompileError Unit :=
  match (elements s.nodes).find? (!topLevelNames.contains ·.tag.name) with
  | some e => .error ((Cause.disallowedTopLevelTag e.tag.name).at s.path (some e.tag.line))
  | none => .ok ()

def Source.pickSingle (s : Source) (names : List (List Char)) :
    Except CompileError (Option Element) :=
  match (elements s.nodes).filter (names.contains ·.tag.name) with
  | [] => .ok none
  | [e] => .ok (some e)
  | e :: es => .error
      ((Cause.multipleTopLevelTags e.tag.name ((e :: es).map (·.tag.line))).at s.path none)

def childrenName : List Char := "children".toList

/-- Reads declarations in order; of those with one name the first counts. -/
def readDeclarations (found : List Parameter) : List (List Char) → Except Cause (List Parameter)
  | [] => .ok found
  | d :: ds =>
    let p := Parameter.ofDeclaration d
    if p.name = childrenName then .error .reservedArgument
    else readDeclarations (if found.any (·.name == p.name) then found else found ++ [p]) ds

def readParameters (template : Tag) (path : Path) : Except CompileError (List Parameter) :=
  match readDeclarations [] (words ((template.attr? "args".toList).getD [])) with
  | .ok ps => .ok ps
  | .error cause => .error (cause.at path (some template.line))

def Element.innerText (e : Element) : List Char := render false e.children

def Definition.ofSource (s : Source) (imports : Imports) : Except CompileError Definition := do
  s.checkTopLevel
  let template ← s.pickSingle [templateName]
  let parameters ← match template with
    | none => pure []
    | some t => readParameters t.tag s.path
  let script ← s.pickSingle scriptNames
  let style ← s.pickSingle styleNames
  return {
    path := s.path
    imports
    template
    parameters
    script := (script.map Element.innerText).getD []
    stylesheet := (style.map Element.innerText).getD [] }

theorem Definition.path_of_ofSource {s : Source} {imports : Imports} {d : Definition}
    (h : Definition.ofSource s imports = .ok d) : d.path = s.path := by
  simp only [ofSource, bind, Except.bind] at h
  repeat' split at h
  all_goals cases h
  all_goals rfl

end ComponentMarkup
