import ComponentMarkup.Error
import ComponentMarkup.Markup.Node
import ComponentMarkup.Text.Blank
import ComponentMarkup.Text.Case

set_option autoImplicit false

namespace ComponentMarkup

structure Parameter where
  name : List Char
  optional : Bool
  /-- The value of the argument when a usage gives none. -/
  byDefault : Option (List Char)
  deriving DecidableEq, Repr

def Parameter.ofDeclaration : List Char → Parameter
  | '?' :: name => ⟨name, true, none⟩
  | name => ⟨name, false, none⟩

def Parameter.placeholder (p : Parameter) : List Char := '$' :: p.name

structure Argument where
  parameter : Parameter
  value : Option (List Char)
  deriving DecidableEq, Repr

/-- The first attribute with the parameter's name counts; one without a value gives the empty
value. -/
def Argument.bind (tag : List Char) (p : Parameter) (attrs : List Attribute) :
    Except CompileError Argument :=
  match ((attrs.find? (·.name == p.name)).map Attribute.text).or p.byDefault with
  | some value => .ok ⟨p, some value⟩
  | none =>
    if p.optional then .ok ⟨p, none⟩ else .error (Cause.missingArgument tag p.name).nowhere

/-- A character that continues a name: a token is never found inside of a longer name. -/
def isNameChar (c : Char) : Bool := c.isAlphanum || c == '_' || c == '-'

def startsWithNameChar : List Char → Bool
  | [] => false
  | c :: _ => isNameChar c

def replaceToken (mark : Char) (name value : List Char) : List Char → List Char
  | [] => []
  | c :: cs =>
    if c = mark ∧ name.isPrefixOf cs then
      let rest := cs.drop name.length
      (if startsWithNameChar rest then mark :: name else value) ++ replaceToken mark name value rest
    else c :: replaceToken mark name value cs
termination_by s => s.length
decreasing_by
  · rw [List.length_drop, List.length_cons]
    omega
  · exact Nat.lt_succ_self _

/-- Replaces the argument's tokens in an attribute value. Without a value only `$` tokens go. -/
def Argument.substitute (a : Argument) (text : List Char) : List Char :=
  match a.value with
  | some value =>
    replaceToken '!' a.parameter.name value (replaceToken '$' a.parameter.name value text)
  | none => replaceToken '$' a.parameter.name [] text

def Argument.substituteText (a : Argument) (text : List Char) : List Char :=
  replaceToken '$' a.parameter.name (a.value.getD []) text

/-- An attribute named by a placeholder takes the argument's name and value, or goes with it; one
whose value turns out blank goes as well. -/
def substituteAttribute (arguments : List Argument) (attr : Attribute) : Option Attribute :=
  match arguments.find? (fun a => attr.name == a.parameter.placeholder) with
  | some a => a.value.map fun value =>
      ⟨a.parameter.name, if value.isEmpty then none else some value⟩
  | none =>
    match attr.value with
    | none => some attr
    | some value =>
      let value := arguments.foldl (fun value a => a.substitute value) value
      if allBlank value then none else some ⟨attr.name, some value⟩

/-- Puts arguments in the place of their tokens. A template without parameters stays as it is, blank
attributes included. -/
def substituteBody (arguments : List Argument) (body : List Node) : List Node :=
  if arguments.isEmpty then body
  else
    mapTexts (fun text => arguments.foldl (fun text a => a.substituteText text) text)
      (visitTags (fun tag (_ : Unit) =>
        ({ tag with attrs := tag.attrs.filterMap (substituteAttribute arguments) }, ())) body ()).1

def insertName (name : List Char) : List (List Char) → List (List Char)
  | [] => [name]
  | n :: ns =>
    if name = n then n :: ns else if name < n then name :: n :: ns else n :: insertName name ns

def sortNames (names : List (List Char)) : List (List Char) := names.foldr insertName []

def bindArguments (tag : List Char) (parameters : List Parameter) (attrs : List Attribute) :
    Except CompileError (List Argument) :=
  let extra := (attrs.map Attribute.name).filter fun n => !parameters.any (·.name == n)
  if extra.isEmpty then parameters.mapM (Argument.bind tag · attrs)
  else .error (Cause.extraArguments (sortNames extra)).nowhere

end ComponentMarkup
