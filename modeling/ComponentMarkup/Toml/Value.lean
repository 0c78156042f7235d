/-!
The values of a settings file. Tables keep their entries in the order of arrival and remember how
they came about, which decides what may be added to them later.
-/

set_option autoImplicit false

namespace ComponentMarkup.Toml

inductive Origin where
  /-- Named by a header of its own. -/
  | header
  /-- On the way to a table that a header names. -/
  | implied
  /-- On the way to a value under a dotted key. -/
  | dotted
  /-- Written between braces, which makes it complete. -/
  | braces
  deriving DecidableEq, Repr

inductive Value where
  | text (chars : List Char)
  | integer (n : Int)
  | float (f : Float)
  | boolean (b : Bool)
  /-- A date or a time or both. -/
  | moment (chars : List Char)
  | array (items : List Value)
  | table (origin : Origin) (entries : List (List Char × Value))
  /-- The tables of a header in double brackets, the latest first. -/
  | tables (elements : List (List (List Char × Value)))

abbrev Table := List (List Char × Value)

structure Key where
  path : List (List Char)
  name : List Char
  deriving DecidableEq, Repr

def Table.put (t : Table) (name : List Char) (v : Value) : Table :=
  if (t.lookup name).isSome then t.map fun e => if e.1 = name then (name, v) else e
  else t ++ [(name, v)]

/-- Whether a path may lead into a table: a header's path into each that can still grow, a dotted
key's path only into those that have no header of their own, and at its `last` step only into those
that dotted keys have made. -/
def Origin.admits (dotted last : Bool) : Origin → Bool
  | .header => !dotted
  | .implied => !(dotted && last)
  | .dotted => true
  | .braces => false

/-- Changes the table to which a path leads. Missing tables on the way are made, and of the tables of
one header the latest is meant. -/
def Table.change (dotted : Bool) (f : Table → Option Table) : List (List Char) → Table → Option Table
  | [], t => f t
  | name :: path, t =>
    match t.lookup name with
    | none => do
      let inner ← Table.change dotted f path []
      some (t.put name (.table (if dotted then .dotted else .implied) inner))
    | some (.table origin inner) => do
      if origin.admits dotted path.isEmpty then
        let inner ← Table.change dotted f path inner
        some (t.put name (.table origin inner))
      else none
    | some (.tables (latest :: earlier)) => do
      if dotted && path.isEmpty then none
      else
        let latest ← Table.change dotted f path latest
        some (t.put name (.tables (latest :: earlier)))
    | some _ => none

def Table.addNew (name : List Char) (v : Value) (t : Table) : Option Table :=
  if (t.lookup name).isSome then none else some (t ++ [(name, v)])

def Table.add (t : Table) (key : Key) (v : Value) : Option Table :=
  t.change true (Table.addNew key.name v) key.path

/-- The table of a header. One that was implied so far is now counted from here. -/
def Table.openHeader (name : List Char) (t : Table) : Option Table :=
  match t.lookup name with
  | some (.table .implied inner) =>
    some ((t.filter fun e => e.1 ≠ name) ++ [(name, .table .header inner)])
  | some _ => none
  | none => some (t ++ [(name, .table .header [])])

def Table.openElement (name : List Char) (t : Table) : Option Table :=
  match t.lookup name with
  | some (.tables elements) => some (t.put name (.tables ([] :: elements)))
  | some _ => none
  | none => some (t ++ [(name, .tables [[]])])

end ComponentMarkup.Toml
