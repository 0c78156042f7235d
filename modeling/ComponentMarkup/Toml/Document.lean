import ComponentMarkup.Toml.Scalar

set_option autoImplicit false

namespace ComponentMarkup.Toml

/-- How many arrays and tables may stand in one another, and how many names a key may have, at most. -/
def nestingLimit : Nat := 79

def plainLines : List Char → List Char
  | '\r' :: '\n' :: r => '\n' :: plainLines r
  | c :: r => c :: plainLines r
  | [] => []

def skipGaps (inComment : Bool) : List Char → Option (List Char)
  | [] => some []
  | c :: r =>
    if c = '\n' then skipGaps false r
    else if inComment then if isPlain c then skipGaps true r else none
    else if isGap c then skipGaps false r
    else if c = '#' then skipGaps true r
    else some (c :: r)

def isBareName (c : Char) : Bool := c.isAlphanum || c = '_' || c = '-'

def readName (s : List Char) : Option (List Char × List Char) :=
  readLineText s <|>
    let name := s.takeWhile isBareName
    if name.isEmpty then none else some (name, s.dropWhile isBareName)

def readNames (s : List Char) : Option (Key × List Char) := do
  let (name, rest) ← readName (s.dropWhile isGap)
  match rest.dropWhile isGap with
  | '.' :: r =>
    if r.length < s.length then
      let (key, rest) ← readNames r
      some (⟨name :: key.path, key.name⟩, rest)
    else none
  | r => some (⟨[], name⟩, r)
termination_by s.length

def readKey (s : List Char) : Option (Key × List Char) := do
  let (key, rest) ← readNames s
  if key.path.length < nestingLimit then some (key, rest) else none

/-- The values of an array up to its closing bracket; the last may have a comma after it. -/
def readItems (value : List Char → Option (Value × List Char)) (s : List Char) :
    Option (List Value × List Char) := do
  match ← skipGaps false s with
  | ']' :: r => some ([], r)
  | r =>
    let (v, r) ← value r
    match ← skipGaps false r with
    | ']' :: r => some ([v], r)
    | ',' :: r =>
      if r.length < s.length then
        let (vs, rest) ← readItems value r
        some (v :: vs, rest)
      else none
    | _ => none
termination_by s.length

def readPair (value : List Char → Option (Value × List Char)) (s : List Char) :
    Option ((Key × Value) × List Char) := do
  let (key, r) ← readKey s
  let r ← expect '=' r
  let (v, r) ← value (r.dropWhile isGap)
  some ((key, v), r.dropWhile isGap)

def readPairs (value : List Char → Option (Value × List Char)) (s : List Char) :
    Option (List (Key × Value) × List Char) := do
  let (pair, r) ← readPair value s
  match r with
  | '}' :: r => some ([pair], r)
  | ',' :: r =>
    if r.length < s.length then
      let (pairs, rest) ← readPairs value r
      some (pair :: pairs, rest)
    else none
  | _ => none
termination_by s.length

/-- Either no pairs at all or some with commas between them, up to the closing brace. -/
def readBraces (value : List Char → Option (Value × List Char)) (s : List Char) :
    Option (Table × List Char) := do
  let (pairs, rest) ← match s.dropWhile isGap with
    | '}' :: r => some ([], r)
    | r => readPairs value r
  let table ← pairs.foldlM (fun t pair => Table.add t pair.1 pair.2) []
  some (table, rest)

def readValue (levels : Nat) (s : List Char) : Option (Value × List Char) :=
  match levels, s with
  | levels + 1, '[' :: r => (readItems (readValue levels) r).map fun (vs, r) => (.array vs, r)
  | levels + 1, '{' :: r => (readBraces (readValue levels) r).map fun (t, r) => (.table .braces t, r)
  | _, s => (readText s).map (fun (text, r) => (.text text, r)) <|> readScalar s

inductive Statement where
  | header (key : Key)
  | element (key : Key)
  | pair (key : Key) (v : Value)

def readStatement : List Char → Option (Statement × List Char)
  | '[' :: '[' :: s => do
    let (key, r) ← readKey s
    let r ← expect ']' r >>= expect ']'
    some (.element key, r)
  | '[' :: s => do
    let (key, r) ← readKey s
    let r ← expect ']' r
    some (.header key, r)
  | s => do
    let ((key, v), r) ← readPair (readValue nestingLimit) s
    some (.pair key v, r)

def endsLine : List Char → Bool
  | [] | '\n' :: _ | '#' :: _ => true
  | _ => false

def readStatements (s : List Char) : Option (List Statement) := do
  match ← skipGaps false s with
  | [] => some []
  | c :: t =>
    let (statement, r) ← readStatement (c :: t)
    if (r.dropWhile isGap).length < s.length ∧ endsLine (r.dropWhile isGap) then
      let statements ← readStatements (r.dropWhile isGap)
      some (statement :: statements)
    else none
termination_by s.length
decreasing_by simp_all

structure Draft where
  root : Table
  current : List (List Char)

def Draft.step (d : Draft) : Statement → Option Draft
  | .header key => do
    let root ← d.root.change false (Table.openHeader key.name) key.path
    some ⟨root, key.path ++ [key.name]⟩
  | .element key => do
    let root ← d.root.change false (Table.openElement key.name) key.path
    some ⟨root, key.path ++ [key.name]⟩
  | .pair key v => do
    let root ← d.root.change false (fun t => t.add key v) d.current
    some ⟨root, d.current⟩

/-- The table that a text holds; a byte order mark at its front does not count. -/
def parse (s : List Char) : Option Table := do
  let s := if s.head? = some '\ufeff' then s.tail else s
  let statements ← readStatements (plainLines s)
  let d ← statements.foldlM Draft.step ⟨[], []⟩
  some d.root

end ComponentMarkup.Toml
