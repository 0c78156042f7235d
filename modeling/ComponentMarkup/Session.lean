import ComponentMarkup.Component.Expansion
import ComponentMarkup.Component.Loading

/-!
Sessions. A session keeps the components loaded so far and the number of the next identifier, so
that a component is read once and identifiers do not repeat. An error leaves behind what was loaded
and drawn before it.
-/

set_option autoImplicit false

namespace ComponentMarkup

structure CompileOptions where
  /-- What import paths are relative to. -/
  includeDir : Path
  minify : Bool
  deriving DecidableEq, Repr

def CompileOptions.standard : CompileOptions := ⟨⟨"./".toList⟩, false⟩

/-- The registry knows what import paths are relative to. -/
structure Session where
  minify : Bool
  registry : Registry
  /-- The number of the next identifier. -/
  next : Nat

def Session.start (options : CompileOptions) : Session :=
  ⟨options.minify, .empty options.includeDir, 0⟩

def Session.options (s : Session) : CompileOptions := ⟨s.registry.includeDir, s.minify⟩

def Session.reset (s : Session) : Session := { s with registry := s.registry.clear, next := 0 }

def Session.compileSource (s : Session) (t : FileTree) (source : Source) :
    Except CompileError (List Node) × Session :=
  let (nodes, tags) := takeElements importName source.nodes
  match (resolveImports t source.path tags [] ⟨s.registry, .start source.path⟩).1 with
  | (.error e, loading) => (.error e, { s with registry := loading.registry })
  | (.ok imports, loading) =>
    let (result, next) := (expand imports source.path nodes).run s.next
    (result, { s with registry := loading.registry, next })

def FileTree.loadSource (t : FileTree) (path : Path) : Except CompileError Source :=
  match t.locate path with
  | .error reason => .error (Cause.unreadable path reason).nowhere
  | .ok place =>
    match t.readAt place with
    | .error reason => .error (Cause.unreadable (.ofPlace place) reason).nowhere
    | .ok text => .ok (.ofText (.ofPlace place) text)

def Session.compileFile (s : Session) (t : FileTree) (path : Path) :
    Except CompileError (List Char) × Session :=
  match t.loadSource path with
  | .error e => (.error e, s)
  | .ok source =>
    let (result, s) := s.compileSource t source
    (result.map (render s.minify), s)

/-- Compiles a file in a session of its own. -/
def compileFile (options : CompileOptions) (t : FileTree) (path : Path) :
    Except CompileError (List Char) :=
  ((Session.start options).compileFile t path).1

def Session.components (s : Session) : List Definition := s.registry.definitions.map Prod.snd

/-- A stylesheet under a comment that names its file, or nothing where it is blank. -/
def Definition.styleEntry (dir : Path) (d : Definition) : List Char :=
  let css := trim d.stylesheet
  if css.isEmpty then []
  else "/* ".toList ++ dir.shownFrom d.path ++ " */\n".toList ++ css ++ ['\n']

def Session.bundleStylesheets (s : Session) (dir : Path) : List Char :=
  s.components.flatMap (Definition.styleEntry dir)

end ComponentMarkup
