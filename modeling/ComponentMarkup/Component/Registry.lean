import ComponentMarkup.Component.Definition

set_option autoImplicit false

namespace ComponentMarkup

structure Registry where
  /-- What import paths are relative to. -/
  includeDir : Path
  definitions : List (Path × Definition)

def Registry.empty (includeDir : Path) : Registry := ⟨includeDir, []⟩

def Registry.get? (r : Registry) (path : Path) : Option Definition :=
  (r.definitions.find? (·.1.same path)).map Prod.snd

def Registry.contains (r : Registry) (path : Path) : Bool := r.definitions.any (·.1.same path)

/-- Stores under a path; a path that was known keeps its place and its spelling. -/
def storeAt (path : Path) (d : Definition) : List (Path × Definition) → List (Path × Definition)
  | [] => [(path, d)]
  | (q, e) :: rest => if q.same path then (q, d) :: rest else (q, e) :: storeAt path d rest

def Registry.insert (r : Registry) (d : Definition) : Registry :=
  { r with definitions := storeAt d.path d r.definitions }

def Registry.clear (r : Registry) : Registry := { r with definitions := [] }

def Registry.resolvePath (r : Registry) (relative : List Char) : Path := r.includeDir.join ⟨relative⟩

/-- The files that are being loaded, each imported by the one before it. -/
structure Route where
  paths : List Path
  /-- No file is being loaded twice at a time. -/
  distinct : paths.Pairwise fun p q => p.same q = false := by simp

def Route.start (origin : Path) : Route := { paths := [origin] }

def Route.contains (r : Route) (path : Path) : Bool := r.paths.any (·.same path)

def Route.enter (r : Route) (path : Path) : Except CompileError Route :=
  if h : r.contains path then .error (Cause.importCycle (r.paths ++ [path])).nowhere
  else .ok {
    paths := r.paths ++ [path]
    distinct := List.pairwise_append.2 ⟨r.distinct, List.pairwise_singleton _ _, by
      intro p hp q hq
      rw [List.mem_singleton] at hq
      subst hq
      have := List.any_eq_false.1 (Bool.eq_false_iff.2 h) p hp
      simpa using this⟩ }

def Route.leave (r : Route) : Route :=
  { paths := r.paths.dropLast, distinct := r.distinct.sublist (List.dropLast_sublist _) }

end ComponentMarkup
