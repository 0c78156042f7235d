import ComponentMarkup.Component.Loading

set_option autoImplicit false

namespace ComponentMarkup

def Source.importTags (s : Source) : List Element := (takeElements importName s.nodes).2

def Source.withoutImports (s : Source) : Source :=
  { s with nodes := (takeElements importName s.nodes).1 }

def FileTree.openComponent (t : FileTree) (place : Place) : Except CompileError Source :=
  match t.readAt place with
  | .error reason => .error (Cause.unreadable (.ofPlace place) reason).nowhere
  | .ok text =>
    match (Source.ofText (.ofPlace place) text).checkTopLevel with
    | .error e => .error e
    | .ok () => .ok (.ofText (.ofPlace place) text)

theorem FileTree.openComponent_eq_ok {t : FileTree} {place : Place} {source : Source} :
    t.openComponent place = .ok source ↔
      ∃ text, t.readAt place = .ok text ∧ source = .ofText (.ofPlace place) text ∧
        source.checkTopLevel = .ok () := by
  unfold openComponent
  constructor
  · intro h
    split at h
    · cases h
    · rename_i text hr
      split at h
      · cases h
      · rename_i hc
        cases h
        exact ⟨text, hr, rfl, hc⟩
  · rintro ⟨text, hr, rfl, hc⟩
    simp only [hr, hc]

theorem resolveImports_nil (t : FileTree) (file : Path) (table : Imports) (s : Loading) :
    (resolveImports t file [] table s).1 = (.ok table, s) := by
  rw [resolveImports]

theorem resolveImports_cons (t : FileTree) (file : Path) (e : Element) (es : List Element)
    (table : Imports) (s : Loading) :
    (resolveImports t file (e :: es) table s).1 =
      match importTarget s.registry file table e.tag with
      | .error err => (.error err, s)
      | .ok (name, path) =>
        match (loadComponent t file e.tag.line path s).1 with
        | (.error err, s') => (.error err, s')
        | (.ok d, s') => (resolveImports t file es (table.insert name d) s').1 := by
  rw [resolveImports]
  cases importTarget s.registry file table e.tag with
  | error err => rfl
  | ok target =>
    obtain ⟨name, path⟩ := target
    dsimp only
    obtain ⟨⟨_ | d, s'⟩, h⟩ := loadComponent t file e.tag.line path s
    · rfl
    · rfl

theorem resolveImports_cons_eq_ok {t : FileTree} {file : Path} {e : Element} {es : List Element}
    {table table' : Imports} {s s' : Loading} :
    (resolveImports t file (e :: es) table s).1 = (.ok table', s') ↔ ∃ name path d s₁,
      importTarget s.registry file table e.tag = .ok (name, path) ∧
      (loadComponent t file e.tag.line path s).1 = (.ok d, s₁) ∧
      (resolveImports t file es (table.insert name d) s₁).1 = (.ok table', s') := by
  rw [resolveImports_cons]
  cases importTarget s.registry file table e.tag with
  | error err => simp
  | ok target =>
    obtain ⟨name, path⟩ := target
    constructor
    · intro h
      rcases hl : (loadComponent t file e.tag.line path s).1 with ⟨_ | d, s₁⟩
      · simp only [hl] at h
        cases h
      · simp only [hl] at h
        exact ⟨name, path, d, s₁, rfl, hl, h⟩
    · rintro ⟨_, _, d, s₁, ⟨⟩, hl, h⟩
      simp only [hl]
      exact h

def enterComponent (t : FileTree) (place : Place) (route : Route) (s : Loading) :
    Except CompileError Definition × Loading :=
  match t.openComponent place with
  | .error e => (.error e, s)
  | .ok source =>
    match (resolveImports t source.path source.importTags [] { s with route }).1 with
    | (.error e, s') => (.error e, s'.leave)
    | (.ok imports, s') =>
      match Definition.ofSource source.withoutImports imports with
      | .error e => (.error e, s'.leave)
      | .ok d => (.ok d, { s'.leave with registry := s'.registry.insert d })

theorem loadComponent_eq (t : FileTree) (importer : Path) (line : Nat) (path : Path)
    (s : Loading) :
    (loadComponent t importer line path s).1 =
      match t.locate path with
      | .error reason => (.error ((importFailure path reason).at importer (some line)), s)
      | .ok place =>
        match s.route.enter (.ofPlace place) with
        | .error e => (.error (e.withLocation importer (some line)), s)
        | .ok route =>
          match s.registry.get? (.ofPlace place) with
          | some d => (.ok d, s)
          | none =>
            let r := enterComponent t place route s
            (r.1.mapError (·.withLocation importer (some line)), r.2) := by
  rw [loadComponent]
  unfold enterComponent FileTree.openComponent
  cases t.locate path with
  | error reason => rfl
  | ok place =>
    simp only
    split
    · rename_i he
      simp only [he]
    · rename_i route he
      simp only [he]
      cases s.registry.get? (.ofPlace place) with
      | some d => rfl
      | none =>
        simp only
        split
        · rename_i hr
          simp only [hr]
          rfl
        · rename_i text hr
          simp only [hr]
          cases (Source.ofText (.ofPlace place) text).checkTopLevel with
          | error e => rfl
          | ok _ =>
            simp only
            split
            · rename_i hi
              simp only [Source.importTags, hi]
              rfl
            · rename_i imports s' _ hi
              simp only [Source.importTags, Source.withoutImports, hi]
              cases Definition.ofSource { Source.ofText (.ofPlace place) text with
                nodes := (takeElements importName (Source.ofText (.ofPlace place) text).nodes).1 }
                imports with
              | error e => rfl
              | ok d => rfl

theorem path_of_enterComponent {t : FileTree} {place : Place} {route : Route} {s s' : Loading}
    {d : Definition}
    (h : enterComponent t place route s = (.ok d, s')) : d.path = .ofPlace place := by
  unfold enterComponent at h
  split at h
  · cases h
  · rename_i source hopen
    obtain ⟨text, -, rfl, -⟩ := FileTree.openComponent_eq_ok.1 hopen
    split at h
    · cases h
    · split at h
      · cases h
      · rename_i hm
        cases h
        exact Definition.path_of_ofSource hm

end ComponentMarkup
