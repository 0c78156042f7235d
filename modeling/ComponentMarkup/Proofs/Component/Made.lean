import ComponentMarkup.Component.Definition

set_option autoImplicit false

namespace ComponentMarkup

/-- A component takes its template and its parameters from its file, and has the imports that were
resolved for it. -/
structure Definition.MadeFrom (d : Definition) (s : Source) (imports : Imports) : Prop where
  path : d.path = s.path
  imports : d.imports = imports
  template : s.pickSingle [templateName] = .ok d.template
  parameters : match d.template with
    | none => d.parameters = []
    | some t => readParameters t.tag s.path = .ok d.parameters

theorem Definition.madeFrom_of_ofSource {s : Source} {imports : Imports} {d : Definition}
    (h : Definition.ofSource s imports = .ok d) : d.MadeFrom s imports := by
  unfold ofSource at h
  simp only [bind, Except.bind] at h
  split at h
  · cases h
  split at h
  · cases h
  rename_i template ht
  cases template with
  | none =>
    simp only [pure, Except.pure] at h
    split at h
    · cases h
    split at h
    · cases h
    cases h
    exact ⟨rfl, rfl, ht, rfl⟩
  | some t =>
    simp only [pure, Except.pure] at h
    split at h
    · cases h
    rename_i ps hps
    split at h
    · cases h
    split at h
    · cases h
    cases h
    exact ⟨rfl, rfl, ht, hps⟩

theorem Definition.exists_declarations {s : Source} {imports : Imports} {d : Definition}
    (h : Definition.ofSource s imports = .ok d) :
    ∃ declarations, readDeclarations [] declarations = .ok d.parameters := by
  have hp := (Definition.madeFrom_of_ofSource h).parameters
  split at hp
  · exact ⟨[], by rw [hp]; rfl⟩
  · rename_i t _
    unfold readParameters at hp
    split at hp
    · rename_i ps hr
      cases hp
      exact ⟨_, hr⟩
    · cases hp

theorem of_readDeclarations {declarations : List (List Char)} {found ps : List Parameter}
    (h : readDeclarations found declarations = .ok ps)
    (hf : ∀ p ∈ found, p.name ≠ childrenName ∧ p.byDefault = none) :
    ∀ p ∈ ps, p.name ≠ childrenName ∧ p.byDefault = none := by
  induction declarations generalizing found with
  | nil =>
    cases h
    exact hf
  | cons d ds ih =>
    rw [readDeclarations] at h
    split at h
    · cases h
    · rename_i hname
      refine ih h ?_
      split
      · exact hf
      · refine List.forall_mem_append.2 ⟨hf, List.forall_mem_singleton.2 ⟨hname, ?_⟩⟩
        unfold Parameter.ofDeclaration
        split <;> rfl

theorem Source.mem_of_pickSingle {s : Source} {names : List (List Char)} {e : Element}
    (h : s.pickSingle names = .ok (some e)) : e ∈ elements s.nodes ∧ e.tag.name ∈ names := by
  unfold pickSingle at h
  split at h
  · cases h
  · rename_i hf
    cases h
    have hm : e ∈ (elements s.nodes).filter (names.contains ·.tag.name) := by
      rw [hf]
      exact List.mem_singleton_self e
    obtain ⟨he, hn⟩ := List.mem_filter.1 hm
    exact ⟨he, by simpa using hn⟩
  · cases h

theorem Imports.mem_insert {table : Imports} {name : List Char} {d : Definition}
    {i : List Char × Definition} (h : i ∈ table.insert name d) : i.2 = d ∨ i ∈ table := by
  induction table with
  | nil =>
    rw [Imports.insert, List.mem_singleton] at h
    exact .inl (h ▸ rfl)
  | cons p table ih =>
    obtain ⟨a, e⟩ := p
    rw [Imports.insert] at h
    split at h
    · rcases List.mem_cons.1 h with rfl | h
      · exact .inl rfl
      · exact .inr (List.mem_cons_of_mem _ h)
    · rcases List.mem_cons.1 h with rfl | h
      · exact .inr List.mem_cons_self
      · exact (ih h).imp_right (List.mem_cons_of_mem _)

theorem Imports.find?_cons (a : List Char) (d : Definition) (table : Imports) (n : List Char) :
    Imports.find? ((a, d) :: table) n = if n = a then some d else table.find? n := by
  unfold Imports.find?
  rw [List.lookup_cons]
  by_cases h : n = a
  · simp [h]
  · rw [if_neg h, beq_false_of_ne h]

theorem Imports.find?_insert (table : Imports) (name : List Char) (d : Definition)
    (n : List Char) :
    (table.insert name d).find? n = if n = name then some d else table.find? n := by
  induction table with
  | nil => exact Imports.find?_cons name d [] n
  | cons p table ih =>
    obtain ⟨a, e⟩ := p
    by_cases ha : a = name
    · subst ha
      by_cases h : n = a <;> simp [Imports.insert, Imports.find?_cons, h]
    · by_cases h : n = a
      · subst h
        simp [Imports.insert, Imports.find?_cons, ha]
      · simp [Imports.insert, Imports.find?_cons, ha, h, ih]

theorem Imports.mem_of_find? {table : Imports} {name : List Char} {d : Definition}
    (h : table.find? name = some d) : (name, d) ∈ table := by
  induction table with
  | nil => cases h
  | cons p table ih =>
    obtain ⟨a, e⟩ := p
    rw [Imports.find?_cons] at h
    split at h
    · rename_i ha
      cases h
      exact ha ▸ List.mem_cons_self
    · exact List.mem_cons_of_mem _ (ih h)

end ComponentMarkup
