import ComponentMarkup.Proofs.Files.PlacePath

set_option autoImplicit false

namespace ComponentMarkup

/-! ## Paths put together -/

theorem segments_append_slash (cs ds : List Char) :
    segments (cs ++ '/' :: ds) = segments cs ++ segments ds := by
  induction cs with
  | nil => exact segments_slash ds
  | cons c cs ih =>
    by_cases hc : c = '/'
    · subst hc
      rw [List.cons_append, segments_slash, segments_slash, ih, List.cons_append]
    · obtain ⟨s, ss, hs⟩ := List.exists_cons_of_ne_nil (segments_ne_nil cs)
      rw [hs, List.cons_append] at ih
      rw [List.cons_append, segments_char hc ih, segments_char hc hs, List.cons_append]

theorem isName_ne {s : List Char} (h : isName s = true) : s ≠ [] ∧ s ≠ ['.'] := by
  constructor <;> rintro rfl <;> revert h <;> decide

theorem Path.parts_of_segments {p q : Path} {more : List PathPart}
    (ha : q.isAbsolute = p.isAbsolute)
    (hh : (segments q.chars).head? = (segments p.chars).head?)
    (hs : (segments q.chars).filterMap PathPart.ofSegment =
      (segments p.chars).filterMap PathPart.ofSegment ++ more) : q.parts = p.parts ++ more := by
  unfold parts
  dsimp only
  rw [ha, hh, hs]
  split
  · rfl
  · split <;> rfl

theorem head?_segments_append (cs ds : List Char) :
    (segments (cs ++ '/' :: ds)).head? = (segments cs).head? := by
  obtain ⟨s, ss, hs⟩ := List.exists_cons_of_ne_nil (segments_ne_nil cs)
  rw [segments_append_slash, hs]
  rfl

theorem head?_concat_append (cs es : List Char) (c : Char) :
    (cs ++ [c] ++ es).head? = (cs ++ [c]).head? := by
  cases cs <;> rfl

theorem not_isAbsolute_of_isName {s : List Char} (hs : isName s = true) :
    (⟨s⟩ : Path).isAbsolute = false := by
  cases s with
  | nil => rfl
  | cons c s =>
    have hc : c ≠ '/' := fun h => not_mem_of_isName hs (h ▸ List.mem_cons_self)
    simpa [Path.isAbsolute] using hc

theorem Path.parts_join {p : Path} {s : List Char} (hs : isName s = true) :
    (p.join ⟨s⟩).parts = p.parts ++ [.name s] := by
  have hslash := not_mem_of_isName hs
  have hbody : [s].filterMap PathPart.ofSegment = [.name s] := by
    rw [List.filterMap_cons, ofSegment_of_isName hs, List.filterMap_nil]
  have hbehind : ∀ cs, (segments (cs ++ '/' :: s)).filterMap PathPart.ofSegment =
      (segments cs).filterMap PathPart.ofSegment ++ [.name s] := by
    intro cs
    rw [segments_append_slash, segments_name hslash, List.filterMap_append, hbody]
  rw [join, not_isAbsolute_of_isName hs, if_neg Bool.false_ne_true]
  obtain ⟨cs⟩ := p
  rcases List.eq_nil_or_concat cs with rfl | ⟨ds, d, rfl⟩
  · -- an empty path has no parts
    rw [if_pos (.inl rfl), parts]
    simp only [List.nil_append, not_isAbsolute_of_isName hs, segments_name hslash, hbody,
      List.head?_cons, Option.some.injEq, (isName_ne hs).2, if_false, Bool.false_eq_true]
    rfl
  · by_cases hd : d = '/'
    · subst hd
      rw [if_pos (.inr (by simp))]
      dsimp only
      rw [List.concat_eq_append]
      have hchars : ds ++ ['/'] ++ s = ds ++ '/' :: s := by simp
      refine parts_of_segments ?_ ?_ ?_
      · rw [isAbsolute, isAbsolute, head?_concat_append]
      · rw [hchars, head?_segments_append, head?_segments_append]
      · rw [hchars, hbehind, segments_append_slash ds [], List.filterMap_append]
        simp [segments, PathPart.ofSegment]
    · rw [if_neg (by simpa using hd)]
      dsimp only
      rw [List.concat_eq_append]
      refine parts_of_segments ?_ ?_ (hbehind _)
      · rw [isAbsolute, isAbsolute, head?_concat_append]
      · exact head?_segments_append _ _

theorem Path.parts_below {p : Path} {names : List (List Char)} (h : names.all isName = true) :
    (p.below names).parts = p.parts ++ names.map .name := by
  induction names generalizing p with
  | nil => simp [below]
  | cons s names ih =>
    simp only [List.all_cons, Bool.and_eq_true] at h
    have hrest := ih (p := p.join ⟨s⟩) h.2
    rw [parts_join h.1] at hrest
    simpa [below] using hrest

theorem Path.same_below {p : Path} {names names' : List (List Char)}
    (h : names.all isName = true) (h' : names'.all isName = true) :
    (p.below names).same (p.below names') = true ↔ names = names' := by
  rw [same, beq_iff_eq, parts_below h, parts_below h', List.append_cancel_left_eq]
  exact List.map_inj_right fun _ _ h => name_injective h

/-! ## Paths taken apart -/

def PathPart.isInner : PathPart → Bool
  | .up => true
  | .name s => isName s
  | .root | .here => false

theorem ofSegment_eq_some {s : List Char} {a : PathPart} (hs : '/' ∉ s)
    (h : PathPart.ofSegment s = some a) : a.isInner = true ∧ a.chars = s := by
  unfold PathPart.ofSegment at h
  split at h
  · cases h
  · rename_i hdot
    split at h
    · rename_i hup
      cases h
      exact ⟨rfl, hup.symm⟩
    · rename_i hup
      cases h
      exact ⟨isName_of_segment hs hdot hup, rfl⟩

theorem ofSegment_chars {a : PathPart} (h : a.isInner = true) :
    PathPart.ofSegment a.chars = some a ∧ '/' ∉ a.chars ∧ a.chars ≠ ['.'] := by
  cases a with
  | root | here => cases h
  | up => decide
  | name s => exact ⟨ofSegment_of_isName h, not_mem_of_isName h, (isName_ne h).2⟩

theorem filterMap_chars {body : List PathPart} (h : ∀ a ∈ body, a.isInner = true) :
    (body.map PathPart.chars).filterMap PathPart.ofSegment = body := by
  induction body with
  | nil => rfl
  | cons a body ih =>
    rw [List.map_cons, List.filterMap_cons, (ofSegment_chars (h a List.mem_cons_self)).1,
      ih fun b hb => h b (List.mem_cons_of_mem _ hb)]

theorem segments_intercalate {ss : List (List Char)} (hne : ss ≠ []) (h : ∀ s ∈ ss, '/' ∉ s) :
    segments (['/'].intercalate ss) = ss := by
  induction ss with
  | nil => exact absurd rfl hne
  | cons s ss ih =>
    have hs := h s List.mem_cons_self
    cases ss with
    | nil => simpa using segments_name hs
    | cons s' ss =>
      rw [List.intercalate_cons_cons, List.append_assoc, List.singleton_append,
        segments_name_slash hs, ih (by simp) fun t ht => h t (List.mem_cons_of_mem _ ht)]

theorem Path.exists_parts (p : Path) : ∃ lead body, p.parts = lead ++ body ∧
    (lead = [] ∨ lead = [.root] ∨ lead = [.here]) ∧ ∀ a ∈ body, a.isInner = true := by
  have hbody : ∀ a ∈ (segments p.chars).filterMap PathPart.ofSegment, a.isInner = true := by
    intro a ha
    obtain ⟨s, hs, hsome⟩ := List.mem_filterMap.1 ha
    exact (ofSegment_eq_some (not_slash_of_mem_segments hs) hsome).1
  unfold parts
  dsimp only
  split
  · exact ⟨[.root], _, rfl, .inr (.inl rfl), hbody⟩
  · split
    · exact ⟨[.here], _, rfl, .inr (.inr rfl), hbody⟩
    · exact ⟨[], _, rfl, .inl rfl, hbody⟩

theorem Path.parts_relative {p : Path} {s : List Char} {ss : List (List Char)}
    (h : segments p.chars = s :: ss) (hs : s ≠ []) :
    p.parts = (if s = ['.'] then [.here] else []) ++ (s :: ss).filterMap PathPart.ofSegment := by
  have hrel : p.isAbsolute = false := by
    obtain ⟨cs⟩ := p
    cases cs with
    | nil => rfl
    | cons c cs =>
      have hc : c ≠ '/' := by
        rintro rfl
        rw [segments_slash] at h
        exact hs (List.cons.inj h).1.symm
      simpa [isAbsolute] using hc
  rw [parts, hrel, h]
  by_cases hdot : s = ['.'] <;> simp [hdot]

theorem Path.parts_root {p : Path} {body : List PathPart} (h : p.parts = .root :: body) :
    p.isAbsolute = true ∧ (segments p.chars).filterMap PathPart.ofSegment = body := by
  unfold parts at h
  dsimp only at h
  split at h
  · rename_i habs
    exact ⟨habs, (List.cons.inj h).2⟩
  · split at h
    · cases h
    · have hmem : PathPart.root ∈ (segments p.chars).filterMap PathPart.ofSegment :=
        h ▸ List.mem_cons_self
      obtain ⟨s, hs, hsome⟩ := List.mem_filterMap.1 hmem
      cases (ofSegment_eq_some (not_slash_of_mem_segments hs) hsome).1

theorem Path.parts_ofParts {lead body : List PathPart}
    (hlead : lead = [] ∨ lead = [.root] ∨ lead = [.here]) (hbody : ∀ a ∈ body, a.isInner = true) :
    (ofParts (lead ++ body)).parts = lead ++ body := by
  cases body with
  | nil => rcases hlead with rfl | rfl | rfl <;> decide
  | cons a body =>
    have hinner := filterMap_chars hbody
    obtain ⟨hsome, -, hdot⟩ := ofSegment_chars (hbody a List.mem_cons_self)
    have hempty : a.chars ≠ [] := fun h => by simp [h, PathPart.ofSegment] at hsome
    have hslash : ∀ s ∈ (a :: body).map PathPart.chars, '/' ∉ s := by
      intro s hs
      obtain ⟨a, ha, rfl⟩ := List.mem_map.1 hs
      exact (ofSegment_chars (hbody a ha)).2.1
    -- one text for each beginning, with the segments that it is made of
    rcases hlead with rfl | rfl | rfl
    · have hpath : ofParts (a :: body) = ⟨['/'].intercalate ((a :: body).map PathPart.chars)⟩ := by
        cases a with
        | root | here => exact absurd (hbody _ List.mem_cons_self) Bool.false_ne_true
        | up | name => rfl
      have hparts := parts_relative (p := ofParts (a :: body))
        (by rw [hpath]; exact segments_intercalate (by simp) hslash) hempty
      rwa [if_neg hdot, ← List.map_cons, hinner] at hparts
    · have hseg : segments (ofParts (.root :: a :: body)).chars =
          [] :: (a :: body).map PathPart.chars :=
        segments_intercalate (by simp) (List.forall_mem_cons.2 ⟨List.not_mem_nil, hslash⟩)
      have habs : (ofParts (.root :: a :: body)).isAbsolute = true := by
        simp [ofParts, isAbsolute, PathPart.chars, List.intercalate_cons_cons]
      change (ofParts (.root :: a :: body)).parts = _
      rw [parts, habs, hseg, List.filterMap_cons_none (by decide), hinner]
      rfl
    · have hparts := parts_relative (p := ofParts (.here :: a :: body)) (s := ['.'])
        (segments_intercalate (by simp) (List.forall_mem_cons.2 ⟨by decide, hslash⟩)) (by decide)
      rwa [if_pos rfl, List.filterMap_cons_none (by decide), hinner] at hparts

theorem Path.parts_parent {p parent : Path} {s : List Char} (hparent : p.parent? = some parent)
    (hname : p.fileName? = some s) : p.parts = parent.parts ++ [.name s] ∧ isName s = true := by
  obtain ⟨lead, body, hparts, hlead, hbody⟩ := p.exists_parts
  have hlast : p.parts.getLast? = some (.name s) := by
    unfold fileName? at hname
    split at hname
    · rename_i h
      rwa [Option.some.inj hname] at h
    · cases hname
  obtain rfl : parent = ofParts p.parts.dropLast := by
    unfold parent? at hparent
    rw [hlast] at hparent
    exact (Option.some.inj hparent).symm
  rcases List.eq_nil_or_concat body with rfl | ⟨inner, a, rfl⟩
  · rw [hparts] at hlast
    rcases hlead with rfl | rfl | rfl <;> simp at hlast
  · rw [List.concat_eq_append, ← List.append_assoc] at hparts
    rw [hparts, List.getLast?_concat] at hlast
    obtain rfl := Option.some.inj hlast
    rw [List.concat_eq_append, List.forall_mem_append] at hbody
    refine ⟨?_, hbody.2 _ List.mem_cons_self⟩
    rw [hparts, List.dropLast_concat, parts_ofParts hlead hbody.1]

/-! ## The place of a path -/

def Place.step (place : Place) : PathPart → Place
  | .root => []
  | .here => place
  | .up => place.dropLast
  | .name s => place ++ [s]

theorem FileTree.placeOf_eq (t : FileTree) (p : Path) :
    t.placeOf p = p.parts.foldl Place.step t.workDir := rfl

theorem foldl_step_names (place : Place) (names : List (List Char)) :
    (names.map PathPart.name).foldl Place.step place = place ++ names := by
  induction names generalizing place with
  | nil => simp
  | cons s names ih =>
    rw [List.map_cons, List.foldl_cons, ih]
    simp [Place.step]

theorem FileTree.placeOf_of_parts (t : FileTree) {p : Path} {place : Place}
    (h : p.parts = .root :: place.map .name) : t.placeOf p = place := by
  rw [placeOf_eq, h, List.foldl_cons]
  exact foldl_step_names [] place

end ComponentMarkup
