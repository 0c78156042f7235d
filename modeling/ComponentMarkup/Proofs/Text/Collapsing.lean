import ComponentMarkup.Markup.Render
import ComponentMarkup.Proofs.Text.Runs
import Mathlib

set_option autoImplicit false

namespace ComponentMarkup

def singleSpaced (s : List Char) : List Char :=
  (s.splitBy fun c d => isBlank c == isBlank d).flatMap fun run =>
    if allBlank run then [' '] else run

structure Collapsed (s : List Char) : Prop where
  apart : s.IsChain fun c d => ¬(isBlank c = true ∧ isBlank d = true)
  space : ∀ c ∈ s, isBlank c = true → c = ' '

theorem isBlank_space : isBlank ' ' = true := by decide

variable {a b s : List Char}

theorem collapsed_nil : Collapsed [] := ⟨.nil, nofun⟩

theorem collapsed_cons {c : Char} (hc : isBlank c = true → c = ' ' ∧ StopsAt isBlank s)
    (hs : Collapsed s) : Collapsed (c :: s) := by
  refine ⟨List.isChain_cons.2 ⟨fun d hd hcd => ?_, hs.apart⟩,
    List.forall_mem_cons.2 ⟨fun h => (hc h).1, hs.space⟩⟩
  have hstop := (hc hcd.1).2 d hd
  rw [hcd.2] at hstop
  cases hstop

theorem Collapsed.tail {c : Char} (h : Collapsed (c :: s)) : Collapsed s :=
  ⟨h.apart.tail, fun d hd => h.space d (List.mem_cons_of_mem c hd)⟩

theorem Collapsed.stopsAt {c : Char} (h : Collapsed (c :: s)) (hc : isBlank c = true) :
    StopsAt isBlank s := by
  intro d hd
  have hcd := (List.isChain_cons.1 h.apart).1 d hd
  simpa [hc] using hcd

/-- Blanks of the first text do not go on in the second. -/
def Apart (a b : List Char) : Prop :=
  ∀ c ∈ a.getLast?, ∀ d ∈ b.head?, ¬(isBlank c = true ∧ isBlank d = true)

theorem Collapsed.append (ha : Collapsed a) (hb : Collapsed b) (hab : Apart a b) :
    Collapsed (a ++ b) := by
  refine ⟨List.isChain_append.2 ⟨ha.apart, hb.apart, hab⟩, fun c hc => ?_⟩
  rcases List.mem_append.1 hc with hc | hc
  · exact ha.space c hc
  · exact hb.space c hc

theorem collapsed_collapseFrom (inBlanks : Bool) (s : List Char) :
    Collapsed (collapseFrom inBlanks s) ∧
      (inBlanks = true → StopsAt isBlank (collapseFrom inBlanks s)) := by
  induction s generalizing inBlanks with
  | nil => exact ⟨collapsed_nil, fun _ => stopsAt_nil⟩
  | cons c s ih =>
    unfold collapseFrom
    by_cases hc : isBlank c = true
    · cases inBlanks with
      | true => simpa [hc] using ih true
      | false =>
        rw [if_pos hc, if_neg Bool.false_ne_true]
        exact ⟨collapsed_cons (fun _ => ⟨rfl, (ih true).2 rfl⟩) (ih true).1, nofun⟩
    · rw [if_neg hc]
      exact ⟨collapsed_cons (absurd · hc) (ih false).1, fun _ => stopsAt_cons.2 (by simpa using hc)⟩

theorem collapsed_collapseBlanks (s : List Char) : Collapsed (collapseBlanks s) :=
  (collapsed_collapseFrom false s).1

theorem Collapsed.collapseFrom_eq (h : Collapsed s) {inBlanks : Bool}
    (hi : inBlanks = true → StopsAt isBlank s) : collapseFrom inBlanks s = s := by
  induction s generalizing inBlanks with
  | nil => rfl
  | cons c s ih =>
    unfold collapseFrom
    by_cases hc : isBlank c = true
    · have hfirst : ¬inBlanks = true := fun h => by simpa [hc] using hi h
      rw [if_pos hc, if_neg hfirst, ih h.tail fun _ => h.stopsAt hc,
        h.space c List.mem_cons_self hc]
    · rw [if_neg hc, ih h.tail (absurd · Bool.false_ne_true)]

theorem Collapsed.collapseBlanks_eq (h : Collapsed s) : collapseBlanks s = s :=
  h.collapseFrom_eq (absurd · Bool.false_ne_true)

theorem collapseFrom_of_stopsAt (inBlanks : Bool) (h : StopsAt isBlank s) :
    collapseFrom inBlanks s = collapseFrom false s := by
  cases s with
  | nil => rfl
  | cons c s =>
    have hc : ¬isBlank c = true := by simpa using h
    rw [collapseFrom, if_neg hc, collapseFrom, if_neg hc]

theorem collapseFrom_append (inBlanks : Bool) (a b : List Char) :
    collapseFrom inBlanks (a ++ b) =
      collapseFrom inBlanks a ++ collapseFrom (a.foldl (fun _ c => isBlank c) inBlanks) b := by
  induction a generalizing inBlanks with
  | nil => rfl
  | cons c a ih =>
    simp only [List.cons_append, collapseFrom, List.foldl_cons]
    by_cases hc : isBlank c = true
    · cases inBlanks <;> simp [hc, ih]
    · simp [hc, ih]

theorem collapseBlanks_append (hab : Apart a b) :
    collapseBlanks (a ++ b) = collapseBlanks a ++ collapseBlanks b := by
  rw [collapseBlanks, collapseFrom_append]
  rcases a.eq_nil_or_concat with rfl | ⟨a, c, rfl⟩
  · rfl
  · rw [List.concat_eq_append] at hab ⊢
    have hlast : (a ++ [c]).foldl (fun _ c => isBlank c) false = isBlank c := by simp
    rw [hlast]
    cases hc : isBlank c with
    | false => rfl
    | true =>
      have hb : StopsAt isBlank b := fun d hd => by
        simpa [hc] using hab c (by simp) d hd
      rw [collapseFrom_of_stopsAt true hb]
      rfl

theorem collapseFrom_blanks (h : ∀ c ∈ s, isBlank c = true) : collapseFrom true s = [] := by
  induction s with
  | nil => rfl
  | cons c s ih =>
    obtain ⟨hc, hs⟩ := List.forall_mem_cons.1 h
    rw [collapseFrom, if_pos hc, if_pos rfl, ih hs]

theorem collapsed_of_noBlank (h : ∀ c ∈ s, isBlank c = false) : Collapsed s := by
  induction s with
  | nil => exact collapsed_nil
  | cons c s ih =>
    obtain ⟨hc, hs⟩ := List.forall_mem_cons.1 h
    exact collapsed_cons (by simp [hc]) (ih hs)

theorem infix_collapseFrom {v : List Char} (hv : ∀ c ∈ v, isBlank c = false) (h : v <:+: s)
    (inBlanks : Bool) : v <:+: collapseFrom inBlanks s := by
  obtain ⟨a, b, rfl⟩ := h
  have hkept : ∀ inBlanks, collapseFrom inBlanks v = v := fun _ =>
    (collapsed_of_noBlank hv).collapseFrom_eq fun _ c hc => hv c (List.mem_of_mem_head? hc)
  rw [collapseFrom_append, collapseFrom_append, hkept]
  exact List.infix_append _ _ _

theorem toLower_of_isBlank {c : Char} (h : isBlank c = true) : c.toLower = c := by
  have hall : blanks.all (!·.isUpper) = true := by decide
  have hc : c ∈ blanks := by simpa [isBlank] using h
  exact Char.toLower_eq_of_not_isUpper (by simpa using List.all_eq_true.1 hall c hc)

theorem infix_lowerAscii_collapseBlanks {w : List Char} (hw : ∀ c ∈ w, isBlank c = false)
    (h : w <:+: lowerAscii s) : w <:+: lowerAscii (collapseBlanks s) := by
  obtain ⟨v, hv, rfl⟩ := List.infix_map_iff.1 h
  have hnone : ∀ c ∈ v, isBlank c = false := by
    intro c hc
    rw [Bool.eq_false_iff]
    intro hblank
    have hlower := hw _ (List.mem_map_of_mem hc)
    rw [toLower_of_isBlank hblank, hblank] at hlower
    cases hlower
  exact (infix_collapseFrom hnone hv false).map Char.toLower

theorem collapseBlanks_run {run : List Char} (hne : run ≠ [])
    (hrun : run.IsChain fun c d => (isBlank c == isBlank d) = true) :
    collapseBlanks run = if allBlank run then [' '] else run := by
  obtain ⟨c, cs, rfl⟩ := List.exists_cons_of_ne_nil hne
  have hsame : ∀ d ∈ cs, isBlank d = isBlank c := by
    have hpairs : (c :: cs).Pairwise fun c d => isBlank c = isBlank d :=
      (hrun.imp fun c d h => by simpa using h).pairwise
    exact fun d hd => ((List.pairwise_cons.1 hpairs).1 d hd).symm
  cases hc : isBlank c with
  | true =>
    rw [hc] at hsame
    have hall : allBlank (c :: cs) = true := List.all_eq_true.2 (List.forall_mem_cons.2 ⟨hc, hsame⟩)
    rw [if_pos hall, collapseBlanks, collapseFrom, if_pos hc, if_neg Bool.false_ne_true,
      collapseFrom_blanks hsame]
  | false =>
    rw [hc] at hsame
    have hsome : ¬allBlank (c :: cs) = true := by simp [allBlank, hc]
    rw [if_neg hsome]
    exact (collapsed_of_noBlank (List.forall_mem_cons.2 ⟨hc, hsame⟩)).collapseBlanks_eq

theorem collapseBlanks_flatten {runs : List (List Char)} (hne : [] ∉ runs)
    (hrun : ∀ run ∈ runs, run.IsChain fun c d => (isBlank c == isBlank d) = true)
    (hbreak : runs.IsChain fun a b =>
      ∃ ha hb, (isBlank (a.getLast ha) == isBlank (b.head hb)) = false) :
    collapseBlanks runs.flatten = runs.flatMap fun run => if allBlank run then [' '] else run := by
  induction runs with
  | nil => rfl
  | cons run runs ih =>
    obtain ⟨hrun', hruns⟩ := List.forall_mem_cons.1 hrun
    rw [List.mem_cons, not_or] at hne
    have hapart : Apart run runs.flatten := by
      intro c hc d hd
      cases runs with
      | nil => cases hd
      | cons next runs =>
        obtain ⟨hl, hh, hdiffer⟩ := (List.isChain_cons_cons.1 hbreak).1
        rw [List.flatten_cons, List.head?_append_of_ne_nil _ hh] at hd
        rw [List.getLast_of_mem_getLast? hc, List.head_of_mem_head? hd] at hdiffer
        rintro ⟨hcb, hdb⟩
        rw [hcb, hdb] at hdiffer
        cases hdiffer
    rw [List.flatten_cons, collapseBlanks_append hapart, collapseBlanks_run (Ne.symm hne.1) hrun',
      ih hne.2 hruns hbreak.tail, List.flatMap_cons]

theorem collapseBlanks_eq_singleSpaced (s : List Char) : collapseBlanks s = singleSpaced s := by
  have h := collapseBlanks_flatten
    (List.nil_notMem_splitBy (fun c d => isBlank c == isBlank d) s)
    (fun _ => List.isChain_of_mem_splitBy)
    (List.isChain_getLast_head_splitBy (fun c d => isBlank c == isBlank d) s)
  rwa [List.flatten_splitBy] at h

example : singleSpaced "a \t\u00a0b  ".toList = "a b ".toList := by decide

theorem filter_collapseFrom (inBlanks : Bool) (s : List Char) :
    (collapseFrom inBlanks s).filter (!isBlank ·) = s.filter (!isBlank ·) := by
  induction s generalizing inBlanks with
  | nil => rfl
  | cons c s ih =>
    unfold collapseFrom
    by_cases hc : isBlank c = true
    · cases inBlanks <;> simp [hc, isBlank_space, ih]
    · simp [hc, ih]

theorem allBlank_iff_filter : allBlank s = true ↔ s.filter (!isBlank ·) = [] := by
  simp [allBlank]

@[simp] theorem allBlank_collapseBlanks (s : List Char) :
    allBlank (collapseBlanks s) = allBlank s := by
  rw [Bool.eq_iff_iff, allBlank_iff_filter, allBlank_iff_filter, collapseBlanks,
    filter_collapseFrom]

@[simp] theorem collapseBlanks_eq_nil : collapseBlanks s = [] ↔ s = [] := by
  cases s with
  | nil => simp [collapseBlanks, collapseFrom]
  | cons c s =>
    unfold collapseBlanks collapseFrom
    by_cases hc : isBlank c = true
    · simp [hc]
    · simp [hc]

end ComponentMarkup
