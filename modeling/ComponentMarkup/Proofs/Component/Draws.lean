import ComponentMarkup.Proofs.Component.Numbering

/-!
Runs of draws: sites that share one counter, asked in any order. Main statement:
`Sharing.pairwise_drawEach`, two draws of a run give one identifier only if both ask one site for
one token.
-/

set_option autoImplicit false

namespace ComponentMarkup

inductive Draw where
  | fresh
  | token (site : Nat) (chars : List Char)
  deriving DecidableEq, Repr

/-- The sites, by number, that share one counter, and the number of its next identifier. -/
structure Sharing where
  site : Nat → Site
  next : Nat

def Sharing.start (next : Nat) : Sharing := ⟨fun _ => [], next⟩

def Sharing.draw (s : Sharing) : Draw → List Char × Sharing
  | .fresh => (identifier s.next, { s with next := s.next + 1 })
  | .token i chars =>
    let (id, d) := Drawing.identify chars ⟨s.site i, s.next⟩
    (id, ⟨fun j => if j = i then d.site else s.site j, d.next⟩)

def Sharing.drawEach (s : Sharing) : List Draw → List (Draw × List Char)
  | [] => []
  | d :: ds => (d, (s.draw d).1) :: (s.draw d).2.drawEach ds

def Sharing.known (s : Sharing) (p : Nat × List Char) : Option (List Char) :=
  (s.site p.1).lookup p.2

def Sharing.Apart (s : Sharing) : Prop := Numbered 0 s.next s.known

theorem Sharing.apart_start (next : Nat) : (Sharing.start next).Apart :=
  ⟨fun _ _ h => by simp [known, start] at h, fun _ _ _ h => by simp [known, start] at h⟩

namespace Sharing

variable {s : Sharing}

theorem known_draw_of_known {p : Nat × List Char} {id : List Char} (h : s.known p = some id)
    (d : Draw) : (s.draw d).2.known p = some id := by
  obtain ⟨j, u⟩ := p
  cases d with
  | fresh => exact h
  | token i t =>
    by_cases hj : j = i
    · subst hj
      simpa [draw, known] using Drawing.lookup_identify_of_known (d := ⟨s.site j, s.next⟩) h t
    · simpa [draw, known, hj] using h

theorem known_of_draw {p : Nat × List Char} {id : List Char} {d : Draw}
    (h : (s.draw d).2.known p = some id) :
    s.known p = some id ∨ (d = .token p.1 p.2 ∧ id = identifier s.next) := by
  obtain ⟨j, u⟩ := p
  cases d with
  | fresh => exact .inl h
  | token i t =>
    by_cases hj : j = i
    · subst hj
      have hl : (Drawing.identify t ⟨s.site j, s.next⟩).2.site.lookup u = some id := by
        simpa [draw, known] using h
      rcases Drawing.lookup_of_identify hl with hl | ⟨rfl, hid⟩
      · exact .inl hl
      · exact .inr ⟨rfl, hid⟩
    · exact .inl (by simpa [draw, known, hj] using h)

theorem known_draw_token (s : Sharing) (i : Nat) (t : List Char) :
    (s.draw (.token i t)).2.known (i, t) = some (s.draw (.token i t)).1 := by
  simpa [draw, known] using Drawing.lookup_identify ⟨s.site i, s.next⟩ t

theorem draw_of_known {i : Nat} {t id : List Char} (h : s.known (i, t) = some id) :
    s.draw (.token i t) = (id, s) := by
  have hs : (fun j => if j = i then s.site i else s.site j) = s.site := by
    funext j
    split
    · rename_i hj
      rw [hj]
    · rfl
  simp only [draw, Drawing.identify_known (d := ⟨s.site i, s.next⟩) h, hs]

theorem draw_of_unknown {i : Nat} {t : List Char} (h : s.known (i, t) = none) :
    (s.draw (.token i t)).1 = identifier s.next ∧
      (s.draw (.token i t)).2.next = s.next + 1 := by
  simp [draw, Drawing.identify_unknown (d := ⟨s.site i, s.next⟩) h]

theorem Apart.draw (h : s.Apart) (d : Draw) : (s.draw d).2.Apart := by
  cases d with
  | fresh => exact h.mono (Nat.le_succ s.next)
  | token i t =>
    cases hk : s.known (i, t) with
    | some id => rwa [draw_of_known hk]
    | none =>
      have hlearns : ∀ p id, (s.draw (.token i t)).2.known p = some id →
          s.known p = some id ∨ (p = (i, t) ∧ id = identifier s.next) := by
        intro p id hp
        rcases known_of_draw hp with hp | ⟨he, hid⟩
        · exact .inl hp
        · cases he
          exact .inr ⟨rfl, hid⟩
      have hadd := h.add (Nat.zero_le _) (i, t) hlearns
      rwa [Apart, (draw_of_unknown hk).2]

/-- The identifier of a token goes to the draws of this token at this site, and to no other draw. -/
theorem drawEach_known (ha : s.Apart) {i : Nat} {t id : List Char} (h : s.known (i, t) = some id)
    (ds : List Draw) : ∀ g ∈ s.drawEach ds, g.2 = id ↔ g.1 = .token i t := by
  -- along the run, what the site knows of the token stays as it is
  induction ds generalizing s with
  | nil => simp [drawEach]
  | cons d ds ih =>
    refine List.forall_mem_cons.2 ⟨?_, ih (ha.draw d) (known_draw_of_known h d)⟩
    have later : identifier s.next ≠ id := by
      rintro rfl
      exact ha.not_next (Nat.le_refl _) _ h
    cases d with
    | fresh => simpa [draw] using later
    | token j u =>
      cases hk : s.known (j, u) with
      | some known =>
        rw [draw_of_known hk]
        constructor
        · rintro rfl
          cases ha.single _ _ _ hk h
          rfl
        · intro he
          cases he
          exact Option.some.inj (hk.symm.trans h)
      | none =>
        rw [(draw_of_unknown hk).1]
        refine ⟨fun he => absurd he later, fun he => ?_⟩
        cases he
        rw [hk] at h
        cases h

/-- A number that has been drawn and whose identifier no site knows. -/
def Spent (s : Sharing) (n : Nat) : Prop := n < s.next ∧ ∀ p, s.known p ≠ some (identifier n)

theorem Spent.draw {n : Nat} (h : s.Spent n) (d : Draw) :
    (s.draw d).1 ≠ identifier n ∧ (s.draw d).2.Spent n := by
  have next : identifier s.next ≠ identifier n := fun he => by
    have := identifier_injective he
    have := h.1
    omega
  have kept : ∀ p, (s.draw d).2.known p ≠ some (identifier n) := by
    intro p hp
    rcases known_of_draw hp with hp | ⟨-, he⟩
    · exact h.2 p hp
    · exact next he.symm
  cases d with
  | fresh => exact ⟨next, Nat.lt_succ_of_lt h.1, kept⟩
  | token i t =>
    cases hk : s.known (i, t) with
    | some known =>
      rw [draw_of_known hk]
      refine ⟨?_, h⟩
      rintro rfl
      exact h.2 _ hk
    | none =>
      obtain ⟨hid, hn⟩ := draw_of_unknown hk
      exact ⟨hid ▸ next, hn ▸ Nat.lt_succ_of_lt h.1, kept⟩

theorem drawEach_spent {n : Nat} (h : s.Spent n) (ds : List Draw) :
    ∀ g ∈ s.drawEach ds, g.2 ≠ identifier n := by
  induction ds generalizing s with
  | nil => simp [drawEach]
  | cons d ds ih => exact List.forall_mem_cons.2 ⟨(h.draw d).1, ih (h.draw d).2⟩

/-- What one draw gives, seen from the draws after it. -/
theorem draw_apart (ha : s.Apart) (d : Draw) (ds : List Draw) :
    ∀ g ∈ (s.draw d).2.drawEach ds,
      (s.draw d).1 = g.2 ↔ ∃ i t, d = .token i t ∧ g.1 = .token i t := by
  intro g hg
  cases d with
  | fresh =>
    have hs : (s.draw .fresh).2.Spent s.next :=
      ⟨Nat.lt_succ_self _, fun p => ha.not_next (Nat.le_refl _) p⟩
    have hne := drawEach_spent hs ds g hg
    simpa [eq_comm, draw] using hne
  | token i t =>
    have hk := known_draw_token s i t
    rw [eq_comm, drawEach_known (ha.draw _) hk ds g hg]
    constructor
    · exact fun hg => ⟨i, t, rfl, hg⟩
    · rintro ⟨j, u, he, hg⟩
      rw [he, hg]

theorem pairwise_drawEach (ha : s.Apart) (ds : List Draw) :
    (s.drawEach ds).Pairwise fun a b =>
      a.2 = b.2 ↔ ∃ i t, a.1 = .token i t ∧ b.1 = .token i t := by
  induction ds generalizing s with
  | nil => exact .nil
  | cons d ds ih => exact .cons (draw_apart ha d ds) (ih (ha.draw d))

end Sharing

end ComponentMarkup
