import Mathlib.Data.List.Basic
import Mathlib.Data.List.Find
import Mathlib.Data.List.Nodup
import Mathlib.Data.List.TakeWhile
import ComponentMarkup.Component.Parameter
import ComponentMarkup.Proofs.Text.Runs

/-!
Texts with placeholders: a mark and the longest run of name characters behind it. Main statements:
`replaceToken_eq`, replacing a token looks at each placeholder once, and `replaceEach_eq`, when
replacing tokens one after the other does what replacing them all at once does.
-/

set_option autoImplicit false

namespace ComponentMarkup

/-- A stretch of a text: a character by itself, or a mark with the whole name behind it. -/
inductive TextPart where
  | char (c : Char)
  | run (mark : Char) (name : List Char)
  deriving DecidableEq, Repr

def TextPart.spell : TextPart → List Char
  | .char c => [c]
  | .run mark name => mark :: name

def textParts (isMark : Char → Bool) : List Char → List TextPart
  | [] => []
  | c :: cs =>
    if isMark c then .run c (cs.takeWhile isNameChar) :: textParts isMark (cs.dropWhile isNameChar)
    else .char c :: textParts isMark cs
termination_by s => s.length
decreasing_by
  · have := length_dropWhile_le isNameChar cs
    simp only [List.length_cons]
    omega
  · simp

structure Replacement where
  mark : Char
  name : List Char
  value : List Char
  deriving DecidableEq, Repr

def Replacement.token (r : Replacement) : TextPart := .run r.mark r.name

def valueOf (rs : List Replacement) (p : TextPart) : Option (List Char) :=
  (rs.find? (·.token == p)).map Replacement.value

def writePart (rs : List Replacement) (p : TextPart) : List Char := (valueOf rs p).getD p.spell

def replaceAtOnce (isMark : Char → Bool) (rs : List Replacement) (text : List Char) : List Char :=
  (textParts isMark text).flatMap (writePart rs)

def replaceEach (rs : List Replacement) (text : List Char) : List Char :=
  rs.foldl (fun text r => replaceToken r.mark r.name r.value text) text

variable {isMark : Char → Bool}

@[simp] theorem textParts_nil : textParts isMark [] = [] := by rw [textParts]

theorem textParts_mark {c : Char} (h : isMark c = true) (cs : List Char) :
    textParts isMark (c :: cs) =
      .run c (cs.takeWhile isNameChar) :: textParts isMark (cs.dropWhile isNameChar) := by
  rw [textParts, if_pos h]

theorem textParts_char {c : Char} (h : isMark c = false) (cs : List Char) :
    textParts isMark (c :: cs) = .char c :: textParts isMark cs := by
  rw [textParts, if_neg (by simp [h])]

theorem spell_textParts (text : List Char) :
    (textParts isMark text).flatMap TextPart.spell = text := by
  fun_induction textParts isMark text with
  | case1 => rfl
  | case2 c cs h ih => simp [TextPart.spell, ih]
  | case3 c cs h ih => simp [TextPart.spell, ih]

@[simp] theorem valueOf_nil (p : TextPart) : valueOf [] p = none := rfl

@[simp] theorem valueOf_char (rs : List Replacement) (c : Char) : valueOf rs (.char c) = none := by
  simp [valueOf, Replacement.token]

theorem valueOf_singleton (r : Replacement) (p : TextPart) :
    valueOf [r] p = if r.token = p then some r.value else none := by
  by_cases h : r.token = p
  · simp [valueOf, h]
  · simp [valueOf, h]

theorem valueOf_append (rs rs' : List Replacement) (p : TextPart) :
    valueOf (rs ++ rs') p = (valueOf rs p).or (valueOf rs' p) := by
  simp [valueOf, List.find?_append, Option.map_or]

theorem valueOf_eq_none {rs : List Replacement} {p : TextPart} :
    valueOf rs p = none ↔ ∀ r ∈ rs, r.token ≠ p := by
  simp [valueOf]

theorem mem_of_valueOf {rs : List Replacement} {p : TextPart} {v : List Char}
    (h : valueOf rs p = some v) : ∃ r ∈ rs, r.token = p ∧ r.value = v := by
  obtain ⟨r, hr, rfl⟩ := Option.map_eq_some_iff.1 h
  exact ⟨r, List.mem_of_find?_eq_some hr, by simpa using List.find?_some hr, rfl⟩

theorem valueOf_perm {rs rs' : List Replacement} (hp : rs.Perm rs')
    (hd : (rs.map Replacement.token).Nodup) : valueOf rs = valueOf rs' := by
  funext p
  unfold valueOf
  rw [List.find?_eq_find?_of_perm hp]
  rintro r ⟨hr, h⟩ r' ⟨hr', h'⟩
  refine List.inj_on_of_nodup_map hd hr hr' ?_
  simp only [beq_iff_eq] at h h'
  exact h.trans h'.symm

theorem replaceAtOnce_perm {rs rs' : List Replacement} (hp : rs.Perm rs')
    (hd : (rs.map Replacement.token).Nodup) (text : List Char) :
    replaceAtOnce isMark rs text = replaceAtOnce isMark rs' text := by
  unfold replaceAtOnce writePart
  rw [valueOf_perm hp hd]

def MarksApart (isMark : Char → Bool) : Prop := ∀ c, isMark c = true → isNameChar c = false

theorem startsWithNameChar_eq_false {s : List Char} :
    startsWithNameChar s = false ↔ StopsAt isNameChar s := by
  cases s <;> simp [startsWithNameChar]

theorem replaceToken_names {mark : Char} (hm : isNameChar mark = false) (name value : List Char)
    {w : List Char} (hw : ∀ c ∈ w, isNameChar c = true) (rest : List Char) :
    replaceToken mark name value (w ++ rest) = w ++ replaceToken mark name value rest := by
  induction w with
  | nil => rfl
  | cons c w ih =>
    have hc : c ≠ mark := by
      rintro rfl
      rw [hw c List.mem_cons_self] at hm
      cases hm
    rw [List.cons_append, replaceToken, if_neg (by simp [hc]),
      ih fun c hc => hw c (List.mem_cons_of_mem _ hc)]
    rfl

theorem replaceToken_run {mark : Char} (hm : isNameChar mark = false) {name : List Char}
    (hn : ∀ c ∈ name, isNameChar c = true) (value : List Char) {w : List Char}
    (hw : ∀ c ∈ w, isNameChar c = true) {rest : List Char} (hr : StopsAt isNameChar rest) :
    replaceToken mark name value (mark :: (w ++ rest)) =
      (if w = name then value else mark :: w) ++ replaceToken mark name value rest := by
  rw [replaceToken]
  by_cases hp : name <+: w ++ rest
  · rw [if_pos ⟨rfl, List.isPrefixOf_iff_prefix.2 hp⟩]
    obtain ⟨t, ht⟩ : name <+: w := by
      have h := prefix_takeWhile hn hp
      rwa [takeWhile_run hw hr] at h
    subst ht
    have hd : (name ++ t ++ rest).drop name.length = t ++ rest := by simp
    simp only [hd]
    cases t with
    | nil =>
      have hs : startsWithNameChar rest = false := startsWithNameChar_eq_false.2 hr
      simp [hs]
    | cons c t =>
      have ht : ∀ d ∈ c :: t, isNameChar d = true := fun d hd => hw d (List.mem_append_right _ hd)
      have hs : startsWithNameChar (c :: t ++ rest) = true := ht c List.mem_cons_self
      rw [if_pos hs, replaceToken_names hm name value ht]
      simp
  · have hne : w ≠ name := by
      rintro rfl
      exact hp (List.prefix_append w rest)
    rw [if_neg (by simp [hp]), if_neg hne, replaceToken_names hm name value hw]
    simp

theorem replaceToken_eq (hi : MarksApart isMark) {r : Replacement} (hm : isMark r.mark = true)
    (hn : ∀ c ∈ r.name, isNameChar c = true) (text : List Char) :
    replaceToken r.mark r.name r.value text = replaceAtOnce isMark [r] text := by
  unfold replaceAtOnce
  fun_induction textParts isMark text with
  | case1 => rw [replaceToken]; rfl
  | case2 c cs hc ih =>
    have hw : ∀ d ∈ cs.takeWhile isNameChar, isNameChar d = true :=
      fun d hd => List.mem_takeWhile_imp hd
    have hwrite : writePart [r] (.run c (cs.takeWhile isNameChar)) =
        if c = r.mark ∧ cs.takeWhile isNameChar = r.name then r.value
        else c :: cs.takeWhile isNameChar := by
      by_cases he : c = r.mark ∧ cs.takeWhile isNameChar = r.name
      · simp [writePart, valueOf_singleton, Replacement.token, he]
      · have he' : ¬(r.mark = c ∧ r.name = cs.takeWhile isNameChar) :=
          fun h => he ⟨h.1.symm, h.2.symm⟩
        rw [if_neg he]
        simp [writePart, valueOf_singleton, Replacement.token, he', TextPart.spell]
    rw [List.flatMap_cons, hwrite]
    by_cases he : c = r.mark
    · have h := replaceToken_run (hi _ hm) hn r.value hw (stopsAt_dropWhile isNameChar cs)
      rw [List.takeWhile_append_dropWhile] at h
      subst he
      rw [h, ih]
      simp
    · have h := replaceToken_names (hi _ hm) r.name r.value hw (cs.dropWhile isNameChar)
      rw [List.takeWhile_append_dropWhile] at h
      rw [replaceToken, if_neg (by simp [he]), h, ih]
      simp [he]
  | case3 c cs hc ih =>
    have he : c ≠ r.mark := by
      rintro rfl
      exact hc hm
    rw [replaceToken, if_neg (by simp [he]), ih]
    simp [writePart, TextPart.spell]

/-- These characters, written directly behind a part, neither break a token nor make one: either
they do not lengthen its name, or it is no token and no token begins with the longer name. -/
def Keeps (rs : List Replacement) : TextPart → List Char → Prop
  | .char _, _ => True
  | .run mark name, s =>
    s.takeWhile isNameChar = [] ∨
      ∀ r ∈ rs, r.mark = mark → r.name ≠ name ∧ ¬name ++ s.takeWhile isNameChar <+: r.name

/-- The values put in for parts of a text keep the tokens before them; `before` holds the parts that
may stand directly before the text, by which of its tokens have been replaced. -/
def KeepsTokens (isMark : Char → Bool) (rs : List Replacement) :
    List TextPart → List TextPart → Prop
  | _, [] => True
  | before, p :: ps =>
    match valueOf rs p with
    | none => KeepsTokens isMark rs [p] ps
    | some v =>
      (∀ q ∈ before, Keeps rs q v) ∧
        KeepsTokens isMark rs
          (p :: if v = [] then before else (textParts isMark v).getLast?.toList) ps

/-- Putting values into a text neither makes nor breaks a token: no value holds a token other than
the one whose place it takes, and none makes another token longer or what is no token into one. -/
structure Undisturbed (isMark : Char → Bool) (rs : List Replacement) (text : List Char) : Prop where
  keeps : KeepsTokens isMark rs [] (textParts isMark text)
  inert : ∀ p ∈ textParts isMark text, ∀ v ∈ valueOf rs p, ∀ q ∈ textParts isMark v,
    q = p ∨ valueOf rs q = none

theorem Keeps.mono {rs rs' : List Replacement} {p : TextPart} {s : List Char} (h : Keeps rs p s)
    (hs : ∀ r ∈ rs', r ∈ rs) : Keeps rs' p s := by
  cases p with
  | char c => trivial
  | run mark name => exact h.imp_right fun h r hr => h r (hs r hr)

theorem KeepsTokens.perm {rs rs' : List Replacement} {before ps : List TextPart}
    (h : KeepsTokens isMark rs before ps) (hp : rs.Perm rs') (hv : valueOf rs = valueOf rs') :
    KeepsTokens isMark rs' before ps := by
  induction ps generalizing before with
  | nil => trivial
  | cons p ps ih =>
    unfold KeepsTokens at h ⊢
    rw [← hv]
    cases hval : valueOf rs p with
    | none =>
      rw [hval] at h
      exact ih h
    | some v =>
      rw [hval] at h
      exact ⟨fun q hq => (h.1 q hq).mono fun r hr => hp.mem_iff.2 hr, ih h.2⟩

theorem Undisturbed.perm {rs rs' : List Replacement} {text : List Char}
    (h : Undisturbed isMark rs text) (hp : rs.Perm rs') (hd : (rs.map Replacement.token).Nodup) :
    Undisturbed isMark rs' text where
  keeps := h.keeps.perm hp (valueOf_perm hp hd)
  inert := by
    rw [← valueOf_perm hp hd]
    exact h.inert

theorem keeps_of_stopsAt {rs : List Replacement} {s : List Char} (h : StopsAt isNameChar s)
    (p : TextPart) : Keeps rs p s := by
  cases p with
  | char c => trivial
  | run mark name => exact .inl (takeWhile_of_stopsAt h)

theorem Keeps.append {rs : List Replacement} {p : TextPart} {s : List Char} (h : Keeps rs p s)
    (hs : s ≠ []) (rest : List Char) : Keeps rs p (s ++ rest) := by
  cases p with
  | char c => trivial
  | run mark name =>
    rcases h with h | h
    · refine keeps_of_stopsAt ?_ _
      cases s with
      | nil => exact absurd rfl hs
      | cons c s =>
        have hc : isNameChar c = false := by
          by_contra hc
          simp [List.takeWhile_cons, hc] at h
        exact stopsAt_cons.2 hc
    · refine .inr fun r hr hm => ⟨(h r hr hm).1, fun hp => (h r hr hm).2 (.trans ?_ hp)⟩
      rw [List.prefix_append_right_inj]
      refine prefix_takeWhile (fun c hc => List.mem_takeWhile_imp hc) ?_
      exact (List.takeWhile_prefix isNameChar).trans (List.prefix_append s rest)

/-- Parts as they may be read: each is written as its kind demands, and what stands behind it keeps
it. -/
def PartsApart (isMark : Char → Bool) (rs : List Replacement) : List TextPart → Prop
  | [] => True
  | p :: ps =>
    (match p with
      | .char c => isMark c = false
      | .run mark name => isMark mark = true ∧ ∀ c ∈ name, isNameChar c = true) ∧
      Keeps rs p (ps.flatMap TextPart.spell) ∧ PartsApart isMark rs ps

theorem PartsApart.mono {rs rs' : List Replacement} {ps : List TextPart}
    (h : PartsApart isMark rs ps) (hs : ∀ r ∈ rs', r ∈ rs) : PartsApart isMark rs' ps := by
  induction ps with
  | nil => trivial
  | cons p ps ih => exact ⟨h.1, h.2.1.mono hs, ih h.2.2⟩

theorem replaceAtOnce_names (hi : MarksApart isMark) (rs : List Replacement) {w : List Char}
    (hw : ∀ c ∈ w, isNameChar c = true) (s : List Char) :
    replaceAtOnce isMark rs (w ++ s) = w ++ replaceAtOnce isMark rs s := by
  induction w with
  | nil => rfl
  | cons c w ih =>
    obtain ⟨hc, hw⟩ := List.forall_mem_cons.1 hw
    have hm : isMark c = false := by
      by_contra hm
      have := hi c (by simpa using hm)
      rw [hc] at this
      cases this
    unfold replaceAtOnce at ih ⊢
    rw [List.cons_append, textParts_char hm, List.flatMap_cons, ih hw]
    simp [writePart, TextPart.spell]

theorem replaceAtOnce_spell (hi : MarksApart isMark) {rs : List Replacement} {ps : List TextPart}
    (h : PartsApart isMark rs ps) :
    replaceAtOnce isMark rs (ps.flatMap TextPart.spell) = ps.flatMap (writePart rs) := by
  induction ps with
  | nil => simp [replaceAtOnce]
  | cons p ps ih =>
    cases p with
    | char c =>
      have ih := ih h.2.2
      unfold replaceAtOnce at ih ⊢
      rw [List.flatMap_cons, TextPart.spell, List.singleton_append, textParts_char h.1,
        List.flatMap_cons, ih, List.flatMap_cons]
    | run mark name =>
      obtain ⟨⟨hm, hn⟩, hk, hps⟩ := h
      have ih := ih hps
      rw [List.flatMap_cons, TextPart.spell, List.cons_append]
      generalize ps.flatMap TextPart.spell = s at hk ih ⊢
      have hw : ∀ c ∈ s.takeWhile isNameChar, isNameChar c = true :=
        fun c hc => List.mem_takeWhile_imp hc
      have hread : textParts isMark (mark :: (name ++ s)) =
          .run mark (name ++ s.takeWhile isNameChar) ::
            textParts isMark (s.dropWhile isNameChar) := by
        rw [textParts_mark hm, List.takeWhile_append_of_pos hn, List.dropWhile_append_of_pos hn]
      -- either nothing continues the name, or neither the name nor the longer one is a token
      have hwrite : writePart rs (.run mark (name ++ s.takeWhile isNameChar)) =
          writePart rs (.run mark name) ++ s.takeWhile isNameChar := by
        rcases hk with hk | hk
        · simp [hk]
        · have hshort : valueOf rs (.run mark name) = none :=
            valueOf_eq_none.2 fun r hr he => by
              obtain ⟨rfl, rfl⟩ := TextPart.run.inj he
              exact (hk r hr rfl).1 rfl
          have hlong : valueOf rs (.run mark (name ++ s.takeWhile isNameChar)) = none :=
            valueOf_eq_none.2 fun r hr he => by
              obtain ⟨hmark, hname⟩ := TextPart.run.inj he
              exact (hk r hr hmark).2 (hname ▸ List.prefix_refl _)
          simp [writePart, hshort, hlong, TextPart.spell]
      have hrest := replaceAtOnce_names hi rs hw (s.dropWhile isNameChar)
      rw [List.takeWhile_append_dropWhile, ih] at hrest
      unfold replaceAtOnce at hrest ⊢
      rw [hread, List.flatMap_cons, hwrite, List.append_assoc, ← hrest, List.flatMap_cons]

theorem PartsApart.textParts_append {rs : List Replacement} {text : List Char}
    {ps : List TextPart} (hk : ∀ q ∈ (textParts isMark text).getLast?,
      Keeps rs q (ps.flatMap TextPart.spell)) (hps : PartsApart isMark rs ps) :
    PartsApart isMark rs (textParts isMark text ++ ps) := by
  fun_induction textParts isMark text with
  | case1 => exact hps
  | case2 c cs hc ih =>
    refine ⟨⟨hc, fun d hd => List.mem_takeWhile_imp hd⟩, ?_, ih fun q hq => hk q ?_⟩
    · rw [List.append_eq, List.flatMap_append, spell_textParts]
      cases hd : cs.dropWhile isNameChar with
      | nil => exact hk _ (by simp [hd])
      | cons d ds =>
        refine keeps_of_stopsAt ?_ _
        have := stopsAt_dropWhile isNameChar cs
        rw [hd] at this
        exact stopsAt_cons.2 (stopsAt_cons.1 this)
    · rw [List.getLast?_cons]
      simp [Option.mem_def.1 hq]
  | case3 c cs hc ih =>
    refine ⟨by simpa using hc, trivial, ih fun q hq => hk q ?_⟩
    rw [List.getLast?_cons]
    simp [Option.mem_def.1 hq]

def replacedParts (isMark : Char → Bool) (rs : List Replacement) (p : TextPart) : List TextPart :=
  match valueOf rs p with
  | none => [p]
  | some v => textParts isMark v

theorem spell_replacedParts (isMark : Char → Bool) (rs : List Replacement) (p : TextPart) :
    (replacedParts isMark rs p).flatMap TextPart.spell = writePart rs p := by
  unfold replacedParts writePart
  cases valueOf rs p with
  | none => simp
  | some v => exact spell_textParts v

theorem spell_flatMap_replacedParts (isMark : Char → Bool) (rs : List Replacement)
    (ps : List TextPart) :
    (ps.flatMap (replacedParts isMark rs)).flatMap TextPart.spell = ps.flatMap (writePart rs) := by
  rw [List.flatMap_assoc]
  simp only [spell_replacedParts]

/-- Whichever tokens of the text have been replaced, its parts stay apart. -/
theorem partsApart_replacedParts (hi : MarksApart isMark) {rs rs' : List Replacement}
    (hle : ∀ p v, valueOf rs' p = some v → valueOf rs p = some v) (text : List Char) :
    ∀ before, KeepsTokens isMark rs before (textParts isMark text) →
      (∀ mark name, .run mark name ∈ before → StopsAt isNameChar text) →
      PartsApart isMark rs ((textParts isMark text).flatMap (replacedParts isMark rs')) ∧
      ∀ q ∈ before, Keeps rs q ((textParts isMark text).flatMap (writePart rs')) := by
  -- what is kept before a part depends on what is written from there on, so both go along
  fun_induction textParts isMark text with
  | case1 => exact fun before _ _ => ⟨trivial, fun q _ => keeps_of_stopsAt stopsAt_nil q⟩
  | case2 c cs hc ih =>
    intro before hk hb
    have hmark : ∀ s q, Keeps rs q (c :: s) :=
      fun s q => keeps_of_stopsAt (stopsAt_cons.2 (hi c hc)) q
    have hwf : isMark c = true ∧ ∀ d ∈ cs.takeWhile isNameChar, isNameChar d = true :=
      ⟨hc, fun d hd => List.mem_takeWhile_imp hd⟩
    have hnext := stopsAt_dropWhile isNameChar cs
    simp only [List.flatMap_cons]
    rw [KeepsTokens] at hk
    -- the token itself stays, in case it has no value or has not been replaced
    have hstays : ∀ before, KeepsTokens isMark rs (.run c (cs.takeWhile isNameChar) :: before)
        (textParts isMark (cs.dropWhile isNameChar)) →
        valueOf rs' (.run c (cs.takeWhile isNameChar)) = none →
        PartsApart isMark rs (replacedParts isMark rs' (.run c (cs.takeWhile isNameChar)) ++
          (textParts isMark (cs.dropWhile isNameChar)).flatMap (replacedParts isMark rs')) ∧
        ∀ q, Keeps rs q (writePart rs' (.run c (cs.takeWhile isNameChar)) ++
          (textParts isMark (cs.dropWhile isNameChar)).flatMap (writePart rs')) := by
      intro before hk hv
      obtain ⟨hps, hq⟩ := ih _ hk fun _ _ _ => hnext
      refine ⟨?_, fun q => ?_⟩
      · have hkeep := hq _ List.mem_cons_self
        rw [← spell_flatMap_replacedParts isMark] at hkeep
        rw [replacedParts, hv]
        exact ⟨hwf, hkeep, hps⟩
      · simp only [writePart, hv, Option.getD_none, TextPart.spell, List.cons_append]
        exact hmark _ q
    cases hv : valueOf rs (.run c (cs.takeWhile isNameChar)) with
    | none =>
      rw [hv] at hk
      have hv' : valueOf rs' (.run c (cs.takeWhile isNameChar)) = none := by
        by_contra hne
        obtain ⟨v, hv'⟩ := Option.ne_none_iff_exists'.1 hne
        rw [hle _ v hv'] at hv
        cases hv
      obtain ⟨hps, hq⟩ := hstays [] hk hv'
      exact ⟨hps, fun q _ => hq q⟩
    | some v =>
      rw [hv] at hk
      obtain ⟨hkv, hk⟩ := hk
      cases hv' : valueOf rs' (.run c (cs.takeWhile isNameChar)) with
      | none =>
        obtain ⟨hps, hq⟩ := hstays _ hk hv'
        exact ⟨hps, fun q _ => hq q⟩
      | some v' =>
        obtain rfl : v' = v := Option.some.inj ((hle _ _ hv').symm.trans hv)
        obtain ⟨hps, hq⟩ := ih _ hk fun _ _ _ => hnext
        simp only [replacedParts, writePart, hv', Option.getD_some]
        refine ⟨hps.textParts_append fun q hlast => ?_, fun q hbefore => ?_⟩
        · have hne : v' ≠ [] := by
            rintro rfl
            simp at hlast
          have hkeep := hq q (List.mem_cons_of_mem _ (by rw [if_neg hne]; simpa using hlast))
          rwa [← spell_flatMap_replacedParts isMark] at hkeep
        · by_cases hne : v' = []
          · have hkeep := hq q (List.mem_cons_of_mem _ (by rwa [if_pos hne]))
            rwa [hne]
          · exact (hkv q hbefore).append hne _
  | case3 c cs hc ih =>
    intro before hk hb
    rw [KeepsTokens, valueOf_char] at hk
    obtain ⟨hps, -⟩ := ih [.char c] hk (by simp)
    have hrep : replacedParts isMark rs' (.char c) = [.char c] := by simp [replacedParts]
    refine ⟨?_, fun q hq => ?_⟩
    · rw [List.flatMap_cons, hrep]
      exact ⟨by simpa using hc, trivial, hps⟩
    · cases q with
      | char d => trivial
      | run mark name =>
        have := stopsAt_cons.1 (hb mark name hq)
        refine keeps_of_stopsAt ?_ _
        simpa [writePart, TextPart.spell] using this

theorem replaceAtOnce_inert {rs : List Replacement} {ps : List TextPart}
    (h : ∀ p ∈ ps, valueOf rs p = none) :
    ps.flatMap (writePart rs) = ps.flatMap TextPart.spell := by
  refine List.flatMap_congr fun p hp => ?_
  rw [writePart, h p hp, Option.getD_none]

theorem replaceAtOnce_replaceAtOnce (hi : MarksApart isMark) {done todo : List Replacement}
    {r : Replacement} {text : List Char} (h : Undisturbed isMark (done ++ r :: todo) text)
    (hd : ∀ r' ∈ done, r'.token ≠ r.token) :
    replaceAtOnce isMark [r] (replaceAtOnce isMark done text) =
      replaceAtOnce isMark (done ++ [r]) text := by
  have hle : ∀ p v, valueOf done p = some v → valueOf (done ++ r :: todo) p = some v := by
    intro p v hv
    rw [valueOf_append, hv, Option.some_or]
  have hsub : ∀ {p}, valueOf (done ++ r :: todo) p = none → valueOf [r] p = none := by
    intro p hp
    rw [valueOf_eq_none] at hp ⊢
    simpa using hp r (by simp)
  obtain ⟨hps, -⟩ := partsApart_replacedParts hi hle text [] h.keeps (by simp)
  have hps : PartsApart isMark [r] _ := hps.mono fun q hq => by simp_all
  have hr := replaceAtOnce_spell hi hps
  rw [spell_flatMap_replacedParts, List.flatMap_assoc] at hr
  unfold replaceAtOnce at hr ⊢
  rw [hr]
  refine List.flatMap_congr fun p hp => ?_
  unfold replacedParts
  cases hv : valueOf done p with
  | none => simp [writePart, valueOf_append, hv]
  | some v =>
    have hin : ∀ q ∈ textParts isMark v, valueOf [r] q = none := by
      intro q hq
      rcases h.inert p hp v (hle p v hv) q hq with rfl | hn
      · obtain ⟨r', hr', hp', -⟩ := mem_of_valueOf hv
        have hne : ¬r.token = q := fun he => hd r' hr' (hp'.trans he.symm)
        rw [valueOf_singleton, if_neg hne]
      · exact hsub hn
    have hvv := replaceAtOnce_inert hin
    rw [spell_textParts] at hvv
    simp only [hvv]
    simp [writePart, valueOf_append, hv]

/-- Replacing different tokens one after the other, in whatever order, is replacing them at once. -/
theorem replaceEach_eq (hi : MarksApart isMark) {rs : List Replacement} {text : List Char}
    (h : Undisturbed isMark rs text) (hd : (rs.map Replacement.token).Nodup)
    (hm : ∀ r ∈ rs, isMark r.mark = true ∧ ∀ c ∈ r.name, isNameChar c = true) :
    replaceEach rs text = replaceAtOnce isMark rs text := by
  -- along the list, what has been replaced so far has been replaced at once
  have hfrom : ∀ todo done, Undisturbed isMark (done ++ todo) text →
      ((done ++ todo).map Replacement.token).Nodup →
      (∀ r ∈ todo, isMark r.mark = true ∧ ∀ c ∈ r.name, isNameChar c = true) →
      replaceEach todo (replaceAtOnce isMark done text) =
        replaceAtOnce isMark (done ++ todo) text := by
    intro todo
    induction todo with
    | nil => exact fun done _ _ _ => by simp [replaceEach]
    | cons r todo ih =>
      intro done h hd hm
      obtain ⟨⟨hmark, hname⟩, hm⟩ := List.forall_mem_cons.1 hm
      have hne : ∀ r' ∈ done, r'.token ≠ r.token := by
        intro r' hr' he
        rw [List.map_append, List.map_cons] at hd
        exact (List.disjoint_of_nodup_append hd) (List.mem_map_of_mem hr') (he ▸ List.mem_cons_self)
      have hstep := ih (done ++ [r]) (by simpa using h) (by simpa using hd) hm
      rw [← replaceAtOnce_replaceAtOnce hi h hne, ← replaceToken_eq hi hmark hname] at hstep
      simpa [replaceEach] using hstep
  have hnone : replaceAtOnce isMark [] text = text := by
    have hinert : ∀ p ∈ textParts isMark text, valueOf [] p = none := fun p _ => valueOf_nil p
    have h := replaceAtOnce_inert hinert
    rwa [spell_textParts] at h
  have := hfrom rs [] h hd hm
  rwa [hnone] at this

end ComponentMarkup
