import ComponentMarkup.Markup.Render
import ComponentMarkup.Proofs.Text.Runs
import Mathlib.Data.List.Basic
import Mathlib.Data.List.Nodup

set_option autoImplicit false

namespace ComponentMarkup

namespace TagToken

theorem next_of_gap (gap : List Char) (hg : ∀ c ∈ gap, isSpace c = true) {c : Char}
    (hc : isSpace c = false) (cs : List Char) :
    next (gap ++ c :: cs) = some (⟨gap, (read c cs).1, (read c cs).2.1⟩, (read c cs).2.2) := by
  have hstop : StopsAt isSpace (c :: cs) := stopsAt_cons.2 hc
  simp only [next, takeWhile_run hg hstop, dropWhile_run hg hstop]

theorem isSpace_of_isAttributeNameChar {c : Char} (h : isAttributeNameChar c = true) :
    isSpace c = false := by
  simp only [isAttributeNameChar, Bool.not_eq_true', Bool.or_eq_false_iff] at h
  exact h.1

theorem read_name {c : Char} {cs rest : List Char} (h : ∀ d ∈ c :: cs, isAttributeNameChar d = true)
    (hr : StopsAt isAttributeNameChar rest) :
    read c (cs ++ rest) = (.name (c :: cs), c :: cs, rest) := by
  obtain ⟨hc, hcs⟩ := List.forall_mem_cons.1 h
  have hne : c ≠ '>' ∧ c ≠ '=' ∧ c ≠ '/' ∧ c ≠ '"' ∧ c ≠ '\'' := by
    refine ⟨?_, ?_, ?_, ?_, ?_⟩ <;>
    · rintro rfl
      cases hc
  simp [read, hne, hc, takeWhile_run hcs hr, dropWhile_run hcs hr]

theorem read_equals (cs : List Char) : read '=' cs = (.equals, ['='], cs) := rfl

theorem read_quoted {quote : Char} (hq : quote = '"' ∨ quote = '\'') {value : List Char}
    (h : quote ∉ value) (rest : List Char) :
    read quote (value ++ quote :: rest) = (.quoted value, quote :: (value ++ [quote]), rest) := by
  have hv := ne_of_notMem h
  have hstop : StopsAt (· != quote) (quote :: rest) := by simp
  have hread : read quote (value ++ quote :: rest) = readQuoted quote (value ++ quote :: rest) := by
    rcases hq with rfl | rfl
    · rfl
    · rfl
  simp [hread, readQuoted, takeWhile_run hv hstop, dropWhile_run hv hstop]

end TagToken

section Step

variable {r : TagReader} {s rest : List Char} {l : Lexeme TagToken}

theorem readAttributes_close (h : TagToken.next s = some (l, rest)) (ht : l.token = .close) :
    readAttributes r s = ⟨(r.finish none).attrs, false, l.source, rest⟩ := by
  rw [readAttributes]
  split
  · simp_all
  · rename_i heq
    obtain ⟨rfl, rfl⟩ := Prod.mk.inj (Option.some.inj (h.symm.trans heq))
    simp [ht]

theorem readAttributes_selfClose (h : TagToken.next s = some (l, rest))
    (ht : l.token = .selfClose) :
    readAttributes r s = ⟨(r.finish none).attrs, true, l.source, rest⟩ := by
  rw [readAttributes]
  split
  · simp_all
  · rename_i heq
    obtain ⟨rfl, rfl⟩ := Prod.mk.inj (Option.some.inj (h.symm.trans heq))
    simp [ht]

theorem readAttributes_name {name : List Char} (h : TagToken.next s = some (l, rest))
    (ht : l.token = .name name) :
    readAttributes r s =
      (readAttributes { r.finish none with pending := some name } rest).after l.source := by
  rw [readAttributes]
  split
  · simp_all
  · rename_i heq
    obtain ⟨rfl, rfl⟩ := Prod.mk.inj (Option.some.inj (h.symm.trans heq))
    simp [ht]

theorem readAttributes_quoted {value : List Char} (h : TagToken.next s = some (l, rest))
    (ht : l.token = .quoted value) :
    readAttributes r s = (readAttributes (r.quoted value) rest).after l.source := by
  rw [readAttributes]
  split
  · simp_all
  · rename_i heq
    obtain ⟨rfl, rfl⟩ := Prod.mk.inj (Option.some.inj (h.symm.trans heq))
    simp [ht]

theorem readAttributes_equals (h : TagToken.next s = some (l, rest)) (ht : l.token = .equals)
    (hp : r.pending.isSome = true) (hq : readUnquoted rest = none) :
    readAttributes r s = (readAttributes { r with quoteDue := true } rest).after l.source := by
  rw [readAttributes]
  split
  · simp_all
  · rename_i heq
    obtain ⟨rfl, rfl⟩ := Prod.mk.inj (Option.some.inj (h.symm.trans heq))
    simp only [ht, hp, if_true]
    split
    · rfl
    · simp_all

theorem readAttributes_unquoted {gap value rest' : List Char}
    (h : TagToken.next s = some (l, rest)) (ht : l.token = .equals) (hp : r.pending.isSome = true)
    (hu : readUnquoted rest = some (gap, value, rest')) :
    readAttributes r s =
      (readAttributes (r.finish (some value)) rest').after (l.source ++ (gap ++ value)) := by
  rw [readAttributes]
  split
  · simp_all
  · rename_i heq
    obtain ⟨rfl, rfl⟩ := Prod.mk.inj (Option.some.inj (h.symm.trans heq))
    simp only [ht, hp, if_true]
    split
    · simp_all
    · rename_i heq
      rw [hu] at heq
      cases heq
      rfl

end Step

def Attribute.written (a : Attribute) : Attribute := { a with value := a.value.map escapeQuotes }

def IsAttributeName (name : List Char) : Prop :=
  name ≠ [] ∧ ∀ c ∈ name, isAttributeNameChar c = true

theorem quote_notMem_escapeQuotes (value : List Char) : '"' ∉ escapeQuotes value := by
  intro h
  obtain ⟨c, -, hc⟩ := List.mem_flatMap.1 h
  by_cases he : c = '"'
  · subst he
    simp at hc
  · rw [if_neg he, List.mem_singleton] at hc
    exact he hc.symm

theorem escapeQuotes_eq_self {value : List Char} (h : '"' ∉ value) :
    escapeQuotes value = value := by
  have hc : ∀ c ∈ value, (if c = '"' then "&quot;".toList else [c]) = [c] := by
    rintro c hc
    rw [if_neg]
    rintro rfl
    exact h hc
  rw [escapeQuotes, List.flatMap_congr hc, List.flatMap_singleton']

theorem TagInside.after_after (inside : TagInside) (a b : List Char) :
    (inside.after b).after a = inside.after (a ++ b) := by
  simp [TagInside.after]

def TagReader.await (r : TagReader) (name : List Char) : TagReader :=
  { r.finish none with pending := some name }

theorem TagReader.finish_await (r : TagReader) (name : List Char) (value : Option (List Char)) :
    (r.await name).finish value =
      { r.finish none with
        attrs := addAttribute (r.finish none).attrs ⟨name, value⟩, pending := none } :=
  rfl

@[simp] theorem TagReader.quoteDue_finish (r : TagReader) (value : Option (List Char)) :
    (r.finish value).quoteDue = r.quoteDue := by
  unfold finish
  cases r.pending with
  | none => rfl
  | some name => rfl

theorem readAttributes_spelledName {gap name rest : List Char} (hg : ∀ c ∈ gap, isSpace c = true)
    (hn : IsAttributeName name) (hr : StopsAt isAttributeNameChar rest) (r : TagReader) :
    readAttributes r (gap ++ (name ++ rest)) =
      (readAttributes (r.await name) rest).after (gap ++ name) := by
  obtain ⟨c, cs, rfl⟩ := List.exists_cons_of_ne_nil hn.1
  have hspace := TagToken.isSpace_of_isAttributeNameChar (hn.2 c List.mem_cons_self)
  have hnext := TagToken.next_of_gap gap hg hspace (cs ++ rest)
  rw [TagToken.read_name hn.2 hr] at hnext
  exact readAttributes_name hnext rfl

theorem readAttributes_spelledQuoted {before behind value : List Char} {quote : Char}
    (hb : ∀ c ∈ before, isSpace c = true) (hb' : ∀ c ∈ behind, isSpace c = true)
    (hq : quote = '"' ∨ quote = '\'') (hv : quote ∉ value) (rest : List Char) {r : TagReader}
    (hp : r.pending.isSome = true) :
    readAttributes r (before ++ '=' :: (behind ++ quote :: (value ++ quote :: rest))) =
      (readAttributes { r.finish (some value) with quoteDue := false } rest).after
        (before ++ '=' :: (behind ++ quote :: (value ++ [quote]))) := by
  have hspace : isSpace quote = false := by
    rcases hq with rfl | rfl
    · rfl
    · rfl
  have hequals := TagToken.next_of_gap before hb (c := '=') (by decide)
    (behind ++ quote :: (value ++ quote :: rest))
  have hquoted := TagToken.next_of_gap behind hb' hspace (value ++ quote :: rest)
  rw [TagToken.read_equals] at hequals
  rw [TagToken.read_quoted hq hv] at hquoted
  have hnone : readUnquoted (behind ++ quote :: (value ++ quote :: rest)) = none := by
    have hstop : StopsAt isSpace (quote :: (value ++ quote :: rest)) := stopsAt_cons.2 hspace
    simp only [readUnquoted, dropWhile_run hb' hstop]
    exact if_pos (hq.imp (congrArg some) (congrArg some))
  rw [readAttributes_equals hequals rfl hp hnone, readAttributes_quoted hquoted rfl,
    TagInside.after_after]
  obtain ⟨attrs, pending, quoteDue⟩ := r
  cases pending with
  | none => cases hp
  | some name => simp [TagReader.quoted, TagReader.finish, Lexeme.source]

theorem readAttributes_spelledUnquoted {before behind value rest : List Char}
    (hb : ∀ c ∈ before, isSpace c = true) (hb' : ∀ c ∈ behind, isSpace c = true)
    (hne : value ≠ []) (hv : ∀ c ∈ value, (!(isSpace c || c == '>')) = true)
    (hq : ∀ c ∈ value.head?, c ≠ '"' ∧ c ≠ '\'')
    (hr : StopsAt (fun c => !(isSpace c || c == '>')) rest) {r : TagReader}
    (hp : r.pending.isSome = true) :
    readAttributes r (before ++ '=' :: (behind ++ (value ++ rest))) =
      (readAttributes (r.finish (some value)) rest).after
        (before ++ '=' :: (behind ++ value)) := by
  have hequals := TagToken.next_of_gap before hb (c := '=') (by decide) (behind ++ (value ++ rest))
  rw [TagToken.read_equals] at hequals
  have hread : readUnquoted (behind ++ (value ++ rest)) = some (behind, value, rest) := by
    obtain ⟨c, cs, rfl⟩ := List.exists_cons_of_ne_nil hne
    have hc : isSpace c = false := by
      have := hv c List.mem_cons_self
      simp_all
    have hstop : StopsAt isSpace (c :: cs ++ rest) := stopsAt_cons.2 hc
    have hfirst := hq c rfl
    simp only [readUnquoted, dropWhile_run hb' hstop, takeWhile_run hb' hstop, takeWhile_run hv hr,
      dropWhile_run hv hr]
    rw [if_neg]
    simpa using hfirst
  rw [readAttributes_unquoted hequals rfl hp hread]
  simp [Lexeme.source]

theorem readAttributes_writtenName {name : List Char} (hn : IsAttributeName name) {rest : List Char}
    (hr : StopsAt isAttributeNameChar rest) (r : TagReader) :
    readAttributes r (' ' :: (name ++ rest)) =
      (readAttributes (r.await name) rest).after (' ' :: name) := by
  have hgap : ∀ c ∈ [' '], isSpace c = true := by simp [isSpace]
  exact readAttributes_spelledName hgap hn hr r

theorem readAttributes_writtenValue (value rest : List Char) {r : TagReader}
    (hp : r.pending.isSome = true) :
    readAttributes r ('=' :: '"' :: (escapeQuotes value ++ '"' :: rest)) =
      (readAttributes { r.finish (some (escapeQuotes value)) with quoteDue := false } rest).after
        ('=' :: '"' :: (escapeQuotes value ++ ['"'])) := by
  have hgap : ∀ c ∈ ([] : List Char), isSpace c = true := nofun
  exact readAttributes_spelledQuoted hgap hgap (.inl rfl) (quote_notMem_escapeQuotes value) rest hp

theorem readAttributes_attributes (attrs : List Attribute)
    (h : ∀ a ∈ attrs, IsAttributeName a.name) (rest : List Char) {r : TagReader}
    (hr : r.quoteDue = false) :
    readAttributes r (attrs.flatMap Attribute.render ++ '>' :: rest) =
      ⟨(attrs.map Attribute.written).foldl addAttribute (r.finish none).attrs, false,
        attrs.flatMap Attribute.render ++ ['>'], rest⟩ := by
  induction attrs generalizing r with
  | nil =>
    have hnext := TagToken.next_of_gap [] (by simp) (c := '>') (by decide) rest
    exact readAttributes_close hnext rfl
  | cons a attrs ih =>
    obtain ⟨ha, hs⟩ := List.forall_mem_cons.1 h
    obtain ⟨name, value⟩ := a
    rw [List.flatMap_cons, List.append_assoc]
    cases value with
    | none =>
      have hstop : StopsAt isAttributeNameChar (attrs.flatMap Attribute.render ++ '>' :: rest) := by
        cases attrs with
        | nil => exact stopsAt_cons.2 (by decide)
        | cons b attrs =>
          rw [List.flatMap_cons, Attribute.render]
          cases b.value <;> exact stopsAt_cons.2 (by decide)
      have hq : (r.await name).quoteDue = false := (r.quoteDue_finish none).trans hr
      rw [Attribute.render, List.cons_append, readAttributes_writtenName ha hstop, ih hs hq,
        TagReader.finish_await]
      simp [TagInside.after, Attribute.written]
    | some value =>
      have hstop : StopsAt isAttributeNameChar
          ('=' :: '"' ::
            (escapeQuotes value ++ '"' :: (attrs.flatMap Attribute.render ++ '>' :: rest))) :=
        stopsAt_cons.2 (by decide)
      have hwrite : Attribute.render ⟨name, some value⟩ ++
          (attrs.flatMap Attribute.render ++ '>' :: rest) = ' ' :: (name ++ '=' :: '"' ::
            (escapeQuotes value ++ '"' :: (attrs.flatMap Attribute.render ++ '>' :: rest))) := by
        simp [Attribute.render]
      rw [hwrite, readAttributes_writtenName ha hstop, readAttributes_writtenValue _ _ rfl,
        TagReader.finish_await, ih hs rfl]
      simp [TagInside.after, Attribute.written, Attribute.render, TagReader.finish]

theorem foldl_addAttribute {before attrs : List Attribute}
    (h : ((before ++ attrs).map Attribute.name).Nodup) :
    attrs.foldl addAttribute before = before ++ attrs := by
  induction attrs generalizing before with
  | nil => simp
  | cons a attrs ih =>
    have hnew : before.any (·.name == a.name) = false := by
      rw [List.any_eq_false]
      intro b hb he
      rw [List.map_append, List.map_cons] at h
      have := (List.nodup_append.1 h).2.2 _ (List.mem_map_of_mem hb) a.name List.mem_cons_self
      exact this (by simpa using he)
    have hadd : addAttribute before a = before ++ [a] := by
      rw [addAttribute, if_neg (by simp [hnew])]
    rw [List.foldl_cons, hadd, ih (by simpa using h)]
    simp

theorem readAttributes_render {attrs : List Attribute} (h : ∀ a ∈ attrs, IsAttributeName a.name)
    (hd : (attrs.map Attribute.name).Nodup) (rest : List Char) :
    readAttributes .start (attrs.flatMap Attribute.render ++ '>' :: rest) =
      ⟨attrs.map Attribute.written, false, attrs.flatMap Attribute.render ++ ['>'], rest⟩ := by
  have hnames : (attrs.map Attribute.written).map Attribute.name = attrs.map Attribute.name := by
    simp [Attribute.written]
  rw [readAttributes_attributes attrs h rest rfl]
  have hnodup : (([] ++ attrs.map Attribute.written).map Attribute.name).Nodup := by
    rwa [List.nil_append, hnames]
  have hfold := foldl_addAttribute hnodup
  rw [List.nil_append] at hfold
  exact congrArg (TagInside.mk · _ _ _) hfold

end ComponentMarkup
