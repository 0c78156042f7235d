import ComponentMarkup.Proofs.Component.Draws
import ComponentMarkup.Proofs.Component.Naming
import ComponentMarkup.Proofs.Expansion.Outcome
import Mathlib

/-!
The identification passes of expansions, one for each usage that binds. Main statements:
`chained_expandPasses`, each pass begins with the number at which the one before ended, whether the
expansion fails or not, and `identifiers_apart`.
-/

set_option autoImplicit false

namespace ComponentMarkup

structure Pass where
  body : List Node
  next : Nat

namespace Pass

def drawing (p : Pass) : Drawing := bodyDrawing p.body p.next

def name (p : Pass) (token : List Char) : List Char := Site.nameOf p.drawing.site token

def stop (p : Pass) : Nat := p.drawing.next

/-- What the pass puts in, from left to right, each time that it replaces a token. -/
def identifiers (p : Pass) : List (List Char) := (bodyTokens p.body).map p.name

theorem next_le_stop (p : Pass) : p.next ≤ p.stop :=
  (Drawing.since_drawAll (Drawing.since_new p.next) (bodyTokens p.body)).le_next

theorem mem_identifiers {p : Pass} {id : List Char} (h : id ∈ p.identifiers) :
    ∃ n, p.next ≤ n ∧ n < p.stop ∧ id = identifier n := by
  obtain ⟨t, ht, rfl⟩ := List.mem_map.1 h
  exact nameOf_bodyDrawing ht p.next

end Pass

/-- Passes of which the first begins with the number `next`, each other one with the number at which
the one before it ended, and the last ends with `stop`. -/
inductive Chained : List Pass → Nat → Nat → Prop
  | nil (next : Nat) : Chained [] next next
  | cons (p : Pass) {ps : List Pass} {stop : Nat} : Chained ps p.stop stop →
      Chained (p :: ps) p.next stop

namespace Chained

theorem append {ps qs : List Pass} {a b c : Nat} (hp : Chained ps a b) (hq : Chained qs b c) :
    Chained (ps ++ qs) a c := by
  induction hp with
  | nil next => exact hq
  | cons p _ ih => exact .cons p (ih hq)

theorem next_le {ps : List Pass} {a b : Nat} (h : Chained ps a b) : ∀ p ∈ ps, a ≤ p.next := by
  induction h with
  | nil next => simp
  | cons p _ ih =>
    refine List.forall_mem_cons.2 ⟨Nat.le_refl _, fun q hq => ?_⟩
    exact Nat.le_trans p.next_le_stop (ih q hq)

theorem pairwise {ps : List Pass} {a b : Nat} (h : Chained ps a b) :
    ps.Pairwise fun p q => p.stop ≤ q.next := by
  induction h with
  | nil next => exact .nil
  | cons p hps ih => exact .cons hps.next_le ih

theorem disjoint {ps : List Pass} {a b : Nat} (h : Chained ps a b) :
    ps.Pairwise fun p q => ∀ id ∈ p.identifiers, id ∉ q.identifiers := by
  refine h.pairwise.imp fun {p q} hpq id hp hq => ?_
  obtain ⟨m, -, hm, rfl⟩ := Pass.mem_identifiers hp
  obtain ⟨n, hn, -, he⟩ := Pass.mem_identifiers hq
  have := identifier_injective he
  omega

end Chained

def Expansion.passesAfter {α : Type} (x : Expansion α) (next : Nat) (more : α → Nat → List Pass) :
    List Pass :=
  match x.run next with
  | (.ok a, n) => more a n
  | (.error _, _) => []

/-- The passes of a usage: the one over its own body, if it binds, and those `within` the body. -/
def Definition.usePasses (d : Definition) (tag : Tag) (next : Nat)
    (within : List Node → Nat → List Pass) : List Pass :=
  match d.template with
  | none => []
  | some template => match d.instantiate template tag with
    | .error _ => []
    | .ok body => ⟨body, next⟩ :: within (identifyBody body next).1 (identifyBody body next).2

def expandPasses (imports : Imports) (file : Path) : List Node → Nat → List Pass
  | [], _ => []
  | .element tag children :: rest, next =>
    expandPasses imports file children next ++
      (expand imports file children).passesAfter next fun inner next =>
        (match h : imports.find? tag.name with
          | none => []
          | some d =>
            have := Definition.sizeOf_imports_lt h
            d.usePasses tag next fun body next => expandPasses d.imports d.path body next) ++
          (imports.stand file tag inner).passesAfter next fun _ next =>
            expandPasses imports file rest next
  | _ :: rest, next => expandPasses imports file rest next
termination_by nodes => (sizeOf imports, sizeOf nodes)

theorem Chained.bind {α β : Type} {x : Expansion α} {f : α → Expansion β} {ps : List Pass}
    {more : α → Nat → List Pass} {next : Nat} (hx : Chained ps next (x.run next).2)
    (hf : ∀ a n, Chained (more a n) n ((f a).run n).2) :
    Chained (ps ++ x.passesAfter next more) next ((x >>= f).run next).2 := by
  rw [Expansion.run_bind]
  unfold Expansion.passesAfter
  generalize x.run next = r at hx ⊢
  obtain ⟨r, n⟩ := r
  cases r with
  | error e => rwa [List.append_nil]
  | ok a => exact hx.append (hf a n)

theorem Chained.bind_pure {α β : Type} {x : Expansion α} {f : α → β} {ps : List Pass} {next : Nat}
    (hx : Chained ps next (x.run next).2) :
    Chained ps next ((x >>= fun a => pure (f a)).run next).2 := by
  rw [Expansion.run_bind]
  generalize x.run next = r at hx ⊢
  obtain ⟨r, n⟩ := r
  cases r with
  | error e => exact hx
  | ok a => exact hx

theorem chained_use {d : Definition} {within : List Node → Nat → List Pass}
    (hw : ∀ body next, Chained (within body next) next ((expand d.imports d.path body).run next).2)
    (file : Path) (tag : Tag) (children : List Node) (next : Nat) :
    Chained (d.usePasses tag next within) next ((d.use file tag children).run next).2 := by
  unfold Definition.usePasses Definition.use
  cases d.template with
  | none => exact .nil next
  | some template =>
    have hl : ∀ x : Expansion (List Node),
        ((Expansion.locate file tag.line x).run next).2 = (x.run next).2 := by
      intro x
      rw [Expansion.run_locate]
      generalize x.run next = r
      obtain ⟨r, n⟩ := r
      cases r <;> rfl
    simp only [hl]
    cases hi : d.instantiate template tag with
    | error e => exact .nil next
    | ok body =>
      have hstop : (identifyBody body next).2 = (Pass.mk body next).stop := by
        rw [identifyBody_eq]
        rfl
      have hin := (hw (identifyBody body next).1 (identifyBody body next).2).bind_pure
        (f := fillSlots children)
      rw [hstop] at hin
      have hrun := Chained.cons ⟨body, next⟩ hin
      rw [← hstop] at hrun
      exact hrun

theorem chained_expandPasses (imports : Imports) (file : Path) (nodes : List Node) (next : Nat) :
    Chained (expandPasses imports file nodes next) next
      ((expand imports file nodes).run next).2 := by
  induction imports, nodes using expansion_induction generalizing file next with
  | nil imports =>
    rw [expand_nil, expandPasses]
    exact .nil next
  | other imports n rest hn hr =>
    rw [expand_other _ _ hn]
    have he : expandPasses imports file (n :: rest) next = expandPasses imports file rest next := by
      cases n with
      | element tag children => cases hn
      | text chars => rw [expandPasses]; simp
      | comment body => rw [expandPasses]; simp
      | doctype body => rw [expandPasses]; simp
    rw [he]
    exact (hr file next).bind_pure
  | element imports tag children rest hc hr hb =>
    rw [expand_element, expandPasses]
    -- the children, then the usage itself, then what follows it
    refine (hc file next).bind fun inner n => ?_
    refine Chained.bind ?_ fun output n => (hr file n).bind_pure
    unfold Imports.stand
    split
    · rename_i hd
      simp only [hd]
      exact .nil n
    · rename_i d hd
      simp only [hd]
      exact chained_use (fun body next => hb d body hd d.path next) file tag inner n

structure Page where
  imports : Imports
  file : Path
  nodes : List Node

def Page.expand (p : Page) : Expansion (List Node) :=
  ComponentMarkup.expand p.imports p.file p.nodes

/-- The number of the next new identifier after these pages, some of which may have failed. -/
def nextAfter (pages : List Page) (next : Nat) : Nat :=
  pages.foldl (fun next p => (p.expand.run next).2) next

def pagePasses : List Page → Nat → List Pass
  | [], _ => []
  | p :: ps, next =>
    expandPasses p.imports p.file p.nodes next ++ pagePasses ps (p.expand.run next).2

theorem chained_pagePasses (pages : List Page) (next : Nat) :
    Chained (pagePasses pages next) next (nextAfter pages next) := by
  induction pages generalizing next with
  | nil => exact .nil next
  | cons p ps ih => exact (chained_expandPasses p.imports p.file p.nodes next).append (ih _)

/-- Sites that share a counter get one identifier twice only for one token of one site. So two
usages, in whatever pages and however deep, get no identifier in common, and within one usage a
token stands for one identifier that no other token stands for. -/
theorem identifiers_apart (next : Nat) (draws : List Draw) (pages : List Page) :
    (((Sharing.start next).drawEach draws).Pairwise fun a b =>
      a.2 = b.2 ↔ ∃ site token, a.1 = .token site token ∧ b.1 = .token site token) ∧
    Chained (pagePasses pages next) next (nextAfter pages next) ∧
    ((pagePasses pages next).Pairwise fun p q => ∀ id ∈ p.identifiers, id ∉ q.identifiers) ∧
    ∀ p ∈ pagePasses pages next,
      (identifyBody p.body p.next).1 = nameBody p.name p.body ∧
      ∀ t ∈ bodyTokens p.body, ∀ u ∈ bodyTokens p.body, p.name t = p.name u → t = u := by
  have hc := chained_pagePasses pages next
  refine ⟨Sharing.pairwise_drawEach (Sharing.apart_start next) draws, hc, hc.disjoint, ?_⟩
  intro p _
  have hb : (identifyBody p.body p.next).1 = nameBody p.name p.body := by
    rw [identifyBody_eq]
    rfl
  exact ⟨hb, fun t ht u hu h => nameOf_bodyDrawing_injective ht hu h⟩

/-- A field used twice, between a page that fails and a draw of its own. -/
theorem identifiers_apart_of_fields :
    let field : Definition := ⟨⟨"/field".toList⟩, [], some ⟨⟨"template".toList, [], 1⟩,
      [.element ⟨['p'], [⟨['a'], some ['!', 'x']⟩, ⟨['b'], some ['!', 'x']⟩], 1⟩ []]⟩, [], [], []⟩
    let usage : Node := .element ⟨"field".toList, [], 1⟩ []
    let extra : Node := .element ⟨"field".toList, [⟨['a'], none⟩], 1⟩ []
    let page (nodes : List Node) : Page := ⟨[("field".toList, field)], ⟨"/page".toList⟩, nodes⟩
    let passes := pagePasses [page [usage, extra], page [usage]] 0
    passes.map Pass.identifiers =
      [[['A'], ['A']], [['B'], ['B']]] ∧
    passes.Pairwise fun p q => ∀ id ∈ p.identifiers, id ∉ q.identifiers := by
  refine ⟨?_, (identifiers_apart 0 [] _).2.2.1⟩
  cbv

end ComponentMarkup
