import ComponentMarkup.CommandLine.Job
import ComponentMarkup.Proofs.Session.CompileAnew
import ComponentMarkup.Proofs.Session.Configuration

set_option autoImplicit false

namespace ComponentMarkup

def Session.results (s : Session) (t : FileTree) :
    List Path → List (Except CompileError (List Char))
  | [] => []
  | p :: ps => (s.compileFile t p).1 :: (s.compileFile t p).2.results t ps

theorem Session.compileFiles_eq (s : Session) (t : FileTree) (paths : List Path) :
    (∃ (pages : List (List Char)) (e : CompileError), ∃ rest,
      s.results t paths = pages.map .ok ++ .error e :: rest ∧
        (s.compileFiles t paths).1 = .error e) ∨
    ∃ pages : List (List Char), s.results t paths = pages.map .ok ∧
      s.compileFiles t paths = (.ok pages, s.compileEach t paths) := by
  induction paths generalizing s with
  | nil => exact .inr ⟨[], rfl, rfl⟩
  | cons p ps ih =>
    rw [results, compileFiles]
    have heach : s.compileEach t (p :: ps) = (s.compileFile t p).2.compileEach t ps := rfl
    rw [heach]
    cases hp : s.compileFile t p with
    | mk r s' =>
      cases r with
      | error e => exact .inl ⟨[], e, _, rfl, rfl⟩
      | ok page =>
        rcases ih s' with ⟨pages, e, rest, hr, he⟩ | ⟨pages, hr, he⟩
        · refine .inl ⟨page :: pages, e, rest, ?_, ?_⟩
          · simp only [hr, List.map_cons, List.cons_append]
          · simp only [he, Except.map]
        · refine .inr ⟨page :: pages, ?_, ?_⟩
          · simp only [hr, List.map_cons]
          · simp only [he, Except.map]

/-- All these files have been written, in their order; or those before the first that cannot be
written, and the run has failed. -/
def Outcome.Writes (o : Outcome) (t : FileTree) (files : List (Path × List Char)) : Prop :=
  (o.exitCode = 0 ∧ o.written = files) ∨
    o.exitCode = 1 ∧ ∃ p chars rest reason, files = o.written ++ (p, chars) :: rest ∧
      (o.treeAfter t).writeText p chars = .error reason

variable {o : Outcome} {t : FileTree} {files : List (Path × List Char)}

theorem Outcome.stdout_write (o : Outcome) (t : FileTree) (p : Path) (chars : List Char) :
    (o.write t p chars).stdout = o.stdout := by
  unfold write
  split
  · rfl
  · rfl

theorem Outcome.Writes.write (h : o.written = files) (hc : o.exitCode = 0) (p : Path)
    (chars : List Char) : (o.write t p chars).Writes t (files ++ [(p, chars)]) := by
  unfold Outcome.write
  cases hw : (o.treeAfter t).writeText p chars with
  | ok t' => exact .inl ⟨hc, by rw [h]⟩
  | error reason => exact .inr ⟨rfl, p, chars, [], reason, by rw [← h]; rfl, hw⟩

theorem Outcome.Writes.more (h : o.Writes t files) (hc : o.exitCode ≠ 0)
    (more : List (Path × List Char)) : o.Writes t (files ++ more) := by
  rcases h with ⟨hc', -⟩ | ⟨he, p, chars, rest, reason, hf, hw⟩
  · exact absurd hc' hc
  · exact .inr ⟨he, p, chars, rest ++ more, reason, by rw [hf]; simp, hw⟩

def Job.wanted (j : Job) (pages styles : List Char) : List (Path × List Char) :=
  (j.output.map (·, pages)).toList ++ (j.stylesOutput.map (·, styles)).toList

def Job.deliverPages (j : Job) (t : FileTree) (text : List Char) : Outcome :=
  match j.output with
  | some p => Outcome.silent.write t p text
  | none => { Outcome.silent with stdout := text ++ ['\n'] }

theorem Job.deliverPages_ok (j : Job) (t : FileTree) (text : List Char) :
    (j.deliverPages t text).stdout = (if j.output.isSome then [] else text ++ ['\n']) ∧
      (j.deliverPages t text).Writes t (j.output.map (·, text)).toList := by
  unfold deliverPages
  cases j.output with
  | none => exact ⟨rfl, .inl ⟨rfl, rfl⟩⟩
  | some p => exact ⟨Outcome.stdout_write _ t p text, .write rfl rfl p text⟩

theorem Job.deliver_eq (j : Job) (t : FileTree) (s : Session) (pages : List (List Char)) :
    j.deliver t s (.ok pages) =
      let o := j.deliverPages t (joinWith ['\n'] pages)
      match o.exitCode, j.stylesOutput with
      | 0, some p => o.write t p (s.bundleStylesheets t.workPath)
      | _, _ => o := rfl

theorem Job.deliver_ok (j : Job) (t : FileTree) (s : Session) (pages : List (List Char)) :
    (j.deliver t s (.ok pages)).stdout =
        (if j.output.isSome then [] else joinWith ['\n'] pages ++ ['\n']) ∧
      (j.deliver t s (.ok pages)).Writes t
        (j.wanted (joinWith ['\n'] pages) (s.bundleStylesheets t.workPath)) := by
  obtain ⟨hstdout, hwrites⟩ := j.deliverPages_ok t (joinWith ['\n'] pages)
  rw [deliver_eq, wanted]
  generalize j.deliverPages t (joinWith ['\n'] pages) = o at hstdout hwrites ⊢
  simp only
  split
  · rename_i q hc hs
    have hwritten : o.written = (j.output.map (·, joinWith ['\n'] pages)).toList := by
      rcases hwrites with ⟨-, hw⟩ | ⟨he, -⟩
      · exact hw
      · omega
    rw [hs]
    exact ⟨(Outcome.stdout_write o t q _).trans hstdout, .write hwritten hc q _⟩
  · rename_i hno
    refine ⟨hstdout, ?_⟩
    cases hs : j.stylesOutput with
    | none => rwa [Option.map_none, Option.toList_none, List.append_nil]
    | some q => exact hwrites.more (fun hc => hno q hc hs) _

/-- A run gives the same in all sessions of one configuration, whatever they were asked for before. If
an input does not compile, it prints nothing but the error and writes nothing. Else the pages, joined
by newlines, are printed or written, and only a file that cannot be written is a failure. -/
theorem run_all_or_nothing (j : Job) (t : FileTree) {s s' : Session} (h : s.options = s'.options)
    (steps : List SessionStep) :
    j.run t (s.after steps) = j.run t s' ∧
      let first := Session.start s.options
      let o := (j.run t s').1
      (∃ (pages : List (List Char)) (e : CompileError), ∃ rest,
        first.results t j.inputs = pages.map .ok ++ .error e :: rest ∧
          o = ⟨1, [], e.report t ++ ['\n'], []⟩) ∨
      ∃ pages : List (List Char), first.results t j.inputs = pages.map .ok ∧
        o.stdout = (if j.output.isSome then [] else joinWith ['\n'] pages ++ ['\n']) ∧
        o.Writes t (j.wanted (joinWith ['\n'] pages)
          ((first.compileEach t j.inputs).bundleStylesheets t.workPath)) := by
  have hstart : ∀ s : Session, j.run t s =
      (j.deliver t ((Session.start s.options).compileFiles t j.inputs).2
        ((Session.start s.options).compileFiles t j.inputs).1,
        ((Session.start s.options).compileFiles t j.inputs).2) := fun s => by
    rw [Job.run, s.reset_eq_start]
  refine ⟨by rw [hstart, hstart, Session.options_after, h], ?_⟩
  intro first o
  have ho : o =
      j.deliver t (first.compileFiles t j.inputs).2 (first.compileFiles t j.inputs).1 := by
    unfold o first
    rw [hstart, h]
  rcases first.compileFiles_eq t j.inputs with ⟨pages, e, rest, hr, he⟩ | ⟨pages, hr, he⟩
  · refine .inl ⟨pages, e, rest, hr, ?_⟩
    rw [ho, he]
    rfl
  · refine .inr ⟨pages, hr, ?_⟩
    rw [ho, he]
    exact j.deliver_ok t _ pages

/-- Two pages, in a session that could not read one of them before, and in one that has counted. -/
theorem run_all_or_nothing_pages :
    let tree (q : Content) : FileTree :=
      ⟨[([['p']], .file (.text ['a']) 0), ([['q']], .file q 0)], [], rfl⟩
    let t := tree (.text ['b'])
    let j : Job := ⟨[⟨"/p".toList⟩, ⟨"/q".toList⟩], none, none, none, .standard⟩
    let s := (Session.start .standard).after [.compile (tree (.binary [])) ⟨"/q".toList⟩]
    let s' : Session := { Session.start .standard with next := 7 }
    j.run t s = j.run t s' ∧ (j.run t s').1.stdout = "a\nb\n".toList := by
  intro tree t j s s'
  have ho : (Session.start .standard).options = s'.options := rfl
  obtain ⟨hsame, hrun⟩ :=
    run_all_or_nothing j t ho [.compile (tree (.binary [])) ⟨"/q".toList⟩]
  refine ⟨hsame, ?_⟩
  have hresults : (Session.start .standard).results t j.inputs = [.ok ['a'], .ok ['b']] := by
    unfold t j tree
    cbv
  rcases hrun with ⟨pages, e, rest, hr, -⟩ | ⟨pages, hr, hstdout, -⟩
  · have he : (.error e : Except CompileError (List Char)) ∈ [.ok ['a'], .ok ['b']] := by
      rw [← hresults]
      exact hr ▸ List.mem_append_right _ List.mem_cons_self
    simp at he
  · have hpages : pages = [['a'], ['b']] := by
      have hmap : [['a'], ['b']].map Except.ok = pages.map Except.ok := hresults.symm.trans hr
      exact (List.map_injective_iff.2 (fun _ _ h => Except.ok.inj h) hmap).symm
    rw [hstdout, hpages]
    rfl

end ComponentMarkup
