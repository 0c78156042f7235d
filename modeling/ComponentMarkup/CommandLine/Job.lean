import ComponentMarkup.CommandLine.Arguments
import ComponentMarkup.Report
import ComponentMarkup.Session
import ComponentMarkup.Settings

/-!
A job: what to compile and where the results go, from the command line and the settings of the
project. A run of a job writes nothing unless all its inputs compile.
-/

set_option autoImplicit false

namespace ComponentMarkup

structure Job where
  /-- Compiled in this order. -/
  inputs : List Path
  output : Option Path
  stylesOutput : Option Path
  watch : Option Path
  options : CompileOptions
  deriving DecidableEq, Repr

/-- The command line comes before the settings. -/
def Job.of (a : Arguments) (s : Settings) : Job where
  inputs := a.inputs
  output := a.output.or s.output
  stylesOutput := a.stylesOutput.or s.stylesOutput
  watch := a.watch.or s.watch
  options :=
    ⟨(a.includeDir.or s.includeDir).getD CompileOptions.standard.includeDir, a.minify || s.minify⟩

/-- What a run leaves behind: the texts it prints and the files it has written, in this order. -/
structure Outcome where
  exitCode : Nat
  stdout : List Char
  stderr : List Char
  written : List (Path × List Char)
  deriving DecidableEq, Repr

def Outcome.silent : Outcome := ⟨0, [], [], []⟩

def Outcome.fail (o : Outcome) (message : List Char) : Outcome :=
  { o with exitCode := 1, stderr := o.stderr ++ message ++ ['\n'] }

def Outcome.treeAfter (o : Outcome) (t : FileTree) : FileTree :=
  o.written.foldl (fun t w => (t.writeText w.1 w.2).toOption.getD t) t

def Outcome.write (o : Outcome) (t : FileTree) (p : Path) (chars : List Char) : Outcome :=
  match (o.treeAfter t).writeText p chars with
  | .ok _ => { o with written := o.written ++ [(p, chars)] }
  | .error reason =>
    o.fail ("Error writing file ".toList ++ quoted p.chars ++ ": ".toList ++ reason.message)

def Session.compileFiles (s : Session) (t : FileTree) :
    List Path → Except CompileError (List (List Char)) × Session
  | [] => (.ok [], s)
  | p :: ps =>
    match s.compileFile t p with
    | (.error e, s) => (.error e, s)
    | (.ok page, s) =>
      let (pages, s) := s.compileFiles t ps
      (pages.map (page :: ·), s)

def Job.deliver (j : Job) (t : FileTree) (s : Session) :
    Except CompileError (List (List Char)) → Outcome
  | .error e => Outcome.silent.fail (e.report t)
  | .ok pages =>
    let text := joinWith ['\n'] pages
    let o := match j.output with
      | some p => Outcome.silent.write t p text
      | none => { Outcome.silent with stdout := text ++ ['\n'] }
    match o.exitCode, j.stylesOutput with
    | 0, some p => o.write t p (s.bundleStylesheets t.workPath)
    | _, _ => o

/-- Compiles the inputs of a job afresh, in a session that may have compiled before. -/
def Job.run (j : Job) (t : FileTree) (s : Session) : Outcome × Session :=
  let (pages, s) := s.reset.compileFiles t j.inputs
  (j.deliver t s pages, s)

inductive Plan where
  | done (o : Outcome)
  | job (j : Job)
  deriving DecidableEq, Repr

def Arguments.settings (a : Arguments) (t : FileTree) : Except (Path × SettingsError) Settings :=
  match a.config with
  | some p => (t.loadSettings p).mapError fun e => (p, e)
  | none => (t.directorySettings ⟨['.']⟩).mapError fun e => (settingsFile, e)

def Plan.ofRequest (t : FileTree) : Option Request → Plan
  | none => .done { Outcome.silent with exitCode := 2, stderr := usageText }
  | some .help => .done { Outcome.silent with stdout := helpText }
  | some (.run a) =>
    match a.settings t with
    | .error (p, e) =>
      .done (Outcome.silent.fail
        ("Error: loading config ".toList ++ quoted p.chars ++ ": ".toList ++ e.message))
    | .ok s => .job (.of a s)

def Plan.run (t : FileTree) : Plan → Outcome
  | .done o => o
  | .job j => (j.run t (.start j.options)).1

end ComponentMarkup
