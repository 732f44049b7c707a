import CodeGraph.Analysis.Symbols
import CodeGraph.CommandLine.Session
import CodeGraph.Proofs.Analysis.Coverage
import CodeGraph.Proofs.Resolve.FirstMatch
import CodeGraph.Proofs.Service.History
import CodeGraph.Syntax.Grammar

/-!
# Refused commands leave no trace

A command whose root cannot be analysed ends with the exit code 2, and no other command does. The
root is the path of the command from the top and normalised, so that `..` is resolved by name before
anything is looked up: a path that leads nowhere may have a root that is there.

An analysis looks at its root first. Everything after that may fail to read a file or a setting, but
it refuses nothing (`Run.RefusesNothing`), and all effects of a command come later still. So a
refused command has told what it set out to do and why it did not, and this is all that is left of
it (`Session.run_of_refused`).
-/

namespace CodeGraph

/-! ## Runs that refuse nothing -/

namespace Run

variable {α β σ : Type} {r : Run α} {f : α → Run β}

/-- No root or path is refused in a run. It may still fail for another reason. -/
def RefusesNothing (r : Run α) : Prop :=
  ∀ e, r.outcome ≠ .error (.analysis e)

theorem refusesNothing_pure (a : α) : (pure a : Run α).RefusesNothing := by
  intro e h
  cases h

theorem refusesNothing_tell (events : List Event) : (tell events).RefusesNothing := by
  intro e h
  cases h

theorem refusesNothing_ofDisk (r : Except DiskError α) : (ofDisk r).RefusesNothing := by
  intro e h
  cases r <;> cases h

theorem refusesNothing_ofSettings (settings : Except SettingsFault Settings) :
    (ofSettings settings).RefusesNothing := by
  intro e h
  cases settings <;> cases h

theorem RefusesNothing.bind (hr : r.RefusesNothing) (hf : ∀ a, (f a).RefusesNothing) :
    (r >>= f).RefusesNothing := by
  intro e h
  cases houtcome : r.outcome with
  | error failure =>
    simp only [Bind.bind, andThen, houtcome] at h
    exact hr e (houtcome.trans (congrArg Except.error (Except.error.inj h)))
  | ok a =>
    simp only [Bind.bind, andThen, houtcome] at h
    exact hf a e h

theorem refusesNothing_forEach {step : σ → α → Run (β × σ)}
    (h : ∀ s a, (step s a).RefusesNothing) (s : σ) (list : List α) :
    (forEach step s list).RefusesNothing := by
  induction list generalizing s with
  | nil => exact refusesNothing_pure _
  | cons a rest ih =>
    exact (h s a).bind fun _ => (ih _).bind fun _ => refusesNothing_pure _

end Run

open Run

/-! ## What follows the look at the root -/

theorem Context.refusesNothing_runBytes (c : Context) (d : Disk) (path : String) :
    (c.runBytes d path).RefusesNothing :=
  refusesNothing_ofDisk _

theorem Context.refusesNothing_runParse (c : Context) (d : Disk) (path : String) :
    (c.runParse d path).RefusesNothing :=
  (refusesNothing_ofDisk _).bind fun _ => (refusesNothing_tell _).bind fun _ =>
    refusesNothing_pure _

theorem FileRecord.refusesNothing_first (d : Disk) (c : Context) (path : String) :
    (first d c path).RefusesNothing := by
  refine (c.refusesNothing_runBytes d path).bind fun ⟨data, next⟩ => ?_
  dsimp only
  split
  · exact refusesNothing_pure _
  · refine (next.refusesNothing_runParse d path).bind fun ⟨p, _⟩ => ?_
    cases p <;> exact refusesNothing_pure _

theorem FileRecord.refusesNothing_second (d : Disk) (extensions : List String) (c : Context)
    (r : FileRecord) : (second d extensions c r).RefusesNothing := by
  unfold second
  split
  · exact refusesNothing_pure _
  · refine (c.refusesNothing_runParse d r.path).bind fun ⟨p, _⟩ => ?_
    cases p <;> exact refusesNothing_pure _

theorem refusesNothing_collectRecords (before after : Disk) (settings : Settings) (c : Context) :
    (collectRecords before after settings c).RefusesNothing :=
  (refusesNothing_forEach (FileRecord.refusesNothing_first before) _ _).bind fun _ =>
    (refusesNothing_forEach (FileRecord.refusesNothing_second after _) _ _).bind fun _ =>
      (refusesNothing_tell _).bind fun _ => refusesNothing_pure _

theorem refusesNothing_fileSymbols (d : Disk) (settings : Except SettingsFault Settings)
    (c : Context) (path : String) : (fileSymbols d settings c path).RefusesNothing := by
  refine (c.refusesNothing_runParse d path).bind fun ⟨p, _⟩ => ?_
  cases p with
  | ok m => exact (refusesNothing_ofSettings settings).bind fun _ => refusesNothing_pure _
  | error u => exact (refusesNothing_tell _).bind fun _ => refusesNothing_pure _

theorem refusesNothing_collectSymbols (d : Disk) (settings : Except SettingsFault Settings)
    (c : Context) (files : List String) : (collectSymbols d settings c files).RefusesNothing :=
  (refusesNothing_forEach (refusesNothing_fileSymbols d settings) _ _).bind fun _ =>
    refusesNothing_pure _

/-! ## The look at the root -/

theorem Path.absolute_absolute {cwd : String} (h : isRooted cwd = true) (path : String) :
    absolute cwd (absolute cwd path) = absolute cwd path :=
  (isNormal_normalize (isRooted_join h path)).absolute_eq cwd

section Root

/-- Why a root that is no directory is refused. -/
def refusal (d : Disk) (root : String) : AnalysisError :=
  if d.pathExists root then .notDirectory root else .missing root

variable {d : Disk} {root : String} (hroot : Path.absolute d.cwd root = root) (parser : Parser)
  (settings : Except SettingsFault Settings)

include hroot

theorem ofAnalysis_new_of_refused (h : d.isDirectory root = false) :
    ofAnalysis (Context.new parser d root) = failed (.analysis (refusal d root)) := by
  have hvalid : validateRoot d root = .error (refusal d root) := by
    unfold validateRoot refusal
    dsimp only
    rw [hroot]
    cases hexists : d.pathExists root <;> simp [h]
  rw [Context.new, hvalid]
  rfl

theorem analyzeFiles_of_refused (h : d.isDirectory root = false) :
    analyzeFiles parser d settings root = failed (.analysis (refusal d root)) := by
  rw [analyzeFiles, fileRecords, ofAnalysis_new_of_refused hroot parser h]
  rfl

theorem analyzeSymbols_of_refused (h : d.isDirectory root = false) :
    analyzeSymbols parser d settings root = failed (.analysis (refusal d root)) := by
  rw [analyzeSymbols, ofAnalysis_new_of_refused hroot parser h]
  rfl

theorem refusesNothing_new (h : d.isDirectory root = true) :
    (ofAnalysis (Context.new parser d root)).RefusesNothing := by
  rw [Context.new, validateRoot_of_isDirectory (by rwa [hroot])]
  exact refusesNothing_pure _

theorem refusesNothing_analyzeFiles (h : d.isDirectory root = true) :
    (analyzeFiles parser d settings root).RefusesNothing := by
  have hrecords : (fileRecords parser d settings root).RefusesNothing :=
    (refusesNothing_new hroot parser h).bind fun c =>
      (refusesNothing_ofSettings settings).bind fun s => refusesNothing_collectRecords d d s c
  exact hrecords.bind fun _ => (refusesNothing_tell _).bind fun _ => refusesNothing_pure _

theorem refusesNothing_analyzeSymbols (h : d.isDirectory root = true) :
    (analyzeSymbols parser d settings root).RefusesNothing :=
  (refusesNothing_new hroot parser h).bind fun c =>
    (refusesNothing_ofSettings settings).bind fun _ =>
      (refusesNothing_collectSymbols d settings c _).bind fun _ =>
        (refusesNothing_tell _).bind fun _ => refusesNothing_pure _

end Root

/-! ## Commands -/

/-- The root that a command analyses, as it takes it. Serving analyses none without a path, and an
empty path is none. -/
def Command.root? (cwd : String) : Command → Option String
  | .analyze path _ _ => some (Path.absolute cwd path)
  | .symbols path _ => some (Path.absolute cwd path)
  | .serve path _ _ _ => (path.filter (fun p => !p.isEmpty)).map (Path.absolute cwd)

namespace Session

/-- The end of a command whose root is refused. -/
def refused (s : Session) (opening : Message) (e : AnalysisError) : Ending × Session :=
  (.ok 2, s.tell [opening, ⟨source, .error, e.message⟩])

variable (s : Session) (parser : Parser) (settings : Except SettingsFault Settings)
  (path output : String)

/-- With a path, serving goes on after an analysis as the other commands do. -/
theorem serve_of_given (h : path.isEmpty = false) (host : String) (port : Int) (reload : Bool) :
    s.serve parser settings (some path) host port reload =
      ({ s with
          service :=
            (s.service.load parser s.disk settings (Path.absolute s.disk.cwd path)).2 }.tell
        [⟨serviceSource, .info, "Analyzing: " ++ Path.absolute s.disk.cwd path⟩]).conclude
        (analyzeFiles parser s.disk settings (Path.absolute s.disk.cwd path))
        (fun s graph => s.startLoaded host port reload graph) := by
  have hgiven : (some path).filter (fun p => !p.isEmpty) = some path := by simp [h]
  unfold serve
  rw [hgiven]
  dsimp only [tell]
  cases houtcome :
      (analyzeFiles parser s.disk settings (Path.absolute s.disk.cwd path)).outcome with
  | ok graph => rw [Service.load_of_ok houtcome]
  | error failure => rw [Service.load_of_error houtcome]

/-! ### Roots that are no directories -/

theorem conclude_failed {α : Type} (opening : Message) (e : AnalysisError)
    (use : Session → α → Ending × Session) :
    (s.tell [opening]).conclude (failed (.analysis e)) use = s.refused opening e := by
  simp [conclude, failed, tellEvents, fail, tell, refused]

/-- A command whose root is no directory tells what it set out to do and why it did not. -/
theorem run_of_refused {command : Command} {root : String}
    (hroot : command.root? s.disk.cwd = some root) (h : s.disk.isDirectory root = false) :
    ∃ opening, s.run parser settings command = s.refused opening (refusal s.disk root) := by
  have habsolute := Path.absolute_absolute s.disk.rooted
  cases command with
  | analyze path output top =>
    obtain rfl := Option.some.inj hroot
    rw [run, analyze, analyzeFiles_of_refused (habsolute path) parser settings h]
    exact ⟨_, s.conclude_failed _ _ _⟩
  | symbols path output =>
    obtain rfl := Option.some.inj hroot
    rw [run, symbols, analyzeSymbols_of_refused (habsolute path) parser settings h]
    exact ⟨_, s.conclude_failed _ _ _⟩
  | serve path host port reload =>
    obtain ⟨p, hp, rfl⟩ := Option.map_eq_some_iff.mp hroot
    obtain ⟨rfl, hne⟩ := Option.filter_eq_some_iff.mp hp
    have hanalysis := analyzeFiles_of_refused (habsolute p) parser settings h
    have hkept := s.service.load_of_error (congrArg Run.outcome hanalysis)
    rw [run, serve_of_given s parser settings p (by simpa using hne), hkept, hanalysis]
    exact ⟨_, s.conclude_failed _ _ _⟩

/-! ### Roots that are directories -/

theorem fst_fail_ne {failure : Failure} (h : ∀ e, failure ≠ .analysis e) :
    (s.fail failure).1 ≠ .ok 2 := by
  cases failure with
  | analysis e => exact absurd rfl (h e)
  | disk e => simp [fail]
  | settings fault => simp [fail]

theorem fst_deliver_ne (text : String) : (s.deliver text output).1 ≠ .ok 2 := by
  unfold deliver
  split
  · simp
  · split
    · simp
    · exact s.fst_fail_ne (by simp)

theorem fst_startServer_ne (host : String) (port : Int) (reload : Bool) :
    (s.startServer host port reload).1 ≠ .ok 2 := by
  simp [startServer]

theorem fst_conclude_ne {α : Type} {analysis : Run α} (h : analysis.RefusesNothing)
    {use : Session → α → Ending × Session} (huse : ∀ after a, (use after a).1 ≠ .ok 2) :
    (s.conclude analysis use).1 ≠ .ok 2 := by
  unfold conclude
  split
  · rename_i failure hfailure
    exact fst_fail_ne _ fun e he => h e (he ▸ hfailure)
  · exact huse _ _

/-- A command that has no root, or one that is a directory, is not refused. -/
theorem fst_run_ne {command : Command}
    (h : ∀ root, command.root? s.disk.cwd = some root → s.disk.isDirectory root = true) :
    (s.run parser settings command).1 ≠ .ok 2 := by
  have habsolute := Path.absolute_absolute s.disk.rooted
  cases command with
  | analyze path output top =>
    rw [run, analyze]
    exact fst_conclude_ne _ (refusesNothing_analyzeFiles (habsolute path) parser settings (h _ rfl))
      fun _ _ => fst_deliver_ne _ _ _
  | symbols path output =>
    rw [run, symbols]
    exact fst_conclude_ne _
      (refusesNothing_analyzeSymbols (habsolute path) parser settings (h _ rfl))
      fun _ _ => fst_deliver_ne _ _ _
  | serve path host port reload =>
    cases hgiven : path.filter (fun p => !p.isEmpty) with
    | none =>
      rw [run, serve, hgiven]
      exact fst_startServer_ne _ _ _ _
    | some p =>
      have hroot := h _ (congrArg (Option.map (Path.absolute s.disk.cwd)) hgiven)
      obtain ⟨rfl, hne⟩ := Option.filter_eq_some_iff.mp hgiven
      rw [run, serve_of_given s parser settings p (by simpa using hne)]
      exact fst_conclude_ne _ (refusesNothing_analyzeFiles (habsolute p) parser settings hroot)
        fun _ _ => fst_startServer_ne _ _ _ _

/-- An analysis that ends well and is to be printed is printed. -/
theorem fst_analyze_printed (top : Int) {graph : FileGraph}
    (h : (analyzeFiles parser s.disk settings (Path.absolute s.disk.cwd path)).outcome =
      .ok graph) : (s.analyze parser settings path "-" top).1 = .ok 0 := by
  unfold analyze conclude
  dsimp only
  rw [h]
  rfl

end Session

/-! ## Command lines -/

theorem runCommandLine_eq {env : Environment} {args : List String} {settings : Settings}
    {invocation : Invocation} (hsettings : Settings.ofEnvironment env = .ok settings)
    (hargs : Invocation.ofArguments settings args = .ok invocation) (parser : Parser)
    (session : Session) :
    runCommandLine parser session env args =
      .ran (session.run parser (.ok settings) invocation.command).1
        ((Log.untouched []).configure none invocation.logLevel settings.logLevel)
        (session.run parser (.ok settings) invocation.command).2 := by
  simp only [runCommandLine, hsettings, hargs]

/-- **A refused command leaves no trace.** A command line that is accepted runs its command, and the
command ends with the exit code 2 exactly if it analyses a root, its path from the top and
normalised, that does not exist or is no directory. Then no file has changed, nothing has been
printed, no server has been started, and the service holds what it held. What was told is the start
and the reason of the end. -/
theorem refused_without_trace {env : Environment} {args : List String} {settings : Settings}
    {invocation : Invocation} (hsettings : Settings.ofEnvironment env = .ok settings)
    (hargs : Invocation.ofArguments settings args = .ok invocation) (parser : Parser)
    (session : Session) :
    ∃ ending log after, runCommandLine parser session env args = .ran ending log after ∧
      (ending = .ok 2 ↔ ∃ root, invocation.command.root? session.disk.cwd = some root ∧
        (session.disk.pathExists root = false ∨ session.disk.isDirectory root = false)) ∧
      (ending = .ok 2 → after.disk = session.disk ∧ after.output = session.output ∧
        after.servers = session.servers ∧ after.service = session.service ∧
        ∃ opening reason, after.messages =
          session.messages ++ [opening, ⟨Session.source, .error, reason⟩]) := by
  refine ⟨_, _, _, runCommandLine_eq hsettings hargs parser session, ?_⟩
  by_cases hrefused : ∃ root, invocation.command.root? session.disk.cwd = some root ∧
      session.disk.isDirectory root = false
  · obtain ⟨root, hroot, h⟩ := hrefused
    obtain ⟨opening, hrun⟩ := session.run_of_refused parser (.ok settings) hroot h
    rw [hrun]
    exact ⟨⟨fun _ => ⟨root, hroot, Or.inr h⟩, fun _ => rfl⟩,
      fun _ => ⟨rfl, rfl, rfl, rfl, opening, _, rfl⟩⟩
  · have haccepted (root : String) (hroot : invocation.command.root? session.disk.cwd = some root) :
        session.disk.isDirectory root = true := by
      simpa using fun h => hrefused ⟨root, hroot, h⟩
    have hne := session.fst_run_ne parser (.ok settings) haccepted
    refine ⟨⟨fun h => absurd h hne, ?_⟩, fun h => absurd h hne⟩
    rintro ⟨root, hroot, hmissing | hother⟩
    · rw [session.disk.pathExists_of_isDirectory (haccepted root hroot)] at hmissing
      cases hmissing
    · rw [haccepted root hroot] at hother
      cases hother

/-- A session in a directory with one file. Something has been printed, and a graph is held. -/
def usedSession : Session where
  disk := ⟨.directory [("k", .directory [("a.js", .file [])])], "/k", rfl⟩
  service := ⟨some ⟨"/k", FileGraph.assemble []⟩⟩
  output := "ok\n"
  messages := []
  servers := []

/-- Serving a file in place of a directory is refused, and the graph that was held is still held. -/
theorem usedSession_serve_file :
    Settings.ofEnvironment [] = .ok .standard ∧
      Invocation.ofArguments .standard ["serve", "./a.js", "--reload"] =
        .ok ⟨none, .serve (some "./a.js") "127.0.0.1" 42069 true⟩ ∧
      ∃ log after, runCommandLine parseText usedSession [] ["serve", "./a.js", "--reload"] =
          .ran (.ok 2) log after ∧
        after.disk = usedSession.disk ∧ after.output = "ok\n" ∧ after.servers = [] ∧
        after.service = usedSession.service := by
  have hsettings : Settings.ofEnvironment [] = .ok .standard := rfl
  have hargs : Invocation.ofArguments .standard ["serve", "./a.js", "--reload"] =
      .ok ⟨none, .serve (some "./a.js") "127.0.0.1" 42069 true⟩ := by decide
  have hroot : (Command.serve (some "./a.js") "127.0.0.1" 42069 true).root? usedSession.disk.cwd =
      some "/k/a.js" := by decide
  have hfile : usedSession.disk.isDirectory "/k/a.js" = false := by decide
  obtain ⟨ending, log, after, hran, htwo, htrace⟩ :=
    refused_without_trace hsettings hargs parseText usedSession
  obtain rfl := htwo.mpr ⟨_, hroot, Or.inr hfile⟩
  obtain ⟨hdisk, houtput, hservers, hservice, -⟩ := htrace rfl
  exact ⟨hsettings, hargs, log, after, hran, hdisk, houtput, hservers, hservice⟩

/-- A path that leads through a missing directory and up again does not exist, but its root is the
directory around it, and the analysis is printed. -/
theorem missing_detour_accepted :
    Settings.ofEnvironment [] = .ok .standard ∧
      Invocation.ofArguments .standard
          ["--log-level", "CRITICAL", "analyze", "nope/..", "-o", "-"] =
        .ok ⟨some "CRITICAL", .analyze "nope/.." "-" 5⟩ ∧
      usedSession.disk.pathExists "nope/.." = false ∧
      ∃ log after, runCommandLine parseText usedSession []
          ["--log-level", "CRITICAL", "analyze", "nope/..", "-o", "-"] =
        .ran (.ok 0) log after := by
  have hsettings : Settings.ofEnvironment [] = .ok .standard := rfl
  have hargs : Invocation.ofArguments .standard
        ["--log-level", "CRITICAL", "analyze", "nope/..", "-o", "-"] =
      .ok ⟨some "CRITICAL", .analyze "nope/.." "-" 5⟩ := by decide
  have hroot : usedSession.disk.isDirectory (Path.absolute usedSession.disk.cwd
      (Path.absolute usedSession.disk.cwd "nope/..")) = true := by decide
  have hread : ∀ path ∈ scan usedSession.disk (Settings.standard.scanRules true)
      (Path.absolute usedSession.disk.cwd (Path.absolute usedSession.disk.cwd "nope/..")),
      usedSession.disk.read (Path.join (Path.absolute usedSession.disk.cwd
        (Path.absolute usedSession.disk.cwd "nope/..")) path) = .ok [] := by
    decide
  have hran := runCommandLine_eq hsettings hargs parseText usedSession
  have hending := usedSession.fst_analyze_printed parseText (.ok .standard) "nope/.." 5
    (analyzeFiles_of_readable parseText hroot hread)
  exact ⟨hsettings, hargs, by decide, _, _, hran.trans (by rw [Session.run, hending])⟩

end CodeGraph
