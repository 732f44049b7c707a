import CodeGraph.Proofs.Analysis.Coverage
import CodeGraph.Service

/-!
# The service shows the last analysis that succeeded

Requests come one after the other, and between them the disk and the settings may change at will: a
request comes at a `Moment`. A run of the service leaves a log of exchanges, each a request with the
answer it was given. What one request can do is said once (`step_cases`): an analysis that succeeds
puts its root and its graph in the place of what was held, and nothing else changes anything. So
after any run the service holds what the last successful analysis of the log gave (`shows_run`).
-/

namespace CodeGraph

/-- A request, and the parser, disk and settings that it meets. -/
structure Moment where
  parser : Parser
  disk : Disk
  settings : Except SettingsFault Settings
  request : Request

/-- A request and its answer. -/
structure Exchange where
  moment : Moment
  response : Except Failure Response

namespace Exchange

/-- Is it an analysis that succeeded? -/
def isLoaded (x : Exchange) : Bool :=
  match x.moment.request, x.response with
  | .analyze _, .ok response => response.status == 200
  | _, _ => false

/-- The analysis that was asked for gave this root and this graph: the root is the one that the
request names, the graph is that of the root, and it was the answer. -/
def Gives (x : Exchange) (latest : Latest) : Prop :=
  ∃ body path, x.moment.request = .analyze body ∧ Service.bodyPath body = .valid path ∧
    latest.root = Service.targetRoot x.moment.disk path none ∧
    (analyzeFiles x.moment.parser x.moment.disk x.moment.settings latest.root).outcome =
      .ok latest.graph ∧
    x.response = .ok (.ok latest.graph.toJson)

theorem Gives.isLoaded {x : Exchange} {latest : Latest} (h : x.Gives latest) :
    x.isLoaded = true := by
  obtain ⟨body, path, hrequest, -, -, -, hresponse⟩ := h
  rw [Exchange.isLoaded, hrequest, hresponse]
  rfl

theorem Gives.unique {x : Exchange} {latest other : Latest} (h : x.Gives latest)
    (h' : x.Gives other) : latest = other := by
  obtain ⟨root, graph⟩ := latest
  obtain ⟨root', graph'⟩ := other
  obtain ⟨body, path, hrequest, hpath, hroot, hgraph, -⟩ := h
  obtain ⟨body', path', hrequest', hpath', hroot', hgraph', -⟩ := h'
  obtain rfl : body = body' := Request.analyze.inj (hrequest.symm.trans hrequest')
  obtain rfl : path = path' := Checked.valid.inj (hpath.symm.trans hpath')
  obtain rfl : root = root' := hroot.trans hroot'.symm
  obtain rfl : graph = graph' := Except.ok.inj (hgraph.symm.trans hgraph')
  rfl

end Exchange

namespace Service

/-! ## One request -/

/-- What a request is answered at a moment. -/
def exchange (s : Service) (m : Moment) : Exchange :=
  ⟨m, (s.handle m.parser m.disk m.settings m.request).1⟩

/-- The service after a request. -/
def step (s : Service) (m : Moment) : Service :=
  (s.handle m.parser m.disk m.settings m.request).2

section Load

variable {parser : Parser} {d : Disk} {settings : Except SettingsFault Settings} {root : String}

theorem load_of_ok {graph : FileGraph}
    (h : (analyzeFiles parser d settings root).outcome = .ok graph) (s : Service) :
    s.load parser d settings root =
      (analyzeFiles parser d settings root, ⟨some ⟨root, graph⟩⟩) := by
  unfold load
  generalize analyzeFiles parser d settings root = analysis at h ⊢
  obtain ⟨events, outcome⟩ := analysis
  cases h
  rfl

theorem load_of_error {failure : Failure}
    (h : (analyzeFiles parser d settings root).outcome = .error failure) (s : Service) :
    s.load parser d settings root = (analyzeFiles parser d settings root, s) := by
  unfold load
  generalize analyzeFiles parser d settings root = analysis at h ⊢
  obtain ⟨events, outcome⟩ := analysis
  cases h
  rfl

theorem handle_analyze {body : Json} {path : Option String} (h : bodyPath body = .valid path)
    (s : Service) (parser : Parser) (d : Disk) (settings : Except SettingsFault Settings) :
    s.handle parser d settings (.analyze body) =
      (answer (s.load parser d settings (targetRoot d path none)).1.outcome FileGraph.toJson,
        (s.load parser d settings (targetRoot d path none)).2) := by
  rw [handle, h]

/-- An analysis that ends well is the answer, and is held from then on. -/
theorem analyze_of_ok {body : Json} {path : Option String} {graph : FileGraph}
    (hpath : bodyPath body = .valid path)
    (hrun : (analyzeFiles parser d settings (targetRoot d path none)).outcome = .ok graph)
    (s : Service) :
    (s.exchange ⟨parser, d, settings, .analyze body⟩).Gives ⟨targetRoot d path none, graph⟩ ∧
      s.step ⟨parser, d, settings, .analyze body⟩ = ⟨some ⟨targetRoot d path none, graph⟩⟩ := by
  have hhandle := handle_analyze hpath s parser d settings
  rw [load_of_ok hrun, hrun] at hhandle
  exact ⟨⟨body, path, rfl, hpath, rfl, hrun, congrArg Prod.fst hhandle⟩, congrArg Prod.snd hhandle⟩

end Load

/-- A request for an analysis succeeds exactly if the analysis ends well. -/
theorem step_analyze (s : Service) (parser : Parser) (d : Disk)
    (settings : Except SettingsFault Settings) (body : Json) :
    (∃ latest, (s.exchange ⟨parser, d, settings, .analyze body⟩).Gives latest ∧
      s.step ⟨parser, d, settings, .analyze body⟩ = ⟨some latest⟩) ∨
    ((s.exchange ⟨parser, d, settings, .analyze body⟩).isLoaded = false ∧
      s.step ⟨parser, d, settings, .analyze body⟩ = s) := by
  cases hpath : bodyPath body with
  | faulty defects =>
    refine Or.inr ⟨?_, ?_⟩
    · simp only [Exchange.isLoaded, exchange, handle, hpath]
      rfl
    · simp only [step, handle, hpath]
  | valid path =>
    cases hrun : (analyzeFiles parser d settings (targetRoot d path none)).outcome with
    | ok graph => exact Or.inl ⟨_, analyze_of_ok hpath hrun s⟩
    | error failure =>
      have hhandle := handle_analyze hpath s parser d settings
      rw [load_of_error hrun, hrun] at hhandle
      refine Or.inr ⟨?_, congrArg Prod.snd hhandle⟩
      rw [exchange, Exchange.isLoaded, hhandle]
      cases failure <;> rfl

/-- **What one request does.** An analysis that succeeds is what is held from then on; after any
other request the service is as before. -/
theorem step_cases (s : Service) (m : Moment) :
    ((s.exchange m).isLoaded = true ∧
      ∃ latest, (s.exchange m).Gives latest ∧ s.step m = ⟨some latest⟩) ∨
    ((s.exchange m).isLoaded = false ∧ s.step m = s) := by
  obtain ⟨parser, d, settings, request⟩ := m
  cases request with
  | analyze body =>
    rcases s.step_analyze parser d settings body with ⟨latest, hgives, hstep⟩ | hkept
    · exact Or.inl ⟨hgives.isLoaded, latest, hgives, hstep⟩
    · exact Or.inr hkept
  | graph =>
    refine Or.inr ⟨rfl, ?_⟩
    simp only [step, handle]
    cases s.latest <;> rfl
  | symbols body =>
    refine Or.inr ⟨rfl, ?_⟩
    simp only [step, handle]
    cases bodyPath body <;> rfl
  | file path =>
    refine Or.inr ⟨rfl, ?_⟩
    cases path <;> rfl

/-! ## Runs -/

/-- The service after some moments. -/
def run (s : Service) (moments : List Moment) : Service :=
  moments.foldl step s

/-- The exchanges of a run. -/
def log (s : Service) : List Moment → List Exchange
  | [] => []
  | m :: rest => s.exchange m :: log (s.step m) rest

theorem log_concat (s : Service) (moments : List Moment) (m : Moment) :
    s.log (moments ++ [m]) = s.log moments ++ [(s.run moments).exchange m] := by
  induction moments generalizing s with
  | nil => rfl
  | cons first rest ih =>
    rw [List.cons_append, log, ih]
    rfl

theorem run_concat (s : Service) (moments : List Moment) (m : Moment) :
    s.run (moments ++ [m]) = (s.run moments).step m :=
  List.foldl_concat ..

/-- The last analysis of a log that succeeded. -/
def lastLoaded? (log : List Exchange) : Option Exchange :=
  (log.filter Exchange.isLoaded).getLast?

/-- A service shows what the last successful analysis of a log gave. -/
def Shows (log : List Exchange) (s : Service) : Prop :=
  match lastLoaded? log with
  | none => s.latest = none
  | some x => ∃ latest, s.latest = some latest ∧ x.Gives latest

theorem shows_step {log : List Exchange} {s : Service} (h : Shows log s) (m : Moment) :
    Shows (log ++ [s.exchange m]) (s.step m) := by
  rcases s.step_cases m with ⟨hloaded, latest, hgives, hstep⟩ | ⟨hkept, hstep⟩
  · have hlast : lastLoaded? (log ++ [s.exchange m]) = some (s.exchange m) := by
      simp [lastLoaded?, List.filter_append, hloaded]
    rw [Shows, hlast, hstep]
    exact ⟨latest, rfl, hgives⟩
  · have hlast : lastLoaded? (log ++ [s.exchange m]) = lastLoaded? log := by
      simp [lastLoaded?, List.filter_append, hkept]
    rw [Shows, hlast, hstep]
    exact h

theorem shows_run (moments : List Moment) : Shows (empty.log moments) (empty.run moments) := by
  induction moments using List.reverseRecOn with
  | nil => rfl
  | append_singleton moments m ih =>
    rw [log_concat, run_concat]
    exact shows_step ih m

theorem Shows.latest_eq_none_iff {log : List Exchange} {s : Service} (h : Shows log s) :
    s.latest = none ↔ ∀ x ∈ log, x.isLoaded = false := by
  have hnone : lastLoaded? log = none ↔ ∀ x ∈ log, x.isLoaded = false := by simp [lastLoaded?]
  rw [← hnone]
  unfold Shows at h
  split at h
  · rename_i hlast
    exact iff_of_true h hlast
  · rename_i x hlast
    obtain ⟨latest, hlatest, -⟩ := h
    simp [hlast, hlatest]

theorem Shows.latest_eq_some_iff {log : List Exchange} {s : Service} (h : Shows log s)
    (latest : Latest) :
    s.latest = some latest ↔ ∃ x, lastLoaded? log = some x ∧ x.Gives latest := by
  unfold Shows at h
  split at h
  · rename_i hlast
    simp [h, hlast]
  · rename_i x hlast
    obtain ⟨shown, hshown, hgives⟩ := h
    rw [hshown]
    constructor
    · intro heq
      exact ⟨x, hlast, Option.some.inj heq ▸ hgives⟩
    · rintro ⟨y, hy, hother⟩
      obtain rfl : x = y := Option.some.inj (hlast.symm.trans hy)
      rw [hgives.unique hother]

/-- A request that names no root means the one that is held, or the working directory. -/
theorem targetRoot_of_unnamed {path : Option String} (h : path.getD "" = "") (d : Disk)
    (held : Option String) : targetRoot d path held = held.getD d.cwd := by
  cases path with
  | none => rfl
  | some p =>
    obtain rfl : p = "" := h
    rfl

/-- **The service shows the last complete analysis.** After any requests, the disk changing between
them, the service holds nothing exactly if no analysis has succeeded, and otherwise the root and the
graph that the last successful analysis gave. The graph is what is shown; a request that is no
successful analysis leaves the service as it is; symbols are looked up in the root that is held, or
in the working directory, if the request names none. -/
theorem holds_last_success (moments : List Moment) :
    ((empty.run moments).latest = none ↔ ∀ x ∈ empty.log moments, x.isLoaded = false) ∧
    (∀ latest, (empty.run moments).latest = some latest ↔
      ∃ x, lastLoaded? (empty.log moments) = some x ∧ x.Gives latest) ∧
    (∀ parser d settings, ((empty.run moments).handle parser d settings .graph).1 =
      .ok (((empty.run moments).latest.map (fun latest => .ok latest.graph.toJson)).getD
        .nothingLoaded)) ∧
    (∀ m, ((empty.run moments).exchange m).isLoaded = false →
      (empty.run moments).step m = empty.run moments) ∧
    ∀ parser d settings body path, bodyPath body = .valid path → path.getD "" = "" →
      ((empty.run moments).handle parser d settings (.symbols body)).1 =
        answer (analyzeSymbols parser d settings
          (((empty.run moments).latest.map (·.root)).getD d.cwd)).outcome SymbolGraph.toJson := by
  have hshows := shows_run moments
  refine ⟨hshows.latest_eq_none_iff, hshows.latest_eq_some_iff,
    fun parser d settings => ?_, fun m hkept => ?_,
    fun parser d settings body path hbody hpath => ?_⟩
  · simp only [handle]
    cases (empty.run moments).latest <;> rfl
  · rcases (empty.run moments).step_cases m with ⟨hloaded, -⟩ | ⟨-, hstep⟩
    · rw [hkept] at hloaded
      cases hloaded
    · exact hstep
  · simp only [handle, hbody, targetRoot_of_unnamed hpath]

/-- An analysis of a page and its broken script, on a disk where nothing else is. -/
def firstLoad : Moment :=
  ⟨parseText, brokenScriptDisk, .ok .standard, .analyze (.object [])⟩

/-- After it, an analysis of a directory that is not there. -/
def missingLoad : Moment :=
  ⟨parseText, brokenScriptDisk, .ok .standard, .analyze (.object [("path", .string "nowhere")])⟩

/-- The missing directory changes nothing, and symbols without a path are those of the root that is
held, on a disk with another working directory too. -/
theorem first_load_kept :
    (∃ graph, (empty.run [firstLoad]).latest = some ⟨"/site", graph⟩ ∧
      (analyzeFiles parseText brokenScriptDisk (.ok .standard) "/site").outcome = .ok graph) ∧
    ((empty.run [firstLoad]).exchange missingLoad).isLoaded = false ∧
    (empty.run [firstLoad]).step missingLoad = empty.run [firstLoad] ∧
    ((empty.run [firstLoad]).handle parseText ⟨.directory [], "/", rfl⟩ (.ok .standard)
        (.symbols (.object []))).1 =
      answer (analyzeSymbols parseText ⟨.directory [], "/", rfl⟩ (.ok .standard) "/site").outcome
        SymbolGraph.toJson := by
  obtain ⟨-, hlatest, -, hkept, hsymbols⟩ := holds_last_success [firstLoad]
  have htop : Path.absolute brokenScriptDisk.cwd "/site" = "/site" := by decide
  have hplace :
      brokenScriptDisk.isDirectory (Path.absolute brokenScriptDisk.cwd "/site") = true := by
    decide
  obtain ⟨graph, hgraph⟩ : ∃ graph,
      (analyzeFiles parseText brokenScriptDisk (.ok .standard) "/site").outcome = .ok graph :=
    ⟨_, analyzeFiles_of_readable parseText hplace (by rw [htop]; exact read_brokenScriptDisk)⟩
  have hpath : bodyPath (.object []) = .valid none := rfl
  have hgives : (empty.exchange firstLoad).Gives ⟨"/site", graph⟩ :=
    (analyze_of_ok hpath hgraph empty).1
  have hlast : lastLoaded? (empty.log [firstLoad]) = some (empty.exchange firstLoad) := by
    simp [lastLoaded?, log, hgives.isLoaded]
  have hheld := (hlatest _).mpr ⟨_, hlast, hgives⟩
  have hmissing : ((empty.run [firstLoad]).exchange missingLoad).isLoaded = false := by
    decide
  refine ⟨⟨_, hheld, hgraph⟩, hmissing, hkept _ hmissing, ?_⟩
  rw [hsymbols _ _ _ _ none rfl rfl, hheld]
  rfl

end Service

end CodeGraph
