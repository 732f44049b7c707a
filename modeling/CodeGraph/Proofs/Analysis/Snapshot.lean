import CodeGraph.Proofs.Analysis.Records
import CodeGraph.Syntax.Grammar

/-!
# A run sees each file as it was at first

A context answers requests while files are written and deleted beside it. What happens is a list of
steps, each a request or a change of the disk into any other disk. Until a request for a file
succeeds, each one sees the disk of its moment; from then on all of them see the bytes of that
moment, whatever happens to the file.

One step keeps the bytes that are kept, and trees that belong to them (`step_keeps`), so a whole run
does (`run_keeps`). A request that fails is no step at all (`step_of_error`).
-/

namespace CodeGraph.Context

/-- A context and the disk that it works on. -/
structure World where
  disk : Disk
  context : Context

namespace World

/-- What can happen: a request is made, or the disk is changed in any way whatsoever. -/
inductive Step where
  | ask (request : Request)
  | change (disk : Disk)

/-- What a step leads to. -/
def step (s : World) : Step → World
  | .ask request => { s with context := (s.context.answer s.disk request).2 }
  | .change disk => { s with disk := disk }

/-- What some steps lead to. -/
def run (s : World) (steps : List Step) : World :=
  steps.foldl step s

/-- What a request made now is answered. -/
def answer (s : World) (request : Request) : Except DiskError Answer :=
  (s.context.answer s.disk request).1

/-- The bytes that a request made now is answered from. -/
def bytesOf (s : World) (path : String) : Except DiskError Bytes :=
  s.context.bytesOf s.disk path

/-- Along these steps, every request for the file fails. -/
def Misses (path : String) : World → List Step → Prop
  | _, [] => True
  | s, step :: rest =>
    (∀ view, step = .ask (.file view path) → ∃ e, s.answer (.file view path) = .error e) ∧
      Misses path (s.step step) rest

variable {s : World} {path : String} {data : Bytes}

/-! ## What is kept -/

theorem step_keeps (s : World) (step : Step) : s.context.Keeps (s.step step).context := by
  cases step with
  | ask request => exact (s.context.grows_answer s.disk request).toKeeps
  | change disk => exact .refl s.context

theorem run_keeps (s : World) (steps : List Step) : s.context.Keeps (s.run steps).context := by
  induction steps generalizing s with
  | nil => exact .refl s.context
  | cons step rest ih => exact (step_keeps s step).trans (ih (s.step step))

/-! ## What is not kept -/

/-- A request that fails leaves everything as it was. -/
theorem step_of_error (hc : s.context.Coherent) {request : Request} {e : DiskError}
    (h : s.answer request = .error e) : s.step (.ask request) = s :=
  congrArg (World.mk s.disk) (Context.answer_error hc h)

/-- As long as every request for a file fails, nothing of it is kept. -/
theorem run_new (hc : s.context.Coherent) (hnew : s.context.data.get? path = none)
    {steps : List Step} (hmisses : s.Misses path steps) :
    (s.run steps).context.data.get? path = none := by
  induction steps generalizing s with
  | nil => exact hnew
  | cons step rest ih =>
    obtain ⟨hfails, hrest⟩ := hmisses
    refine ih ((step_keeps s step).coherent hc) ?_ hrest
    cases step with
    | change disk => exact hnew
    | ask request =>
      by_cases hfile : ∃ view, request = .file view path
      · obtain ⟨view, rfl⟩ := hfile
        obtain ⟨e, he⟩ := hfails view rfl
        rw [step_of_error hc he]
        exact hnew
      · have hother : ∀ view, request ≠ .file view path := fun view hview => hfile ⟨view, hview⟩
        exact (Context.data_answer_other hother).trans hnew

/-! ## Answers -/

/-- A file of which bytes are kept is answered from them. -/
theorem answer_of_kept (hc : s.context.Coherent) (h : s.context.data.get? path = some data)
    (view : View) : s.answer (.file view path) = .ok (view.of s.context.parser path data) :=
  (Context.answer_file hc _ view path).trans
    (congrArg (Except.map _) (Context.bytesOf_of_kept h _))

/-- A file that has been read is answered from its bytes ever after. -/
theorem answer_of_read (hc : s.context.Coherent) (h : s.bytesOf path = .ok data)
    (view : View) (after : List Step) (view' : View) :
    (s.run (.ask (.file view path) :: after)).answer (.file view' path) =
      .ok (view'.of s.context.parser path data) := by
  have hkept : (s.step (.ask (.file view path))).context.data.get? path = some data :=
    Context.kept_of_answer hc h view
  have hlater := (run_keeps _ after).kept path data hkept
  have hkeeps := run_keeps s (.ask (.file view path) :: after)
  have hanswer := answer_of_kept (hkeeps.coherent hc) hlater view'
  rwa [hkeeps.parser] at hanswer

/-- A file of which nothing is kept is answered from the disk. -/
theorem answer_of_new (hc : s.context.Coherent) (h : s.context.data.get? path = none)
    (view : View) :
    s.answer (.file view path) =
      (s.disk.read (s.context.placeOf path)).map
        (fun data => view.of s.context.parser path data) :=
  (Context.answer_file hc _ view path).trans
    (congrArg (Except.map _) (Context.bytesOf_of_new h _))

theorem bytesOf_of_answer (hc : s.context.Coherent) {view : View}
    {a : Answer} (h : s.answer (.file view path) = .ok a) :
    ∃ data, s.bytesOf path = .ok data ∧ a = view.of s.context.parser path data := by
  have hview : (s.bytesOf path).map (fun data => view.of s.context.parser path data) = .ok a :=
    (Context.answer_file hc _ view path).symm.trans h
  cases hbytes : s.bytesOf path with
  | ok data =>
    rw [hbytes] at hview
    exact ⟨data, rfl, (Except.ok.inj hview).symm⟩
  | error e =>
    rw [hbytes] at hview
    cases hview

/-- What a request that fails has found is not kept. -/
theorem new_of_error (hc : s.context.Coherent) {view : View} {e : DiskError}
    (h : s.answer (.file view path) = .error e) : s.context.data.get? path = none := by
  cases hkept : s.context.data.get? path with
  | none => rfl
  | some data =>
    have hok := answer_of_kept hc hkept view
    rw [h] at hok
    cases hok

end World

theorem eq_of_new {parser : Parser} {d : Disk} {root : String} {c : Context}
    (h : Context.new parser d root = .ok c) :
    c.parser = parser ∧ c.data = [] ∧ c.parsed = [] := by
  unfold Context.new at h
  cases hroot : validateRoot d root with
  | ok place =>
    rw [hroot] at h
    cases h
    exact ⟨rfl, rfl, rfl⟩
  | error e =>
    rw [hroot] at h
    cases h

namespace World

/-- **A run sees each file as it was at first.** Let a context be new, and let some steps lead to
`s`.

* If a request for a file is answered now, there are bytes that it is answered from, namely those
  on the disk if no request for the file was answered before, and every later request for the file
  is answered from these bytes.
* As long as no request for the file was answered, a request sees the disk of its moment.
* A request that fails leaves the context as it was, so that the next request for the file again
  sees the disk of its moment.
* If the records of all files are collected now, and the disk changes between the two passes, each
  record is made from the bytes that one request for its file gets; nothing that happens between
  the passes lets the collection fail. -/
theorem snapshot_coherent {parser : Parser} {start s : World} {root : String}
    (hnew : Context.new parser start.disk root = .ok start.context) {before : List Step}
    (hs : start.run before = s) (path : String) :
    (∀ view a, s.answer (.file view path) = .ok a →
      ∃ data, s.bytesOf path = .ok data ∧ a = view.of parser path data ∧
        (start.Misses path before → s.disk.read (start.context.placeOf path) = .ok data) ∧
        ∀ after view', (s.run (.ask (.file view path) :: after)).answer (.file view' path) =
          .ok (view'.of parser path data)) ∧
    (start.Misses path before → ∀ view, s.answer (.file view path) =
      (s.disk.read (start.context.placeOf path)).map (fun data => view.of parser path data)) ∧
    (∀ request e, s.answer request = .error e → s.step (.ask request) = s) ∧
    (∀ view e, s.answer (.file view path) = .error e → ∀ after, s.Misses path after →
      ∀ view', (s.run after).answer (.file view' path) =
        ((s.run after).disk.read (start.context.placeOf path)).map
          (fun data => view'.of parser path data)) ∧
    ∀ settings later records,
      (collectRecords s.disk later settings s.context).outcome = .ok records ↔
        ∃ content : String → Bytes,
          (∀ file ∈ scan s.disk (settings.scanRules true) start.context.root,
            s.bytesOf file = .ok (content file)) ∧
          records = (scan s.disk (settings.scanRules true) start.context.root).map (fun file =>
            FileRecord.ofBytes parser s.disk later settings.sourceExtensions start.context.root
              file (content file)) := by
  obtain ⟨hparser, hdata, hparsed⟩ := Context.eq_of_new hnew
  have hstart : start.context.Coherent := by
    intro p t ht
    rw [hparsed] at ht
    cases ht
  have hunread : start.context.data.get? path = none := by rw [hdata]; rfl
  have hkeeps : start.context.Keeps s.context := hs ▸ run_keeps start before
  have hc : s.context.Coherent := hkeeps.coherent hstart
  obtain rfl : s.context.parser = parser := hkeeps.parser.trans hparser
  have hmissed : start.Misses path before → s.context.data.get? path = none := fun hmisses =>
    hs ▸ run_new hstart hunread hmisses
  refine ⟨fun view a ha => ?_, fun hmisses view => ?_, fun request e he => step_of_error hc he,
    fun view e he after hmisses view' => ?_, fun settings later records => ?_⟩
  · obtain ⟨data, hbytes, rfl⟩ := bytesOf_of_answer hc ha
    refine ⟨data, hbytes, rfl, fun hmisses => ?_, answer_of_read hc hbytes view⟩
    rw [← hkeeps.placeOf path, ← Context.bytesOf_of_new (hmissed hmisses)]
    exact hbytes
  · rw [← hkeeps.placeOf path]
    exact answer_of_new hc (hmissed hmisses) view
  · have hlater := run_new hc (new_of_error hc he) hmisses
    rw [← (hkeeps.trans (run_keeps s after)).placeOf path, ← (run_keeps s after).parser]
    exact answer_of_new ((run_keeps s after).coherent hc) hlater view'
  · rw [← hkeeps.root]
    exact collectRecords_eq_ok_iff hc s.disk later settings records

/-- A disk with one file in a root `w`. -/
def diskWith (data : Bytes) : Disk where
  top := .directory [("w", .directory [("a.js", .file data)])]
  cwd := "/w"
  rooted := rfl

/-- A new context on such a disk. -/
def fresh (data : Bytes) : World :=
  ⟨diskWith data, ⟨parseText, "/w", [], []⟩⟩

/-- A file that is rewritten after its tree was asked for: its bytes are those of the tree, and not
those on the disk. -/
theorem rewritten_file_as_at_first :
    Context.new parseText (fresh [49]).disk "." = .ok (fresh [49]).context ∧
      (diskWith [50]).read "/w/a.js" = .ok [50] ∧
      ((fresh [49]).run [.ask (.file .tree "a.js"), .change (diskWith [50])]).answer
        (.file .bytes "a.js") = .ok (.bytes [49]) := by
  have hroot : validateRoot (fresh [49]).disk "." = .ok "/w" := by decide
  have hnew : Context.new parseText (fresh [49]).disk "." = .ok (fresh [49]).context := by
    rw [Context.new, hroot]
    rfl
  have hread : (fresh [49]).disk.read ((fresh [49]).context.placeOf "a.js") = .ok [49] := by
    decide
  obtain ⟨hanswered, hlive, -⟩ :=
    @snapshot_coherent parseText (fresh [49]) (fresh [49]) "." hnew [] rfl "a.js"
  have htree := hlive trivial .tree
  rw [hread] at htree
  obtain ⟨data, -, -, hdata, hlater⟩ := hanswered .tree _ htree
  obtain rfl : data = [49] := Except.ok.inj ((hdata trivial).symm.trans hread)
  exact ⟨hnew, by decide, hlater [.change (diskWith [50])] .bytes⟩

end World

end CodeGraph.Context
