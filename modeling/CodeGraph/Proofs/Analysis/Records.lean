import CodeGraph.Analysis.Files
import CodeGraph.Proofs.Analysis.Context

/-!
# Every record comes from the bytes of its file

Records are collected in two passes, and the files may change between them. The bytes of a file are
read in the first pass and kept, so the second pass sees what the first one saw, and it cannot fail
(`second_of_kept`). A collection ends well exactly if all files that were found can be read, and
then each record is made from the bytes of its file (`collectRecords_eq_ok_iff`). Only where imports
and script tags lead is looked up on the disk of the moment.
-/

namespace CodeGraph

/-! ## Outcomes of runs -/

namespace Run

variable {α β σ : Type}

theorem bind_eq_ok {r : Run α} {f : α → Run β} {b : β} :
    (r >>= f).outcome = .ok b ↔ ∃ a, r.outcome = .ok a ∧ (f a).outcome = .ok b := by
  simp only [bind, andThen]
  cases r.outcome with
  | ok a => simp
  | error e => simp

theorem pure_eq_ok {a b : α} : (pure a : Run α).outcome = .ok b ↔ a = b :=
  Except.ok.injEq a b ▸ Iff.rfl

theorem tell_eq_ok {events : List Event} {u : Unit} : (tell events).outcome = .ok u ↔ True := by
  simp [tell]

theorem ofDisk_eq_ok {r : Except DiskError α} {a : α} : (ofDisk r).outcome = .ok a ↔ r = .ok a := by
  cases r <;> simp [ofDisk, done, failed]

theorem ofAnalysis_eq_ok {r : Except AnalysisError α} {a : α} :
    (ofAnalysis r).outcome = .ok a ↔ r = .ok a := by
  cases r <;> simp [ofAnalysis, done, failed]

theorem ofSettings_eq_ok {settings : Except SettingsFault Settings} {s : Settings} :
    (ofSettings settings).outcome = .ok s ↔ settings = .ok s := by
  cases settings <;> simp [ofSettings, done, failed]

theorem forEach_cons_eq_ok {step : σ → α → Run (β × σ)} {s after : σ} {a : α} {rest : List α}
    {bs : List β} :
    (forEach step s (a :: rest)).outcome = .ok (bs, after) ↔
      ∃ b next tail, (step s a).outcome = .ok (b, next) ∧
        (forEach step next rest).outcome = .ok (tail, after) ∧ bs = b :: tail := by
  rw [forEach, bind_eq_ok]
  constructor
  · rintro ⟨⟨b, next⟩, hstep, hrest⟩
    obtain ⟨⟨tail, last⟩, htail, hpure⟩ := bind_eq_ok.mp hrest
    obtain ⟨rfl, rfl⟩ := Prod.mk.inj (pure_eq_ok.mp hpure)
    exact ⟨b, next, tail, hstep, htail, rfl⟩
  · rintro ⟨b, next, tail, hstep, htail, rfl⟩
    exact ⟨(b, next), hstep, bind_eq_ok.mpr ⟨(tail, after), htail, pure_eq_ok.mpr rfl⟩⟩

end Run

namespace Context

variable {c after : Context} {d : Disk} {path : String} {data : Bytes} {p : Parsed}

theorem runBytes_eq_ok :
    (c.runBytes d path).outcome = .ok (data, after) ↔ c.readBytes d path = (.ok data, after) := by
  unfold runBytes
  cases c.readBytes d path with
  | mk bytes next =>
    dsimp only
    rw [Run.ofDisk_eq_ok]
    cases bytes <;> simp [Except.map]

theorem runParse_eq_ok :
    (c.runParse d path).outcome = .ok (p, after) ↔ c.parse d path = (.ok p, after) := by
  unfold runParse
  cases c.parse d path with
  | mk parsed next =>
    simp only [Run.bind_eq_ok, Run.ofDisk_eq_ok, Run.tell_eq_ok, Run.pure_eq_ok, Prod.mk.injEq]
    constructor
    · rintro ⟨q, rfl, -, -, rfl, rfl⟩
      exact ⟨rfl, rfl⟩
    · rintro ⟨rfl, rfl⟩
      exact ⟨p, rfl, (), trivial, rfl, rfl⟩

end Context

namespace FileRecord

/-! ## Records of bytes -/

/-- What the bytes of a file say after the first pass. -/
def firstOf (parser : Parser) (d : Disk) (root path : String) (data : Bytes) : FileRecord :=
  match FileRole.ofPath path with
  | .page =>
    { ofData path data with
      scriptRefs := scriptFiles d (Utf8.decodeLossy data) (Path.join root path) root }
  | .module =>
    match parseSource parser path data with
    | .ok m => { ofData path data with exports := m.exports }
    | .error _ => { ofData path data with parsed := false }

/-- What the bytes of a file say. Where script tags lead is looked up on one disk, where imports
lead on another. -/
def ofBytes (parser : Parser) (before after : Disk) (extensions : List String)
    (root path : String) (data : Bytes) : FileRecord :=
  match FileRole.ofPath path with
  | .page =>
    { ofData path data with
      scriptRefs := scriptFiles before (Utf8.decodeLossy data) (Path.join root path) root }
  | .module =>
    match parseSource parser path data with
    | .ok m =>
      { ofData path data with
        exports := m.exports
        imports := m.imports after extensions (Path.join root path) root
        declarations := m.declarations
        references := m.references }
    | .error _ => { ofData path data with parsed := false }

theorem path_firstOf (parser : Parser) (d : Disk) (root path : String) (data : Bytes) :
    (firstOf parser d root path data).path = path := by
  unfold firstOf
  split
  · rfl
  · split <;> rfl

/-- A page has said everything in the first pass. -/
theorem firstOf_of_page {path : String} (h : FileRole.ofPath path = .page) (parser : Parser)
    (before after : Disk) (extensions : List String) (root : String) (data : Bytes) :
    firstOf parser before root path data =
      ofBytes parser before after extensions root path data := by
  unfold firstOf ofBytes
  rw [h]

/-! ## One file in each pass -/

variable {c : Context} {d : Disk} {path : String} {data : Bytes}

/-- A file whose bytes can be had gets the record of these bytes, and the bytes are kept. -/
theorem first_of_bytes (hc : c.Coherent) (h : c.bytesOf d path = .ok data) :
    ∃ after, (first d c path).outcome = .ok (firstOf c.parser d c.root path data, after) ∧
      c.Grows d after ∧ after.data.get? path = some data := by
  have hgrows := c.grows_readBytes d path
  have hkept := Context.kept_of_readBytes h
  have hbytes : (c.runBytes d path).outcome = .ok (data, (c.readBytes d path).2) :=
    Context.runBytes_eq_ok.mpr (Prod.ext h rfl)
  unfold first firstOf
  cases FileRole.ofPath path with
  | page =>
    refine ⟨_, Run.bind_eq_ok.mpr ⟨_, hbytes, Run.pure_eq_ok.mpr ?_⟩, hgrows, hkept⟩
    simp only [Context.placeOf, hgrows.root]
  | module =>
    -- the bytes are kept by now, so the tree is theirs
    have htree := Context.parse_fst (hgrows.coherent hc) d path
    rw [Context.bytesOf_of_kept hkept, hgrows.parser] at htree
    have hparse := Context.runParse_eq_ok.mpr (Prod.ext htree rfl)
    refine ⟨_, Run.bind_eq_ok.mpr ⟨_, hbytes, Run.bind_eq_ok.mpr ⟨_, hparse, ?_⟩⟩,
      hgrows.trans (Context.grows_parse _ d path), (Context.grows_parse _ d path).kept _ _ hkept⟩
    cases parseSource c.parser path data <;> rfl

theorem bytes_of_first {x : FileRecord × Context} (h : (first d c path).outcome = .ok x) :
    ∃ data, c.bytesOf d path = .ok data := by
  obtain ⟨⟨data, next⟩, hbytes, -⟩ := Run.bind_eq_ok.mp h
  exact ⟨data, congrArg Prod.fst (Context.runBytes_eq_ok.mp hbytes)⟩

/-- In the second pass a file whose bytes are kept cannot fail, whatever is on the disk by then. -/
theorem second_of_kept (hc : c.Coherent) (before : Disk) (extensions : List String)
    (h : c.data.get? path = some data) :
    ∃ next, (second d extensions c (firstOf c.parser before c.root path data)).outcome =
        .ok (ofBytes c.parser before d extensions c.root path data, next) ∧ c.Grows d next := by
  have htree := Context.parse_fst hc d path
  rw [Context.bytesOf_of_kept h] at htree
  have hparse := Context.runParse_eq_ok.mpr (Prod.ext htree rfl)
  have hgrows := c.grows_parse d path
  unfold second
  rw [path_firstOf]
  cases hrole : FileRole.ofPath path with
  | page =>
    rw [firstOf_of_page hrole c.parser before d extensions]
    exact ⟨c, Run.pure_eq_ok.mpr rfl, .refl d c⟩
  | module =>
    refine ⟨_, Run.bind_eq_ok.mpr ⟨_, hparse, ?_⟩, hgrows⟩
    unfold firstOf ofBytes
    rw [hrole]
    dsimp only
    rw [Context.placeOf, hgrows.root]
    cases parseSource c.parser path data <;> rfl

/-! ## The two passes -/

/-- The first pass over files that can be read. -/
theorem forEach_first (hc : c.Coherent) {files : List String} {content : String → Bytes}
    (h : ∀ path ∈ files, c.bytesOf d path = .ok (content path)) :
    ∃ after, (Run.forEach (first d) c files).outcome =
        .ok (files.map (fun path => firstOf c.parser d c.root path (content path)), after) ∧
      c.Grows d after ∧ ∀ path ∈ files, after.data.get? path = some (content path) := by
  induction files generalizing c with
  | nil => exact ⟨c, rfl, .refl d c, fun path hpath => absurd hpath List.not_mem_nil⟩
  | cons path rest ih =>
    obtain ⟨next, hfirst, hgrows, hkept⟩ := first_of_bytes hc (h path List.mem_cons_self)
    obtain ⟨after, hrest, hgrows', hkept'⟩ := ih (hgrows.coherent hc) (fun p hp =>
      (hgrows.same p).trans (h p (List.mem_cons_of_mem _ hp)))
    rw [hgrows.parser, hgrows.root] at hrest
    refine ⟨after, Run.forEach_cons_eq_ok.mpr ⟨_, next, _, hfirst, hrest, rfl⟩,
      hgrows.trans hgrows', fun p hp => ?_⟩
    rcases List.mem_cons.mp hp with rfl | hp
    · exact hgrows'.kept p _ hkept
    · exact hkept' p hp

/-- A first pass that ends well has read every file. -/
theorem bytes_of_forEach_first (hc : c.Coherent) {files : List String}
    {records : List FileRecord} {after : Context}
    (h : (Run.forEach (first d) c files).outcome = .ok (records, after)) :
    ∀ path ∈ files, ∃ data, c.bytesOf d path = .ok data := by
  induction files generalizing c records with
  | nil => exact fun path hpath => absurd hpath List.not_mem_nil
  | cons path rest ih =>
    obtain ⟨r, next, tail, hfirst, hrest, -⟩ := Run.forEach_cons_eq_ok.mp h
    obtain ⟨data, hdata⟩ := bytes_of_first hfirst
    obtain ⟨next', hfirst', hgrows, -⟩ := first_of_bytes hc hdata
    obtain rfl : next' = next := congrArg Prod.snd (Except.ok.inj (hfirst'.symm.trans hfirst))
    intro p hp
    rcases List.mem_cons.mp hp with rfl | hp
    · exact ⟨data, hdata⟩
    · obtain ⟨found, hfound⟩ := ih (hgrows.coherent hc) hrest p hp
      exact ⟨found, (hgrows.same p).symm.trans hfound⟩

/-- The second pass over files whose bytes are kept. -/
theorem forEach_second (hc : c.Coherent) (before : Disk) (extensions : List String)
    {files : List String} {content : String → Bytes}
    (h : ∀ path ∈ files, c.data.get? path = some (content path)) :
    ∃ next, (Run.forEach (second d extensions) c
          (files.map (fun path => firstOf c.parser before c.root path (content path)))).outcome =
        .ok (files.map (fun path =>
          ofBytes c.parser before d extensions c.root path (content path)), next) := by
  induction files generalizing c with
  | nil => exact ⟨c, rfl⟩
  | cons path rest ih =>
    obtain ⟨next, hsecond, hgrows⟩ :=
      second_of_kept (d := d) hc before extensions (h path List.mem_cons_self)
    obtain ⟨last, hrest⟩ := ih (hgrows.coherent hc) (fun p hp =>
      hgrows.kept p _ (h p (List.mem_cons_of_mem _ hp)))
    rw [hgrows.parser, hgrows.root] at hrest
    exact ⟨last, Run.forEach_cons_eq_ok.mpr ⟨_, next, _, hsecond, hrest, rfl⟩⟩

end FileRecord

/-- Records are collected exactly if all files that are found can be read, and then each is made
from the bytes of its file. -/
theorem collectRecords_eq_ok_iff {c : Context} (hc : c.Coherent) (before after : Disk)
    (settings : Settings) (records : List FileRecord) :
    (collectRecords before after settings c).outcome = .ok records ↔
      ∃ content : String → Bytes,
        (∀ path ∈ scan before (settings.scanRules true) c.root,
          c.bytesOf before path = .ok (content path)) ∧
        records = (scan before (settings.scanRules true) c.root).map (fun path =>
          FileRecord.ofBytes c.parser before after settings.sourceExtensions c.root path
            (content path)) := by
  have hcollect : ∀ content : String → Bytes,
      (∀ path ∈ scan before (settings.scanRules true) c.root,
        c.bytesOf before path = .ok (content path)) →
      (collectRecords before after settings c).outcome =
        .ok ((scan before (settings.scanRules true) c.root).map (fun path =>
          FileRecord.ofBytes c.parser before after settings.sourceExtensions c.root path
            (content path))) := by
    intro content hcontent
    obtain ⟨middle, hfirst, hgrows, hkept⟩ := FileRecord.forEach_first hc hcontent
    obtain ⟨last, hsecond⟩ := FileRecord.forEach_second (d := after) (hgrows.coherent hc) before
      settings.sourceExtensions hkept
    rw [hgrows.parser, hgrows.root] at hsecond
    unfold collectRecords
    exact Run.bind_eq_ok.mpr ⟨_, hfirst, Run.bind_eq_ok.mpr ⟨_, hsecond,
      Run.bind_eq_ok.mpr ⟨(), rfl, rfl⟩⟩⟩
  constructor
  · intro h
    obtain ⟨⟨first, middle⟩, hfirst, -⟩ := Run.bind_eq_ok.mp h
    have hreadable := FileRecord.bytes_of_forEach_first hc hfirst
    have hcontent : ∀ path ∈ scan before (settings.scanRules true) c.root,
        c.bytesOf before path = .ok ((c.bytesOf before path).toOption.getD []) := by
      intro path hpath
      obtain ⟨data, hdata⟩ := hreadable path hpath
      rw [hdata]
      rfl
    exact ⟨_, hcontent, Except.ok.inj (h.symm.trans (hcollect _ hcontent))⟩
  · rintro ⟨content, hcontent, rfl⟩
    exact hcollect content hcontent

end CodeGraph
