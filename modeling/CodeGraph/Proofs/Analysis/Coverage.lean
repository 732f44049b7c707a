import CodeGraph.Proofs.Analysis.ReadSource
import CodeGraph.Proofs.Analysis.Records
import CodeGraph.Proofs.Disk.Listing
import CodeGraph.Proofs.FileGraph.Assembly
import CodeGraph.Proofs.Table
import CodeGraph.Syntax.Grammar

/-!
# Every scanned file is in the graph

An analysis of a root whose files can be read ends well, and its graph has one node for each file
that a scan of the root lists, in the order of the scan (`Covers.ids`). What the graph says beyond
that is said file by file: a file is a page, a module or it cannot be parsed (`FileContent`), and

* the weight between two files is what each of them takes from the other (`Covers.weights`),
* the incoming count of a file adds up how often the modules import it (`Covers.incoming`).

So a file that cannot be parsed takes nothing, and is taken from like any other file.

The root that is scanned is the one an analysis looks at, with `.` and `..` resolved by their names
alone. A root with a link before a `..` may lead elsewhere.
-/

namespace CodeGraph

/-! ## What a file takes from others -/

/-- What the bytes of a file are read as. -/
inductive FileContent where
  | page (html : String)
  | module (m : Module)
  | unparseable (u : Unparseable)

namespace FileContent

/-- The content of a file, by its path and its bytes. -/
def ofBytes (parser : Parser) (path : String) (data : Bytes) : FileContent :=
  match FileRole.ofPath path with
  | .page => page (Utf8.decodeLossy data)
  | .module =>
    match parseSource parser path data with
    | .ok m => module m
    | .error u => unparseable u

/-- Is it a module? -/
def isModule : FileContent → Bool
  | module _ => true
  | _ => false

/-- Modules import. -/
def imports (d : Disk) (extensions : List String) (file root : String) :
    FileContent → List Import
  | module m => m.imports d extensions file root
  | _ => []

/-- Pages have script tags. -/
def scripts (d : Disk) (file root : String) : FileContent → List String
  | page html => scriptFiles d html file root
  | _ => []

end FileContent

/-- How many names imports and script tags take from a file; a script tag takes one. -/
def namesFrom (target : String) (imports : List Import) (scripts : List String) : Nat :=
  ((imports.filter (fun i => i.resolved == some target)).map (·.specifiers.length)).sum +
    scripts.count target

/-- How many of these are imports of a file. -/
def importsOf (target : String) (imports : List Import) : Nat :=
  imports.countP (fun i => i.resolved == some target)

namespace FileRecord

section Fields

variable (parser : Parser) (d : Disk) (extensions : List String) (root path : String)
  (data : Bytes)

theorem path_ofBytes : (ofBytes parser d d extensions root path data).path = path := by
  unfold ofBytes
  split
  · rfl
  · split <;> rfl

theorem lines_ofBytes : (ofBytes parser d d extensions root path data).lines = countLines data := by
  unfold ofBytes
  split
  · rfl
  · split <;> rfl

theorem imports_ofBytes : (ofBytes parser d d extensions root path data).imports =
    (FileContent.ofBytes parser path data).imports d extensions (Path.join root path) root := by
  unfold ofBytes FileContent.ofBytes
  cases FileRole.ofPath path with
  | page => rfl
  | module => cases parseSource parser path data <;> rfl

theorem scriptRefs_ofBytes : (ofBytes parser d d extensions root path data).scriptRefs =
    (FileContent.ofBytes parser path data).scripts d (Path.join root path) root := by
  unfold ofBytes FileContent.ofBytes
  cases FileRole.ofPath path with
  | page => rfl
  | module => cases parseSource parser path data <;> rfl

theorem mergedExports_ofBytes (h : (FileContent.ofBytes parser path data).isModule = false) :
    (ofBytes parser d d extensions root path data).mergedExports = [] := by
  unfold FileContent.ofBytes at h
  unfold ofBytes
  cases hrole : FileRole.ofPath path with
  | page => rfl
  | module =>
    rw [hrole] at h
    cases hparse : parseSource parser path data with
    | ok m =>
      rw [hparse] at h
      cases h
    | error u => rfl

end Fields

end FileRecord

/-! ## Facts, record by record -/

namespace ConnectionFact

theorem total_append (known : List String) (facts more : List ConnectionFact) (a b : String) :
    total known (facts ++ more) a b = total known facts a b + total known more a b := by
  simp only [← length_namesBetween, namesBetween, List.filter_append, List.flatMap_append,
    List.length_append]

theorem total_flatMap (known : List String) {α : Type} (facts : α → List ConnectionFact)
    (xs : List α) (a b : String) :
    total known (xs.flatMap facts) a b = (xs.map (fun x => total known (facts x) a b)).sum := by
  induction xs with
  | nil => rfl
  | cons x rest ih => rw [List.flatMap_cons, total_append, ih, List.map_cons, List.sum_cons]

theorem total_cons (known : List String) (f : ConnectionFact) (rest : List ConnectionFact)
    (a b : String) :
    total known (f :: rest) a b =
      (if f.Connects known a b then f.names.length else 0) + total known rest a b := by
  rw [← length_namesBetween, ← length_namesBetween, namesBetween_cons, List.length_append]
  split <;> rfl

theorem connects_comm {known : List String} {f : ConnectionFact} {a b : String} :
    f.Connects known a b ↔ f.Connects known b a := by
  simp only [Connects, Joins, or_comm]

theorem total_comm (known : List String) (facts : List ConnectionFact) (a b : String) :
    total known facts a b = total known facts b a := by
  induction facts with
  | nil => rfl
  | cons f rest ih => simp only [total_cons, ih, @connects_comm known f a b]

/-- Seen from the file that says it, a fact connects to the file where it leads. -/
theorem connects_source_iff {known : List String} {f : ConnectionFact} {b : String}
    (hb : b ∈ known) (hne : b ≠ f.source) :
    f.Connects known f.source b ↔ f.target? = some b := by
  constructor
  · rintro ⟨target, htarget, -, hself, ⟨-, rfl⟩ | ⟨hsource, -⟩⟩
    · exact htarget
    · exact absurd hsource.symm hne
  · intro htarget
    exact ⟨b, htarget, hb, hne, Or.inl ⟨rfl, rfl⟩⟩

end ConnectionFact

namespace FileRecord

open ConnectionFact

variable {known : List String} {a b : String}

/-- To another file, a record counts for the names it takes from there. -/
theorem total_facts_of_path (r : FileRecord) (hb : b ∈ known) (hne : b ≠ r.path) :
    total known r.facts r.path b = namesFrom b r.imports r.scriptRefs := by
  have himports : ∀ imports : List Import,
      total known (imports.map (.importOf r.path)) r.path b =
        ((imports.filter (fun i => i.resolved == some b)).map (·.specifiers.length)).sum := by
    intro imports
    induction imports with
    | nil => rfl
    | cons i rest ih =>
      have hiff : (importOf r.path i).Connects known r.path b ↔ i.resolved = some b :=
        connects_source_iff hb hne
      rw [List.map_cons, total_cons, ih]
      by_cases hto : i.resolved = some b
      · simp [hiff, hto, names]
      · simp [hiff, hto]
  have hscripts : ∀ scripts : List String,
      total known (scripts.map (.scriptOf r.path)) r.path b = scripts.count b := by
    intro scripts
    induction scripts with
    | nil => rfl
    | cons script rest ih =>
      have hiff : (scriptOf r.path script).Connects known r.path b ↔ some script = some b :=
        connects_source_iff hb hne
      rw [List.map_cons, total_cons, ih, List.count_cons]
      by_cases hto : script = b
      · subst hto
        simp [hiff, names, Nat.add_comm]
      · simp [hiff, hto]
  rw [facts, total_append, himports, hscripts, namesFrom]

/-- A record says nothing about two other files. -/
theorem total_facts_of_others (r : FileRecord) (ha : r.path ≠ a) (hb : r.path ≠ b) :
    total known r.facts a b = 0 := by
  by_contra hpos
  obtain ⟨f, hf, target, -, -, -, hends⟩ :=
    exists_connects_of_total (Nat.pos_of_ne_zero hpos)
  rw [source_of_mem_facts hf] at hends
  rcases hends with ⟨hsource, -⟩ | ⟨hsource, -⟩
  · exact ha hsource
  · exact hb hsource

theorem countP_facts (r : FileRecord) (target : String) :
    r.facts.countP (·.isImportOf target) =
      importsOf target r.imports := by
  have hscripts : (r.scriptRefs.map (ConnectionFact.scriptOf r.path)).countP
      (·.isImportOf target) = 0 := by
    rw [List.countP_eq_zero]
    rintro f hf
    obtain ⟨script, -, rfl⟩ := List.mem_map.mp hf
    exact Bool.false_ne_true
  rw [facts, List.countP_append, hscripts, Nat.add_zero, List.countP_map, importsOf]
  rfl

end FileRecord

/-! ## Graphs of files -/

namespace FileGraph

variable {files : List String} {record : String → FileRecord}

/-- Records that stand in the order of their paths are assembled as they stand. -/
theorem inPathOrder_map (hpath : ∀ path, (record path).path = path)
    (hfiles : files.Pairwise (· < ·)) : inPathOrder (files.map record) = files.map record := by
  refine List.mergeSort_of_pairwise (List.pairwise_map.mpr (hfiles.imp ?_))
  intro p q hpq
  rw [hpath, hpath]
  exact decide_eq_true hpq.le

theorem pathsOf_map (hpath : ∀ path, (record path).path = path)
    (hfiles : files.Pairwise (· < ·)) : pathsOf (files.map record) = files := by
  rw [pathsOf, inPathOrder_map hpath hfiles, List.map_map]
  exact (List.map_congr_left (fun path _ => hpath path)).trans (List.map_id files)

/-- Between two files counts what each takes from the other. -/
theorem total_map (hpath : ∀ path, (record path).path = path) (hfiles : files.Pairwise (· < ·))
    {a b : String} (ha : a ∈ files) (hb : b ∈ files) (hab : a ≠ b) :
    ConnectionFact.total (pathsOf (files.map record)) (factsOf (files.map record)) a b =
      namesFrom b (record a).imports (record a).scriptRefs +
        namesFrom a (record b).imports (record b).scriptRefs := by
  have hfrom : ∀ {p q}, q ∈ files → p ≠ q →
      ConnectionFact.total files (record p).facts p q =
        namesFrom q (record p).imports (record p).scriptRefs := by
    intro p q hq hpq
    have htotal := (record p).total_facts_of_path hq (by rw [hpath]; exact hpq.symm)
    rwa [hpath] at htotal
  -- of all the records, only those of the two files count
  have hone : ∀ path, ConnectionFact.total files (record path).facts a b =
      (if path = a then namesFrom b (record a).imports (record a).scriptRefs else 0) +
        (if path = b then namesFrom a (record b).imports (record b).scriptRefs else 0) := by
    intro path
    by_cases hpa : path = a
    · subst hpa
      rw [if_pos rfl, if_neg hab, hfrom hb hab, Nat.add_zero]
    · by_cases hpb : path = b
      · subst hpb
        rw [if_neg hpa, if_pos rfl, ConnectionFact.total_comm, hfrom ha hpa, Nat.zero_add]
      · rw [if_neg hpa, if_neg hpb]
        exact (record path).total_facts_of_others (by rwa [hpath]) (by rwa [hpath])
  have hcount : ∀ {p : String} (n : Nat), p ∈ files →
      (files.map (fun path => if path = p then n else 0)).sum = n := by
    intro p n hp
    rw [List.sum_map_eq_nsmul_single p _ (fun q hq _ => if_neg hq), if_pos rfl,
      List.count_eq_one_of_mem (hfiles.imp (fun h => h.ne)) hp, one_smul]
  rw [pathsOf_map hpath hfiles, factsOf, inPathOrder_map hpath hfiles, List.flatMap_map,
    ConnectionFact.total_flatMap]
  simp only [hone]
  rw [List.sum_map_add, hcount _ ha, hcount _ hb]

/-- Edges join the files of which one takes something from the other. -/
theorem exists_edge_map_iff (hpath : ∀ path, (record path).path = path)
    (hfiles : files.Pairwise (· < ·)) (a b : String) (weight : Int) :
    (∃ e ∈ (assemble (files.map record)).edges,
      e.source = a ∧ e.target = b ∧ e.weight = weight) ↔
      a < b ∧ a ∈ files ∧ b ∈ files ∧ 0 < weight ∧
        weight = (namesFrom b (record a).imports (record a).scriptRefs +
          namesFrom a (record b).imports (record b).scriptRefs : Nat) := by
  have hpaths := pathsOf_map hpath hfiles
  constructor
  · rintro ⟨e, he, rfl, rfl, rfl⟩
    rw [edges_assemble, FileGraphBuilder.mem_edges_ofFacts] at he
    obtain ⟨hlt, hpos, hweight, -⟩ := he
    obtain ⟨f, hf, hconnects⟩ := ConnectionFact.exists_connects_of_total hpos
    obtain ⟨hsource, htarget⟩ := ends_of_connects hf hconnects
    rw [hpaths] at hsource htarget
    rw [total_map hpath hfiles hsource htarget hlt.ne] at hpos hweight
    exact ⟨hlt, hsource, htarget, hweight ▸ Int.natCast_pos.mpr hpos, hweight⟩
  · rintro ⟨hlt, ha, hb, hpos, hweight⟩
    rw [← total_map hpath hfiles ha hb hlt.ne] at hweight
    refine ⟨⟨a, b, weight, ConnectionFact.namesBetween (pathsOf (files.map record))
      (factsOf (files.map record)) a b⟩, ?_, rfl, rfl, rfl⟩
    rw [edges_assemble, FileGraphBuilder.mem_edges_ofFacts]
    exact ⟨hlt, Int.natCast_pos.mp (hweight ▸ hpos), hweight, rfl⟩

/-- A node says what the record of its file says, and how often the records import the file. -/
theorem node_of_mem_map (hpath : ∀ path, (record path).path = path)
    (hfiles : files.Pairwise (· < ·)) {node : FileNode}
    (h : node ∈ (assemble (files.map record)).nodes) :
    node.lines = (record node.id).lines ∧ node.exports = (record node.id).mergedExports ∧
      node.incomingCount =
        (files.map (fun path => importsOf node.id (record path).imports)).sum := by
  have hnodes : (assemble (files.map record)).nodes =
      (inPathOrder (files.map record)).map (nodeOf (FileGraphBuilder.ofFacts
        (pathsOf (files.map record)) (factsOf (files.map record)))) := by
    rw [← builder_eq]
    rfl
  rw [hnodes, inPathOrder_map hpath hfiles, List.map_map] at h
  obtain ⟨path, -, rfl⟩ := List.mem_map.mp h
  have hid : ∀ b, (nodeOf b (record path)).id = path := fun b => hpath path
  rw [Function.comp_apply, hid]
  refine ⟨rfl, rfl, ?_⟩
  rw [nodeOf, hpath, FileGraphBuilder.incomingCount_ofFacts, factsOf,
    inPathOrder_map hpath hfiles, List.countP_flatMap, List.map_map]
  simp only [Function.comp_def, FileRecord.countP_facts]

end FileGraph

/-! ## The graph of a root -/

section Root

variable (parser : Parser) (d : Disk) (s : Settings) (top : String) (content : String → Bytes)

/-- The content of the file at a path. -/
def contentAt (path : String) : FileContent :=
  .ofBytes parser path (content path)

/-- The imports of a file, as they are resolved on the disk. -/
def importsAt (path : String) : List Import :=
  (contentAt parser content path).imports d s.sourceExtensions (Path.join top path) top

/-- How many names a file takes from another one. -/
def takenFrom (path target : String) : Nat :=
  namesFrom target (importsAt parser d s top content path)
    ((contentAt parser content path).scripts d (Path.join top path) top)

/-- The record of a file. -/
def recordAt (path : String) : FileRecord :=
  .ofBytes parser d d s.sourceExtensions top path (content path)

theorem imports_recordAt (path : String) :
    (recordAt parser d s top content path).imports = importsAt parser d s top content path :=
  FileRecord.imports_ofBytes ..

theorem scriptRefs_recordAt (path : String) :
    (recordAt parser d s top content path).scriptRefs =
      (contentAt parser content path).scripts d (Path.join top path) top :=
  FileRecord.scriptRefs_ofBytes ..

/-- A graph covers the files of a root. -/
structure FileGraph.Covers (g : FileGraph) : Prop where
  ids : g.nodes.map (·.id) = scan d (s.scanRules true) top
  lines : ∀ node ∈ g.nodes, node.lines = (content node.id).count Reexport.newline + 1
  exports : ∀ node ∈ g.nodes,
    (contentAt parser content node.id).isModule = false → node.exports = []
  weights : ∀ a b weight,
    (∃ e ∈ g.edges, e.source = a ∧ e.target = b ∧ e.weight = weight) ↔
      a < b ∧ a ∈ g.nodes.map (·.id) ∧ b ∈ g.nodes.map (·.id) ∧ 0 < weight ∧
        weight = (takenFrom parser d s top content a b + takenFrom parser d s top content b a : Nat)
  incoming : ∀ node ∈ g.nodes, node.incomingCount =
    (((g.nodes.map (·.id)).filter (fun path => (contentAt parser content path).isModule)).map
      (fun path => importsOf node.id (importsAt parser d s top content path))).sum

end Root

section Covers

variable {parser : Parser} {d : Disk} {s : Settings} {top root : String}
  {content : String → Bytes}

theorem importsAt_of_not_module {path : String}
    (h : (contentAt parser content path).isModule = false) :
    importsAt parser d s top content path = [] := by
  unfold importsAt
  cases hcontent : contentAt parser content path with
  | page html => rfl
  | module m =>
    rw [hcontent] at h
    cases h
  | unparseable u => rfl

/-- Only modules import, so a sum over all files is one over the modules. -/
theorem sum_importsOf_modules (target : String) (files : List String) :
    (files.map (fun path => importsOf target (importsAt parser d s top content path))).sum =
      ((files.filter (fun path => (contentAt parser content path).isModule)).map
        (fun path => importsOf target (importsAt parser d s top content path))).sum := by
  induction files with
  | nil => rfl
  | cons path rest ih =>
    rw [List.map_cons, List.sum_cons, ih]
    cases hmodule : (contentAt parser content path).isModule with
    | true => rw [List.filter_cons, if_pos hmodule, List.map_cons, List.sum_cons]
    | false =>
      rw [List.filter_cons, if_neg (by simp [hmodule]), importsAt_of_not_module hmodule]
      exact Nat.zero_add _

theorem covers_assemble :
    (FileGraph.assemble ((scan d (s.scanRules true) top).map
      (recordAt parser d s top content))).Covers parser d s top content := by
  have hpath : ∀ path, (recordAt parser d s top content path).path = path :=
    fun path => FileRecord.path_ofBytes ..
  have horder : (scan d (s.scanRules true) top).Pairwise (· < ·) := Sorted.ascending_distinct _
  have hids : (FileGraph.assemble ((scan d (s.scanRules true) top).map
      (recordAt parser d s top content))).nodes.map (·.id) = scan d (s.scanRules true) top := by
    rw [FileGraph.ids_assemble, FileGraph.pathsOf_map hpath horder]
  refine ⟨hids, fun node hnode => ?_, fun node hnode hmodule => ?_, fun a b weight => ?_,
    fun node hnode => ?_⟩
  · rw [(FileGraph.node_of_mem_map hpath horder hnode).1]
    exact FileRecord.lines_ofBytes ..
  · rw [(FileGraph.node_of_mem_map hpath horder hnode).2.1]
    exact FileRecord.mergedExports_ofBytes _ _ _ _ _ _ hmodule
  · rw [hids, FileGraph.exists_edge_map_iff hpath horder]
    simp only [imports_recordAt, scriptRefs_recordAt, takenFrom]
  · rw [hids, (FileGraph.node_of_mem_map hpath horder hnode).2.2, ← sum_importsOf_modules]
    simp only [imports_recordAt]

/-- What has an unparseable end weighs what the other end takes from it. -/
theorem FileGraph.Covers.weight_of_unparseable {g : FileGraph}
    (h : g.Covers parser d s top content) {file : String} {u : Unparseable}
    (hfile : contentAt parser content file = .unparseable u) {e : FileEdge} (he : e ∈ g.edges) :
    (e.source = file → e.weight = takenFrom parser d s top content e.target file) ∧
      (e.target = file → e.weight = takenFrom parser d s top content e.source file) := by
  have hnone : ∀ target, takenFrom parser d s top content file target = 0 := by
    intro target
    simp [takenFrom, importsAt, hfile, namesFrom, FileContent.imports, FileContent.scripts]
  obtain ⟨-, -, -, -, hweight⟩ := (h.weights _ _ _).mp ⟨e, he, rfl, rfl, rfl⟩
  constructor
  · intro hsource
    rw [hweight, hsource, hnone, Nat.zero_add]
  · intro htarget
    rw [hweight, htarget, hnone, Nat.add_zero]

theorem Disk.pathExists_of_isDirectory {path : String} (h : d.isDirectory path = true) :
    d.pathExists path = true := by
  unfold isDirectory at h
  unfold pathExists
  split at h
  · rename_i hstat
    rw [hstat]
  · cases h

theorem validateRoot_of_isDirectory (h : d.isDirectory (Path.absolute d.cwd root) = true) :
    validateRoot d root = .ok (Path.absolute d.cwd root) := by
  simp only [validateRoot, d.pathExists_of_isDirectory h, h]
  rfl

variable (parser) in
/-- A root whose files can be read is analysed from their records. -/
theorem analyzeFiles_of_readable (hroot : d.isDirectory (Path.absolute d.cwd root) = true)
    (hread : ∀ path ∈ scan d (s.scanRules true) (Path.absolute d.cwd root),
      d.read (Path.join (Path.absolute d.cwd root) path) = .ok (content path)) :
    (analyzeFiles parser d (.ok s) root).outcome =
      .ok (FileGraph.assemble ((scan d (s.scanRules true) (Path.absolute d.cwd root)).map
        (recordAt parser d s (Path.absolute d.cwd root) content))) := by
  let c : Context := ⟨parser, Path.absolute d.cwd root, [], []⟩
  have hnew : (Run.ofAnalysis (Context.new parser d root)).outcome = .ok c := by
    rw [Context.new, validateRoot_of_isDirectory hroot]
    rfl
  have hcoherent : c.Coherent := fun path p hp => by cases hp
  have hbytes : ∀ path ∈ scan d (s.scanRules true) c.root,
      c.bytesOf d path = .ok (content path) :=
    fun path hpath => (Context.bytesOf_of_new rfl d).trans (hread path hpath)
  have hrecords := (collectRecords_eq_ok_iff hcoherent d d s _).mpr ⟨content, hbytes, rfl⟩
  exact Run.bind_eq_ok.mpr ⟨_, Run.bind_eq_ok.mpr ⟨c, hnew, Run.bind_eq_ok.mpr
    ⟨s, rfl, hrecords⟩⟩, Run.bind_eq_ok.mpr ⟨(), rfl, rfl⟩⟩

theorem Context.new_eq_ok {c : Context} (h : Context.new parser d root = .ok c) :
    d.isDirectory (Path.absolute d.cwd root) = true ∧
      c = ⟨parser, Path.absolute d.cwd root, [], []⟩ := by
  unfold Context.new at h
  cases hvalid : validateRoot d root with
  | error e =>
    rw [hvalid] at h
    cases h
  | ok place =>
    obtain ⟨hplace, hdirectory⟩ := validateRoot_eq_ok hvalid
    rw [hvalid] at h
    exact ⟨hplace ▸ hdirectory, hplace ▸ (Except.ok.inj h).symm⟩

/-- What was found and read when an analysis has ended well. -/
theorem analyzeFiles_eq_ok {settings : Except SettingsFault Settings} {g : FileGraph}
    (h : (analyzeFiles parser d settings root).outcome = .ok g) :
    ∃ s content, settings = .ok s ∧ d.isDirectory (Path.absolute d.cwd root) = true ∧
      (∀ path ∈ scan d (s.scanRules true) (Path.absolute d.cwd root),
        d.read (Path.join (Path.absolute d.cwd root) path) = .ok (content path)) ∧
      g.Covers parser d s (Path.absolute d.cwd root) content := by
  obtain ⟨records, hrecords, hgraph⟩ := Run.bind_eq_ok.mp h
  obtain ⟨c, hnew, hrest⟩ := Run.bind_eq_ok.mp hrecords
  obtain ⟨s, hsettings, hcollect⟩ := Run.bind_eq_ok.mp hrest
  obtain ⟨-, -, hassemble⟩ := Run.bind_eq_ok.mp hgraph
  obtain ⟨hdirectory, hc⟩ := Context.new_eq_ok (Run.ofAnalysis_eq_ok.mp hnew)
  have hcoherent : c.Coherent := fun path p hp => by
    rw [hc] at hp
    cases hp
  obtain ⟨content, hbytes, hmade⟩ := (collectRecords_eq_ok_iff hcoherent d d s records).mp hcollect
  have hroot : c.root = Path.absolute d.cwd root := congrArg Context.root hc
  have hparser : c.parser = parser := congrArg Context.parser hc
  have hempty : ∀ path, c.data.get? path = none := fun path => by rw [hc]; rfl
  simp only [Context.bytesOf_of_new (hempty _), Context.placeOf, hparser, hroot] at hbytes hmade
  refine ⟨s, content, Run.ofSettings_eq_ok.mp hsettings, hdirectory, hbytes, ?_⟩
  rw [← Run.pure_eq_ok.mp hassemble, hmade]
  exact covers_assemble

end Covers

/-- A page that loads a script which is no text. -/
def brokenScriptDisk : Disk where
  top := .directory [("site", .directory
    [("b.js", .file [255, 10]), ("p.html", .file (Reexport.bytes "<script src='b.js'></script>"))])]
  cwd := "/site"
  rooted := rfl

/-- The files of `brokenScriptDisk`. -/
def brokenScriptContent (path : String) : Bytes :=
  if path = "b.js" then [255, 10] else Reexport.bytes "<script src='b.js'></script>"

theorem scan_brokenScriptDisk :
    scan brokenScriptDisk (Settings.standard.scanRules true) "/site" = ["b.js", "p.html"] := by
  decide

theorem read_brokenScriptDisk :
    ∀ path ∈ scan brokenScriptDisk (Settings.standard.scanRules true) "/site",
      brokenScriptDisk.read (Path.join "/site" path) = .ok (brokenScriptContent path) := by
  rw [scan_brokenScriptDisk]
  decide

/-- A linked directory outside the root, and a file in the root. -/
def detourDisk : Disk where
  top := .directory [("o", .directory [("d", .directory [("b.js", .file [])])]),
    ("site", .directory [("a.js", .file []), ("l", .link "../o/d")])]
  cwd := "/site"
  rooted := rfl

end CodeGraph
