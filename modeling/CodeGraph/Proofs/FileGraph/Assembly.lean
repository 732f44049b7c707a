import CodeGraph.FileGraph.Assemble
import CodeGraph.Proofs.FileGraph.Connections

/-!
# Assembled graphs

A graph is assembled from the records of all files. References are listed as they come, so their
order could depend on the order of the records; it does not, since the records are first put in the
order of their paths.

* `FileRecord.facts`: what a record tells the builder. Assembling is telling the facts of all
  records (`builder_eq`), so all that is known about facts applies.
* `inPathOrder_perm`: records with distinct paths have one order only.
* `FileGraph.Closed`: a graph that refers to its own nodes only, each list in order.
-/

namespace CodeGraph

/-- What a record says about connections, in the order in which it is counted. -/
def FileRecord.facts (r : FileRecord) : List ConnectionFact :=
  r.imports.map (.importOf r.path) ++ r.scriptRefs.map (.scriptOf r.path)

theorem FileRecord.source_of_mem_facts {r : FileRecord} {f : ConnectionFact} (h : f ∈ r.facts) :
    f.source = r.path := by
  rcases List.mem_append.mp h with himport | hscript
  · obtain ⟨i, -, rfl⟩ := List.mem_map.mp himport
    rfl
  · obtain ⟨s, -, rfl⟩ := List.mem_map.mp hscript
    rfl

namespace FileGraph

/-! ## Records in the order of their paths -/

/-- The records in the order of their paths. -/
def inPathOrder (records : List FileRecord) : List FileRecord :=
  records.mergeSort (fun r s => r.path ≤ s.path)

theorem inPathOrder_perm_self (records : List FileRecord) :
    (inPathOrder records).Perm records :=
  List.mergeSort_perm records _

theorem inPathOrder_ascending {records : List FileRecord}
    (hdistinct : (records.map (·.path)).Nodup) :
    (inPathOrder records).Pairwise (fun r s => r.path < s.path) := by
  have hsorted : (inPathOrder records).Pairwise (fun r s => decide (r.path ≤ s.path) = true) := by
    apply List.pairwise_mergeSort
    · intro r s t hrs hst
      simp only [decide_eq_true_eq] at *
      exact le_trans hrs hst
    · intro r s
      simp only [Bool.or_eq_true, decide_eq_true_eq]
      exact le_total _ _
  have hnodup : ((inPathOrder records).map (·.path)).Nodup :=
    ((inPathOrder_perm_self records).map _).nodup_iff.mpr hdistinct
  have hne : (inPathOrder records).Pairwise (fun r s => r.path ≠ s.path) :=
    List.pairwise_map.mp hnodup
  refine (hsorted.and hne).imp ?_
  intro r s h
  exact lt_of_le_of_ne (of_decide_eq_true h.1) h.2

/-- Records with distinct paths have one order only. -/
theorem inPathOrder_perm {records records' : List FileRecord}
    (hdistinct : (records.map (·.path)).Nodup) (hperm : records.Perm records') :
    inPathOrder records = inPathOrder records' := by
  have hdistinct' : (records'.map (·.path)).Nodup := (hperm.map _).nodup_iff.mp hdistinct
  have hsame : (inPathOrder records).Perm (inPathOrder records') :=
    ((inPathOrder_perm_self records).trans hperm).trans (inPathOrder_perm_self records').symm
  refine hsame.eq_of_pairwise ?_ (inPathOrder_ascending hdistinct)
    (inPathOrder_ascending hdistinct')
  intro r s _ _ hrs hsr
  exact absurd hrs (lt_asymm hsr)

/-! ## Assembling is telling facts -/

theorem addRecord_eq (b : FileGraphBuilder) (r : FileRecord) :
    addRecord b r = r.facts.foldl FileGraphBuilder.tell b := by
  rw [FileRecord.facts, List.foldl_append, List.foldl_map, List.foldl_map]
  rfl

/-- The paths of the records, in order. -/
def pathsOf (records : List FileRecord) : List String :=
  (inPathOrder records).map (·.path)

/-- The facts of the records, path by path. -/
def factsOf (records : List FileRecord) : List ConnectionFact :=
  (inPathOrder records).flatMap FileRecord.facts

theorem mem_pathsOf {records : List FileRecord} {path : String} :
    path ∈ pathsOf records ↔ path ∈ records.map (·.path) :=
  ((inPathOrder_perm_self records).map _).mem_iff

theorem source_of_mem_factsOf {records : List FileRecord} {f : ConnectionFact}
    (h : f ∈ factsOf records) : f.source ∈ pathsOf records := by
  obtain ⟨r, hr, hf⟩ := List.mem_flatMap.mp h
  rw [FileRecord.source_of_mem_facts hf]
  exact List.mem_map_of_mem hr

theorem foldl_addRecord (records : List FileRecord) (b : FileGraphBuilder) :
    records.foldl addRecord b =
      (records.flatMap FileRecord.facts).foldl FileGraphBuilder.tell b := by
  induction records generalizing b with
  | nil => rfl
  | cons r rest ih =>
    rw [List.foldl_cons, ih, addRecord_eq, List.flatMap_cons, List.foldl_append]

theorem builder_eq (records : List FileRecord) :
    (inPathOrder records).foldl addRecord (FileGraphBuilder.new (pathsOf records)) =
      FileGraphBuilder.ofFacts (pathsOf records) (factsOf records) :=
  foldl_addRecord _ _

theorem ids_assemble (records : List FileRecord) :
    (assemble records).nodes.map (·.id) = pathsOf records := by
  show ((inPathOrder records).map _).map _ = (inPathOrder records).map _
  rw [List.map_map]
  rfl

theorem edges_assemble (records : List FileRecord) :
    (assemble records).edges =
      (FileGraphBuilder.ofFacts (pathsOf records) (factsOf records)).edges := by
  rw [← builder_eq]
  rfl

/-! ## Closed graphs -/

/-- The second list holds the texts of the first one, each once and in order. -/
def Lists (texts listed : List String) : Prop :=
  listed.Pairwise (· < ·) ∧ ∀ text, text ∈ listed ↔ text ∈ texts

theorem lists_distinct (texts : List String) : Lists texts (Sorted.distinct texts) :=
  ⟨Sorted.ascending_distinct texts, fun _ => Sorted.mem_distinct⟩

/-- A graph that refers to its own nodes only: the nodes stand in the order of their ids, edges join
two of them and have a weight, and the folders and extensions listed are those of the nodes. -/
structure Closed (g : FileGraph) : Prop where
  ids : (g.nodes.map (·.id)).Pairwise (· < ·)
  ends : ∀ e ∈ g.edges, e.source ∈ g.nodes.map (·.id) ∧ e.target ∈ g.nodes.map (·.id)
  edges : ∀ e ∈ g.edges, e.source < e.target ∧ 1 ≤ e.weight
  folders : Lists (g.nodes.map (·.folder)) g.folders
  extensions : Lists (g.nodes.map (·.extension)) g.extensions

/-- A fact that connects two files is said by one of them, and the other one is known. -/
theorem ends_of_connects {records : List FileRecord} {f : ConnectionFact} {a b : String}
    (hf : f ∈ factsOf records) (h : f.Connects (pathsOf records) a b) :
    a ∈ pathsOf records ∧ b ∈ pathsOf records := by
  have hsource := source_of_mem_factsOf hf
  obtain ⟨target, -, htarget, -, hends⟩ := h
  rcases hends with ⟨rfl, rfl⟩ | ⟨rfl, rfl⟩
  · exact ⟨hsource, htarget⟩
  · exact ⟨htarget, hsource⟩

theorem closed_assemble {records : List FileRecord} (hdistinct : (records.map (·.path)).Nodup) :
    (assemble records).Closed where
  ids := by
    rw [ids_assemble]
    exact List.pairwise_map.mpr (inPathOrder_ascending hdistinct)
  ends := by
    intro e he
    rw [edges_assemble, FileGraphBuilder.mem_edges_ofFacts] at he
    obtain ⟨-, hpos, -, -⟩ := he
    obtain ⟨f, hf, hconnects⟩ := ConnectionFact.exists_connects_of_total hpos
    rw [ids_assemble]
    exact ends_of_connects hf hconnects
  edges := by
    intro e he
    rw [edges_assemble, FileGraphBuilder.mem_edges_ofFacts] at he
    obtain ⟨hlt, hpos, hweight, -⟩ := he
    refine ⟨hlt, ?_⟩
    rw [hweight]
    exact_mod_cast hpos
  folders := lists_distinct _
  extensions := lists_distinct _

/-- **Assembling does not depend on the order of the records.** From records with distinct paths,
in any order, comes the same graph, down to the order of references and exports. Its nodes are the
records' paths, it is closed, and its edges are what the records say, told in the order of their
paths. -/
theorem assemble_order_free {records records' : List FileRecord}
    (hdistinct : (records.map (·.path)).Nodup) (hperm : records.Perm records') :
    assemble records' = assemble records ∧
    (∀ path, path ∈ (assemble records).nodes.map (·.id) ↔ path ∈ records.map (·.path)) ∧
    (assemble records).Closed ∧
    ∀ e, e ∈ (assemble records).edges ↔
      e.source < e.target ∧
      0 < ConnectionFact.total (pathsOf records) (factsOf records) e.source e.target ∧
      e.weight = ConnectionFact.total (pathsOf records) (factsOf records) e.source e.target ∧
      e.references =
        ConnectionFact.namesBetween (pathsOf records) (factsOf records) e.source e.target := by
  refine ⟨?_, ?_, closed_assemble hdistinct, ?_⟩
  · have hsame := inPathOrder_perm hdistinct hperm
    unfold inPathOrder at hsame
    simp only [assemble, hsame]
  · intro path
    rw [ids_assemble]
    exact mem_pathsOf
  · intro e
    rw [edges_assemble]
    exact FileGraphBuilder.mem_edges_ofFacts _ _ e

/-- A record of a file with these imports and script tags, and nothing else. -/
def linkedRecord (path : String) (imports : List Import) (scripts : List String) : FileRecord where
  path := path
  size := 0
  lines := 1
  exports := []
  imports := imports
  declarations := []
  references := []
  scriptRefs := scripts
  parsed := true

/-- Two files that import each other, one of them itself as well, and a page: whichever comes
first, the references of `a.js` stand before those of `b.js`. -/
theorem assemble_mutual_imports :
    let a := linkedRecord "a.js" [⟨"./b", some "b.js", [⟨"z", "z", .named⟩]⟩] []
    let b := linkedRecord "b.js" [⟨"./a", some "a.js", [⟨"x", "x", .named⟩, ⟨"y", "y", .named⟩]⟩,
      ⟨"./b", some "b.js", [⟨"w", "w", .named⟩]⟩, ⟨"react", none, [⟨"r", "r", .named⟩]⟩] []
    let page := linkedRecord "sub/p.html" [] ["b.js"]
    (([page, b, a] : List FileRecord).map (·.path)).Nodup ∧ [page, b, a].Perm [a, page, b] ∧
      assemble [a, page, b] = assemble [page, b, a] ∧ (assemble [page, b, a]).Closed ∧
      ⟨"a.js", "b.js", 3, ["z", "x", "y"]⟩ ∈ (assemble [page, b, a]).edges := by
  intro a b page
  have hdistinct : (([page, b, a] : List FileRecord).map (·.path)).Nodup := by decide
  have hperm : [page, b, a].Perm [a, page, b] := by decide
  have horder : inPathOrder [page, b, a] = [a, b, page] := by
    rw [inPathOrder_perm hdistinct (show [page, b, a].Perm [a, b, page] by decide)]
    exact List.mergeSort_of_pairwise (by decide)
  obtain ⟨hsame, -, hclosed, hedges⟩ := assemble_order_free hdistinct hperm
  refine ⟨hdistinct, hperm, hsame, hclosed, (hedges _).mpr ?_⟩
  rw [pathsOf, factsOf, horder]
  decide

end FileGraph

end CodeGraph
