import CodeGraph.Proofs.SymbolGraph.CallEdges

/-!
# Linked graphs are well formed

Whatever comes in, with ids, names and files repeated at will, a linked graph has one symbol for
each id, and its edges stay among its symbols. Edges are collected first and those that would leave
a symbol unknown are dropped afterwards; since callers and targets of calls are indexed symbols,
only `imports` edges can be dropped. The source of such an edge is a name that need not be a symbol.
-/

namespace CodeGraph.Link

/-- The edges as they are collected, before any is dropped. -/
def collectedEdges (resolvers : List Resolver) (files : List FileSymbols) : List SymbolEdge :=
  (collect (facts (SymbolIndex.ofFiles files) resolvers files)).edges none

variable {resolvers : List Resolver} {files : List FileSymbols} {e : SymbolEdge}

theorem map_id_linkSymbols (resolvers : List Resolver) (files : List FileSymbols) :
    (linkSymbols resolvers files).1.map (·.id) = (SymbolIndex.ofFiles files).ids :=
  SymbolIndex.map_id_values_ofFiles files

/-- A symbol is listed if no later one carries its id. -/
theorem mem_symbols_linkSymbols {s : Symbol} :
    s ∈ (linkSymbols resolvers files).1 ↔
      ∃ before after, files.flatMap (·.symbols) = before ++ s :: after ∧
        ∀ t ∈ after, t.id ≠ s.id := by
  constructor
  · intro h
    obtain ⟨⟨id, t⟩, hentry, rfl⟩ := List.mem_map.mp h
    obtain ⟨rfl, hlast⟩ := SymbolIndex.mem_symbols_ofFiles.mp hentry
    exact hlast
  · intro h
    exact List.mem_map.mpr ⟨(s.id, s), SymbolIndex.mem_symbols_ofFiles.mpr ⟨rfl, h⟩, rfl⟩

/-! ## Edges before and after the filter -/

theorem mem_collectedEdges :
    e ∈ collectedEdges resolvers files ↔
      e.Gathers ((facts (SymbolIndex.ofFiles files) resolvers files).map EdgeFact.entry) := by
  rw [collectedEdges, collect_eq_addAll, EdgeSet.mem_edges_addAll]
  exact and_iff_left rfl

/-- The edges are the collected ones that join indexed symbols. -/
theorem edges_eq_filter (resolvers : List Resolver) (files : List FileSymbols) :
    (linkSymbols resolvers files).2 = (collectedEdges resolvers files).filter
      (EdgeSet.isKnown (some (SymbolIndex.ofFiles files).ids)) := by
  rw [edges_linkSymbols, collectedEdges, collect_eq_addAll, EdgeSet.edges, EdgeSet.edges,
    List.filter_filter]
  refine List.filter_congr (fun e _ => ?_)
  exact (Bool.and_true _).symm

theorem mem_edges_linkSymbols :
    e ∈ (linkSymbols resolvers files).2 ↔
      e ∈ collectedEdges resolvers files ∧ e.source ∈ (SymbolIndex.ofFiles files).ids ∧
        e.target ∈ (SymbolIndex.ofFiles files).ids := by
  rw [edges_eq_filter, List.mem_filter]
  simp [EdgeSet.isKnown]

theorem exists_leads_of_collected (he : e ∈ collectedEdges resolvers files)
    (hkind : e.kind = .calls) : ∃ c, Leads resolvers files e.source e.target c :=
  exists_leads_of_gathers hkind (mem_collectedEdges.mp he)

theorem source_ne_target_of_calls (he : e ∈ collectedEdges resolvers files)
    (hkind : e.kind = .calls) : e.source ≠ e.target := by
  obtain ⟨c, f, -, -, -, -, hne⟩ := exists_leads_of_collected he hkind
  exact hne.symm

/-- A collected edge that the filter drops is no call. -/
theorem kind_of_dropped (he : e ∈ collectedEdges resolvers files)
    (hdropped : e ∉ (linkSymbols resolvers files).2) : e.kind = .imports := by
  cases hkind : e.kind with
  | imports => rfl
  | calls =>
    obtain ⟨c, hleads⟩ := exists_leads_of_collected he hkind
    exact absurd (mem_edges_linkSymbols.mpr ⟨he, hleads.mem_ids⟩) hdropped

theorem nodup_symbols_linkSymbols (resolvers : List Resolver) (files : List FileSymbols) :
    (linkSymbols resolvers files).1.Nodup := by
  refine List.Nodup.of_map (·.id) ?_
  rw [map_id_linkSymbols]
  exact SymbolIndex.nodup_ids_ofFiles files

theorem nodup_edges_linkSymbols (resolvers : List Resolver) (files : List FileSymbols) :
    (linkSymbols resolvers files).2.Nodup := by
  refine List.Nodup.of_map EdgeOf.key ?_
  rw [edges_linkSymbols]
  exact EdgeSet.nodup_keys_edges _ _

/-- Whether an edge is in a linked graph is decided by the facts between its two ends, if the ends
are symbols. -/
theorem mem_edges_congr {files' : List FileSymbols}
    (hends : e.source ∈ (SymbolIndex.ofFiles files).ids ∧
        e.target ∈ (SymbolIndex.ofFiles files).ids ↔
      e.source ∈ (SymbolIndex.ofFiles files').ids ∧ e.target ∈ (SymbolIndex.ofFiles files').ids)
    (hfacts : ∀ fact : EdgeFact, fact.source = e.source → fact.target = e.target →
      (fact ∈ facts (SymbolIndex.ofFiles files) resolvers files ↔
        fact ∈ facts (SymbolIndex.ofFiles files') resolvers files')) :
    e ∈ (linkSymbols resolvers files).2 ↔ e ∈ (linkSymbols resolvers files').2 := by
  rw [mem_edges_linkSymbols, mem_edges_linkSymbols, mem_collectedEdges, mem_collectedEdges, hends]
  refine and_congr_left (fun _ => EdgeOf.gathers_congr (fun c => ?_))
  have hentry : ∀ fact : EdgeFact, fact.entry = (e.key, c) →
      fact.source = e.source ∧ fact.target = e.target := by
    intro fact h
    obtain ⟨hs, ht, -⟩ := EdgeKey.mk.inj (Prod.mk.inj h).1
    exact ⟨hs, ht⟩
  rw [List.mem_map, List.mem_map]
  refine exists_congr (fun fact => and_congr_left (fun h => ?_))
  exact hfacts fact (hentry fact h).1 (hentry fact h).2

/-- **Linked graphs are well formed.** The symbols have distinct ids, in the order in which the ids
first come, and each is the last one of its id. Edges join listed symbols, and nothing calls
itself. The edges are some of those collected, in their order: every collected call edge joins
listed symbols, and what is dropped is an import. -/
theorem linkSymbols_wellFormed (resolvers : List Resolver) (files : List FileSymbols) :
    ((linkSymbols resolvers files).1.map (·.id)).Nodup ∧
    (linkSymbols resolvers files).1.map (·.id) =
      ((files.flatMap (·.symbols)).map (·.id)).eraseDups ∧
    (∀ s, s ∈ (linkSymbols resolvers files).1 ↔
      ∃ before after, files.flatMap (·.symbols) = before ++ s :: after ∧
        ∀ t ∈ after, t.id ≠ s.id) ∧
    (∀ e ∈ (linkSymbols resolvers files).2,
      e.source ∈ (linkSymbols resolvers files).1.map (·.id) ∧
        e.target ∈ (linkSymbols resolvers files).1.map (·.id)) ∧
    (∀ e ∈ (linkSymbols resolvers files).2, e.kind = .calls → e.source ≠ e.target) ∧
    (linkSymbols resolvers files).2.Sublist (collectedEdges resolvers files) ∧
    (∀ e ∈ collectedEdges resolvers files, e.kind = .calls →
      e.source ∈ (linkSymbols resolvers files).1.map (·.id) ∧
        e.target ∈ (linkSymbols resolvers files).1.map (·.id)) ∧
    ∀ e ∈ collectedEdges resolvers files, e ∉ (linkSymbols resolvers files).2 →
      e.kind = .imports := by
  rw [map_id_linkSymbols]
  refine ⟨SymbolIndex.nodup_ids_ofFiles files, SymbolIndex.ids_ofFiles files,
    fun s => mem_symbols_linkSymbols, fun e he => (mem_edges_linkSymbols.mp he).2,
    fun e he => source_ne_target_of_calls (mem_edges_linkSymbols.mp he).1, ?_,
    fun e he hkind => ?_, fun e => kind_of_dropped⟩
  · rw [edges_eq_filter]
    exact List.filter_sublist
  · obtain ⟨c, hleads⟩ := exists_leads_of_collected he hkind
    exact hleads.mem_ids

end CodeGraph.Link
