import CodeGraph.Proofs.SymbolGraph.EdgeSet
import CodeGraph.Proofs.SymbolGraph.Index
import CodeGraph.SymbolGraph.Link

/-!
# Call edges are exact

The edges of kind `calls` of a linked graph, said about the call facts: no edge is lost or made
up on the way through the index, the resolvers, the set of edges and the filter for unknown
symbols. The filter drops nothing, because callers and targets are found in the index.
-/

namespace CodeGraph

/-- A fact the way a set of edges takes it. -/
def EdgeFact.entry (e : EdgeFact) : EdgeKey EdgeKind × Option Condition :=
  (⟨e.source, e.target, e.kind⟩, e.condition)

namespace Link

theorem collect_eq_addAll (facts : List EdgeFact) :
    collect facts = EdgeSet.addAll [] (facts.map EdgeFact.entry) := by
  rw [EdgeSet.addAll, List.foldl_map]
  rfl

/-- The call is one of some file's, its caller is the symbol `s` there, and it leads to another
symbol `t`. -/
def Leads (resolvers : List Resolver) (files : List FileSymbols) (s t : String)
    (c : CallFact) : Prop :=
  ∃ f ∈ files, c ∈ f.calls ∧ (SymbolIndex.ofFiles files).lookup f.file c.caller = some s ∧
    t ∈ resolveCall (SymbolIndex.ofFiles files) resolvers f.file c ∧ t ≠ s

theorem kind_of_mem_importFacts {index : SymbolIndex} {f : FileSymbols} {e : EdgeFact}
    (h : e ∈ importFacts index f) : e.kind = .imports := by
  obtain ⟨b, -, hb⟩ := List.mem_filterMap.mp h
  obtain ⟨target, -, rfl⟩ := Option.map_eq_some_iff.mp hb
  rfl

theorem mem_callFacts (index : SymbolIndex) (resolvers : List Resolver) (file : String)
    (call : CallFact) (e : EdgeFact) :
    e ∈ callFacts index resolvers file call ↔
      index.lookup file call.caller = some e.source ∧
        e.target ∈ resolveCall index resolvers file call ∧ e.target ≠ e.source ∧
        e.kind = .calls ∧ e.condition = call.condition := by
  obtain ⟨s, t, kind, condition⟩ := e
  unfold callFacts
  split
  · rename_i hnone
    simp [hnone]
  · rename_i caller hcaller
    simp only [List.mem_map, List.mem_filter, bne_iff_ne, EdgeFact.mk.injEq, hcaller,
      Option.some.injEq]
    constructor
    · rintro ⟨target, ⟨hmem, hne⟩, rfl, rfl, rfl, rfl⟩
      exact ⟨rfl, hmem, hne, rfl, rfl⟩
    · rintro ⟨rfl, hmem, hne, rfl, rfl⟩
      exact ⟨t, ⟨hmem, hne⟩, rfl, rfl, rfl, rfl⟩

/-- The facts about calls are the calls that lead somewhere. -/
theorem mem_facts_calls (resolvers : List Resolver) (files : List FileSymbols) (s t : String)
    (condition : Option Condition) :
    (⟨s, t, .calls⟩, condition) ∈
        (facts (SymbolIndex.ofFiles files) resolvers files).map EdgeFact.entry ↔
      ∃ c, Leads resolvers files s t c ∧ c.condition = condition := by
  constructor
  · intro h
    obtain ⟨e, he, hentry⟩ := List.mem_map.mp h
    obtain ⟨hkey, rfl⟩ := Prod.mk.inj hentry
    obtain ⟨rfl, rfl, hkind⟩ := EdgeKey.mk.inj hkey
    obtain ⟨f, hf, hfile⟩ := List.mem_flatMap.mp he
    rcases List.mem_append.mp hfile with himport | hcall
    · exact absurd ((kind_of_mem_importFacts himport).symm.trans hkind) (by decide)
    · obtain ⟨c, hc, hcall⟩ := List.mem_flatMap.mp hcall
      obtain ⟨hcaller, htarget, hne, -, hcondition⟩ := (mem_callFacts _ _ _ _ _).mp hcall
      exact ⟨c, ⟨f, hf, hc, hcaller, htarget, hne⟩, hcondition.symm⟩
  · rintro ⟨c, ⟨f, hf, hc, hcaller, htarget, hne⟩, rfl⟩
    refine List.mem_map.mpr ⟨⟨s, t, .calls, c.condition⟩, ?_, rfl⟩
    refine List.mem_flatMap.mpr ⟨f, hf, List.mem_append_right _ ?_⟩
    refine List.mem_flatMap.mpr ⟨c, hc, ?_⟩
    exact (mem_callFacts _ _ _ _ _).mpr ⟨hcaller, htarget, hne, rfl, rfl⟩

theorem Leads.mem_ids {resolvers : List Resolver} {files : List FileSymbols} {s t : String}
    {c : CallFact} (h : Leads resolvers files s t c) :
    s ∈ (SymbolIndex.ofFiles files).ids ∧ t ∈ (SymbolIndex.ofFiles files).ids := by
  obtain ⟨f, -, -, hcaller, htarget, -⟩ := h
  exact ⟨SymbolIndex.lookup_mem_ids hcaller, SymbolIndex.resolveCall_mem_ids htarget⟩

/-! ## The edges of the linked graph -/

theorem edges_linkSymbols (resolvers : List Resolver) (files : List FileSymbols) :
    (linkSymbols resolvers files).2 =
      (EdgeSet.addAll [] ((facts (SymbolIndex.ofFiles files) resolvers files).map
        EdgeFact.entry)).edges (some (SymbolIndex.ofFiles files).ids) := by
  rw [← collect_eq_addAll]
  rfl

section CallEdge

variable {resolvers : List Resolver} {files : List FileSymbols} {e : SymbolEdge}

/-- The facts of a call edge's key are the calls that lead along the edge. -/
theorem mem_facts_key (hkind : e.kind = .calls) (condition : Option Condition) :
    (e.key, condition) ∈ (facts (SymbolIndex.ofFiles files) resolvers files).map EdgeFact.entry ↔
      ∃ c, Leads resolvers files e.source e.target c ∧ c.condition = condition := by
  rw [EdgeOf.key, hkind]
  exact mem_facts_calls resolvers files _ _ _

theorem exists_leads_of_gathers (hkind : e.kind = .calls)
    (h : e.Gathers ((facts (SymbolIndex.ofFiles files) resolvers files).map EdgeFact.entry)) :
    ∃ c, Leads resolvers files e.source e.target c := by
  obtain ⟨condition, hstated⟩ := h.stated
  obtain ⟨c, hleads, -⟩ := (mem_facts_key hkind condition).mp hstated
  exact ⟨c, hleads⟩

/-- A call edge is in the linked graph exactly if it gathers the calls of its key. -/
theorem mem_linkSymbols_calls (hkind : e.kind = .calls) :
    e ∈ (linkSymbols resolvers files).2 ↔
      e.Gathers ((facts (SymbolIndex.ofFiles files) resolvers files).map EdgeFact.entry) := by
  rw [edges_linkSymbols, EdgeSet.mem_edges_addAll]
  refine ⟨And.left, fun h => ⟨h, ?_⟩⟩
  obtain ⟨c, hleads⟩ := exists_leads_of_gathers hkind h
  simpa [EdgeSet.isKnown] using hleads.mem_ids

theorem exists_edge_of_leads {s t : String} {c : CallFact} (h : Leads resolvers files s t c) :
    ∃ e ∈ (linkSymbols resolvers files).2, e.key = ⟨s, t, .calls⟩ := by
  obtain ⟨e, hkey, hgathers⟩ := EdgeSet.exists_gathers
    ((mem_facts_calls resolvers files s t c.condition).mpr ⟨c, h, rfl⟩)
  have hkind : e.kind = .calls := congrArg EdgeKey.kind hkey
  exact ⟨e, (mem_linkSymbols_calls hkind).mpr hgathers, hkey⟩

/-- No two edges of the linked graph have the same key. -/
theorem count_key_linkSymbols (he : e ∈ (linkSymbols resolvers files).2) :
    ((linkSymbols resolvers files).2.map EdgeOf.key).count e.key = 1 := by
  refine List.count_eq_one_of_mem ?_ (List.mem_map.mpr ⟨e, he, rfl⟩)
  rw [edges_linkSymbols]
  exact EdgeSet.nodup_keys_edges _ _

theorem conditions_eq_none_iff (he : e ∈ (linkSymbols resolvers files).2)
    (hkind : e.kind = .calls) :
    e.conditions = none ↔
      ∀ c, Leads resolvers files e.source e.target c → c.condition = none := by
  rw [((mem_linkSymbols_calls hkind).mp he).unconditional]
  constructor
  · intro h c hleads
    cases hc : c.condition with
    | none => rfl
    | some k => exact absurd ((mem_facts_key hkind (some k)).mpr ⟨c, hleads, hc⟩) (h k)
  · intro h k hk
    obtain ⟨c, hleads, hc⟩ := (mem_facts_key hkind (some k)).mp hk
    rw [h c hleads] at hc
    cases hc

end CallEdge

/-- **Call edges are exact.** Between two symbols there is a call edge exactly if some call leads
from the one to the other, and then there is one. It has no conditions if none of these calls has
one; otherwise it lists the conditions of these calls, in order and each once. -/
theorem linkSymbols_calls_exact (resolvers : List Resolver) (files : List FileSymbols)
    (s t : String) :
    ((∃ e ∈ (linkSymbols resolvers files).2, e.kind = .calls ∧ e.source = s ∧ e.target = t) ↔
      ∃ c, Leads resolvers files s t c) ∧
    ((∃ c, Leads resolvers files s t c) →
      (linkSymbols resolvers files).2.countP
        (fun e => e.kind = .calls ∧ e.source = s ∧ e.target = t) = 1) ∧
    ∀ e ∈ (linkSymbols resolvers files).2, e.kind = .calls → e.source = s → e.target = t →
      (e.conditions = none ↔ ∀ c, Leads resolvers files s t c → c.condition = none) ∧
      ∀ cs, e.conditions = some cs →
        cs.Pairwise (fun a b => a.key < b.key) ∧
        ∀ k, k ∈ cs ↔ ∃ c, Leads resolvers files s t c ∧ c.condition = some k := by
  refine ⟨⟨?_, ?_⟩, ?_, ?_⟩
  · rintro ⟨e, he, hkind, rfl, rfl⟩
    exact exists_leads_of_gathers hkind ((mem_linkSymbols_calls hkind).mp he)
  · rintro ⟨c, hleads⟩
    obtain ⟨e, he, hkey⟩ := exists_edge_of_leads hleads
    obtain ⟨hs, ht, hkind⟩ := EdgeKey.mk.inj hkey
    exact ⟨e, he, hkind, hs, ht⟩
  · rintro ⟨c, hleads⟩
    obtain ⟨e, he, hkey⟩ := exists_edge_of_leads hleads
    have hcount := count_key_linkSymbols he
    rw [hkey] at hcount
    rw [← hcount, List.count, List.countP_map]
    refine List.countP_congr (fun e _ => ?_)
    simp only [Function.comp, EdgeOf.key, decide_eq_true_eq, beq_iff_eq, EdgeKey.mk.injEq]
    tauto
  · rintro e he hkind rfl rfl
    have hgathers := (mem_linkSymbols_calls hkind).mp he
    refine ⟨conditions_eq_none_iff he hkind, fun cs hcs => ⟨hgathers.ascending cs hcs, fun k => ?_⟩⟩
    exact (hgathers.carried cs hcs k).trans (mem_facts_key hkind (some k))

end Link

end CodeGraph
