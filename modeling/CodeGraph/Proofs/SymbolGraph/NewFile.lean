import CodeGraph.Proofs.SymbolGraph.Locality

/-!
# Adding a file is a local change

A file that none of the others imports is added. To the others everything looks as before, except
that the last way to resolve a call may find methods of the new file, beside those that it found
already. So the old graph stays as it is, and what comes to it are symbols of the new file and
edges from or to these.
-/

namespace CodeGraph

open SymbolIndex

/-- The entry `n` of a new file comes to some files, at any place among them. The files are
distinct, symbols are those of their files, and none of the old files imports the new one. The
names that the new file gives to its imports have no colons, so that they stand for names of this
file alone. -/
structure AddsFile (files : List FileSymbols) (n : FileSymbols) (extended : List FileSymbols) :
    Prop where
  distinct : (files.map (·.file)).Nodup
  proper : ∀ f ∈ files, f.Proper
  properNew : n.Proper
  localNames : ∀ i ∈ n.imports, ∀ s ∈ i.specifiers, ':' ∉ s.name.toList
  isNew : ∀ f ∈ files, f.file ≠ n.file
  notImported : ∀ f ∈ files, ∀ i ∈ f.imports, i.resolved ≠ some n.file
  extended : extended.Perm (n :: files)

namespace AddsFile

variable {files extended : List FileSymbols} {n : FileSymbols} (h : AddsFile files n extended)
include h

theorem mem_extended {f : FileSymbols} : f ∈ extended ↔ f = n ∨ f ∈ files := by
  rw [h.extended.mem_iff, List.mem_cons]

theorem properExtended : ∀ f ∈ extended, f.Proper := by
  intro f hf
  rcases h.mem_extended.mp hf with rfl | hold
  · exact h.properNew
  · exact h.proper f hold

theorem distinctExtended : (extended.map (·.file)).Nodup := by
  refine (h.extended.map _).nodup_iff.mpr (List.nodup_cons.mpr ⟨?_, h.distinct⟩)
  intro hmem
  obtain ⟨f, hf, hfile⟩ := List.mem_map.mp hmem
  exact h.isNew f hf hfile

/-! ## What the old files see -/

/-- About every other file, nothing new is said. -/
theorem agreeAt {file : String} (hother : file ≠ n.file) :
    AgreeAt (ofFiles extended) (ofFiles files) file := by
  refine agreeAt_of_entriesOf h.properExtended h.proper ?_
  rw [entriesOf_perm h.distinctExtended h.extended, entriesOf, entriesOf, List.filter_cons]
  rw [if_neg (by simpa using hother.symm)]

theorem seeSame {f : FileSymbols} (hf : f ∈ files) :
    Resolver.SeeSame (ofFiles extended) (ofFiles files) f.file := by
  have hhere := h.agreeAt (h.isNew f hf)
  refine ⟨hhere, fun b hb => h.agreeAt ?_⟩
  rw [hhere.bindings] at hb
  obtain ⟨g, hg, -, i, hi, hresolved, -⟩ := exists_import_of_binding hb
  intro hfrom
  exact h.notImported g hg i hi (hfrom ▸ hresolved)

/-! ## Symbols and ids -/

theorem mem_values_iff {s : Symbol} :
    s ∈ (ofFiles files).symbols.values ↔
      s ∈ (ofFiles extended).symbols.values ∧ s.file ≠ n.file := by
  constructor
  · intro hs
    obtain ⟨f, hf, hsf⟩ := exists_entry_of_mem_values hs
    have hother : s.file ≠ n.file := by
      rw [(h.proper f hf).file s hsf]
      exact h.isNew f hf
    exact ⟨(h.agreeAt hother).mem_values_iff.mpr hs, hother⟩
  · rintro ⟨hs, hother⟩
    exact (h.agreeAt hother).mem_values_iff.mp hs

theorem mem_symbols_of_file {s : Symbol} (hs : s ∈ (ofFiles extended).symbols.values)
    (hfile : s.file = n.file) : s ∈ n.symbols := by
  obtain ⟨f, hf, hsf⟩ := exists_entry_of_mem_values hs
  rcases h.mem_extended.mp hf with rfl | hold
  · exact hsf
  · exact absurd (((h.proper f hold).file s hsf).symm.trans hfile) (h.isNew f hold)

/-- No old symbol has the id of a new one. -/
theorem id_notMem_ids {s : Symbol} (hs : s ∈ n.symbols) : s.id ∉ (ofFiles files).ids := by
  intro hid
  obtain ⟨f, hf, t, ht, htid⟩ := (mem_ids_ofFiles files s.id).mp hid
  exact h.isNew f hf ((h.proper f hf).file_eq h.properNew ht hs htid)

theorem mem_ids_extended {id : String} :
    id ∈ (ofFiles extended).ids ↔ (∃ s ∈ n.symbols, s.id = id) ∨ id ∈ (ofFiles files).ids := by
  simp only [mem_ids_ofFiles, h.mem_extended]
  constructor
  · rintro ⟨f, rfl | hf, hs⟩
    · exact Or.inl hs
    · exact Or.inr ⟨f, hf, hs⟩
  · rintro (hs | ⟨f, hf, hs⟩)
    · exact ⟨n, Or.inl rfl, hs⟩
    · exact ⟨f, Or.inr hf, hs⟩

/-- The methods with the id of an old symbol are those that were there before. -/
theorem sameMethods {target : String} (htarget : target ∈ (ofFiles files).ids) :
    SameMethods (ofFiles extended) (ofFiles files) target := by
  intro name
  refine exists_congr (fun s => and_congr_left (fun hid => ?_))
  have hvalues : s ∈ (ofFiles extended).symbols.values ↔ s ∈ (ofFiles files).symbols.values := by
    rw [h.mem_values_iff, iff_self_and]
    intro hs hfile
    exact h.id_notMem_ids (h.mem_symbols_of_file hs hfile) (hid ▸ htarget)
  simp only [methods, allMethods, List.mem_filter, hvalues]

/-! ## Facts and edges -/

/-- What the new file brings starts at a name of its own. -/
theorem source_notMem_ids {resolvers : List Resolver} {e : EdgeFact}
    (he : e ∈ Link.fileFacts (ofFiles extended) resolvers n) : e.source ∉ (ofFiles files).ids := by
  rcases List.mem_append.mp he with himport | hcall
  · obtain ⟨b, hb, hfact⟩ := List.mem_filterMap.mp himport
    obtain ⟨target, -, rfl⟩ := Option.map_eq_some_iff.mp hfact
    obtain ⟨g, hg, hfile, i, hi, -, s, hs, hname⟩ := exists_import_of_binding hb
    have hlocal : ':' ∉ b.localName.toList := by
      rcases h.mem_extended.mp hg with rfl | hold
      · exact hname ▸ h.localNames i hi s hs
      · exact absurd hfile (h.isNew g hold)
    intro hid
    obtain ⟨f, hf, t, ht, htid⟩ := (mem_ids_ofFiles files _).mp hid
    rw [(h.proper f hf).id t ht] at htid
    exact h.isNew f hf (symbolId_inj ((h.proper f hf).name t ht) hlocal htid).1
  · obtain ⟨call, -, hfact⟩ := List.mem_flatMap.mp hcall
    have hcaller := ((Link.mem_callFacts _ _ _ _ _).mp hfact).1
    obtain ⟨f, hf, hfile, s, hsf, -, hid⟩ := exists_symbol_of_lookup hcaller
    rcases h.mem_extended.mp hf with rfl | hold
    · exact hid ▸ h.id_notMem_ids hsf
    · exact absurd hfile (h.isNew f hold)

/-- Between old symbols there are the facts that were there before. -/
theorem mem_facts_iff {e : EdgeFact} (hsource : e.source ∈ (ofFiles files).ids)
    (htarget : e.target ∈ (ofFiles files).ids) :
    e ∈ Link.facts (ofFiles extended) Resolver.standard extended ↔
      e ∈ Link.facts (ofFiles files) Resolver.standard files := by
  have hfile : ∀ f ∈ files, (e ∈ Link.fileFacts (ofFiles extended) Resolver.standard f ↔
      e ∈ Link.fileFacts (ofFiles files) Resolver.standard f) := fun f hf =>
    Link.mem_fileFacts_congr (h.seeSame hf) (h.sameMethods htarget)
  simp only [Link.facts, List.mem_flatMap]
  constructor
  · rintro ⟨f, hf, he⟩
    rcases h.mem_extended.mp hf with rfl | hold
    · exact absurd hsource (h.source_notMem_ids he)
    · exact ⟨f, hold, (hfile f hold).mp he⟩
  · rintro ⟨f, hf, he⟩
    exact ⟨f, h.mem_extended.mpr (Or.inr hf), (hfile f hf).mpr he⟩

/-- The old edges are the edges between old symbols. -/
theorem mem_edges_iff {e : SymbolEdge} :
    e ∈ (linkSymbols Resolver.standard files).2 ↔
      e ∈ (linkSymbols Resolver.standard extended).2 ∧
        e.source ∈ (ofFiles files).ids ∧ e.target ∈ (ofFiles files).ids := by
  have hbetween : e.source ∈ (ofFiles files).ids ∧ e.target ∈ (ofFiles files).ids →
      (e ∈ (linkSymbols Resolver.standard files).2 ↔
        e ∈ (linkSymbols Resolver.standard extended).2) := by
    rintro ⟨hsource, htarget⟩
    refine Link.mem_edges_congr ?_ (fun fact hs ht => ?_)
    · simp only [h.mem_ids_extended, hsource, htarget, or_true, and_self]
    · exact (h.mem_facts_iff (hs ▸ hsource) (ht ▸ htarget)).symm
  constructor
  · intro he
    have hends := (Link.mem_edges_linkSymbols.mp he).2
    exact ⟨(hbetween hends).mp he, hends⟩
  · rintro ⟨he, hends⟩
    exact (hbetween hends).mpr he

end AddsFile

theorem perm_append_filter_not {α : Type} {all old : List α} (p : α → Bool) (hall : all.Nodup)
    (hold : old.Nodup) (h : ∀ x, x ∈ old ↔ x ∈ all ∧ p x = true) :
    all.Perm (old ++ all.filter (fun x => !p x)) := by
  have hkept : (all.filter p).Perm old := by
    rw [List.perm_ext_iff_of_nodup (hall.filter p) hold]
    intro x
    rw [List.mem_filter, h]
  exact (List.filter_append_perm p all).symm.trans (hkept.append_right _)

/-- **Adding a file is a local change.** The graph with the new file consists of the old graph,
with the same conditions, of symbols of the new file, and of edges with at least one end among
these. -/
theorem linkSymbols_addsFile {files extended : List FileSymbols} {n : FileSymbols}
    (h : AddsFile files n extended) :
    ∃ symbols edges,
      (linkSymbols Resolver.standard extended).1.Perm
        ((linkSymbols Resolver.standard files).1 ++ symbols) ∧
      (linkSymbols Resolver.standard extended).2.Perm
        ((linkSymbols Resolver.standard files).2 ++ edges) ∧
      (∀ s ∈ symbols, s ∈ n.symbols) ∧
      ∀ e ∈ edges, ∃ s ∈ n.symbols, s.id = e.source ∨ s.id = e.target := by
  let isOld (s : Symbol) : Bool := s.file != n.file
  let joinsOld (e : SymbolEdge) : Bool :=
    decide (e.source ∈ (ofFiles files).ids ∧ e.target ∈ (ofFiles files).ids)
  refine ⟨(linkSymbols Resolver.standard extended).1.filter (fun s => !isOld s),
    (linkSymbols Resolver.standard extended).2.filter (fun e => !joinsOld e), ?_, ?_, ?_, ?_⟩
  · refine perm_append_filter_not isOld (Link.nodup_symbols_linkSymbols _ _)
      (Link.nodup_symbols_linkSymbols _ _) (fun s => ?_)
    rw [bne_iff_ne]
    exact h.mem_values_iff
  · refine perm_append_filter_not joinsOld (Link.nodup_edges_linkSymbols _ _)
      (Link.nodup_edges_linkSymbols _ _) (fun e => ?_)
    rw [decide_eq_true_iff]
    exact h.mem_edges_iff
  · intro s hs
    obtain ⟨hmem, hfile⟩ := List.mem_filter.mp hs
    exact h.mem_symbols_of_file hmem (by simpa [isOld] using hfile)
  · intro e he
    obtain ⟨hmem, hnot⟩ := List.mem_filter.mp he
    obtain ⟨hsource, htarget⟩ := (Link.mem_edges_linkSymbols.mp hmem).2
    rcases h.mem_ids_extended.mp hsource with ⟨s, hs, hid⟩ | hsource
    · exact ⟨s, hs, Or.inl hid⟩
    · rcases h.mem_ids_extended.mp htarget with ⟨s, hs, hid⟩ | htarget
      · exact ⟨s, hs, Or.inr hid⟩
      · exact absurd hnot (by simp [joinsOld, hsource, htarget])

/-- A second class that can be run is found by a call that knew of one already. -/
theorem linkSymbols_secondRunnable :
    let files : List FileSymbols := [.runner, .runnable "a.js" "A"]
    let n : FileSymbols := .runnable "b.js" "B"
    let extended : List FileSymbols := [.runner, n, .runnable "a.js" "A"]
    AddsFile files n extended ∧
      (linkSymbols Resolver.standard files).2.length = 2 ∧
      (linkSymbols Resolver.standard extended).2.length = 3 ∧
      ∃ symbols edges,
        (linkSymbols Resolver.standard extended).1.Perm
          ((linkSymbols Resolver.standard files).1 ++ symbols) ∧
        (linkSymbols Resolver.standard extended).2.Perm
          ((linkSymbols Resolver.standard files).2 ++ edges) ∧
        (∀ s ∈ symbols, s ∈ n.symbols) ∧
        ∀ e ∈ edges, ∃ s ∈ n.symbols, s.id = e.source ∨ s.id = e.target := by
  intro files n extended
  have hadds : AddsFile files n extended :=
    ⟨by decide, by decide, by decide, by decide, by decide, by decide, by decide⟩
  exact ⟨hadds, by decide, by decide, linkSymbols_addsFile hadds⟩

end CodeGraph
