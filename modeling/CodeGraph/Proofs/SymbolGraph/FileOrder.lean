import CodeGraph.Proofs.SymbolGraph.Locality

/-!
# The order of files does not matter

With one entry for each file, and symbols that carry the ids of their files, the entries may come
in any order: the same symbols and the same edges come out. Within a file the order does matter, as
a later symbol replaces an earlier one of the same name.
-/

namespace CodeGraph

namespace SymbolIndex

variable {files files' : List FileSymbols}

/-- However the files are ordered, an index says the same about each of them. -/
theorem agreeAt_of_perm (hdistinct : (files.map (·.file)).Nodup) (hproper : ∀ f ∈ files, f.Proper)
    (hperm : files.Perm files') (file : String) :
    AgreeAt (ofFiles files) (ofFiles files') file :=
  agreeAt_of_entriesOf hproper (fun f hf => hproper f (hperm.mem_iff.mpr hf))
    (entriesOf_perm hdistinct hperm file)

theorem sameMethods_of_agreeAt {a b : SymbolIndex} (h : ∀ file, AgreeAt a b file) (id : String) :
    SameMethods a b id := by
  intro name
  simp only [methods, allMethods, List.mem_filter, fun s : Symbol => (h s.file).mem_values_iff]

theorem mem_ids_perm (hperm : files.Perm files') (id : String) :
    id ∈ (ofFiles files).ids ↔ id ∈ (ofFiles files').ids := by
  simp only [mem_ids_ofFiles, hperm.mem_iff]

end SymbolIndex

namespace Link

variable {files files' : List FileSymbols}

theorem mem_facts_perm (hdistinct : (files.map (·.file)).Nodup) (hproper : ∀ f ∈ files, f.Proper)
    (hperm : files.Perm files') (e : EdgeFact) :
    e ∈ facts (SymbolIndex.ofFiles files) Resolver.standard files ↔
      e ∈ facts (SymbolIndex.ofFiles files') Resolver.standard files' := by
  have hagree := SymbolIndex.agreeAt_of_perm hdistinct hproper hperm
  have hfile : ∀ f, e ∈ fileFacts (SymbolIndex.ofFiles files) Resolver.standard f ↔
      e ∈ fileFacts (SymbolIndex.ofFiles files') Resolver.standard f := fun f =>
    mem_fileFacts_congr ⟨hagree f.file, fun x _ => hagree x.fromFile⟩
      (SymbolIndex.sameMethods_of_agreeAt hagree e.target)
  simp only [facts, List.mem_flatMap, hfile, hperm.mem_iff]

/-- **The order of files does not matter.** Files that are linked in another order give the same
symbols and the same edges, with the same conditions, up to their order. -/
theorem linkSymbols_perm (hdistinct : (files.map (·.file)).Nodup)
    (hproper : ∀ f ∈ files, f.Proper) (hperm : files.Perm files') :
    (linkSymbols Resolver.standard files).1.Perm (linkSymbols Resolver.standard files').1 ∧
      (linkSymbols Resolver.standard files).2.Perm (linkSymbols Resolver.standard files').2 := by
  constructor
  · rw [List.perm_ext_iff_of_nodup (nodup_symbols_linkSymbols _ _) (nodup_symbols_linkSymbols _ _)]
    intro s
    exact (SymbolIndex.agreeAt_of_perm hdistinct hproper hperm s.file).mem_values_iff
  · rw [List.perm_ext_iff_of_nodup (nodup_edges_linkSymbols _ _) (nodup_edges_linkSymbols _ _)]
    intro e
    refine mem_edges_congr ?_ (fun fact _ _ => mem_facts_perm hdistinct hproper hperm fact)
    rw [SymbolIndex.mem_ids_perm hperm, SymbolIndex.mem_ids_perm hperm]

/-- Files that are moved about: the edges change places, and nothing else changes. -/
theorem linkSymbols_rotated :
    let files : List FileSymbols := [.runner, .runnable "a.js" "A", .runnable "b.js" "B"]
    let rotated : List FileSymbols := [.runnable "b.js" "B", .runner, .runnable "a.js" "A"]
    (files.map (·.file)).Nodup ∧ (∀ f ∈ files, f.Proper) ∧ files.Perm rotated ∧
      (linkSymbols Resolver.standard files).2 ≠ (linkSymbols Resolver.standard rotated).2 ∧
      (linkSymbols Resolver.standard files).1.Perm (linkSymbols Resolver.standard rotated).1 ∧
      (linkSymbols Resolver.standard files).2.Perm (linkSymbols Resolver.standard rotated).2 := by
  intro files rotated
  have hdistinct : (files.map (·.file)).Nodup := by decide
  have hproper : ∀ f ∈ files, f.Proper := by decide
  have hperm : files.Perm rotated := by decide
  exact ⟨hdistinct, hproper, hperm, by decide, linkSymbols_perm hdistinct hproper hperm⟩

end Link

end CodeGraph
