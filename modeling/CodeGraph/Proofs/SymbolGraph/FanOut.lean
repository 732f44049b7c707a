import CodeGraph.Proofs.SymbolGraph.Locality

/-!
# Calls with several targets

The first three ways to resolve a call find one target or none (`Resolver.length_targets_le`). So a
call with several targets is one that they all gave up on: its receiver is unknown in the file, and
so are the called name and every method that is called so. What it leads to is then every method of
that name (`resolveCall_spreads_only_at_last`).

A receiver counts as known if it is declared in the file, or imported from a file that was found.
An import that leads nowhere makes no name known (`unresolved_import_spreads`).
-/

namespace CodeGraph

namespace SymbolIndex

/-- A name is bound in a file exactly if an import that leads to a file brings it. -/
theorem contains_bindingsIn_ofFiles (files : List FileSymbols) (file name : String) :
    ((ofFiles files).bindingsIn file).contains name = true ↔
      ∃ f ∈ files, f.file = file ∧ ∃ i ∈ f.imports, i.resolved ≠ none ∧
        ∃ s ∈ i.specifiers, s.name = name := by
  rw [bindingsIn_ofFiles, Table.contains_keyed]
  constructor
  · rintro ⟨b, hb, rfl⟩
    obtain ⟨f, hf, hbf⟩ := List.mem_flatMap.mp hb
    obtain ⟨hmem, hfile⟩ := List.mem_filter.mp hf
    obtain ⟨i, hi, hresolved, s, hs, hsb⟩ := mem_bindingsOf.mp hbf
    refine ⟨f, hmem, by simpa using hfile, i, hi, ?_, s, hs, congrArg Binding.localName hsb⟩
    rw [hresolved]
    exact Option.some_ne_none _
  · rintro ⟨f, hmem, hfile, i, hi, hresolved, s, hs, hname⟩
    obtain ⟨target, htarget⟩ := Option.ne_none_iff_exists'.mp hresolved
    have hf : f ∈ entriesOf files file := List.mem_filter.mpr ⟨hmem, by simpa using hfile⟩
    exact ⟨⟨s.name, s.imported, s.kind, target⟩,
      List.mem_flatMap.mpr ⟨f, hf, mem_bindingsOf.mpr ⟨i, hi, htarget, s, hs, rfl⟩⟩, hname⟩

/-- If no id is empty, a name leads to what it is looked up as. -/
theorem target?_eq_lookup {files : List FileSymbols}
    (hids : ∀ f ∈ files, ∀ s ∈ f.symbols, s.id ≠ "") (file name : String) :
    (ofFiles files).target? file name = (ofFiles files).lookup file name := by
  rw [target?]
  cases hlookup : (ofFiles files).lookup file name with
  | none => rfl
  | some id =>
    obtain ⟨f, hf, -, s, hs, -, rfl⟩ := exists_symbol_of_lookup hlookup
    exact Option.filter_some_pos (by simpa using hids f hf s hs)

/-- If no id is empty, a name leads nowhere exactly if the file has no symbol of that name. -/
theorem target?_eq_none_iff {files : List FileSymbols}
    (hids : ∀ f ∈ files, ∀ s ∈ f.symbols, s.id ≠ "") (file name : String) :
    (ofFiles files).target? file name = none ↔
      ∀ f ∈ files, f.file = file → ∀ s ∈ f.symbols, s.name ≠ name := by
  rw [target?_eq_lookup hids, ← Option.not_isSome_iff_eq_none, lookup_isSome_iff]
  simp only [not_exists, not_and, ne_eq]

/-- The methods of one name are indexed under different ids. -/
theorem nodup_map_id_methods (files : List FileSymbols) (name : String) :
    (((ofFiles files).methods name).map (·.id)).Nodup := by
  have hsublist : ((ofFiles files).methods name).Sublist (ofFiles files).symbols.values :=
    List.filter_sublist.trans List.filter_sublist
  have hids := hsublist.map (·.id)
  rw [map_id_values_ofFiles] at hids
  exact hids.nodup (nodup_ids_ofFiles files)

theorem mem_methods {index : SymbolIndex} {name : String} {s : Symbol} :
    s ∈ index.methods name ↔
      s ∈ index.symbols.values ∧ s.kind = .method ∧ bareName s.name = name := by
  rw [methods, allMethods, List.mem_filter, List.mem_filter, and_assoc]
  simp

end SymbolIndex

/-! ## How many targets one way finds -/

namespace Resolver

variable {index : SymbolIndex} {file : String} {call : CallFact}

theorem length_targets_le {r : Resolver} (hr : r ∈ nearby) :
    (r.targets index file call).length ≤ 1 := by
  have hone : ∀ found : Option String, found.toList.length ≤ 1 := by
    intro found
    cases found <;> simp
  cases r with
  | sameFile => exact hone _
  | imported =>
    rw [targets, inImports]
    split
    · exact hone _
    · exact Nat.zero_le 1
  | sameFileMethod =>
    rw [targets, inFileMethods]
    split
    · exact Nat.zero_le 1
    · exact hone _
  | anyMethod => exact absurd hr (by decide)

/-- Of some candidates there is always one to pick. -/
theorem pick_eq_none_iff {candidates : List Symbol} :
    pick call candidates = none ↔ candidates = [] := by
  unfold pick
  split
  · simp
  · rw [Option.or_eq_none_iff, List.head?_eq_none_iff]
    exact ⟨And.right, fun h => ⟨by rw [h]; rfl, h⟩⟩

/-- A call on something finds no method in its file only if there is none to find. -/
theorem inFileMethods_eq_nil {receiver : String} (hreceiver : receiver? call = some receiver)
    (h : inFileMethods index file call = []) :
    ∀ s ∈ index.methods call.callee, s.file ≠ file := by
  rw [inFileMethods, hreceiver] at h
  simp only [Option.toList_eq_nil_iff, Option.map_eq_none_iff, pick_eq_none_iff,
    List.filter_eq_nil_iff] at h
  intro s hs
  simpa using h s hs

/-- The last way finds something only for a receiver that the file does not know. -/
theorem exists_receiver_of_inAllMethods (h : inAllMethods index file call ≠ []) :
    ∃ receiver, receiver? call = some receiver ∧ index.target? file receiver = none ∧
      (index.bindingsIn file).contains receiver = false ∧
      inAllMethods index file call = (index.methods call.callee).map (·.id) := by
  rw [inAllMethods] at h ⊢
  cases hreceiver : receiver? call with
  | none =>
    rw [hreceiver] at h
    exact absurd rfl h
  | some receiver =>
    rw [hreceiver] at h
    dsimp only at h ⊢
    split at h
    · exact absurd rfl h
    · rename_i hunknown
      rw [Bool.or_eq_true, not_or, Option.not_isSome_iff_eq_none, Bool.not_eq_true] at hunknown
      refine ⟨receiver, rfl, hunknown.1, hunknown.2, ?_⟩
      rw [hunknown.1, hunknown.2]
      rfl

theorem receiver?_eq_some {receiver : String} (h : receiver? call = some receiver) :
    call.objectName = some receiver ∧ receiver ≠ "" := by
  obtain ⟨hname, hne⟩ := Option.filter_eq_some_iff.mp h
  exact ⟨hname, by simpa using hne⟩

end Resolver

/-! ## How many targets a call has -/

section Resolution

variable {index : SymbolIndex} {resolvers : List Resolver} {file : String} {call : CallFact}

theorem length_resolveCall_le
    (h : ∀ r ∈ resolvers, (r.targets index file call).length ≤ 1) :
    (resolveCall index resolvers file call).length ≤ 1 := by
  induction resolvers with
  | nil => exact Nat.zero_le 1
  | cons r rest ih =>
    rw [resolveCall]
    split
    · exact ih (fun r' hr' => h r' (List.mem_cons_of_mem r hr'))
    · exact h r List.mem_cons_self

/-- A call has no target if no way finds one. -/
theorem resolveCall_eq_nil_iff :
    resolveCall index resolvers file call = [] ↔
      ∀ r ∈ resolvers, r.targets index file call = [] := by
  induction resolvers with
  | nil => simp [resolveCall]
  | cons r rest ih =>
    rw [resolveCall, List.forall_mem_cons, ← ih]
    split
    · rename_i hempty
      exact (and_iff_right (List.isEmpty_iff.mp hempty)).symm
    · rename_i hfound
      have hne : r.targets index file call ≠ [] := fun h => hfound (List.isEmpty_iff.mpr h)
      exact ⟨fun h => absurd h hne, fun h => absurd h.1 hne⟩

/-- A call has at most one target, or the last way has found all of them. -/
theorem resolveCall_standard_cases (index : SymbolIndex) (file : String) (call : CallFact) :
    (resolveCall index Resolver.standard file call).length ≤ 1 ∨
      (∀ r ∈ Resolver.nearby, r.targets index file call = []) ∧
        Resolver.inAllMethods index file call ≠ [] ∧
        resolveCall index Resolver.standard file call =
          Resolver.inAllMethods index file call := by
  rw [resolveCall_standard]
  split
  · rename_i hempty
    by_cases hlast : Resolver.inAllMethods index file call = []
    · exact .inl (by rw [hlast]; exact Nat.zero_le 1)
    · exact .inr ⟨resolveCall_eq_nil_iff.mp (List.isEmpty_iff.mp hempty), hlast, rfl⟩
  · exact .inl (length_resolveCall_le (fun r hr => Resolver.length_targets_le hr))

/-- The targets of a call are different symbols of the index. If there are several, then the call
is made on something unknown in its file, the file has no symbol and no method of the called name,
and the targets are all the methods of that name. -/
theorem resolveCall_spreads_only_at_last {files : List FileSymbols}
    (hids : ∀ f ∈ files, ∀ s ∈ f.symbols, s.id ≠ "") (file : String) (call : CallFact) :
    (resolveCall (.ofFiles files) Resolver.standard file call).Nodup ∧
    (∀ id ∈ resolveCall (.ofFiles files) Resolver.standard file call,
      ∃ s ∈ (SymbolIndex.ofFiles files).symbols.values, s.id = id) ∧
    (1 < (resolveCall (.ofFiles files) Resolver.standard file call).length →
      (∃ receiver, call.objectName = some receiver ∧ receiver ≠ "" ∧
        (∀ f ∈ files, f.file = file → ∀ s ∈ f.symbols, s.name ≠ receiver) ∧
        (∀ f ∈ files, f.file = file → ∀ i ∈ f.imports, i.resolved ≠ none →
          ∀ s ∈ i.specifiers, s.name ≠ receiver)) ∧
      (∀ f ∈ files, f.file = file → ∀ s ∈ f.symbols, s.name ≠ call.callee) ∧
      (∀ s ∈ (SymbolIndex.ofFiles files).symbols.values, s.kind = .method →
        SymbolIndex.bareName s.name = call.callee → s.file ≠ file) ∧
      resolveCall (.ofFiles files) Resolver.standard file call =
        ((SymbolIndex.ofFiles files).symbols.values.filter (fun s =>
          s.kind = .method ∧ SymbolIndex.bareName s.name = call.callee)).map (·.id)) := by
  have hindexed : ∀ id ∈ resolveCall (.ofFiles files) Resolver.standard file call,
      ∃ s ∈ (SymbolIndex.ofFiles files).symbols.values, s.id = id := by
    intro id hid
    have hmem := SymbolIndex.resolveCall_mem_ids hid
    rwa [← SymbolIndex.map_id_values_ofFiles, List.mem_map] at hmem
  rcases resolveCall_standard_cases (.ofFiles files) file call with hfew | ⟨hnearby, hlast, hall⟩
  · refine ⟨?_, hindexed, fun hseveral => absurd hseveral (Nat.not_lt.mpr hfew)⟩
    exact List.nodup_iff_count_le_one.mpr (fun id => List.count_le_length.trans hfew)
  · obtain ⟨receiver, hreceiver, hunknown, hunbound, hmethods⟩ :=
      Resolver.exists_receiver_of_inAllMethods hlast
    obtain ⟨hobject, hne⟩ := Resolver.receiver?_eq_some hreceiver
    rw [hmethods] at hall
    refine ⟨hall ▸ SymbolIndex.nodup_map_id_methods files _, hindexed, fun _ => ⟨?_, ?_, ?_, ?_⟩⟩
    · refine ⟨receiver, hobject, hne, (SymbolIndex.target?_eq_none_iff hids _ _).mp hunknown, ?_⟩
      intro f hf hfile i hi hresolved s hs hname
      have hbound := (SymbolIndex.contains_bindingsIn_ofFiles files file receiver).mpr
        ⟨f, hf, hfile, i, hi, hresolved, s, hs, hname⟩
      exact absurd hbound (by rw [hunbound]; exact Bool.false_ne_true)
    · have hsame := hnearby .sameFile (by decide)
      exact (SymbolIndex.target?_eq_none_iff hids _ _).mp (Option.toList_eq_nil_iff.mp hsame)
    · intro s hs hkind hbare
      exact Resolver.inFileMethods_eq_nil hreceiver (hnearby .sameFileMethod (by decide)) s
        (SymbolIndex.mem_methods.mpr ⟨hs, hkind, hbare⟩)
    · rw [hall, SymbolIndex.methods, SymbolIndex.allMethods, List.filter_filter]
      refine congrArg (List.map _) (List.filter_congr (fun s _ => ?_))
      rw [Bool.and_comm, Bool.decide_and]
      rfl

end Resolution

/-- A run of something unknown may be that of either of two classes. -/
theorem unknown_run_spreads :
    (∀ f ∈ [FileSymbols.runner, .runnable "a.js" "A", .runnable "b.js" "B"],
      ∀ s ∈ f.symbols, s.id ≠ "") ∧
    resolveCall (.ofFiles [.runner, .runnable "a.js" "A", .runnable "b.js" "B"])
      Resolver.standard "main.js" ⟨"go", "run", some "x", 1, none⟩ =
        ["a.js::A.run", "b.js::B.run"] ∧
    ∀ s ∈ (SymbolIndex.ofFiles
        [.runner, .runnable "a.js" "A", .runnable "b.js" "B"]).symbols.values,
      s.kind = .method → SymbolIndex.bareName s.name = "run" → s.file ≠ "main.js" := by
  have hids : ∀ f ∈ [FileSymbols.runner, .runnable "a.js" "A", .runnable "b.js" "B"],
      ∀ s ∈ f.symbols, s.id ≠ "" := by decide
  have hspread := resolveCall_spreads_only_at_last hids "main.js" ⟨"go", "run", some "x", 1, none⟩
  exact ⟨hids, by decide, (hspread.2.2 (by decide)).2.2.1⟩

/-- A file that runs what it imports from a package outside the analysed files. -/
def FileSymbols.outsider : FileSymbols where
  file := "main.js"
  symbols := [.named "main.js" "go" .function]
  calls := [⟨"go", "run", some "Task", 1, none⟩]
  imports := [⟨"tasks", none, [⟨"Task", "default", .default⟩]⟩]

/-- The local name of an import that leads nowhere is unknown: a call on it leads to every method
of the called name. -/
theorem unresolved_import_spreads :
    (∀ f ∈ [FileSymbols.outsider, .runnable "a.js" "A", .runnable "b.js" "B"],
      ∀ s ∈ f.symbols, s.id ≠ "") ∧
    FileSymbols.outsider.file = "main.js" ∧
    (∃ i ∈ FileSymbols.outsider.imports, ∃ s ∈ i.specifiers, s.name = "Task") ∧
    resolveCall (.ofFiles [.outsider, .runnable "a.js" "A", .runnable "b.js" "B"])
      Resolver.standard "main.js" ⟨"go", "run", some "Task", 1, none⟩ =
        ["a.js::A.run", "b.js::B.run"] := by
  decide

end CodeGraph
