import CodeGraph.Proofs.Table
import CodeGraph.SymbolGraph.Resolver

/-!
# What an index knows

The index of some files, read off the files: a name of a file leads to the last symbol of that
name (`lookup_ofFiles`), an id to the last symbol that carries it (`mem_symbols_ofFiles`), and the
ids are those of the symbols, in the order in which they first come (`ids_ofFiles`). So an index
never leads out of itself, neither by a name (`lookup_mem_ids`) nor by any way of resolving a call
(`resolveCall_mem_ids`).
-/

namespace CodeGraph.SymbolIndex

/-- The ids of an index. -/
def ids (index : SymbolIndex) : List String :=
  index.symbols.keys

/-- The symbols that entries for a file bring, in order. -/
def symbolsOf (files : List FileSymbols) (file : String) : List Symbol :=
  (files.filter (fun f => f.file == file)).flatMap (·.symbols)

theorem mem_symbolsOf {files : List FileSymbols} {file : String} {s : Symbol} :
    s ∈ symbolsOf files file ↔ ∃ f ∈ files, f.file = file ∧ s ∈ f.symbols := by
  simp [symbolsOf, and_assoc]

/-! ## Names -/

theorem lookup_add (index : SymbolIndex) (f : FileSymbols) (file name : String) :
    (index.add f).lookup file name =
      if f.file == file then
        ((f.symbols.reverse.find? (fun s => s.name == name)).map (·.id)).or
          (index.lookup file name)
      else index.lookup file name := by
  rw [lookup, add, Table.get?_update]
  by_cases h : f.file = file
  · subst h
    rw [if_pos (by simp), if_pos (by simp), Option.bind_some, Table.get?_foldl_set, lookup]
    cases index.names.get? f.file <;> rfl
  · rw [if_neg (by simpa using h), if_neg (by simpa using h), lookup]

theorem lookup_foldl_add (files : List FileSymbols) (index : SymbolIndex)
    (file name : String) :
    (files.foldl add index).lookup file name =
      (((symbolsOf files file).reverse.find? (fun s => s.name == name)).map (·.id)).or
        (index.lookup file name) := by
  induction files generalizing index with
  | nil => rfl
  | cons f rest ih =>
    rw [List.foldl_cons, ih, lookup_add]
    by_cases h : f.file = file
    · have hcons : symbolsOf (f :: rest) file = f.symbols ++ symbolsOf rest file := by
        simp [symbolsOf, h]
      rw [if_pos (by simpa using h), hcons, List.reverse_append, List.find?_append,
        Option.map_or, Option.or_assoc]
    · have hcons : symbolsOf (f :: rest) file = symbolsOf rest file := by
        simp [symbolsOf, h]
      rw [if_neg (by simpa using h), hcons]

/-- A name of a file leads to the last symbol of that name. -/
theorem lookup_ofFiles (files : List FileSymbols) (file name : String) :
    (ofFiles files).lookup file name =
      ((symbolsOf files file).reverse.find? (fun s => s.name == name)).map (·.id) := by
  rw [ofFiles, lookup_foldl_add]
  exact Option.or_none

theorem lookup_isSome_iff (files : List FileSymbols) (file name : String) :
    ((ofFiles files).lookup file name).isSome ↔
      ∃ f ∈ files, f.file = file ∧ ∃ s ∈ f.symbols, s.name = name := by
  rw [lookup_ofFiles, Option.isSome_map, List.find?_isSome]
  simp only [List.mem_reverse, mem_symbolsOf, beq_iff_eq]
  constructor
  · rintro ⟨s, ⟨f, hf, hfile, hs⟩, hname⟩
    exact ⟨f, hf, hfile, s, hs, hname⟩
  · rintro ⟨f, hf, hfile, s, hs, hname⟩
    exact ⟨s, ⟨f, hf, hfile, hs⟩, hname⟩

/-- The id of a name in a file is that of a symbol which an entry of the file brings. -/
theorem exists_symbol_of_lookup {files : List FileSymbols} {file name id : String}
    (h : (ofFiles files).lookup file name = some id) :
    ∃ f ∈ files, f.file = file ∧ ∃ s ∈ f.symbols, s.name = name ∧ s.id = id := by
  rw [lookup_ofFiles] at h
  obtain ⟨s, hs, hid⟩ := Option.map_eq_some_iff.mp h
  obtain ⟨f, hf, hfile, hsf⟩ :=
    mem_symbolsOf.mp (List.mem_reverse.mp (List.mem_of_find?_eq_some hs))
  exact ⟨f, hf, hfile, s, hsf, by simpa using List.find?_some hs, hid⟩

/-! ## Ids -/

theorem symbols_foldl_add (files : List FileSymbols) (index : SymbolIndex) :
    (files.foldl add index).symbols =
      (files.flatMap (·.symbols)).foldl (fun t s => t.set s.id s) index.symbols := by
  induction files generalizing index with
  | nil => rfl
  | cons f rest ih => rw [List.foldl_cons, ih, List.flatMap_cons, List.foldl_append]; rfl

theorem get?_symbols_ofFiles (files : List FileSymbols) (id : String) :
    (ofFiles files).symbols.get? id =
      (files.flatMap (·.symbols)).reverse.find? (fun s => s.id == id) := by
  rw [ofFiles, symbols_foldl_add, Table.get?_foldl_set, Option.map_id']
  exact Option.or_none

theorem nodup_ids_ofFiles (files : List FileSymbols) : (ofFiles files).ids.Nodup := by
  rw [ids, ofFiles, symbols_foldl_add]
  exact Table.nodup_keys_foldl_set _ _ _ List.nodup_nil

theorem mem_ids_ofFiles (files : List FileSymbols) (id : String) :
    id ∈ (ofFiles files).ids ↔ ∃ f ∈ files, ∃ s ∈ f.symbols, s.id = id := by
  rw [ids, ← Table.get?_isSome_iff, get?_symbols_ofFiles, List.find?_isSome]
  simp only [List.mem_reverse, List.mem_flatMap, beq_iff_eq]
  constructor
  · rintro ⟨s, ⟨f, hf, hs⟩, hid⟩
    exact ⟨f, hf, s, hs, hid⟩
  · rintro ⟨f, hf, s, hs, hid⟩
    exact ⟨s, ⟨f, hf, hs⟩, hid⟩

/-- The ids stand in the order in which symbols first carry them. -/
theorem ids_ofFiles (files : List FileSymbols) :
    (ofFiles files).ids = ((files.flatMap (·.symbols)).map (·.id)).eraseDups := by
  rw [ids, ofFiles, symbols_foldl_add, Table.keys_foldl_set]
  rw [show empty.symbols.keys = [] from rfl, List.removeAll_nil, List.nil_append]

/-- Under an id stands the last symbol that carries it. -/
theorem mem_symbols_ofFiles {files : List FileSymbols} {id : String} {s : Symbol} :
    (id, s) ∈ (ofFiles files).symbols ↔
      s.id = id ∧ ∃ before after, files.flatMap (·.symbols) = before ++ s :: after ∧
        ∀ t ∈ after, t.id ≠ id := by
  rw [Table.mem_iff_get? (nodup_ids_ofFiles files), get?_symbols_ofFiles,
    Table.find?_reverse_eq_some_iff]
  simp only [beq_iff_eq, beq_eq_false_iff_ne, ne_eq]

/-- The ids of the indexed symbols are the ids of the index, in their order. -/
theorem map_id_values_ofFiles (files : List FileSymbols) :
    (ofFiles files).symbols.values.map (·.id) = (ofFiles files).ids := by
  rw [Table.values, List.map_map, ids, Table.keys]
  refine List.map_congr_left (fun entry hentry => ?_)
  exact (mem_symbols_ofFiles.mp hentry).1

/-- An indexed symbol stands under its own id. -/
theorem id_mem_ids_of_mem_values {files : List FileSymbols} {s : Symbol}
    (h : s ∈ (ofFiles files).symbols.values) : s.id ∈ (ofFiles files).ids := by
  rw [← map_id_values_ofFiles]
  exact List.mem_map_of_mem h

theorem lookup_mem_ids {files : List FileSymbols} {file name id : String}
    (h : (ofFiles files).lookup file name = some id) : id ∈ (ofFiles files).ids := by
  obtain ⟨f, hf, -, s, hs, -, hid⟩ := exists_symbol_of_lookup h
  exact (mem_ids_ofFiles files id).mpr ⟨f, hf, s, hs, hid⟩

theorem target?_mem_ids {files : List FileSymbols} {file name id : String}
    (h : (ofFiles files).target? file name = some id) : id ∈ (ofFiles files).ids :=
  lookup_mem_ids (Option.filter_eq_some_iff.mp h).1

theorem method_mem_ids {files : List FileSymbols} {name : String} {s : Symbol}
    (h : s ∈ (ofFiles files).methods name) : s.id ∈ (ofFiles files).ids :=
  id_mem_ids_of_mem_values (List.mem_filter.mp (List.mem_filter.mp h).1).1

/-! ## Targets of calls -/

theorem mem_of_pick {call : CallFact} {candidates : List Symbol} {s : Symbol}
    (h : Resolver.pick call candidates = some s) : s ∈ candidates := by
  unfold Resolver.pick at h
  split at h
  · rw [Option.some.inj h]
    exact List.mem_singleton_self _
  · rcases Option.or_eq_some_iff.mp h with hfind | ⟨-, hhead⟩
    · exact List.mem_of_find?_eq_some hfind
    · exact List.mem_of_head? hhead

theorem targets_mem_ids {files : List FileSymbols} {r : Resolver} {file target : String}
    {call : CallFact} (h : target ∈ r.targets (ofFiles files) file call) :
    target ∈ (ofFiles files).ids := by
  cases r with
  | sameFile => exact target?_mem_ids (Option.mem_toList.mp h)
  | imported =>
    simp only [Resolver.targets, Resolver.inImports] at h
    split at h
    · obtain ⟨name, -, hname⟩ := List.exists_of_findSome?_eq_some (Option.mem_toList.mp h)
      exact target?_mem_ids hname
    · exact absurd h List.not_mem_nil
  | sameFileMethod =>
    simp only [Resolver.targets, Resolver.inFileMethods] at h
    split at h
    · exact absurd h List.not_mem_nil
    · obtain ⟨s, hs, rfl⟩ := Option.map_eq_some_iff.mp (Option.mem_toList.mp h)
      exact method_mem_ids (List.mem_filter.mp (mem_of_pick hs)).1
  | anyMethod =>
    simp only [Resolver.targets, Resolver.inAllMethods] at h
    split at h
    · exact absurd h List.not_mem_nil
    · split at h
      · exact absurd h List.not_mem_nil
      · obtain ⟨s, hs, rfl⟩ := List.mem_map.mp h
        exact method_mem_ids hs

/-- Whatever ways of resolving are tried, a call leads to indexed symbols only. -/
theorem resolveCall_mem_ids {files : List FileSymbols} {resolvers : List Resolver}
    {file target : String} {call : CallFact}
    (h : target ∈ resolveCall (ofFiles files) resolvers file call) :
    target ∈ (ofFiles files).ids := by
  induction resolvers with
  | nil => exact absurd h List.not_mem_nil
  | cons r rest ih =>
    rw [resolveCall] at h
    split at h
    · exact ih h
    · exact targets_mem_ids h

end CodeGraph.SymbolIndex
