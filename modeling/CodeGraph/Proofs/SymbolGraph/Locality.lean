import CodeGraph.Proofs.SymbolGraph.LinkedGraph

/-!
# What is known about a file comes from the file

An index answers questions about a file: what a name stands for, what the imports are called, which
symbols there are. If every symbol carries the file it comes from and the id made from that file
and its name, the answers depend on the entries of that file only (`agreeAt_of_entriesOf`). What
other files bring, before or after, can neither replace nor reorder anything.

The first three ways to resolve a call ask about the caller's file and the files that it imports.
Only the last one looks at all files, and it comes into play when the others found nothing
(`mem_resolveCall_standard`). The edges that a file brings follow from that
(`mem_fileFacts_congr`).
-/

namespace CodeGraph

/-! ## Entries with symbols of their own -/

theorem symbolId_inj {file file' name name' : String} (hname : ':' ∉ name.toList)
    (hname' : ':' ∉ name'.toList) (h : symbolId file name = symbolId file' name') :
    file = file' ∧ name = name' := by
  -- read from the end, an id is the name up to the first colon, two colons, and the file
  have hback : name.toList.reverse ++ ':' :: ':' :: file.toList.reverse =
      name'.toList.reverse ++ ':' :: ':' :: file'.toList.reverse := by
    have hchars := congrArg (fun s => s.toList.reverse) h
    simpa [symbolId] using hchars
  have hends : ∀ {n : String} (rest : List Char), ':' ∉ n.toList →
      (n.toList.reverse ++ ':' :: rest).takeWhile (· != ':') = n.toList.reverse := by
    intro n rest hn
    rw [takeWhile_bne_append (by simpa using hn)]
    simp
  have hnames : name.toList.reverse = name'.toList.reverse := by
    rw [← hends _ hname, hback, hends _ hname']
  rw [hnames, List.append_cancel_left_eq, List.cons.injEq, List.cons.injEq] at hback
  exact ⟨String.toList_inj.mp (List.reverse_inj.mp hback.2.2),
    String.toList_inj.mp (List.reverse_inj.mp hnames)⟩

/-- The symbols of an entry are those of its file: they carry the file, and the id made from the
file and a name without colons. -/
structure FileSymbols.Proper (f : FileSymbols) : Prop where
  file : ∀ s ∈ f.symbols, s.file = f.file
  id : ∀ s ∈ f.symbols, s.id = symbolId f.file s.name
  name : ∀ s ∈ f.symbols, ':' ∉ s.name.toList

instance (f : FileSymbols) : Decidable f.Proper :=
  decidable_of_iff
    ((∀ s ∈ f.symbols, s.file = f.file) ∧ (∀ s ∈ f.symbols, s.id = symbolId f.file s.name) ∧
      ∀ s ∈ f.symbols, ':' ∉ s.name.toList)
    ⟨fun ⟨hfile, hid, hname⟩ => ⟨hfile, hid, hname⟩, fun h => ⟨h.file, h.id, h.name⟩⟩

/-- Two symbols with the same id come from the same file. -/
theorem FileSymbols.Proper.file_eq {f g : FileSymbols} (hf : f.Proper) (hg : g.Proper)
    {s t : Symbol} (hs : s ∈ f.symbols) (ht : t ∈ g.symbols) (hid : s.id = t.id) :
    f.file = g.file := by
  rw [hf.id s hs, hg.id t ht] at hid
  exact (symbolId_inj (hf.name s hs) (hg.name t ht) hid).1

namespace SymbolIndex

/-- The entries for a file. -/
def entriesOf (files : List FileSymbols) (file : String) : List FileSymbols :=
  files.filter (fun f => f.file == file)

theorem symbolsOf_eq (files : List FileSymbols) (file : String) :
    symbolsOf files file = (entriesOf files file).flatMap (·.symbols) :=
  rfl

/-- With one entry for each file, the order of the entries does not matter to a file. -/
theorem entriesOf_perm {files files' : List FileSymbols} (hdistinct : (files.map (·.file)).Nodup)
    (h : files.Perm files') (file : String) : entriesOf files file = entriesOf files' file := by
  have hperm : (entriesOf files file).Perm (entriesOf files' file) := h.filter _
  have hnodup : ((entriesOf files file).map (·.file)).Nodup :=
    hdistinct.sublist (List.filter_sublist.map _)
  have hfile : ∀ f ∈ entriesOf files file, f.file = file := fun f hf => by
    simpa using (List.mem_filter.mp hf).2
  match hentries : entriesOf files file with
  | [] => rw [hentries] at hperm; exact hperm.nil_eq
  | [f] => rw [hentries] at hperm; exact List.singleton_perm.mp hperm
  | f :: g :: rest =>
    rw [hentries] at hnodup hfile
    have hsame : f.file = g.file := by rw [hfile f (by simp), hfile g (by simp)]
    simp [hsame] at hnodup

/-! ## Bindings -/

theorem bindingsIn_add (index : SymbolIndex) (f : FileSymbols) (file : String) :
    (index.add f).bindingsIn file =
      if f.file == file then
        (bindingsOf f.imports).foldl (fun t b => t.set b.localName b) (index.bindingsIn file)
      else index.bindingsIn file := by
  rw [bindingsIn, add, Table.get?_update]
  by_cases h : f.file = file
  · subst h
    rw [if_pos (by simp), if_pos (by simp)]
    rfl
  · rw [if_neg (by simpa using h), if_neg (by simpa using h)]
    rfl

theorem bindingsIn_foldl_add (files : List FileSymbols) (index : SymbolIndex) (file : String) :
    (files.foldl add index).bindingsIn file =
      ((entriesOf files file).flatMap (fun f => bindingsOf f.imports)).foldl
        (fun (t : Table String Binding) b => t.set b.localName b) (index.bindingsIn file) := by
  induction files generalizing index with
  | nil => rfl
  | cons f rest ih =>
    rw [List.foldl_cons, ih, bindingsIn_add, entriesOf, entriesOf, List.filter_cons]
    by_cases h : (f.file == file) = true
    · rw [if_pos h, if_pos h, List.flatMap_cons, List.foldl_append]
    · rw [if_neg h, if_neg h]

/-- The bindings of a file are made by the imports of its entries. -/
theorem bindingsIn_ofFiles (files : List FileSymbols) (file : String) :
    (ofFiles files).bindingsIn file =
      Table.keyed (·.localName) ((entriesOf files file).flatMap (fun f => bindingsOf f.imports)) :=
  bindingsIn_foldl_add files empty file

/-- A specifier makes a binding if its import leads to a file. -/
theorem mem_bindingsOf {imports : List Import} {b : Binding} :
    b ∈ bindingsOf imports ↔ ∃ i ∈ imports, i.resolved = some b.fromFile ∧
      ∃ s ∈ i.specifiers, (⟨s.name, s.imported, s.kind, b.fromFile⟩ : Binding) = b := by
  rw [bindingsOf, List.mem_flatMap]
  refine exists_congr (fun i => and_congr_right (fun _ => ?_))
  cases i.resolved with
  | none => simp
  | some target =>
    rw [List.mem_map]
    constructor
    · rintro ⟨s, hs, rfl⟩
      exact ⟨rfl, s, hs, rfl⟩
    · rintro ⟨htarget, s, hs, hb⟩
      obtain rfl := Option.some.inj htarget
      exact ⟨s, hs, hb⟩

/-- A binding of a file goes back to a specifier of an import that leads to a file. -/
theorem exists_import_of_binding {files : List FileSymbols} {file : String} {b : Binding}
    (h : b ∈ ((ofFiles files).bindingsIn file).values) :
    ∃ f ∈ files, f.file = file ∧ ∃ i ∈ f.imports, i.resolved = some b.fromFile ∧
      ∃ s ∈ i.specifiers, s.name = b.localName := by
  rw [bindingsIn_ofFiles] at h
  obtain ⟨⟨name, b'⟩, hentry, rfl⟩ := List.mem_map.mp h
  obtain ⟨f, hf, hb⟩ := List.mem_flatMap.mp (Table.mem_keyed hentry).1
  obtain ⟨hmem, hfile⟩ := List.mem_filter.mp hf
  obtain ⟨i, hi, hresolved, s, hs, hsb⟩ := mem_bindingsOf.mp hb
  exact ⟨f, hmem, by simpa using hfile, i, hi, hresolved, s, hs, congrArg Binding.localName hsb⟩

/-! ## Symbols -/

theorem symbols_ofFiles (files : List FileSymbols) :
    (ofFiles files).symbols = Table.keyed (·.id) (files.flatMap (·.symbols)) :=
  symbols_foldl_add files empty

theorem exists_entry_of_mem_values {files : List FileSymbols} {s : Symbol}
    (h : s ∈ (ofFiles files).symbols.values) : ∃ f ∈ files, s ∈ f.symbols := by
  rw [symbols_ofFiles] at h
  obtain ⟨⟨id, s'⟩, hentry, rfl⟩ := List.mem_map.mp h
  exact List.mem_flatMap.mp (Table.mem_keyed hentry).1

theorem filter_flatMap_symbols {files : List FileSymbols} (hproper : ∀ f ∈ files, f.Proper)
    (file : String) :
    (files.flatMap (·.symbols)).filter (fun s => s.file == file) = symbolsOf files file := by
  rw [symbolsOf_eq, entriesOf, List.filter_flatMap]
  induction files with
  | nil => rfl
  | cons f rest ih =>
    have hf := (hproper f List.mem_cons_self).file
    rw [List.flatMap_cons, ih (fun g hg => hproper g (List.mem_cons_of_mem _ hg)),
      List.filter_cons]
    by_cases h : (f.file == file) = true
    · rw [if_pos h, List.flatMap_cons, List.filter_eq_self.mpr]
      intro s hs
      rwa [hf s hs]
    · rw [if_neg h, List.filter_eq_nil_iff.mpr, List.nil_append]
      intro s hs
      rwa [hf s hs]

/-- The indexed symbols of a file are made by the symbols of its entries: no other file has their
ids. -/
theorem filter_values_ofFiles {files : List FileSymbols} (hproper : ∀ f ∈ files, f.Proper)
    (file : String) :
    (ofFiles files).symbols.values.filter (fun s => s.file == file) =
      (Table.keyed (·.id) (symbolsOf files file)).values := by
  -- whether a symbol is of the file can be told from its id
  let ofFile (id : String) : Bool := (symbolsOf files file).any (fun t => t.id == id)
  have htold : ∀ s ∈ files.flatMap (·.symbols), (s.file == file) = ofFile s.id := by
    intro s hs
    obtain ⟨f, hf, hsf⟩ := List.mem_flatMap.mp hs
    rw [Bool.eq_iff_iff, beq_iff_eq, List.any_eq_true, (hproper f hf).file s hsf]
    constructor
    · intro hfile
      exact ⟨s, mem_symbolsOf.mpr ⟨f, hf, hfile, hsf⟩, by simp⟩
    · rintro ⟨t, ht, hid⟩
      obtain ⟨g, hg, rfl, htg⟩ := mem_symbolsOf.mp ht
      rw [beq_iff_eq] at hid
      exact (hproper f hf).file_eq (hproper g hg) hsf htg hid.symm
  rw [symbols_ofFiles, Table.values, Table.values, List.filter_map]
  have hentries : (Table.keyed (·.id) (files.flatMap (·.symbols))).filter
      ((fun s => s.file == file) ∘ (·.2)) =
      (Table.keyed (·.id) (files.flatMap (·.symbols))).filter (fun e => ofFile e.1) := by
    refine List.filter_congr (fun entry hentry => ?_)
    obtain ⟨hmem, hid⟩ := Table.mem_keyed hentry
    rw [Function.comp, htold _ hmem, hid]
  rw [hentries, Table.filter_keyed, ← List.filter_congr htold, filter_flatMap_symbols hproper]

theorem filter_methods (index : SymbolIndex) (name : String) (p : Symbol → Bool) :
    (index.methods name).filter p =
      ((index.symbols.values.filter p).filter (fun s => s.kind == .method)).filter
        (fun s => bareName s.name == name) := by
  rw [methods, allMethods, List.filter_comm p, List.filter_comm p]

/-! ## Indexes that agree about a file -/

/-- Two indexes say the same about a file. -/
structure AgreeAt (a b : SymbolIndex) (file : String) : Prop where
  lookup : ∀ name, a.lookup file name = b.lookup file name
  bindings : a.bindingsIn file = b.bindingsIn file
  symbols : a.symbols.values.filter (fun s => s.file == file) =
    b.symbols.values.filter (fun s => s.file == file)

/-- Two indexes have methods with this id under the same bare names. -/
def SameMethods (a b : SymbolIndex) (id : String) : Prop :=
  ∀ name, (∃ s ∈ a.methods name, s.id = id) ↔ ∃ s ∈ b.methods name, s.id = id

/-- What an index says about a file comes from the entries of the file. -/
theorem agreeAt_of_entriesOf {files files' : List FileSymbols} {file : String}
    (hproper : ∀ f ∈ files, f.Proper) (hproper' : ∀ f ∈ files', f.Proper)
    (h : entriesOf files file = entriesOf files' file) :
    AgreeAt (ofFiles files) (ofFiles files') file where
  lookup name := by rw [lookup_ofFiles, lookup_ofFiles, symbolsOf_eq, symbolsOf_eq, h]
  bindings := by rw [bindingsIn_ofFiles, bindingsIn_ofFiles, h]
  symbols := by
    rw [filter_values_ofFiles hproper, filter_values_ofFiles hproper', symbolsOf_eq, symbolsOf_eq,
      h]

namespace AgreeAt

variable {a b : SymbolIndex} {file : String}

theorem target? (h : AgreeAt a b file) (name : String) :
    a.target? file name = b.target? file name := by
  rw [SymbolIndex.target?, SymbolIndex.target?, h.lookup]

theorem methods (h : AgreeAt a b file) (name : String) :
    (a.methods name).filter (fun s => s.file == file) =
      (b.methods name).filter (fun s => s.file == file) := by
  rw [filter_methods, filter_methods, h.symbols]

theorem mem_values_iff {s : Symbol} (h : AgreeAt a b s.file) :
    s ∈ a.symbols.values ↔ s ∈ b.symbols.values := by
  have hmem : s ∈ a.symbols.values.filter (fun t => t.file == s.file) ↔
      s ∈ b.symbols.values.filter (fun t => t.file == s.file) := by rw [h.symbols]
  simpa using hmem

end AgreeAt

end SymbolIndex

/-! ## Calls -/

namespace Resolver

/-- The ways that ask about the caller's file and its imports only. -/
def nearby : List Resolver :=
  [sameFile, imported, sameFileMethod]

variable {a b : SymbolIndex} {file : String}

/-- Two indexes say the same about a file, and agree on the names of the files that it imports. -/
structure SeeSame (a b : SymbolIndex) (file : String) : Prop where
  here : SymbolIndex.AgreeAt a b file
  imports : ∀ x ∈ (a.bindingsIn file).values, SymbolIndex.AgreeAt a b x.fromFile

theorem binding_mem_of_importedNames {bindings : Table String Binding} {call : CallFact}
    {x : Binding} {names : List String} (h : importedNames bindings call = some (x, names)) :
    x ∈ bindings.values := by
  have hget : ∀ {name : String} {y : Binding}, bindings.get? name = some y → y ∈ bindings.values :=
    fun hy => List.mem_map.mpr ⟨_, Table.mem_of_get? hy, rfl⟩
  unfold importedNames at h
  split at h
  · rename_i y hy
    obtain ⟨name, -, hname⟩ := Option.bind_eq_some_iff.mp hy
    split at h <;> cases h <;> exact hget hname
  · obtain ⟨y, hy, heq⟩ := Option.map_eq_some_iff.mp h
    cases heq
    exact hget hy

theorem targets_congr (h : SeeSame a b file) {r : Resolver} (hr : r ∈ nearby) (call : CallFact) :
    r.targets a file call = r.targets b file call := by
  cases r with
  | sameFile => rw [targets, targets, inSameFile, inSameFile, h.here.target?]
  | imported =>
    rw [targets, targets, inImports, inImports, ← h.here.bindings]
    split
    · rename_i x names hx
      rw [funext (h.imports x (binding_mem_of_importedNames hx)).target?]
    · rfl
  | sameFileMethod =>
    rw [targets, targets, inFileMethods, inFileMethods, h.here.methods]
  | anyMethod => exact absurd hr (by decide)

theorem mem_inAllMethods_congr (h : SymbolIndex.AgreeAt a b file) (call : CallFact)
    {target : String} (hmethods : SymbolIndex.SameMethods a b target) :
    target ∈ inAllMethods a file call ↔ target ∈ inAllMethods b file call := by
  unfold inAllMethods
  split
  · rfl
  · rw [h.target?, h.bindings]
    split
    · rfl
    · rw [List.mem_map, List.mem_map]
      exact hmethods call.callee

end Resolver

theorem resolveCall_congr {a b : SymbolIndex} {resolvers : List Resolver} {file : String}
    {call : CallFact} (h : ∀ r ∈ resolvers, r.targets a file call = r.targets b file call) :
    resolveCall a resolvers file call = resolveCall b resolvers file call := by
  induction resolvers with
  | nil => rfl
  | cons r rest ih =>
    rw [resolveCall, resolveCall, h r List.mem_cons_self,
      ih (fun r' hr' => h r' (List.mem_cons_of_mem _ hr'))]

theorem resolveCall_append (index : SymbolIndex) (first second : List Resolver) (file : String)
    (call : CallFact) :
    resolveCall index (first ++ second) file call =
      if (resolveCall index first file call).isEmpty then resolveCall index second file call
      else resolveCall index first file call := by
  induction first with
  | nil => rfl
  | cons r rest ih =>
    rw [List.cons_append, resolveCall, resolveCall]
    by_cases h : (r.targets index file call).isEmpty = true
    · rw [if_pos h, if_pos h, ih]
    · rw [if_neg h, if_neg h, if_neg h]

/-- The last way comes into play when the others have found nothing. -/
theorem resolveCall_standard (index : SymbolIndex) (file : String) (call : CallFact) :
    resolveCall index Resolver.standard file call =
      if (resolveCall index Resolver.nearby file call).isEmpty then
        Resolver.inAllMethods index file call
      else resolveCall index Resolver.nearby file call := by
  have hstandard : Resolver.standard = Resolver.nearby ++ [.anyMethod] := rfl
  have hlast : resolveCall index [.anyMethod] file call =
      Resolver.inAllMethods index file call := by
    rw [resolveCall, Resolver.targets, resolveCall]
    split
    · rename_i hempty
      exact (List.isEmpty_iff.mp hempty).symm
    · rfl
  rw [hstandard, resolveCall_append, hlast]

theorem mem_resolveCall_standard (index : SymbolIndex) (file target : String) (call : CallFact) :
    target ∈ resolveCall index Resolver.standard file call ↔
      target ∈ resolveCall index Resolver.nearby file call ∨
        resolveCall index Resolver.nearby file call = [] ∧
          target ∈ Resolver.inAllMethods index file call := by
  rw [resolveCall_standard]
  cases resolveCall index Resolver.nearby file call <;> simp

/-- If two indexes say the same about what a file sees, a call in it has a target by the one as by
the other, as long as they agree on the methods with the id of the target. -/
theorem mem_resolveCall_congr {a b : SymbolIndex} {file target : String}
    (h : Resolver.SeeSame a b file) (call : CallFact)
    (hmethods : SymbolIndex.SameMethods a b target) :
    target ∈ resolveCall a Resolver.standard file call ↔
      target ∈ resolveCall b Resolver.standard file call := by
  rw [mem_resolveCall_standard, mem_resolveCall_standard,
    resolveCall_congr (fun r hr => Resolver.targets_congr h hr call),
    Resolver.mem_inAllMethods_congr h.here call hmethods]

/-! ## Facts -/

namespace Link

variable {a b : SymbolIndex} {f : FileSymbols}

theorem importFacts_congr (h : Resolver.SeeSame a b f.file) :
    importFacts a f = importFacts b f := by
  rw [importFacts, importFacts, ← h.here.bindings]
  refine List.filterMap_congr (fun x hx => ?_)
  have hfrom := h.imports x hx
  rw [importTarget?, importTarget?, hfrom.target?, hfrom.target?]

/-- What a file brings follows from what it sees. -/
theorem mem_fileFacts_congr (h : Resolver.SeeSame a b f.file) {e : EdgeFact}
    (hmethods : SymbolIndex.SameMethods a b e.target) :
    e ∈ fileFacts a Resolver.standard f ↔ e ∈ fileFacts b Resolver.standard f := by
  have hcalls : ∀ call, e ∈ callFacts a Resolver.standard f.file call ↔
      e ∈ callFacts b Resolver.standard f.file call := by
    intro call
    rw [mem_callFacts, mem_callFacts, h.here.lookup, mem_resolveCall_congr h call hmethods]
  rw [fileFacts, fileFacts, List.mem_append, List.mem_append, importFacts_congr h]
  simp only [List.mem_flatMap, hcalls]

end Link

/-! ## Entries to link -/

/-- A symbol that is no more than a name. -/
def Symbol.named (file name : String) (kind : SymbolKind) : Symbol :=
  ⟨symbolId file name, name, kind, file, 1, 1, none, none, none, none, none⟩

namespace FileSymbols

/-- A file with a class that can be run. -/
def runnable (file owner : String) : FileSymbols :=
  ⟨file, [.named file owner .classDef, .named file (owner ++ ".run") .method], [], []⟩

/-- A file that imports a class, and runs something that it knows nothing about. -/
def runner : FileSymbols where
  file := "main.js"
  symbols := [.named "main.js" "A" .variableDef, .named "main.js" "go" .function]
  calls := [⟨"go", "run", some "x", 1, some ⟨"ready", .ifThen⟩⟩]
  imports := [⟨"./a", some "a.js", [⟨"A", "A", .named⟩]⟩]

end FileSymbols

end CodeGraph
