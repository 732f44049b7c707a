import CodeGraph.Proofs.SymbolGraph.FanOut

/-!
# Calls on `this` stay in their class

A method calls another one of its class by `this`. The index knows methods by their bare names, so
the methods of that name in the file are all candidates, those of other classes too. The caller's
name tells the class: `receiverClass?_this`. Of the candidates the one with this class is picked
(`Resolver.exists_pick_of_mem`), wherever it stands among them, and it is there because the last
symbol of an id is the one that is kept (`SymbolIndex.mem_methods_of_last`).
-/

namespace CodeGraph

/-! ## Names with a point -/

theorem toList_qualified (owner name : String) :
    (owner ++ "." ++ name).toList = owner.toList ++ '.' :: name.toList := by
  simp

theorem takeWhile_ne_point {cs : List Char} (h : '.' ∉ cs) (rest : List Char) :
    (cs ++ '.' :: rest).takeWhile (· != '.') = cs := by
  rw [takeWhile_bne_append h]
  simp

namespace SymbolIndex

/-- The bare name of a method is what follows the point. -/
theorem bareName_qualified {name : String} (h : '.' ∉ name.toList) (owner : String) :
    bareName (owner ++ "." ++ name) = name := by
  have hback : (owner ++ "." ++ name).toList.reverse =
      name.toList.reverse ++ '.' :: owner.toList.reverse := by
    rw [toList_qualified]
    simp
  rw [bareName, hback, takeWhile_ne_point (by simpa using h), List.reverse_reverse,
    String.ofList_toList]

end SymbolIndex

namespace Resolver

variable {call : CallFact} {owner method : String}

/-- The class of `this` is the one in the caller's name. -/
theorem receiverClass?_this (hthis : call.objectName = some "this")
    (hcaller : call.caller = owner ++ "." ++ method) (howner : '.' ∉ owner.toList) :
    receiverClass? call = some owner := by
  have hpoint : call.caller.toList.contains '.' = true := by
    rw [hcaller, toList_qualified]
    simp
  rw [receiverClass?, if_pos (by simp [hthis]), if_pos hpoint, hcaller, toList_qualified,
    takeWhile_ne_point howner, String.ofList_toList]

/-- If a candidate belongs to the receiver's class, one that does is picked. -/
theorem exists_pick_of_mem {candidates : List Symbol} {s : Symbol}
    (howner : receiverClass? call = some owner) (hs : s ∈ candidates)
    (hname : s.name = owner ++ "." ++ call.callee) :
    ∃ t, pick call candidates = some t ∧ t.name = owner ++ "." ++ call.callee := by
  unfold pick
  rw [howner, Option.getD_some]
  split
  · rename_i only
    exact ⟨only, rfl, List.mem_singleton.mp hs ▸ hname⟩
  · -- with several candidates, the search for the class finds one
    have hsome : (candidates.find? (fun t => t.name == owner ++ "." ++ call.callee)).isSome := by
      rw [List.find?_isSome]
      exact ⟨s, hs, by simpa using hname⟩
    obtain ⟨t, ht⟩ := Option.isSome_iff_exists.mp hsome
    dsimp only
    rw [ht]
    exact ⟨t, rfl, by simpa using List.find?_some ht⟩

end Resolver

/-! ## The symbols of one file -/

namespace SymbolIndex

variable {files : List FileSymbols} {f : FileSymbols}

theorem eq_of_file_eq (hdistinct : (files.map (·.file)).Nodup) (hf : f ∈ files)
    {g : FileSymbols} (hg : g ∈ files) (h : g.file = f.file) : g = f :=
  List.inj_on_of_nodup_map hdistinct hg hf h

/-- With one entry for each file, the symbols of a file are those of its entry. -/
theorem symbolsOf_file (hdistinct : (files.map (·.file)).Nodup) (hf : f ∈ files) :
    symbolsOf files f.file = f.symbols := by
  have hnodup : (entriesOf files f.file).Nodup := hdistinct.of_map.filter _
  have hentries : entriesOf files f.file = [f] := by
    rw [← List.perm_singleton, List.perm_ext_iff_of_nodup hnodup (List.nodup_singleton f)]
    intro g
    rw [entriesOf, List.mem_filter, List.mem_singleton, beq_iff_eq]
    constructor
    · rintro ⟨hg, hfile⟩
      exact eq_of_file_eq hdistinct hf hg hfile
    · rintro rfl
      exact ⟨hf, rfl⟩
  rw [symbolsOf_eq, hentries, List.flatMap_singleton]

/-- The last symbol of a name is kept, for no later one has its id. -/
theorem mem_keyed_of_last (hproper : f.Proper) {before after : List Symbol} {s : Symbol}
    (hsymbols : f.symbols = before ++ s :: after) (hlast : ∀ t ∈ after, t.name ≠ s.name) :
    s ∈ (Table.keyed (·.id) f.symbols).values := by
  have hid : ∀ t ∈ after, t.id ≠ s.id := by
    intro t ht hsame
    have htf : t ∈ f.symbols := by simp [hsymbols, ht]
    have hsf : s ∈ f.symbols := by simp [hsymbols]
    rw [hproper.id t htf, hproper.id s hsf] at hsame
    exact hlast t ht (symbolId_inj (hproper.name t htf) (hproper.name s hsf) hsame).2
  have hget : (Table.keyed (·.id) f.symbols).get? s.id = some s := by
    rw [Table.get?_keyed, Table.find?_reverse_eq_some_iff]
    exact ⟨by simp, before, after, hsymbols, fun t ht => by simpa using hid t ht⟩
  exact List.mem_map.mpr ⟨_, Table.mem_of_get? hget, rfl⟩

/-- A method that is the last symbol of its name in its file is a candidate there. -/
theorem mem_methods_of_last (hdistinct : (files.map (·.file)).Nodup)
    (hproper : ∀ g ∈ files, g.Proper) (hf : f ∈ files) {before after : List Symbol} {s : Symbol}
    (hsymbols : f.symbols = before ++ s :: after) (hlast : ∀ t ∈ after, t.name ≠ s.name)
    (hkind : s.kind = .method) :
    s ∈ ((ofFiles files).methods (bareName s.name)).filter (fun t => t.file == f.file) := by
  rw [filter_methods, filter_values_ofFiles hproper, symbolsOf_file hdistinct hf,
    List.mem_filter, List.mem_filter]
  exact ⟨⟨mem_keyed_of_last (hproper f hf) hsymbols hlast, by simp [hkind]⟩, by simp⟩

/-- A candidate of a file has the id that is made from the file and its name. -/
theorem id_of_mem_methods (hproper : ∀ g ∈ files, g.Proper) {name file : String} {s : Symbol}
    (h : s ∈ ((ofFiles files).methods name).filter (fun t => t.file == file)) :
    s.id = symbolId file s.name := by
  obtain ⟨hmethod, hfile⟩ := List.mem_filter.mp h
  obtain ⟨g, hg, hsg⟩ := exists_entry_of_mem_values (mem_methods.mp hmethod).1
  rw [(hproper g hg).id s hsg, ← (hproper g hg).file s hsg, beq_iff_eq.mp hfile]

/-- No id is empty if ids are made from files and names. -/
theorem id_ne_empty (hproper : ∀ g ∈ files, g.Proper) :
    ∀ g ∈ files, ∀ s ∈ g.symbols, s.id ≠ "" := by
  intro g hg s hs hempty
  rw [(hproper g hg).id s hs] at hempty
  have hlength := congrArg String.length hempty
  simp [symbolId] at hlength

end SymbolIndex

/-! ## The call -/

/-- A name that no import of a file brings is not imported there. -/
theorem Resolver.inImports_eq_nil {index : SymbolIndex} {file receiver : String} {call : CallFact}
    (hobject : call.objectName = some receiver)
    (hreceiver : (index.bindingsIn file).contains receiver = false)
    (hcallee : (index.bindingsIn file).contains call.callee = false) :
    inImports index file call = [] := by
  rw [Table.contains, Option.isSome_eq_false_iff, Option.isNone_iff_eq_none] at hreceiver hcallee
  rw [inImports, importedNames, hobject, Option.bind_some, hreceiver]
  dsimp only
  rw [hcallee]
  rfl

/-- **Calls on `this` stay in their class.** A method of a class calls a method by `this`, and the
last symbol of that name in the class is a method. If the file has no symbol that is called like the
method alone, and imports neither such a name nor `this`, the call leads to the method of the
caller's own class and to nothing else, whatever other classes have methods of that name. -/
theorem this_call_stays_in_class {files : List FileSymbols}
    (hdistinct : (files.map (·.file)).Nodup) (hproper : ∀ g ∈ files, g.Proper)
    {f : FileSymbols} (hf : f ∈ files) (owner method name : String)
    (howner : '.' ∉ owner.toList) (hname : '.' ∉ name.toList)
    {before after : List Symbol} {s : Symbol} (hsymbols : f.symbols = before ++ s :: after)
    (hs : s.name = owner ++ "." ++ name) (hkind : s.kind = .method)
    (hlast : ∀ t ∈ after, t.name ≠ owner ++ "." ++ name)
    (hown : ∀ t ∈ f.symbols, t.name ≠ name)
    (himports : ∀ i ∈ f.imports, i.resolved ≠ none → ∀ x ∈ i.specifiers,
      x.name ≠ "this" ∧ x.name ≠ name)
    (line : Int) (condition : Option Condition) :
    resolveCall (.ofFiles files) Resolver.standard f.file
        ⟨owner ++ "." ++ method, name, some "this", line, condition⟩ =
      [symbolId f.file (owner ++ "." ++ name)] := by
  set call : CallFact := ⟨owner ++ "." ++ method, name, some "this", line, condition⟩
  have hunbound : ∀ x, x = "this" ∨ x = name →
      ((SymbolIndex.ofFiles files).bindingsIn f.file).contains x = false := by
    intro x hx
    rw [← Bool.not_eq_true, SymbolIndex.contains_bindingsIn_ofFiles]
    rintro ⟨g, hg, hfile, i, hi, hresolved, y, hy, rfl⟩
    obtain rfl := SymbolIndex.eq_of_file_eq hdistinct hf hg hfile
    rcases hx with hx | hx
    · exact (himports i hi hresolved y hy).1 hx
    · exact (himports i hi hresolved y hy).2 hx
  -- neither the file itself nor its imports know the called name
  have hsame : Resolver.sameFile.targets (.ofFiles files) f.file call = [] := by
    refine Option.toList_eq_nil_iff.mpr ((SymbolIndex.target?_eq_none_iff
      (SymbolIndex.id_ne_empty hproper) f.file name).mpr ?_)
    intro g hg hfile
    rw [SymbolIndex.eq_of_file_eq hdistinct hf hg hfile]
    exact hown
  have himported : Resolver.imported.targets (.ofFiles files) f.file call = [] :=
    Resolver.inImports_eq_nil rfl (hunbound _ (.inl rfl)) (hunbound _ (.inr rfl))
  have hcandidate := SymbolIndex.mem_methods_of_last hdistinct hproper hf hsymbols
    (by rwa [hs]) hkind
  rw [hs, SymbolIndex.bareName_qualified hname] at hcandidate
  have hclass : Resolver.receiverClass? call = some owner :=
    Resolver.receiverClass?_this rfl rfl howner
  obtain ⟨t, hpick, htname⟩ := Resolver.exists_pick_of_mem hclass hcandidate hs
  have hmethod : Resolver.sameFileMethod.targets (.ofFiles files) f.file call =
      [symbolId f.file (owner ++ "." ++ name)] := by
    have htid := SymbolIndex.id_of_mem_methods hproper (SymbolIndex.mem_of_pick hpick)
    have hreceiver : Resolver.receiver? call = some "this" := rfl
    rw [Resolver.targets, Resolver.inFileMethods, hreceiver]
    dsimp only
    rw [hpick, Option.map_some, htid, htname]
    rfl
  rw [Resolver.standard, resolveCall, hsame, resolveCall, himported, resolveCall, hmethod]
  rfl

/-- Two classes with a method of one name. The second had a symbol of another kind under it, and the
bare name is imported from a package outside the analysed files. -/
def FileSymbols.shapes : FileSymbols where
  file := "shapes.js"
  symbols := [.named "shapes.js" "Square" .classDef, .named "shapes.js" "Square.edge" .method,
    .named "shapes.js" "Circle.edge" .variableDef, .named "shapes.js" "Circle" .classDef,
    .named "shapes.js" "Circle.edge" .method, .named "shapes.js" "Circle.draw" .method]
  calls := []
  imports := [⟨"edges", none, [⟨"edge", "edge", .named⟩]⟩]

/-- A circle draws its own edge, though the edge of a square comes first. -/
theorem circle_draws_own_edge :
    ([FileSymbols.runnable "a.js" "A", .shapes].map (·.file)).Nodup ∧
    (∀ g ∈ [FileSymbols.runnable "a.js" "A", .shapes], g.Proper) ∧
    resolveCall (.ofFiles [.runnable "a.js" "A", .shapes]) Resolver.standard "shapes.js"
      ⟨"Circle.draw", "edge", some "this", 7, none⟩ = ["shapes.js::Circle.edge"] := by
  have hdistinct : ([FileSymbols.runnable "a.js" "A", .shapes].map (·.file)).Nodup := by
    decide
  have hproper : ∀ g ∈ [FileSymbols.runnable "a.js" "A", .shapes], g.Proper := by decide
  have hmem : FileSymbols.shapes ∈ [FileSymbols.runnable "a.js" "A", .shapes] := by decide
  have hsymbols : FileSymbols.shapes.symbols = FileSymbols.shapes.symbols.take 4 ++
      Symbol.named "shapes.js" "Circle.edge" .method :: FileSymbols.shapes.symbols.drop 5 := rfl
  have hstays := this_call_stays_in_class hdistinct hproper hmem "Circle" "draw" "edge"
    (by decide) (by decide) hsymbols (by decide) rfl (by decide)
    (by decide) (by decide) 7 none
  exact ⟨hdistinct, hproper, hstays⟩

end CodeGraph
