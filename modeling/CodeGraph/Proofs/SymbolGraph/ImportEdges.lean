import CodeGraph.Proofs.SymbolGraph.FanOut

/-!
# Import edges are exact

The edges of kind `imports` of a linked graph, said about the imports. A local name of a file goes
back to the last specifier that brings it (`LastSpecifier`), imports that lead nowhere left out, and
stands for the symbol of the imported file under the imported name, or else under the local one
(`StandsFor`). There is an edge for each such name that is a symbol of its file as well
(`linkSymbols_imports_exact`): no other symbol can be the source of an import.
-/

namespace CodeGraph

/-- The binding that a specifier makes, if its import leads to a file. -/
def Specifier.binding (s : Specifier) (target : String) : Binding :=
  ⟨s.name, s.imported, s.kind, target⟩

namespace SymbolIndex

variable {files : List FileSymbols} {file name : String}

/-! ## Specifiers -/

/-- The specifiers of a file's imports in order, each with the file that its import leads to. Those
of imports that lead nowhere are left out. -/
def boundSpecifiers (files : List FileSymbols) (file : String) : List (Specifier × String) :=
  ((entriesOf files file).flatMap (·.imports)).flatMap fun i =>
    i.resolved.toList.flatMap fun target => i.specifiers.map fun s => (s, target)

/-- The last specifier of a file that brings a name. -/
def LastSpecifier (files : List FileSymbols) (file name : String) (s : Specifier)
    (target : String) : Prop :=
  s.name = name ∧ ∃ before after, boundSpecifiers files file = before ++ (s, target) :: after ∧
    ∀ p ∈ after, p.1.name ≠ name

theorem bindingsOf_eq (imports : List Import) :
    bindingsOf imports = (imports.flatMap fun i => i.resolved.toList.flatMap fun target =>
      i.specifiers.map fun s => (s, target)).map fun p => p.1.binding p.2 := by
  rw [bindingsOf, List.map_flatMap]
  refine List.flatMap_congr (fun i _ => ?_)
  cases i.resolved with
  | none => rfl
  | some target => simp [Specifier.binding]

/-- The specifiers make the bindings of a file. -/
theorem flatMap_bindingsOf (files : List FileSymbols) (file : String) :
    (entriesOf files file).flatMap (fun f => bindingsOf f.imports) =
      (boundSpecifiers files file).map fun p => p.1.binding p.2 := by
  rw [boundSpecifiers, List.flatMap_assoc, List.map_flatMap]
  exact List.flatMap_congr (fun f _ => bindingsOf_eq f.imports)

theorem find?_boundSpecifiers {s : Specifier} {target : String} :
    (boundSpecifiers files file).reverse.find? (fun p => p.1.name == name) = some (s, target) ↔
      LastSpecifier files file name s target := by
  rw [Table.find?_reverse_eq_some_iff, LastSpecifier]
  simp only [beq_iff_eq, beq_eq_false_iff_ne]

/-- A name is bound by its last specifier. -/
theorem get?_bindingsIn_ofFiles {b : Binding} :
    ((ofFiles files).bindingsIn file).get? name = some b ↔
      ∃ s target, LastSpecifier files file name s target ∧ s.binding target = b := by
  rw [bindingsIn_ofFiles, flatMap_bindingsOf, Table.get?_keyed, ← List.map_reverse,
    List.find?_map, Option.map_eq_some_iff, Prod.exists]
  refine exists_congr (fun s => exists_congr (fun target => and_congr_left (fun _ => ?_)))
  exact find?_boundSpecifiers

theorem LastSpecifier.unique {s s' : Specifier} {target target' : String}
    (h : LastSpecifier files file name s target) (h' : LastSpecifier files file name s' target') :
    s = s' ∧ target = target' := by
  rw [← find?_boundSpecifiers] at h h'
  exact Prod.mk.inj (Option.some.inj (h.symm.trans h'))

/-- A binding of a file stands under its local name. -/
theorem mem_values_bindingsIn {b : Binding} :
    b ∈ ((ofFiles files).bindingsIn file).values ↔
      ((ofFiles files).bindingsIn file).get? b.localName = some b := by
  rw [bindingsIn_ofFiles]
  constructor
  · intro h
    obtain ⟨⟨key, b'⟩, hentry, rfl⟩ := List.mem_map.mp h
    rw [(Table.mem_keyed hentry).2]
    exact (Table.mem_iff_get? (Table.nodup_keys_keyed _ _) key b').mp hentry
  · intro h
    exact List.mem_map.mpr ⟨_, Table.mem_of_get? h, rfl⟩

end SymbolIndex

namespace Link

open SymbolIndex

variable {resolvers : List Resolver} {files : List FileSymbols}

/-! ## What an imported name stands for -/

/-- A name that a file imports stands for a symbol: that of the imported name in the file that its
last specifier leads to or, if there is none, that of the name itself. -/
def StandsFor (files : List FileSymbols) (file name t : String) : Prop :=
  ∃ s target, LastSpecifier files file name s target ∧
    ((ofFiles files).lookup target s.imported = some t ∨
      (ofFiles files).lookup target s.imported = none ∧
        (ofFiles files).lookup target name = some t)

theorem StandsFor.unique {file name t t' : String} (h : StandsFor files file name t)
    (h' : StandsFor files file name t') : t = t' := by
  obtain ⟨s, target, hlast, hstands⟩ := h
  obtain ⟨s', target', hlast', hstands'⟩ := h'
  obtain ⟨rfl, rfl⟩ := hlast.unique hlast'
  rcases hstands with hfound | ⟨hnone, hown⟩ <;> rcases hstands' with hfound' | ⟨hnone', hown'⟩
  · exact Option.some.inj (hfound.symm.trans hfound')
  · rw [hfound] at hnone'
    cases hnone'
  · rw [hfound'] at hnone
    cases hnone
  · exact Option.some.inj (hown.symm.trans hown')

theorem StandsFor.mem_ids {file name t : String} (h : StandsFor files file name t) :
    t ∈ (ofFiles files).ids := by
  obtain ⟨s, target, -, hfound | ⟨-, hown⟩⟩ := h
  · exact lookup_mem_ids hfound
  · exact lookup_mem_ids hown

section Named

variable (hids : ∀ f ∈ files, ∀ s ∈ f.symbols, s.id ≠ "")
include hids

theorem importTarget?_eq_some_iff {b : Binding} {t : String} :
    importTarget? (ofFiles files) b = some t ↔
      (ofFiles files).lookup b.fromFile b.imported = some t ∨
        (ofFiles files).lookup b.fromFile b.imported = none ∧
          (ofFiles files).lookup b.fromFile b.localName = some t := by
  rw [importTarget?, target?_eq_lookup hids, target?_eq_lookup hids, Option.or_eq_some_iff]

/-- The facts about imports of a file are the names that stand for something. -/
theorem mem_importFacts {f : FileSymbols} {e : EdgeFact} :
    e ∈ importFacts (ofFiles files) f ↔
      (∃ name, e.source = symbolId f.file name ∧ StandsFor files f.file name e.target) ∧
        e.kind = .imports ∧ e.condition = none := by
  rw [importFacts, List.mem_filterMap]
  constructor
  · rintro ⟨b, hb, hfact⟩
    obtain ⟨t, htarget, rfl⟩ := Option.map_eq_some_iff.mp hfact
    obtain ⟨s, target, hlast, rfl⟩ := get?_bindingsIn_ofFiles.mp (mem_values_bindingsIn.mp hb)
    refine ⟨⟨s.name, rfl, s, target, hlast, ?_⟩, rfl, rfl⟩
    exact (importTarget?_eq_some_iff hids).mp htarget
  · obtain ⟨source, t, kind, condition⟩ := e
    rintro ⟨⟨name, rfl, s, target, hlast, hstands⟩, rfl, rfl⟩
    obtain rfl := hlast.1
    refine ⟨s.binding target, ?_, ?_⟩
    · exact mem_values_bindingsIn.mpr (get?_bindingsIn_ofFiles.mpr ⟨s, target, hlast, rfl⟩)
    · rw [(importTarget?_eq_some_iff hids).mpr hstands]
      rfl

theorem mem_facts_imports (resolvers : List Resolver) {s t : String}
    {condition : Option Condition} :
    (⟨s, t, .imports⟩, condition) ∈
        (facts (ofFiles files) resolvers files).map EdgeFact.entry ↔
      condition = none ∧ ∃ f ∈ files, ∃ name, s = symbolId f.file name ∧
        StandsFor files f.file name t := by
  constructor
  · intro h
    obtain ⟨e, he, hentry⟩ := List.mem_map.mp h
    obtain ⟨hkey, rfl⟩ := Prod.mk.inj hentry
    obtain ⟨rfl, rfl, hkind⟩ := EdgeKey.mk.inj hkey
    obtain ⟨f, hf, hfile⟩ := List.mem_flatMap.mp he
    rcases List.mem_append.mp hfile with himport | hcall
    · obtain ⟨hname, -, hcondition⟩ := (mem_importFacts hids).mp himport
      exact ⟨hcondition, f, hf, hname⟩
    · obtain ⟨c, -, hcall⟩ := List.mem_flatMap.mp hcall
      obtain ⟨-, -, -, hcalls, -⟩ := (mem_callFacts _ _ _ _ _).mp hcall
      exact absurd (hkind.symm.trans hcalls) (by decide)
  · rintro ⟨rfl, f, hf, hname⟩
    refine List.mem_map.mpr ⟨⟨s, t, .imports, none⟩, ?_, rfl⟩
    refine List.mem_flatMap.mpr ⟨f, hf, List.mem_append_left _ ?_⟩
    exact (mem_importFacts hids).mpr ⟨hname, rfl, rfl⟩

/-! ## The edges of the linked graph -/

theorem mem_facts_key_imports {e : SymbolEdge} (hkind : e.kind = .imports)
    {condition : Option Condition} :
    (e.key, condition) ∈ (facts (ofFiles files) resolvers files).map EdgeFact.entry ↔
      condition = none ∧ ∃ f ∈ files, ∃ name, e.source = symbolId f.file name ∧
        StandsFor files f.file name e.target := by
  rw [EdgeOf.key, hkind]
  exact mem_facts_imports hids resolvers

/-- An import edge is unconditional, for its facts are. -/
theorem conditions_of_imports {e : SymbolEdge} (he : e ∈ (linkSymbols resolvers files).2)
    (hkind : e.kind = .imports) : e.conditions = none := by
  have hgathers := mem_collectedEdges.mp (mem_edges_linkSymbols.mp he).1
  rw [hgathers.unconditional]
  intro c hc
  exact absurd ((mem_facts_key_imports hids hkind).mp hc).1 (Option.some_ne_none c)

theorem exists_edge_imports_iff (s t : String) :
    (∃ e ∈ (linkSymbols resolvers files).2, e.kind = .imports ∧ e.source = s ∧ e.target = t) ↔
      ∃ f ∈ files, ∃ name, s = symbolId f.file name ∧
        s ∈ (linkSymbols resolvers files).1.map (·.id) ∧ StandsFor files f.file name t := by
  rw [map_id_linkSymbols]
  constructor
  · rintro ⟨e, he, hkind, rfl, rfl⟩
    obtain ⟨hcollected, hsource, -⟩ := mem_edges_linkSymbols.mp he
    obtain ⟨c, hstated⟩ := (mem_collectedEdges.mp hcollected).stated
    obtain ⟨-, f, hf, name, hname, hstands⟩ := (mem_facts_key_imports hids hkind).mp hstated
    exact ⟨f, hf, name, hname, hsource, hstands⟩
  · rintro ⟨f, hf, name, hname, hsource, hstands⟩
    obtain ⟨e, hkey, hgathers⟩ := EdgeSet.exists_gathers
      ((mem_facts_imports hids resolvers).mpr ⟨rfl, f, hf, name, hname, hstands⟩)
    obtain ⟨rfl, rfl, hkind⟩ := EdgeKey.mk.inj hkey
    refine ⟨e, mem_edges_linkSymbols.mpr ⟨mem_collectedEdges.mpr hgathers, hsource, ?_⟩, hkind,
      rfl, rfl⟩
    exact hstands.mem_ids

end Named

/-- **Import edges are exact.** There is an import edge between two symbols exactly if the first is
named by a file and a name that the file imports, and the name stands for the second: the last
specifier of that name counts, among those of imports that lead to a file, and it leads to the
symbol under the imported name or, only if there is none, under the local one. Import edges have no
conditions, and a name of a file stands for one symbol at most. -/
theorem linkSymbols_imports_exact (resolvers : List Resolver) {files : List FileSymbols}
    (hids : ∀ f ∈ files, ∀ s ∈ f.symbols, s.id ≠ "") :
    (∀ s t, (∃ e ∈ (linkSymbols resolvers files).2,
        e.kind = .imports ∧ e.source = s ∧ e.target = t) ↔
      ∃ f ∈ files, ∃ name, s = symbolId f.file name ∧
        s ∈ (linkSymbols resolvers files).1.map (·.id) ∧ StandsFor files f.file name t) ∧
    (∀ e ∈ (linkSymbols resolvers files).2, e.kind = .imports → e.conditions = none) ∧
    ∀ file name t t', StandsFor files file name t → StandsFor files file name t' → t = t' :=
  ⟨exists_edge_imports_iff hids, fun _ he hkind => conditions_of_imports hids he hkind,
    fun _ _ _ _ h h' => h.unique h'⟩

/-- A file that imports one name three times: twice from a file, and at last from nowhere. -/
def reimporting : List FileSymbols :=
  [{ file := "main.js"
     symbols := [.named "main.js" "A" .variableDef]
     calls := []
     imports := [⟨"./old", some "old.js", [⟨"A", "A", .named⟩]⟩,
       ⟨"./a", some "a.js", [⟨"A", "default", .default⟩]⟩, ⟨"a", none, [⟨"A", "A", .named⟩]⟩] },
    .runnable "old.js" "A", .runnable "a.js" "A"]

/-- The second import counts; what it imports is found under the local name. -/
theorem reimported_name_linked :
    (∀ f ∈ reimporting, ∀ s ∈ f.symbols, s.id ≠ "") ∧
    (∃ e ∈ (linkSymbols Resolver.standard reimporting).2,
      e.kind = .imports ∧ e.source = "main.js::A" ∧ e.target = "a.js::A") ∧
    ∀ t, StandsFor reimporting "main.js" "A" t → t = "a.js::A" := by
  have hids : ∀ f ∈ reimporting, ∀ s ∈ f.symbols, s.id ≠ "" := by decide
  have hstands : StandsFor reimporting "main.js" "A" "a.js::A" :=
    ⟨⟨"A", "default", .default⟩, "a.js",
      ⟨rfl, [(⟨"A", "A", .named⟩, "old.js")], [], by decide, by simp⟩,
      .inr ⟨by decide, by decide⟩⟩
  obtain ⟨hedges, -, hunique⟩ := linkSymbols_imports_exact Resolver.standard hids
  refine ⟨hids, (hedges _ _).mpr ⟨_, List.mem_cons_self, "A", by decide, by decide,
    hstands⟩, fun t ht => hunique _ _ _ _ ht hstands⟩

end Link

end CodeGraph
