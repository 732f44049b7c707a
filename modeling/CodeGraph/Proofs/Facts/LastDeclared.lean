import CodeGraph.Proofs.Facts.LineRanges
import CodeGraph.Proofs.SymbolGraph.LinkedGraph

/-!
# Which declaration is kept

Of several symbols with one id the one made last is kept. That is the one declared last, as far as
symbols are made in source order. They mostly are, since a walk goes from the front to the back. But
a class makes its methods, and a declaration its variables, when it is visited itself, ahead of all
that stands inside it. What stands inside and has the same id then comes later and replaces them,
although it may be declared before them (`Link.variable_replaced_by_earlier`).

* `Symbols.MadeAhead`: one symbol was made ahead of another one, around it.
* `Symbols.symbols_ordered`: apart from that, symbols with one id come in the order of their lines.
* `Link.kept_last_iff`: so this alone decides whether the declaration kept is the last one.
-/

namespace CodeGraph

/-- Symbols of these kinds are made where their class or declaration is visited. -/
def SymbolKind.madeAhead : SymbolKind → Bool
  | .method => true
  | .variableDef => true
  | _ => false

namespace Symbols

variable {m : Module} {file : String} {f g : Focus} {s t : Symbol}

/-- A symbol starts with a node inside the visited one, and unless it is made ahead, with the
visited node itself. -/
theorem Makes.exists_node (hf : f.node.All Node.InOrder) (h : Makes m file f s) :
    ∃ n : Node, s.startLine = m.startLine n ∧ f.node.Encloses n ∧
      (s.kind.madeAhead = false → n = f.node) := by
  obtain ⟨n, ⟨-, -, hstart, -⟩, -, hencloses, hself⟩ :=
    h.exists_span (hf.imp fun _ => Node.InOrder.toNested)
  refine ⟨n, hstart, hencloses, fun hahead => ?_⟩
  rcases hself with heq | hmethod | hvariable
  · exact heq
  · rw [hmethod] at hahead
    cases hahead
  · rw [hvariable] at hahead
    cases hahead

/-! ## The symbols of one visit -/

/-- Symbols with one id come in the order of their lines. -/
def InLineOrder (s t : Symbol) : Prop :=
  s.id = t.id → s.startLine ≤ t.startLine

theorem methodsOf_ordered {n : Node} (h : n.All Node.InOrder) :
    (methodsOf m n).Pairwise (fun a b => a.2.start ≤ b.2.start) := by
  unfold methodsOf
  split
  · rename_i body hbody
    have hmembers := Node.starts_ordered (h.child body (List.mem_of_find?_eq_some hbody))
    have hkept : ((body.namedChildren.filter (fun c => c.kind == "method_definition"))).Pairwise
        (fun c d => c.start ≤ d.start) :=
      (hmembers.sublist List.filter_sublist).sublist List.filter_sublist
    rw [List.pairwise_filterMap]
    refine hkept.imp ?_
    intro c d hcd a ha b hb
    obtain ⟨name, -, rfl⟩ := Option.map_eq_some_iff.mp ha
    obtain ⟨name', -, rfl⟩ := Option.map_eq_some_iff.mp hb
    exact hcd
  · exact List.Pairwise.nil

/-- The name of a method is longer than that of its class. -/
theorem symbolId_qualifiedName_ne (file className method : String) :
    symbolId file (Module.qualifiedName className method) ≠ symbolId file className := by
  intro h
  have hlength := congrArg String.length h
  simp only [symbolId, Module.qualifiedName, String.length_append] at hlength
  have hpoint : ".".length = 1 := rfl
  omega

theorem ofClass_ordered (hf : f.node.All Node.InOrder) :
    (ofClass m file f).Pairwise InLineOrder := by
  unfold ofClass
  split
  · rename_i className named
    refine List.pairwise_append.mpr ⟨?_, List.pairwise_singleton _ _, ?_⟩
    · refine List.pairwise_map.mpr ((methodsOf_ordered hf).imp ?_)
      intro a b hab _
      show ((m.startLine a.2 : Nat) : Int) ≤ (m.startLine b.2 : Nat)
      exact_mod_cast m.lineAt_mono hab
    · intro s hs t ht hid
      obtain ⟨⟨name, n⟩, -, rfl⟩ := List.mem_map.mp hs
      obtain rfl := List.mem_singleton.mp ht
      exact absurd hid (symbolId_qualifiedName_ne file className name)
  · exact List.Pairwise.nil

theorem ofVariables_ordered (hf : f.node.All Node.InOrder) :
    (ofVariables m file f).Pairwise InLineOrder := by
  unfold ofVariables
  split
  · have hdeclarators : (Exports.declarators f.node).Pairwise (fun c d => c.start ≤ d.start) :=
      ((Node.starts_ordered hf).sublist List.filter_sublist).sublist List.filter_sublist
    rw [List.pairwise_filterMap]
    refine hdeclarators.imp ?_
    intro c d hcd s hs t ht _
    obtain ⟨name, -, -, -, rfl⟩ := ofDeclarator?_eq_some.mp hs
    obtain ⟨name', -, -, -, rfl⟩ := ofDeclarator?_eq_some.mp ht
    show ((m.startLine c : Nat) : Int) ≤ (m.startLine d : Nat)
    exact_mod_cast m.lineAt_mono hcd
  · exact List.Pairwise.nil

theorem ofVisit_ordered (hf : f.node.All Node.InOrder) :
    (ofVisit m file f).Pairwise InLineOrder := by
  unfold ofVisit
  split
  · unfold ofFunction
    split
    · exact List.pairwise_singleton _ _
    · exact List.Pairwise.nil
  · split
    · unfold ofFunctionValue
      split
      · exact List.pairwise_singleton _ _
      · exact List.Pairwise.nil
    · split
      · exact ofClass_ordered hf
      · split
        · exact ofVariables_ordered hf
        · split
          · unfold ofType
            split
            · exact List.pairwise_singleton _ _
            · exact List.Pairwise.nil
          · exact List.Pairwise.nil

/-! ## The symbols of a module -/

/-- The first symbol was made ahead, at a visit around the one that made the second. -/
def MadeAhead (m : Module) (file : String) (s t : Symbol) : Prop :=
  ∃ f ∈ walk m.root, ∃ g, f.Contains g ∧ Makes m file f s ∧ Makes m file g t ∧
    s.kind.madeAhead = true

theorem MadeAhead.mem_symbols (h : MadeAhead m file s t) : s ∈ m.symbols file := by
  obtain ⟨f, hf, g, -, hs, -, -⟩ := h
  exact Symbols.mem_symbols.mpr ⟨f, hf, hs⟩

/-- What an earlier visit makes starts no later than what a later one makes, unless it is made
ahead around it. -/
theorem Makes.ordered (hf : f.node.All Node.InOrder) (hg : g.node.All Node.InOrder)
    (hbefore : f.Before g) (hs : Makes m file f s) (ht : Makes m file g t) :
    s.startLine ≤ t.startLine ∨ f.Contains g ∧ s.kind.madeAhead = true := by
  obtain ⟨a, hline, hencloses, hself⟩ := hs.exists_node hf
  obtain ⟨b, hline', hencloses', -⟩ := ht.exists_node hg
  have hfollows : a.start ≤ b.start → s.startLine ≤ t.startLine := by
    intro h
    rw [hline, hline']
    exact_mod_cast m.lineAt_mono h
  rcases hbefore with hcontains | hends
  · cases hahead : s.kind.madeAhead with
    | true => exact Or.inr ⟨hcontains, rfl⟩
    | false =>
      obtain rfl := hself hahead
      have hinside := Focus.encloses_of_reaches hf hcontains.reaches
      exact Or.inl (hfollows (hinside.trans hencloses').1.1)
  · have hstop : a.start ≤ f.node.stop := hencloses.1.2
    have hstart : g.node.start ≤ b.start := hencloses'.1.1
    exact Or.inl (hfollows (by omega))

/-- Symbols with one id come in the order of their lines, but for those made ahead. -/
theorem symbols_ordered (hm : m.root.All Node.InOrder) :
    (m.symbols file).Pairwise (fun s t => InLineOrder s t ∨ MadeAhead m file s t) := by
  rw [Module.symbols, List.pairwise_flatMap]
  constructor
  · intro f hf
    exact (ofVisit_ordered (hm.of_mem_walk hf)).imp Or.inl
  · refine (walk_before hm).imp_of_mem ?_
    intro f g hf hg hbefore s hs t ht
    rw [mem_ofVisit] at hs ht
    rcases hs.ordered (hm.of_mem_walk hf) (hm.of_mem_walk hg) hbefore ht with hle | ⟨hin, hahead⟩
    · exact Or.inl (fun _ => hle)
    · exact Or.inr ⟨f, hf, g, hin, hs, ht, hahead⟩

end Symbols

/-! ## The symbol that is kept -/

namespace Link

variable {resolvers : List Resolver}

/-- If no later file brings the id, the symbol kept is the last one of its file with that id. -/
theorem exists_split_of_kept {front back : List FileSymbols} {f : FileSymbols} {k : Symbol}
    (hk : k ∈ (linkSymbols resolvers (front ++ f :: back)).1)
    (hbrought : k.id ∈ f.symbols.map (·.id))
    (hlater : ∀ g ∈ back, ∀ t ∈ g.symbols, t.id ≠ k.id) :
    ∃ before after, f.symbols = before ++ k :: after ∧ ∀ t ∈ after, t.id ≠ k.id := by
  -- the last one of the file is found by linking the file alone
  have halone : k.id ∈ (linkSymbols resolvers [f]).1.map (·.id) := by
    obtain ⟨s, hs, hid⟩ := List.mem_map.mp hbrought
    rw [map_id_linkSymbols]
    exact (SymbolIndex.mem_ids_ofFiles _ _).mpr ⟨f, List.mem_singleton_self f, s, hs, hid⟩
  obtain ⟨k', hk', hid⟩ := List.mem_map.mp halone
  obtain ⟨before, after, hsplit, hafter⟩ := mem_symbols_linkSymbols.mp hk'
  have hsymbols : f.symbols = before ++ k' :: after := by simpa using hsplit
  have hlinked : k' ∈ (linkSymbols resolvers (front ++ f :: back)).1 := by
    refine mem_symbols_linkSymbols.mpr
      ⟨front.flatMap (·.symbols) ++ before, after ++ back.flatMap (·.symbols), ?_, ?_⟩
    · simp [hsymbols]
    · intro t ht
      rcases List.mem_append.mp ht with hmem | hmem
      · exact hafter t hmem
      · obtain ⟨g, hg, htg⟩ := List.mem_flatMap.mp hmem
        rw [hid]
        exact hlater g hg t htg
  have hnodup : ((linkSymbols resolvers (front ++ f :: back)).1.map (·.id)).Nodup := by
    rw [map_id_linkSymbols]
    exact SymbolIndex.nodup_ids_ofFiles _
  obtain rfl := List.inj_on_of_nodup_map hnodup hlinked hk hid
  exact ⟨before, after, hsymbols, hafter⟩

/-- **When the declaration kept is the last one.** Of the symbols that a module makes with one id,
the one kept starts on the last line if and only if none of those made ahead around it starts on a
later line. -/
theorem kept_last_iff {m : Module} (hm : m.root.All Node.InOrder) {f : FileSymbols}
    (hf : f.symbols = m.symbols f.file) {front back : List FileSymbols} {k : Symbol}
    (hk : k ∈ (linkSymbols resolvers (front ++ f :: back)).1)
    (hbrought : k.id ∈ f.symbols.map (·.id))
    (hlater : ∀ g ∈ back, ∀ t ∈ g.symbols, t.id ≠ k.id) :
    (∀ s ∈ f.symbols, s.id = k.id → s.startLine ≤ k.startLine) ↔
      ∀ s, Symbols.MadeAhead m f.file s k → s.id = k.id → s.startLine ≤ k.startLine := by
  constructor
  · intro h s hahead hid
    refine h s ?_ hid
    rw [hf]
    exact hahead.mem_symbols
  · intro h s hs hid
    obtain ⟨before, after, hsplit, hafter⟩ := exists_split_of_kept hk hbrought hlater
    have hordered : f.symbols.Pairwise (fun s t =>
        Symbols.InLineOrder s t ∨ Symbols.MadeAhead m f.file s t) := by
      rw [hf]
      exact Symbols.symbols_ordered hm
    rw [hsplit] at hordered
    rw [hsplit] at hs
    rcases List.mem_append.mp hs with hbefore | hrest
    · have hpair := (List.pairwise_append.mp hordered).2.2 s hbefore k List.mem_cons_self
      rcases hpair with hline | hahead
      · exact hline hid
      · exact h s hahead hid
    · rcases List.mem_cons.mp hrest with rfl | hmem
      · exact le_refl _
      · exact absurd hid (hafter s hmem)

end Link

/-- The source `var ab = function () {},` and in its second line `ab = 1;`. -/
def Module.twiceDeclared : Module where
  path := "a.js"
  text := "var ab = function () \x7b\x7d,\n    ab = 1;\n"
  language := .javascript
  source := [118, 97, 114, 32, 97, 98, 32, 61, 32, 102, 117, 110, 99, 116, 105, 111, 110, 32, 40,
    41, 32, 123, 125, 44, 10, 32, 32, 32, 32, 97, 98, 32, 61, 32, 49, 59, 10]
  root := ⟨"program", true, none, 0, 37,
    [⟨"variable_declaration", true, none, 0, 36,
      [⟨"var", false, none, 0, 3, []⟩,
       ⟨"variable_declarator", true, none, 4, 23,
        [⟨"identifier", true, some "name", 4, 6, []⟩,
         ⟨"=", false, none, 7, 8, []⟩,
         ⟨"function_expression", true, some "value", 9, 23,
          [⟨"function", false, none, 9, 17, []⟩,
           ⟨"formal_parameters", true, some "parameters", 18, 20, []⟩,
           ⟨"statement_block", true, some "body", 21, 23, []⟩]⟩]⟩,
       ⟨",", false, none, 23, 24, []⟩,
       ⟨"variable_declarator", true, none, 29, 35,
        [⟨"identifier", true, some "name", 29, 31, []⟩,
         ⟨"=", false, none, 32, 33, []⟩,
         ⟨"number", true, some "value", 34, 35, []⟩]⟩,
       ⟨";", false, none, 35, 36, []⟩]⟩]⟩

theorem Module.twiceDeclared_inOrder : twiceDeclared.root.All Node.InOrder := by
  show Node.All _ (Node.mk _ _ _ _ _ _)
  simp [Node.all_mk, Node.inOrder_iff, Node.Encloses]

/-- The function of the first line replaces the variable of the second line. -/
theorem Link.variable_replaced_by_earlier :
    let symbols := Module.twiceDeclared.symbols "a.js"
    Module.twiceDeclared.root.All Node.InOrder ∧
    ∃ k ∈ (linkSymbols Resolver.standard [⟨"a.js", symbols, [], []⟩]).1, k.kind = .function ∧
      ∃ s ∈ symbols, s.kind = .variableDef ∧ s.id = k.id ∧ k.startLine < s.startLine :=
  ⟨Module.twiceDeclared_inOrder, by decide +kernel⟩

/-- It does so because that variable was made ahead, where the declaration was visited. -/
theorem Link.variable_made_ahead_of_function :
    let f : FileSymbols := ⟨"a.js", Module.twiceDeclared.symbols "a.js", [], []⟩
    Module.twiceDeclared.root.All Node.InOrder ∧
    ∃ k ∈ (linkSymbols Resolver.standard [f]).1, k.kind = .function ∧
      ∃ s, Symbols.MadeAhead Module.twiceDeclared f.file s k ∧ s.id = k.id ∧
        k.startLine < s.startLine := by
  intro f
  obtain ⟨k, hk, hkind, hbrought, hlast⟩ : ∃ k ∈ (linkSymbols Resolver.standard [f]).1,
      k.kind = .function ∧ k.id ∈ f.symbols.map (·.id) ∧
        ¬ ∀ s ∈ f.symbols, s.id = k.id → s.startLine ≤ k.startLine := by decide +kernel
  refine ⟨Module.twiceDeclared_inOrder, k, hk, hkind, ?_⟩
  have hlinked : k ∈ (linkSymbols Resolver.standard ([] ++ f :: [])).1 := hk
  rw [kept_last_iff Module.twiceDeclared_inOrder rfl hlinked hbrought (by simp)] at hlast
  push Not at hlast
  exact hlast

end CodeGraph
