import CodeGraph.Proofs.Facts.Symbols
import CodeGraph.Proofs.SymbolGraph.Index
import CodeGraph.Proofs.Syntax.SourceOrder

/-!
# Callers are symbols

The caller of a call is looked for on the way up from the call, while symbols are made on the way
down: for a function where it stands, for a method where its class stands. Both come to the same
names. So every call belongs to a symbol of its file, and it lies within the lines of that symbol.

* `Symbols.exists_of_function`, `exists_of_functionValue`, `exists_of_method`: what is named makes
  a symbol.
* `Symbols.exists_of_callerAbove`: whoever is found on the way up is one of these.
-/

namespace CodeGraph

namespace Module

/-- The shape of a tree in which callers can be told: names are not empty, the body of a declared
class is the one found under its field, and nodes lie within the node above them. -/
structure WellShaped (m : Module) : Prop where
  names : m.root.All fun n =>
    ∀ c ∈ n.children, c.field = some "name" → m.textOf c ≠ ""
  bodies : m.root.All fun n =>
    n.kind ∈ classDeclarations → ∀ c ∈ n.children, c.kind = "class_body" → n.field? "body" = some c
  ranges : m.root.All fun n => ∀ c ∈ n.children, n.Encloses c

theorem WellShaped.properName? {m : Module} (h : m.WellShaped) {f : Focus}
    (hf : f ∈ walk m.root) {name : String} (hname : m.declaredName? f.node = some name) :
    m.properName? f.node = some name := by
  obtain ⟨c, hc, htext⟩ := Option.map_eq_some_iff.mp hname
  have hfield : c.field = some "name" := by simpa using List.find?_some hc
  have hne : m.textOf c ≠ "" :=
    (h.names.of_mem_walk hf).self c (List.mem_of_find?_eq_some hc) hfield
  rw [htext] at hne
  rw [Module.properName?, hname]
  simp [hne]

theorem WellShaped.encloses {m : Module} (h : m.WellShaped) {n : Node} {s : Step}
    {rest : List Step} (hvisit : ⟨n, s :: rest⟩ ∈ walk m.root) : s.parent.Encloses n := by
  obtain ⟨hparent, hchild, -⟩ := mem_walk_of_above hvisit
  exact (h.ranges.of_mem_walk hparent).self n (List.mem_of_getElem? hchild)

end Module

/-! ## What makes a symbol -/

namespace Symbols

/-- The symbol has this name, and its lines are those of the node. -/
def Spans (m : Module) (file name : String) (n : Node) (s : Symbol) : Prop :=
  s.name = name ∧ s.file = file ∧ s.startLine = m.startLine n ∧ s.endLine = m.endLine n

theorem exists_of_function {m : Module} (file : String) {f : Focus} {name : String}
    (hf : f ∈ walk m.root) (hkind : functionDeclarations.contains f.kind = true)
    (hname : m.properName? f.node = some name) :
    ∃ s ∈ m.symbols file, Spans m file name f.node s := by
  have hmakes : Makes m file f _ := .function (by simpa using hkind) hname
  exact ⟨_, mem_symbols.mpr ⟨f, hf, hmakes⟩, rfl, rfl, rfl, rfl⟩

theorem exists_of_functionValue {m : Module} (file : String) {f : Focus} {name : String}
    (hf : f ∈ walk m.root) (hkind : functionValues.contains f.kind = true)
    (hname : m.assignedName? f = some name) :
    ∃ s ∈ m.symbols file, Spans m file name f.node s := by
  have hmakes : Makes m file f _ := .functionValue (by simpa using hkind) hname
  exact ⟨_, mem_symbols.mpr ⟨f, hf, hmakes⟩, rfl, rfl, rfl, rfl⟩

theorem exists_of_method {m : Module} (file : String) {f : Focus} {className method : String}
    {n : Node} (hf : f ∈ walk m.root) (hkind : f.kind ∈ classDeclarations)
    (hname : m.properName? f.node = some className) (hmethod : (method, n) ∈ methodsOf m f.node) :
    ∃ s ∈ m.symbols file, Spans m file (Module.qualifiedName className method) n s := by
  have hmakes : Makes m file f _ := .method hkind hname hmethod
  exact ⟨_, mem_symbols.mpr ⟨f, hf, hmakes⟩, rfl, rfl, rfl, rfl⟩

/-! ## Who is found on the way up -/

/-- A method found on the way up is a symbol of its class. -/
theorem exists_of_methodOwner {m : Module} (hm : m.WellShaped) (file : String) {n : Node}
    {body : Step} {rest : List Step} {caller : String}
    (hvisit : ⟨n, body :: rest⟩ ∈ walk m.root) (hkind : n.kind = "method_definition")
    (hbody : body.parent.kind = "class_body")
    (hcaller : m.methodOwner? n (body :: rest) = some caller) :
    ∃ s ∈ m.symbols file, Spans m file caller n s := by
  cases rest with
  | nil => simp [Module.methodOwner?] at hcaller
  | cons owner up =>
    obtain ⟨hbodyVisit, hmember, hnamed⟩ := mem_walk_of_above hvisit
    obtain ⟨hclassVisit, hbodyChild, -⟩ := mem_walk_of_above hbodyVisit
    simp only [Module.methodOwner?] at hcaller
    split at hcaller
    · rename_i method className hmethod hclass
      split at hcaller
      · rename_i hclassKind
        obtain rfl := Option.some.inj hcaller
        have hclassKind' : owner.parent.kind ∈ classDeclarations := by simpa using hclassKind
        have hfield : owner.parent.field? "body" = some body.parent :=
          (hm.bodies.of_mem_walk hclassVisit).self hclassKind' _
            (List.mem_of_getElem? hbodyChild) hbody
        have hlisted : (method, n) ∈ methodsOf m owner.parent := mem_methodsOf.mpr
          ⟨body.parent, hfield, List.mem_of_getElem? hmember, hnamed, hkind, hmethod⟩
        exact exists_of_method file hclassVisit hclassKind' hclass hlisted
      · exact absurd hcaller (by simp)
    · exact absurd hcaller (by simp)

/-- Whoever is found on the way up from a visit is a symbol that encloses it. -/
theorem exists_of_callerAbove {m : Module} (hm : m.WellShaped) (file : String)
    {steps : List Step} {n : Node} {caller : String} (hvisit : ⟨n, steps⟩ ∈ walk m.root)
    (hcaller : m.callerAbove? steps = some caller) :
    ∃ owner : Node, owner.Encloses n ∧ ∃ s ∈ m.symbols file, Spans m file caller owner s := by
  induction steps generalizing n with
  | nil => simp [Module.callerAbove?] at hcaller
  | cons step rest ih =>
    obtain ⟨hparent, -, -⟩ := mem_walk_of_above hvisit
    have hencloses := hm.encloses hvisit
    have hup : m.callerAbove? rest = some caller →
        ∃ owner : Node, owner.Encloses n ∧ ∃ s ∈ m.symbols file, Spans m file caller owner s := by
      intro h
      obtain ⟨owner, howner, hsymbol⟩ := ih hparent h
      exact ⟨owner, howner.trans hencloses, hsymbol⟩
    rw [Module.callerAbove?.eq_def] at hcaller
    simp only at hcaller
    split at hcaller
    · rename_i hkind
      exact ⟨step.parent, hencloses,
        exists_of_function file hparent hkind (hm.properName? hparent hcaller)⟩
    · split at hcaller
      · rename_i hkind
        split at hcaller
        · rename_i name hname
          obtain rfl := Option.some.inj hcaller
          exact ⟨step.parent, hencloses,
            exists_of_functionValue file hparent hkind hname⟩
        · exact hup hcaller
      · split at hcaller
        · rename_i hkind
          split at hcaller
          · rename_i body up
            split at hcaller
            · rename_i hbody
              exact ⟨step.parent, hencloses, exists_of_methodOwner hm file hparent
                (by simpa using hkind) (by simpa using hbody) hcaller⟩
            · exact hup hcaller
          · exact absurd hcaller (by simp)
        · exact hup hcaller

end Symbols

/-- What the visit of a call says about its place: who calls, on which line, on what condition. -/
theorem Calls.ofVisit_eq_some {m : Module} {limit : Int} {f : Focus} {c : CallFact}
    (h : Calls.ofVisit m limit f = some c) :
    m.callerOf? f = some c.caller ∧ c.line = m.startLine f.node ∧
      c.condition = m.conditionOf f limit := by
  unfold Calls.ofVisit at h
  split at h
  · exact absurd h (by simp)
  · split at h
    · split at h
      · exact absurd h (by simp)
      · obtain ⟨caller, hcaller, rfl⟩ := Option.map_eq_some_iff.mp h
        exact ⟨hcaller, rfl, rfl⟩
    · exact absurd h (by simp)

/-- A call is found at a visit, together with its caller. -/
theorem Calls.exists_visit {m : Module} {limit : Int} {c : CallFact} (hc : c ∈ m.calls limit) :
    ∃ f ∈ walk m.root, m.callerOf? f = some c.caller ∧ c.line = m.startLine f.node := by
  obtain ⟨f, hf, hcall⟩ := List.mem_filterMap.mp hc
  obtain ⟨hcaller, hline, -⟩ := Calls.ofVisit_eq_some hcall
  exact ⟨f, hf, hcaller, hline⟩

/-- **Every call belongs to a symbol.** The caller of a call is a symbol of the same file, and the
call lies within that symbol's lines. So a caller is never unknown to an index that has the file. -/
theorem Module.calls_belong_to_symbols {m : Module} (hm : m.WellShaped) (file : String)
    (limit : Int) {c : CallFact} (hc : c ∈ m.calls limit) :
    (∃ s ∈ m.symbols file, s.name = c.caller ∧ s.file = file ∧
      s.startLine ≤ c.line ∧ c.line ≤ s.endLine) ∧
    ∀ (files : List FileSymbols) (f : FileSymbols), f ∈ files → f.file = file →
      f.symbols = m.symbols file →
      ∃ id, (SymbolIndex.ofFiles files).lookup file c.caller = some id := by
  obtain ⟨f, hf, hcaller, hline⟩ := Calls.exists_visit hc
  have hvisit : (⟨f.node, f.above⟩ : Focus) ∈ walk m.root := hf
  obtain ⟨owner, hencloses, s, hs, hname, hfile, hstart, hend⟩ :=
    Symbols.exists_of_callerAbove hm file hvisit hcaller
  refine ⟨⟨s, hs, hname, hfile, ?_, ?_⟩, ?_⟩
  · rw [hstart, hline]
    exact_mod_cast m.lineAt_mono hencloses.1.1
  · rw [hend, hline]
    exact_mod_cast m.lineAt_mono hencloses.1.2
  · intro files g hg hgfile hgsymbols
    refine Option.isSome_iff_exists.mp ((SymbolIndex.lookup_isSome_iff files file _).mpr ?_)
    exact ⟨g, hg, hgfile, s, hgsymbols ▸ hs, hname⟩

/-- The source `class A{m(){f()}}`, in which a method calls a function. -/
def Module.methodCall : Module where
  path := "a.js"
  text := "class A{m(){f()}}"
  language := .javascript
  source := [99, 108, 97, 115, 115, 32, 65, 123, 109, 40, 41, 123, 102, 40, 41, 125, 125]
  root := ⟨"program", true, none, 0, 17,
    [⟨"class_declaration", true, none, 0, 17,
      [⟨"identifier", true, some "name", 6, 7, []⟩,
       ⟨"class_body", true, some "body", 7, 17,
        [⟨"method_definition", true, none, 8, 16,
          [⟨"property_identifier", true, some "name", 8, 9, []⟩,
           ⟨"formal_parameters", true, some "parameters", 9, 11, []⟩,
           ⟨"statement_block", true, some "body", 11, 16,
            [⟨"expression_statement", true, none, 12, 15,
              [⟨"call_expression", true, none, 12, 15,
                [⟨"identifier", true, some "function", 12, 13, []⟩,
                 ⟨"arguments", true, some "arguments", 13, 15, []⟩]⟩]⟩]⟩]⟩]⟩]⟩]⟩

theorem Module.methodCall_wellShaped : methodCall.WellShaped := by
  have hclass : methodCall.slice 6 7 ≠ "" := by decide
  have hmethod : methodCall.slice 8 9 ≠ "" := by decide
  refine ⟨?_, ?_, ?_⟩
  · show Node.All _ (Node.mk _ _ _ _ _ _)
    simp [Node.all_mk, Module.textOf, hclass, hmethod]
  · simp [methodCall, Node.all_mk, classDeclarations, Node.field?]
  · simp [methodCall, Node.all_mk, Node.Encloses]

theorem Module.methodCall_belongs_to_symbol :
    (∃ s ∈ methodCall.symbols "a.js", s.name = "A.m" ∧ s.file = "a.js" ∧
      s.startLine ≤ 1 ∧ 1 ≤ s.endLine) ∧
    ∀ (files : List FileSymbols) (f : FileSymbols), f ∈ files → f.file = "a.js" →
      f.symbols = methodCall.symbols "a.js" →
      ∃ id, (SymbolIndex.ofFiles files).lookup "a.js" "A.m" = some id :=
  have hcall : (⟨"A.m", "f", none, 1, none⟩ : CallFact) ∈ methodCall.calls 80 := by
    decide +kernel
  calls_belong_to_symbols methodCall_wellShaped "a.js" 80 hcall

end CodeGraph
