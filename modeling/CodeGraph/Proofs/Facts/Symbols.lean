import CodeGraph.Facts.Symbols
import CodeGraph.Proofs.Syntax.Walk

/-!
# What a visit makes

Symbols are made visit by visit. `Symbols.Makes` has one rule for each way in which a visit makes a
symbol, and `Symbols.mem_ofVisit` says that these are all the ways. Whatever is true of every
symbol is proved by going through the rules.
-/

namespace CodeGraph

/-- A function value goes by the name of the declarator right above it. -/
theorem Module.assignedName?_eq_some {m : Module} {f : Focus} {name : String}
    (h : m.assignedName? f = some name) :
    ∃ s rest, f.above = s :: rest ∧ s.parent.kind = "variable_declarator" ∧
      m.plainName? s.parent = some name := by
  unfold assignedName? Focus.parent? at h
  cases habove : f.above with
  | nil => simp [habove] at h
  | cons s rest =>
    simp only [habove] at h
    split at h
    · rename_i hvalue
      have hkind : s.parent.kind = "variable_declarator" := by
        simpa [Focus.kind] using (Bool.and_eq_true_iff.mp hvalue).1
      exact ⟨s, rest, rfl, hkind, (Option.filter_eq_some_iff.mp h).1⟩
    · exact absurd h (by simp)

theorem Exports.mem_declarators {n d : Node} :
    d ∈ declarators n ↔ d ∈ n.children ∧ d.named ∧ d.kind = "variable_declarator" := by
  simp only [declarators, Node.namedChildren, List.mem_filter, beq_iff_eq, and_assoc]

namespace Symbols

/-- The methods of a class are the members of its body that go by plain names. -/
theorem mem_methodsOf {m : Module} {c n : Node} {name : String} :
    (name, n) ∈ methodsOf m c ↔ ∃ body, c.field? "body" = some body ∧ n ∈ body.children ∧ n.named ∧
      n.kind = "method_definition" ∧ m.methodName? n = some name := by
  unfold methodsOf
  cases c.field? "body" with
  | none => simp
  | some body =>
    simp only [List.mem_filterMap, List.mem_filter, Node.namedChildren, Option.map_eq_some_iff,
      Prod.mk.injEq, beq_iff_eq, Option.some.injEq, exists_eq_left']
    constructor
    · rintro ⟨member, ⟨⟨hmember, hnamed⟩, hkind⟩, method, hmethod, rfl, rfl⟩
      exact ⟨hmember, hnamed, hkind, hmethod⟩
    · rintro ⟨hmember, hnamed, hkind, hmethod⟩
      exact ⟨n, ⟨⟨hmember, hnamed⟩, hkind⟩, name, hmethod, rfl, rfl⟩

/-- The visit makes the symbol. -/
inductive Makes (m : Module) (file : String) (f : Focus) : Symbol → Prop
  | function {name : String} (kind : f.kind ∈ functionDeclarations)
      (named : m.properName? f.node = some name) :
      Makes m file f
        { spanning m file name .function f.node with
          params := some (m.parameterNames (f.node.field? "parameters"))
          exported := some (isExported f) }
  | functionValue {name : String} (kind : f.kind ∈ functionValues)
      (named : m.assignedName? f = some name) :
      Makes m file f
        { spanning m file name .function f.node with
          params := some (m.parameterNames
            ((f.node.field? "parameters").or (f.node.field? "parameter")))
          exported := some ((f.parent?.bind (·.parent?)).any isExported) }
  | method {className name : String} {n : Node} (kind : f.kind ∈ classDeclarations)
      (named : m.properName? f.node = some className) (member : (name, n) ∈ methodsOf m f.node) :
      Makes m file f
        { spanning m file (Module.qualifiedName className name) .method n with
          params := some (m.parameterNames (n.field? "parameters"))
          parent := some (symbolId file className) }
  | classDef {name : String} (kind : f.kind ∈ classDeclarations)
      (named : m.properName? f.node = some name) :
      Makes m file f
        { spanning m file name .classDef f.node with
          methods := some ((methodsOf m f.node).map (·.1))
          superClass := m.superClass? f.node
          exported := some (isExported f) }
  | variableDef {name : String} {d : Node} (kind : Exports.declaresVariables f.node = true)
      (top : f.parentKind? = some "program" ∨ f.parentKind? = some "export_statement")
      (declared : d ∈ Exports.declarators f.node) (named : m.plainName? d = some name)
      (long : shortestVariable ≤ name.length) (own : hasOwnEntry m (d.field? "value") = false) :
      Makes m file f
        { spanning m file name .variableDef d with exported := some (isExported f) }
  | type {name : String} {k : SymbolKind} (kind : typeKind? f.kind = some k)
      (named : m.properName? f.node = some name) :
      Makes m file f { spanning m file name k f.node with exported := some (isExported f) }

variable {m : Module} {file : String} {f : Focus} {s : Symbol}

/-! ## One way after the other -/

theorem mem_ofFunction (kind : f.kind ∈ functionDeclarations) (h : s ∈ ofFunction m file f) :
    Makes m file f s := by
  unfold ofFunction at h
  split at h
  · rename_i name named
    obtain rfl := List.mem_singleton.mp h
    exact .function kind named
  · exact absurd h List.not_mem_nil

theorem mem_ofFunctionValue (kind : f.kind ∈ functionValues)
    (h : s ∈ ofFunctionValue m file f) : Makes m file f s := by
  unfold ofFunctionValue at h
  split at h
  · rename_i name named
    obtain rfl := List.mem_singleton.mp h
    exact .functionValue kind named
  · exact absurd h List.not_mem_nil

theorem mem_ofClass (kind : f.kind ∈ classDeclarations) (h : s ∈ ofClass m file f) :
    Makes m file f s := by
  unfold ofClass at h
  split at h
  · rename_i className named
    rcases List.mem_append.mp h with hmethod | hself
    · obtain ⟨⟨name, n⟩, member, rfl⟩ := List.mem_map.mp hmethod
      exact .method kind named member
    · obtain rfl := List.mem_singleton.mp hself
      exact .classDef kind named
  · exact absurd h List.not_mem_nil

theorem ofDeclarator?_eq_some {d : Node} :
    ofDeclarator? m file f d = some s ↔ ∃ name, m.plainName? d = some name ∧
      shortestVariable ≤ name.length ∧ hasOwnEntry m (d.field? "value") = false ∧
      { spanning m file name .variableDef d with exported := some (isExported f) } = s := by
  unfold ofDeclarator?
  cases m.plainName? d with
  | none => simp
  | some name =>
    simp only [Option.some.injEq, exists_eq_left', Option.ite_none_left_eq_some, Bool.or_eq_true,
      decide_eq_true_eq, not_or, Nat.not_lt, Bool.not_eq_true, and_assoc]

theorem mem_ofVariables (kind : Exports.declaresVariables f.node = true)
    (h : s ∈ ofVariables m file f) : Makes m file f s := by
  unfold ofVariables at h
  split at h
  · rename_i htop
    obtain ⟨d, declared, hd⟩ := List.mem_filterMap.mp h
    obtain ⟨name, named, hlong, hown, rfl⟩ := ofDeclarator?_eq_some.mp hd
    exact .variableDef kind (by simpa using htop) declared named hlong hown
  · exact absurd h List.not_mem_nil

theorem mem_ofType {k : SymbolKind} (kind : typeKind? f.kind = some k)
    (h : s ∈ ofType m file k f) : Makes m file f s := by
  unfold ofType at h
  split at h
  · rename_i name named
    obtain rfl := List.mem_singleton.mp h
    exact .type kind named
  · exact absurd h List.not_mem_nil

/-- What a visit makes, it makes by one of the rules. -/
theorem makes_of_mem_ofVisit (h : s ∈ ofVisit m file f) : Makes m file f s := by
  unfold ofVisit at h
  split at h
  · rename_i hkind
    exact mem_ofFunction (by simpa using hkind) h
  · split at h
    · rename_i hkind
      exact mem_ofFunctionValue (by simpa using hkind) h
    · split at h
      · rename_i hkind
        exact mem_ofClass (by simpa using hkind) h
      · split at h
        · rename_i hkind
          exact mem_ofVariables hkind h
        · split at h
          · rename_i k hkind
            exact mem_ofType hkind h
          · exact absurd h List.not_mem_nil

/-! ## The kinds do not overlap -/

theorem ofVisit_function (kind : f.kind ∈ functionDeclarations) :
    ofVisit m file f = ofFunction m file f := by
  rw [ofVisit, if_pos (by simpa using kind)]

theorem ofVisit_functionValue (kind : f.kind ∈ functionValues) :
    ofVisit m file f = ofFunctionValue m file f := by
  have hother : functionDeclarations.contains f.kind = false := by
    simp only [functionValues, List.mem_cons, List.not_mem_nil, or_false] at kind
    rcases kind with h | h | h | h <;> rw [h] <;> decide
  rw [ofVisit, hother, if_neg Bool.false_ne_true, if_pos (by simpa using kind)]

theorem ofVisit_class (kind : f.kind ∈ classDeclarations) :
    ofVisit m file f = ofClass m file f := by
  have hother : functionDeclarations.contains f.kind = false ∧
      functionValues.contains f.kind = false := by
    simp only [classDeclarations, List.mem_cons, List.not_mem_nil, or_false] at kind
    rcases kind with h | h <;> rw [h] <;> decide
  obtain ⟨hfunction, hvalue⟩ := hother
  rw [ofVisit, hfunction, hvalue, if_neg Bool.false_ne_true, if_neg Bool.false_ne_true,
    if_pos (by simpa using kind)]

theorem ofVisit_variables (kind : Exports.declaresVariables f.node = true) :
    ofVisit m file f = ofVariables m file f := by
  have hother : functionDeclarations.contains f.kind = false ∧
      functionValues.contains f.kind = false ∧ classDeclarations.contains f.kind = false := by
    have hkind : f.kind = "lexical_declaration" ∨ f.kind = "variable_declaration" := by
      simpa [Exports.declaresVariables, Focus.kind] using kind
    rcases hkind with h | h <;> rw [h] <;> decide
  obtain ⟨hfunction, hvalue, hclass⟩ := hother
  rw [ofVisit, hfunction, hvalue, hclass, kind]
  rfl

theorem typeKind?_mem {kind : String} {k : SymbolKind} (h : typeKind? kind = some k) :
    (kind, k) ∈ [("type_alias_declaration", SymbolKind.type),
      ("interface_declaration", .interface), ("enum_declaration", .enum)] := by
  obtain ⟨before, after, hsplit, -⟩ := List.lookup_eq_some_iff.mp h
  rw [hsplit]
  exact List.mem_append_right _ List.mem_cons_self

theorem typeKind?_eq_some {kind : String} {k : SymbolKind} (h : typeKind? kind = some k) :
    kind ∈ ["type_alias_declaration", "interface_declaration", "enum_declaration"] :=
  List.mem_map_of_mem (f := Prod.fst) (typeKind?_mem h)

theorem ofVisit_type {k : SymbolKind} (kind : typeKind? f.kind = some k) :
    ofVisit m file f = ofType m file k f := by
  have hother : functionDeclarations.contains f.kind = false ∧
      functionValues.contains f.kind = false ∧ classDeclarations.contains f.kind = false ∧
      Exports.declaresVariables f.node = false := by
    have hkind := typeKind?_eq_some kind
    simp only [List.mem_cons, List.not_mem_nil, or_false] at hkind
    rw [Exports.declaresVariables]
    show _ ∧ _ ∧ _ ∧ (f.kind == _ || f.kind == _) = false
    rcases hkind with h | h | h <;> rw [h] <;> decide
  obtain ⟨hfunction, hvalue, hclass, hvariables⟩ := hother
  rw [ofVisit, hfunction, hvalue, hclass, hvariables, kind]
  rfl

/-- The rules are all there is to a visit. -/
theorem mem_ofVisit : s ∈ ofVisit m file f ↔ Makes m file f s := by
  refine ⟨makes_of_mem_ofVisit, fun h => ?_⟩
  cases h with
  | function kind named =>
    rw [ofVisit_function kind]
    simp [ofFunction, named]
  | functionValue kind named =>
    rw [ofVisit_functionValue kind]
    simp [ofFunctionValue, named]
  | method kind named member =>
    rw [ofVisit_class kind, ofClass, named]
    exact List.mem_append_left _ (List.mem_map_of_mem member)
  | classDef kind named =>
    rw [ofVisit_class kind, ofClass, named]
    exact List.mem_append_right _ (List.mem_singleton_self _)
  | variableDef kind top declared named long own =>
    rw [ofVisit_variables kind, ofVariables, if_pos (by simpa using top)]
    exact List.mem_filterMap.mpr
      ⟨_, declared, ofDeclarator?_eq_some.mpr ⟨_, named, long, own, rfl⟩⟩
  | type kind named =>
    rw [ofVisit_type kind]
    simp [ofType, named]

theorem mem_symbols : s ∈ m.symbols file ↔ ∃ f ∈ walk m.root, Makes m file f s := by
  rw [Module.symbols, List.mem_flatMap]
  simp only [mem_ofVisit]

/-- A symbol carries its file, and the id made from the file and its name. -/
theorem Makes.proper (h : Makes m file f s) : s.file = file ∧ s.id = symbolId file s.name := by
  cases h <;> exact ⟨rfl, rfl⟩

end Symbols

end CodeGraph
