import CodeGraph.Facts.Declarations
import CodeGraph.Proofs.Facts.Callers

/-!
# Declarations are symbols

Declarations are listed by a loop over the statements at the top, symbols by a walk through the
whole tree, and each leaves out names by rules of its own: patterns, names that are too short,
required modules, functions that a variable is given. `Declares` has one rule for each way in which
a node at the top makes a declaration, and `mem_declarations` says that these are all the ways. Rule
by rule a declaration comes to a symbol (`Declares.exists_symbol`): that of the node itself, or, if
a variable is given a function, that of the function (`bearer`).
-/

namespace CodeGraph

/-- The child under a field stands at the position of the field. -/
theorem Node.fieldIndex?_of_field? {n c : Node} {name : String} (h : n.field? name = some c) :
    ∃ i, n.fieldIndex? name = some i ∧ n.children[i]? = some c := by
  obtain ⟨hfield, i, hi, hc, hbefore⟩ := List.find?_eq_some_iff_getElem.mp h
  refine ⟨i, List.findIdx?_eq_some_iff_getElem.mpr ⟨hi, ?_, ?_⟩, ?_⟩
  · rw [hc]
    exact hfield
  · intro j hj
    simpa using hbefore j hj
  · rw [← hc]
    exact List.getElem?_eq_getElem hi

theorem Module.properName?_of_ne {m : Module} {n : Node} {name : String}
    (h : m.declaredName? n = some name) (hne : name ≠ "") : m.properName? n = some name := by
  rw [Module.properName?, h]
  simp [hne]

/-- A function visited as the value of a declarator goes by the declarator's name. -/
theorem Module.assignedName?_of_value {m : Module} {n v : Node} {above : List Step} {i : Nat}
    {name : String} (hkind : n.kind = "variable_declarator")
    (hvalue : n.fieldIndex? "value" = some i) (hname : m.plainName? n = some name)
    (hne : name ≠ "") : m.assignedName? ⟨v, ⟨n, i⟩ :: above⟩ = some name := by
  have hfield : (⟨v, ⟨n, i⟩ :: above⟩ : Focus).isField "value" = true := by
    simp [Focus.isField, Step.entersField, hvalue]
  simp [Module.assignedName?, Focus.parent?, Focus.kind, hkind, hfield, hname, hne]

namespace Declarations

/-- A node at the top makes the declaration. -/
inductive Declares (m : Module) : Node → Declaration → Prop
  | function {n : Node} {name : String} (top : n ∈ m.root.namedChildren)
      (kind : n.kind ∈ functionDeclarations) (named : m.declaredName? n = some name)
      (long : shortest ≤ name.length) : Declares m n ⟨name, .function⟩
  | classDef {n : Node} {name : String} (top : n ∈ m.root.namedChildren)
      (kind : n.kind = "class_declaration") (named : m.declaredName? n = some name)
      (long : shortest ≤ name.length) : Declares m n ⟨name, .classDef⟩
  | variableDef {statement n : Node} {name : String} (top : statement ∈ m.root.namedChildren)
      (kind : Exports.declaresVariables statement = true)
      (declared : n ∈ Exports.declarators statement) (named : m.plainName? n = some name)
      (loads : (n.field? "value").any m.isRequire = false) (long : shortest ≤ name.length) :
      Declares m n ⟨name, .variableDef⟩

variable {m : Module} {n statement : Node} {d : Declaration}

/-! ## What a statement declares -/

theorem mem_named {name : String} {kind : DeclarationKind} :
    d ∈ named name kind ↔ shortest ≤ name.length ∧ d = ⟨name, kind⟩ := by
  unfold named
  split
  · rename_i hlong
    simp [hlong]
  · rename_i hshort
    simp [hshort]

theorem mem_named_of_declaredName? {kind : DeclarationKind} :
    d ∈ (m.declaredName? n).toList.flatMap (named · kind) ↔
      ∃ name, m.declaredName? n = some name ∧ shortest ≤ name.length ∧ d = ⟨name, kind⟩ := by
  simp only [List.mem_flatMap, Option.mem_toList, mem_named]

theorem mem_ofDeclarator :
    d ∈ ofDeclarator m n ↔ ∃ name, m.plainName? n = some name ∧
      (n.field? "value").any m.isRequire = false ∧ shortest ≤ name.length ∧
      d = ⟨name, .variableDef⟩ := by
  unfold ofDeclarator
  cases m.plainName? n with
  | none => simp
  | some name =>
    cases hloads : (n.field? "value").any m.isRequire with
    | true => simp
    | false => simp [mem_named]

theorem ofStatement_function (kind : statement.kind ∈ functionDeclarations) :
    ofStatement m statement =
      (m.declaredName? statement).toList.flatMap (named · .function) := by
  have hkind : statement.kind = "function_declaration" ∨
      statement.kind = "generator_function_declaration" := by
    simpa [functionDeclarations] using kind
  rw [ofStatement, if_pos (by simpa using hkind)]

theorem ofStatement_class (kind : statement.kind = "class_declaration") :
    ofStatement m statement =
      (m.declaredName? statement).toList.flatMap (named · .classDef) := by
  rw [ofStatement, kind]
  rfl

theorem ofStatement_variables (kind : Exports.declaresVariables statement = true) :
    ofStatement m statement = (Exports.declarators statement).flatMap (ofDeclarator m) := by
  have hkind : statement.kind = "lexical_declaration" ∨
      statement.kind = "variable_declaration" := by
    simpa [Exports.declaresVariables] using kind
  rw [ofStatement, kind]
  rcases hkind with h | h <;> rw [h] <;> rfl

theorem declares_of_mem_ofStatement (top : statement ∈ m.root.namedChildren)
    (h : d ∈ ofStatement m statement) : ∃ n, Declares m n d := by
  unfold ofStatement at h
  split at h
  · rename_i hkind
    obtain ⟨name, named, long, rfl⟩ := mem_named_of_declaredName?.mp h
    exact ⟨statement, .function top (by simpa [functionDeclarations] using hkind) named long⟩
  · split at h
    · rename_i hkind
      obtain ⟨name, named, long, rfl⟩ := mem_named_of_declaredName?.mp h
      exact ⟨statement, .classDef top (by simpa using hkind) named long⟩
    · split at h
      · rename_i hkind
        obtain ⟨n, declared, hn⟩ := List.mem_flatMap.mp h
        obtain ⟨name, named, loads, long, rfl⟩ := mem_ofDeclarator.mp hn
        exact ⟨n, .variableDef top hkind declared named loads long⟩
      · exact absurd h List.not_mem_nil

/-- The rules are all there is to declarations. -/
theorem mem_declarations : d ∈ m.declarations ↔ ∃ n, Declares m n d := by
  rw [Module.declarations, List.mem_flatMap]
  constructor
  · rintro ⟨statement, top, h⟩
    exact declares_of_mem_ofStatement top h
  · rintro ⟨n, h⟩
    cases h with
    | function top kind named long =>
      refine ⟨n, top, ?_⟩
      rw [ofStatement_function kind]
      exact mem_named_of_declaredName?.mpr ⟨_, named, long, rfl⟩
    | classDef top kind named long =>
      refine ⟨n, top, ?_⟩
      rw [ofStatement_class kind]
      exact mem_named_of_declaredName?.mpr ⟨_, named, long, rfl⟩
    | @variableDef statement _ name top kind declared named loads long =>
      refine ⟨statement, top, ?_⟩
      rw [ofStatement_variables kind]
      exact List.mem_flatMap.mpr ⟨n, declared, mem_ofDeclarator.mpr ⟨name, named, loads, long, rfl⟩⟩

/-! ## Its symbol -/

/-- The node that bears the symbol of a declaration, and the kind of the symbol. If a variable is
given a function, it is the function. -/
def bearer (n : Node) : DeclarationKind → Node × SymbolKind
  | .function => (n, .function)
  | .classDef => (n, .classDef)
  | .variableDef =>
    match n.field? "value" with
    | some v => if functionValues.contains v.kind then (v, .function) else (n, .variableDef)
    | none => (n, .variableDef)

/-- The symbol has the name of a declaration, and the kind and the lines of what bears it. -/
def Bears (m : Module) (file : String) (n : Node) (d : Declaration) (s : Symbol) : Prop :=
  Symbols.Spans m file d.name (bearer n d.kind).1 s ∧ s.kind = (bearer n d.kind).2

/-- A statement at the top is visited. -/
theorem exists_visit_of_top (h : statement ∈ m.root.namedChildren) :
    ∃ i, (⟨statement, [⟨m.root, i⟩]⟩ : Focus) ∈ walk m.root := by
  obtain ⟨hchild, hnamed⟩ := List.mem_filter.mp h
  obtain ⟨i, hi⟩ := List.mem_iff_getElem?.mp hchild
  exact ⟨i, mem_walk_of_child (ofRoot_mem_walk m.root) hi hnamed⟩

theorem ne_empty_of_long {name : String} (h : shortest ≤ name.length) : name ≠ "" := by
  rintro rfl
  exact absurd h (by decide)

/-- A variable that is given a function comes to the symbol of the function. -/
theorem exists_symbol_of_functionValue (file : String) {f : Focus} {v : Node} {name : String}
    (hf : f ∈ walk m.root) (hkind : f.kind = "variable_declarator")
    (named : m.plainName? f.node = some name) (hne : name ≠ "")
    (hvalue : f.node.field? "value" = some v) (hv : v.named) (hfunction : v.kind ∈ functionValues) :
    ∃ s ∈ m.symbols file, Symbols.Spans m file name v s ∧ s.kind = .function := by
  obtain ⟨i, hindex, hchild⟩ := Node.fieldIndex?_of_field? hvalue
  have hvisit := mem_walk_of_child hf hchild hv
  have hmakes : Symbols.Makes m file ⟨v, ⟨f.node, i⟩ :: f.above⟩ _ :=
    .functionValue hfunction (Module.assignedName?_of_value hkind hindex named hne)
  exact ⟨_, Symbols.mem_symbols.mpr ⟨_, hvisit, hmakes⟩, ⟨rfl, rfl, rfl, rfl⟩, rfl⟩

theorem Declares.exists_symbol (hroot : m.root.kind = "program")
    (hvalues : m.root.All fun n => n.kind = "variable_declarator" →
      ∀ v, n.field? "value" = some v → v.named) (file : String) (h : Declares m n d) :
    ∃ s ∈ m.symbols file, Bears m file n d s := by
  cases h with
  | function top kind named long =>
    obtain ⟨i, hvisit⟩ := exists_visit_of_top top
    have hmakes : Symbols.Makes m file ⟨n, [⟨m.root, i⟩]⟩ _ :=
      .function kind (Module.properName?_of_ne named (ne_empty_of_long long))
    exact ⟨_, Symbols.mem_symbols.mpr ⟨_, hvisit, hmakes⟩, ⟨rfl, rfl, rfl, rfl⟩, rfl⟩
  | classDef top kind named long =>
    obtain ⟨i, hvisit⟩ := exists_visit_of_top top
    have hclass : n.kind ∈ classDeclarations := by simp [kind, classDeclarations]
    have hmakes : Symbols.Makes m file ⟨n, [⟨m.root, i⟩]⟩ _ :=
      .classDef hclass (Module.properName?_of_ne named (ne_empty_of_long long))
    exact ⟨_, Symbols.mem_symbols.mpr ⟨_, hvisit, hmakes⟩, ⟨rfl, rfl, rfl, rfl⟩, rfl⟩
  | @variableDef statement _ name top kind declared named loads long =>
    obtain ⟨i, hvisit⟩ := exists_visit_of_top top
    obtain ⟨hchild, hnamed, hdeclarator⟩ := Exports.mem_declarators.mp declared
    have hshort : Symbols.shortestVariable ≤ name.length := Nat.le_of_succ_le long
    -- unless the value is a function, the declarator itself makes the symbol
    have hself : Symbols.hasOwnEntry m (n.field? "value") = false → ∃ s ∈ m.symbols file,
        Symbols.Spans m file name n s ∧ s.kind = .variableDef := by
      intro hown
      have hmakes : Symbols.Makes m file ⟨statement, [⟨m.root, i⟩]⟩ _ :=
        .variableDef kind (.inl (by simp [Focus.parentKind?, hroot])) declared named hshort hown
      exact ⟨_, Symbols.mem_symbols.mpr ⟨_, hvisit, hmakes⟩, ⟨rfl, rfl, rfl, rfl⟩, rfl⟩
    cases hvalue : n.field? "value" with
    | none =>
      simp only [Bears, bearer, hvalue]
      exact hself (by rw [hvalue]; rfl)
    | some v =>
      have hloads : m.isRequire v = false := by simpa [hvalue] using loads
      by_cases hfunction : v.kind ∈ functionValues
      · obtain ⟨j, hj⟩ := List.mem_iff_getElem?.mp hchild
        have hdeclares := mem_walk_of_child hvisit hj hnamed
        have hv : v.named := (hvalues.of_mem_walk hdeclares).self hdeclarator v hvalue
        have hcontains : functionValues.contains v.kind = true := by simpa using hfunction
        simp only [Bears, bearer, hvalue, hcontains, if_true]
        exact exists_symbol_of_functionValue file hdeclares hdeclarator named
          (ne_empty_of_long long) hvalue hv hfunction
      · have hcontains : functionValues.contains v.kind = false := by simpa using hfunction
        simp only [Bears, bearer, hvalue, hcontains]
        refine hself ?_
        simp [Symbols.hasOwnEntry, hvalue, hloads, hfunction]

end Declarations

/-- **Every declaration is a symbol.** If the values of declarators are named nodes, every node that
makes a declaration at the top of a program has a symbol of the same name: a function for a
function, a class for a class, and for a variable a function if it is given one, and otherwise a
variable. -/
theorem Module.declarations_are_symbols {m : Module} (hroot : m.root.kind = "program")
    (hvalues : m.root.All fun n => n.kind = "variable_declarator" →
      ∀ v, n.field? "value" = some v → v.named) (file : String) :
    (∀ d, d ∈ m.declarations ↔ ∃ n, Declarations.Declares m n d) ∧
    ∀ n d, Declarations.Declares m n d → ∃ s ∈ m.symbols file, Declarations.Bears m file n d s :=
  ⟨fun _ => Declarations.mem_declarations, fun _ _ h => h.exists_symbol hroot hvalues file⟩

/-! ### Two variables, one of them a function -/

namespace TwoVariables

/-- The first declarator of `let six=x=>x,ten=1`. -/
def six : Node :=
  ⟨"variable_declarator", true, none, 4, 12,
    [⟨"identifier", true, some "name", 4, 7, []⟩, ⟨"=", false, none, 7, 8, []⟩,
     ⟨"arrow_function", true, some "value", 8, 12,
      [⟨"identifier", true, some "parameter", 8, 9, []⟩, ⟨"=>", false, none, 9, 11, []⟩,
       ⟨"identifier", true, some "body", 11, 12, []⟩]⟩]⟩

/-- The second declarator. -/
def ten : Node :=
  ⟨"variable_declarator", true, none, 13, 18,
    [⟨"identifier", true, some "name", 13, 16, []⟩, ⟨"=", false, none, 16, 17, []⟩,
     ⟨"number", true, some "value", 17, 18, []⟩]⟩

/-- The statement with both. -/
def statement : Node :=
  ⟨"lexical_declaration", true, none, 0, 18,
    [⟨"let", false, some "kind", 0, 3, []⟩, six, ⟨",", false, none, 12, 13, []⟩, ten]⟩

/-- The source. -/
def source : Module where
  path := "a.js"
  text := "let six=x=>x,ten=1"
  language := .javascript
  source := [108, 101, 116, 32, 115, 105, 120, 61, 120, 61, 62, 120, 44, 116, 101, 110, 61, 49]
  root := ⟨"program", true, none, 0, 18, [statement]⟩

/-- One of the two symbols is that of the function, the other that of the declarator. -/
theorem source_declarations_are_symbols :
    source.declarations = [⟨"six", .variableDef⟩, ⟨"ten", .variableDef⟩] ∧
    (∃ s ∈ source.symbols "a.js", s.name = "six" ∧ s.kind = .function) ∧
    ∃ s ∈ source.symbols "a.js", s.name = "ten" ∧ s.kind = .variableDef := by
  have hvalues : source.root.All fun n => n.kind = "variable_declarator" →
      ∀ v, n.field? "value" = some v → v.named := by
    simp [source, statement, six, ten, Node.all_mk, Node.field?]
  obtain ⟨-, hsymbols⟩ := Module.declarations_are_symbols rfl hvalues "a.js"
  have htop : statement ∈ source.root.namedChildren := by
    simp [source, Node.namedChildren, statement]
  have hsix : Declarations.Declares source six ⟨"six", .variableDef⟩ :=
    .variableDef htop rfl (Exports.mem_declarators.mpr (by simp [statement, six]))
      (by decide) (by decide) (by decide)
  have hten : Declarations.Declares source ten ⟨"ten", .variableDef⟩ :=
    .variableDef htop rfl (Exports.mem_declarators.mpr (by simp [statement, ten]))
      (by decide) (by decide) (by decide)
  obtain ⟨s, hs, ⟨hname, -⟩, hkind⟩ := hsymbols six _ hsix
  obtain ⟨t, ht, ⟨hname', -⟩, hkind'⟩ := hsymbols ten _ hten
  exact ⟨by decide, ⟨s, hs, hname, hkind⟩, t, ht, hname', hkind'⟩

end TwoVariables

end CodeGraph
