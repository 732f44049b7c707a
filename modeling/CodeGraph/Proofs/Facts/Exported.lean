import CodeGraph.Proofs.Facts.Symbols

/-!
# What is marked as exported is listed as an export

Symbols are marked as exported by looking up: the parent of a declaration, or what is two levels
above a function value, is an export statement. Exports are listed by looking down, from the
statement to its declaration field and to the declarators in it. The two readings agree wherever
declarations stand in export statements as they do in a parsed source (`Module.ExportShape`).
-/

namespace CodeGraph

namespace Exports

/-- The kinds of declarations, other than those of variables, that make symbols. -/
def namedKinds : List String :=
  ["function_declaration", "generator_function_declaration", "class_declaration",
   "abstract_class_declaration", "type_alias_declaration", "interface_declaration",
   "enum_declaration"]

/-- The kinds of declarations that make symbols. -/
def declaringKinds : List String :=
  namedKinds ++ ["lexical_declaration", "variable_declaration"]

/-- A named declaration is exported under its kind, and is none of the special cases. -/
theorem kindOf?_of_mem {kind : String} (h : kind ∈ namedKinds) :
    (kindOf? kind).isSome ∧ kind ≠ "ambient_declaration" ∧ kind ≠ "lexical_declaration" ∧
      kind ≠ "variable_declaration" ∧ kind ≠ "identifier" := by
  simp only [namedKinds, List.mem_cons, List.not_mem_nil, or_false] at h
  rcases h with rfl | rfl | rfl | rfl | rfl | rfl | rfl <;> decide

variable {m : Module} {n d : Node} {name : String}

/-! ## From a statement down -/

theorem exists_mem_ofDeclaration (hkind : d.kind ∈ namedKinds)
    (named : m.properName? d = some name) : ∃ e ∈ ofDeclaration m d, e.name = name := by
  obtain ⟨hsome, hambient, hlexical, hvariable, -⟩ := kindOf?_of_mem hkind
  obtain ⟨k, hk⟩ := Option.isSome_iff_exists.mp hsome
  refine ⟨⟨name, k⟩, ?_, rfl⟩
  cases d
  simp only at hk hambient hlexical hvariable
  simp [ofDeclaration, declaresVariables, hambient, hlexical, hvariable, hk, named]

theorem mem_ofDeclaration_of_declarator (hkind : declaresVariables d = true) {x : Node}
    (hx : x ∈ declarators d) (named : m.plainName? x = some name) :
    ⟨name, .variableDef⟩ ∈ ofDeclaration m d := by
  have hambient : d.kind ≠ "ambient_declaration" := by
    intro h
    rw [declaresVariables, h] at hkind
    exact absurd hkind (by decide)
  have heq : ofDeclaration m d = (declarators d).filterMap fun x =>
      (m.plainName? x).map (fun name => ⟨name, .variableDef⟩) := by
    cases d
    simp only at hambient
    simp [ofDeclaration, hambient, hkind]
  rw [heq]
  refine List.mem_filterMap.mpr ⟨x, hx, ?_⟩
  rw [named]
  rfl

theorem defaultName_eq (hkind : d.kind ≠ "identifier") (named : m.properName? d = some name) :
    defaultName m (some d) = name := by
  unfold Module.properName? at named
  split at named
  · rename_i text htext
    split at named
    · exact absurd named (by simp)
    · rename_i hne
      obtain rfl := Option.some.inj named
      simp [defaultName, hkind, htext, hne]
  · exact absurd named (by simp)

/-- A named declaration is listed, be it the default or not. -/
theorem exists_mem_ofStatement (hd : n.field? "declaration" = some d)
    (hkind : d.kind ∈ namedKinds) (named : m.properName? d = some name) :
    ∃ e ∈ ofStatement m n, e.name = name := by
  unfold ofStatement
  simp only [hd]
  split
  · have hidentifier := (kindOf?_of_mem hkind).2.2.2.2
    exact ⟨_, List.mem_singleton_self _, defaultName_eq hidentifier named⟩
  · obtain ⟨e, he, hname⟩ := exists_mem_ofDeclaration hkind named
    exact ⟨e, List.mem_append_left _ he, hname⟩

/-- A declared variable is listed, unless the statement exports a default. -/
theorem mem_ofStatement_of_declarator (hd : n.field? "declaration" = some d)
    (hdefault : n.hasToken "default" = false) (hkind : declaresVariables d = true) {x : Node}
    (hx : x ∈ declarators d) (named : m.plainName? x = some name) :
    ⟨name, .variableDef⟩ ∈ ofStatement m n := by
  unfold ofStatement
  simp only [hd, hdefault]
  exact List.mem_append_left _ (mem_ofDeclaration_of_declarator hkind hx named)

theorem mem_exports {f : Focus} (hf : f ∈ walk m.root) (hkind : f.kind = "export_statement")
    {e : Export} (he : e ∈ ofStatement m f.node) : e ∈ m.exports := by
  refine List.mem_flatMap.mpr ⟨f, hf, ?_⟩
  rw [ofNode, if_pos (by simpa [Focus.kind] using hkind)]
  exact he

end Exports

/-! ## From a declaration up -/

namespace Module

/-- Export statements as they are parsed: a declaration in one stands under its declaration field,
declarators stand in declarations of variables, and no such declaration is a default. -/
structure ExportShape (m : Module) : Prop where
  declarations : m.root.All fun n => n.kind = "export_statement" → ∀ c ∈ n.children, c.named →
    c.kind ∈ Exports.declaringKinds → n.field? "declaration" = some c
  declarators : m.root.All fun n => ∀ c ∈ n.children, c.kind = "variable_declarator" →
    Exports.declaresVariables n = true
  defaults : m.root.All fun n => n.kind = "export_statement" → n.hasToken "default" = true →
    ∀ d, n.field? "declaration" = some d → Exports.declaresVariables d = false

namespace ExportShape

variable {m : Module} {f : Focus} {name : String}

/-- What is marked as exported is the declaration of a visited statement. -/
theorem exists_statement (hm : m.ExportShape) (hf : f ∈ walk m.root)
    (hexported : Symbols.isExported f = true) (hkind : f.kind ∈ Exports.declaringKinds) :
    ∃ g ∈ walk m.root, g.kind = "export_statement" ∧ g.node.field? "declaration" = some f.node := by
  obtain ⟨n, above⟩ := f
  cases above with
  | nil => simp [Symbols.isExported, Focus.parentKind?] at hexported
  | cons step rest =>
    have hstatement : step.parent.kind = "export_statement" := by
      simpa [Symbols.isExported, Focus.parentKind?] using hexported
    obtain ⟨hparent, hchild, hnamed⟩ := mem_walk_of_above hf
    refine ⟨⟨step.parent, rest⟩, hparent, hstatement, ?_⟩
    exact (hm.declarations.of_mem_walk hparent).self hstatement n (List.mem_of_getElem? hchild)
      hnamed hkind

theorem exists_export_of_named (hm : m.ExportShape) (hf : f ∈ walk m.root)
    (hexported : Symbols.isExported f = true) (hkind : f.kind ∈ Exports.namedKinds)
    (named : m.properName? f.node = some name) : ∃ e ∈ m.exports, e.name = name := by
  obtain ⟨g, hg, hstatement, hd⟩ :=
    hm.exists_statement hf hexported (List.mem_append_left _ hkind)
  obtain ⟨e, he, hname⟩ := Exports.exists_mem_ofStatement hd hkind named
  exact ⟨e, Exports.mem_exports hg hstatement he, hname⟩

theorem exists_export_of_declarator (hm : m.ExportShape) (hf : f ∈ walk m.root)
    (hexported : Symbols.isExported f = true) (hkind : Exports.declaresVariables f.node = true)
    {x : Node} (hx : x ∈ Exports.declarators f.node) (named : m.plainName? x = some name) :
    ∃ e ∈ m.exports, e.name = name := by
  have hdeclaring : f.kind ∈ Exports.declaringKinds := by
    have hcases : f.kind = "lexical_declaration" ∨ f.kind = "variable_declaration" := by
      simpa [Exports.declaresVariables, Focus.kind] using hkind
    rcases hcases with h | h <;> rw [h] <;> decide
  obtain ⟨g, hg, hstatement, hd⟩ := hm.exists_statement hf hexported hdeclaring
  have hdefault : g.node.hasToken "default" = false := by
    by_contra h
    have hnot := (hm.defaults.of_mem_walk hg).self hstatement (by simpa using h) f.node hd
    rw [hkind] at hnot
    exact absurd hnot (by decide)
  exact ⟨_, Exports.mem_exports hg hstatement
    (Exports.mem_ofStatement_of_declarator hd hdefault hkind hx named), rfl⟩

/-- A function value two levels below a statement is a declarator's value there. -/
theorem exists_export_of_functionValue (hm : m.ExportShape) (hf : f ∈ walk m.root)
    (hexported : (f.parent?.bind (·.parent?)).any Symbols.isExported = true)
    (named : m.assignedName? f = some name) : ∃ e ∈ m.exports, e.name = name := by
  obtain ⟨n, above⟩ := f
  obtain ⟨declarator, rest, habove, hkind, hname⟩ := Module.assignedName?_eq_some named
  simp only at habove
  subst habove
  obtain ⟨hdeclarator, -, -⟩ := mem_walk_of_above hf
  cases rest with
  | nil => simp [Focus.parent?] at hexported
  | cons declaration up =>
    obtain ⟨hdeclaration, hchild, hnamed⟩ := mem_walk_of_above hdeclarator
    have hmember := List.mem_of_getElem? hchild
    have hvariables : Exports.declaresVariables declaration.parent = true :=
      (hm.declarators.of_mem_walk hdeclaration).self _ hmember hkind
    have hx : declarator.parent ∈ Exports.declarators declaration.parent :=
      Exports.mem_declarators.mpr ⟨hmember, hnamed, hkind⟩
    have hmarked : Symbols.isExported ⟨declaration.parent, up⟩ = true := by
      simpa [Focus.parent?] using hexported
    exact hm.exists_export_of_declarator hdeclaration hmarked hvariables hx hname

end ExportShape

/-- **Symbols marked as exported are exports.** Whatever kind of declaration a symbol comes from, if
it is marked as exported there is an export of its name. -/
theorem exported_symbols_listed {m : Module} (hm : m.ExportShape) (file : String) {s : Symbol}
    (hs : s ∈ m.symbols file) (hexported : s.exported = some true) :
    ∃ e ∈ m.exports, e.name = s.name := by
  obtain ⟨f, hf, hmakes⟩ := Symbols.mem_symbols.mp hs
  cases hmakes with
  | function kind named =>
    refine hm.exists_export_of_named hf (Option.some.inj hexported) ?_ named
    exact List.mem_append_left _ kind
  | functionValue kind named =>
    exact hm.exists_export_of_functionValue hf (Option.some.inj hexported) named
  | method kind named member => exact absurd hexported (by simp [Symbols.spanning])
  | classDef kind named =>
    refine hm.exists_export_of_named hf (Option.some.inj hexported) ?_ named
    exact List.mem_append_right functionDeclarations (List.mem_append_left _ kind)
  | variableDef kind top declared named long own =>
    exact hm.exists_export_of_declarator hf (Option.some.inj hexported) kind declared named
  | type kind named =>
    refine hm.exists_export_of_named hf (Option.some.inj hexported) ?_ named
    exact List.mem_append_right (functionDeclarations ++ classDeclarations)
      (Symbols.typeKind?_eq_some kind)

/-- The source `export const ab=()=>1;export default class A{}`. -/
def exporting : Module where
  path := "a.js"
  text := "export const ab=()=>1;export default class A\x7b\x7d"
  language := .javascript
  source := [101, 120, 112, 111, 114, 116, 32, 99, 111, 110, 115, 116, 32, 97, 98, 61, 40, 41, 61,
    62, 49, 59, 101, 120, 112, 111, 114, 116, 32, 100, 101, 102, 97, 117, 108, 116, 32, 99, 108, 97,
    115, 115, 32, 65, 123, 125]
  root := ⟨"program", true, none, 0, 46,
    [⟨"export_statement", true, none, 0, 22,
      [⟨"export", false, none, 0, 6, []⟩,
       ⟨"lexical_declaration", true, some "declaration", 7, 22,
        [⟨"const", false, some "kind", 7, 12, []⟩,
         ⟨"variable_declarator", true, none, 13, 21,
          [⟨"identifier", true, some "name", 13, 15, []⟩,
           ⟨"=", false, none, 15, 16, []⟩,
           ⟨"arrow_function", true, some "value", 16, 21,
            [⟨"formal_parameters", true, some "parameters", 16, 18, []⟩,
             ⟨"=>", false, none, 18, 20, []⟩,
             ⟨"number", true, some "body", 20, 21, []⟩]⟩]⟩,
         ⟨";", false, none, 21, 22, []⟩]⟩]⟩,
     ⟨"export_statement", true, none, 22, 46,
      [⟨"export", false, none, 22, 28, []⟩,
       ⟨"default", false, none, 29, 36, []⟩,
       ⟨"class_declaration", true, some "declaration", 37, 46,
        [⟨"class", false, none, 37, 42, []⟩,
         ⟨"identifier", true, some "name", 43, 44, []⟩,
         ⟨"class_body", true, some "body", 44, 46, []⟩]⟩]⟩]⟩

theorem exporting_exportShape : exporting.ExportShape := by
  refine ⟨?_, ?_, ?_⟩
  · simp [exporting, Node.all_mk, Exports.declaringKinds, Exports.namedKinds, Node.field?]
  · simp [exporting, Node.all_mk, Exports.declaresVariables]
  · simp [exporting, Node.all_mk, Node.hasToken, Node.field?, Exports.declaresVariables]

/-- A function two levels below its statement, and a class that is the default. -/
theorem exporting_listed :
    exporting.ExportShape ∧
    (∃ s ∈ exporting.symbols "a.js", s.name = "ab" ∧ s.exported = some true ∧
      ∃ e ∈ exporting.exports, e.name = s.name) ∧
    ∃ s ∈ exporting.symbols "a.js", s.name = "A" ∧ s.exported = some true ∧
      ∃ e ∈ exporting.exports, e.name = s.name := by
  obtain ⟨f, hf, hname, hexported⟩ : ∃ s ∈ exporting.symbols "a.js", s.name = "ab" ∧
      s.exported = some true := by decide +kernel
  obtain ⟨c, hc, hname', hexported'⟩ : ∃ s ∈ exporting.symbols "a.js", s.name = "A" ∧
      s.exported = some true := by decide +kernel
  exact ⟨exporting_exportShape,
    ⟨f, hf, hname, hexported, exported_symbols_listed exporting_exportShape "a.js" hf hexported⟩,
    c, hc, hname', hexported', exported_symbols_listed exporting_exportShape "a.js" hc hexported'⟩

end Module

end CodeGraph
