import CodeGraph.Proofs.Facts.Symbols
import CodeGraph.Proofs.SymbolGraph.Locality

/-!
# Classes and their methods

A method is a symbol of its own, under a name made from that of its class. Declarations may repeat
names, in one place or nested, and of several symbols with one id the last is kept; so a class, the
list of its methods and the methods themselves may come from different declarations. They fit
together all the same, as long as the names in the source have neither a point nor a colon: a name
with a point is then that of a method, and tells its class (`Symbols.Makes.of_qualifiedName`).
-/

namespace CodeGraph

/-! ## Names -/

/-- A name without the marks by which names are joined. -/
def PlainName (name : String) : Prop :=
  '.' ∉ name.toList ∧ ':' ∉ name.toList

instance (name : String) : Decidable (PlainName name) :=
  inferInstanceAs (Decidable (_ ∧ _))

namespace Module

theorem toList_qualifiedName (className method : String) :
    (qualifiedName className method).toList = className.toList ++ '.' :: method.toList := by
  simp [qualifiedName]

theorem qualifiedName_inj {className className' method method' : String}
    (hclass : PlainName className) (hmethod : PlainName method)
    (h : qualifiedName className' method' = qualifiedName className method) :
    className' = className ∧ method' = method := by
  have hchars := congrArg String.toList h
  rw [toList_qualifiedName, toList_qualifiedName] at hchars
  obtain ⟨hfirst, -, hsecond⟩ :=
    (List.append_cons_inj_of_notMem hclass.1 hmethod.1).mp hchars.symm
  exact ⟨String.toList_inj.mp hfirst.symm, String.toList_inj.mp hsecond.symm⟩

theorem qualifiedName_not_plain (className method : String) :
    ¬ PlainName (qualifiedName className method) := by
  intro h
  apply h.1
  rw [toList_qualifiedName]
  simp

theorem colon_notMem_qualifiedName {className method : String} (hclass : PlainName className)
    (hmethod : PlainName method) : ':' ∉ (qualifiedName className method).toList := by
  rw [toList_qualifiedName]
  simp [hclass.2, hmethod.2]

/-- The node declares the name. -/
inductive Declares (m : Module) (n : Node) (name : String) : Prop
  | function (kind : n.kind ∈ functionDeclarations) (named : m.properName? n = some name)
  | classDef (kind : n.kind ∈ classDeclarations) (named : m.properName? n = some name)
  | type {k : SymbolKind} (kind : Symbols.typeKind? n.kind = some k)
      (named : m.properName? n = some name)
  | variableDef (kind : n.kind = "variable_declarator") (named : m.plainName? n = some name)
  | method (kind : n.kind = "method_definition") (named : m.methodName? n = some name)

/-- All names declared in a module are free of points and colons. -/
def PlainlyNamed (m : Module) : Prop :=
  m.root.All fun n => ∀ name, m.Declares n name → PlainName name

theorem Declares.exists_text {m : Module} {n : Node} {name : String} (h : m.Declares n name) :
    ∃ c ∈ n.children, c.field = some "name" ∧ m.textOf c = name := by
  have hfield : ∀ {c : Node}, n.field? "name" = some c →
      c ∈ n.children ∧ c.field = some "name" := fun hc =>
    ⟨List.mem_of_find?_eq_some hc, by simpa using List.find?_some hc⟩
  have hproper : m.properName? n = some name →
      ∃ c ∈ n.children, c.field = some "name" ∧ m.textOf c = name := by
    intro hname
    unfold properName? at hname
    split at hname
    · rename_i text htext
      obtain ⟨c, hc, rfl⟩ := Option.map_eq_some_iff.mp htext
      split at hname
      · exact absurd hname (by simp)
      · exact ⟨c, (hfield hc).1, (hfield hc).2, Option.some.inj hname⟩
    · exact absurd hname (by simp)
  cases h with
  | function kind named => exact hproper named
  | classDef kind named => exact hproper named
  | type kind named => exact hproper named
  | variableDef kind named =>
    unfold plainName? at named
    split at named
    · rename_i c hc
      split at named
      · exact ⟨c, (hfield hc).1, (hfield hc).2, Option.some.inj named⟩
      · exact absurd named (by simp)
    · exact absurd named (by simp)
  | method kind named =>
    unfold methodName? at named
    split at named
    · rename_i c hc
      split at named
      · exact ⟨c, (hfield hc).1, (hfield hc).2,
          Option.some.inj (Option.filter_eq_some_iff.mp named).1⟩
      · exact absurd named (by simp)
    · exact absurd named (by simp)

/-- It is enough that the texts under name fields are plain. -/
theorem PlainlyNamed.of_texts {m : Module} (h : m.root.All fun n =>
    ∀ c ∈ n.children, c.field = some "name" → PlainName (m.textOf c)) : m.PlainlyNamed := by
  refine h.imp ?_
  intro n hn name hname
  obtain ⟨c, hc, hfield, rfl⟩ := hname.exists_text
  exact hn c hc hfield

theorem PlainlyNamed.plain {m : Module} (hm : m.PlainlyNamed) {f : Focus} (hf : f ∈ walk m.root)
    {name : String} (h : m.Declares f.node name) : PlainName name :=
  (Node.All.of_mem_walk hm hf).self name h

theorem PlainlyNamed.plain_method {m : Module} (hm : m.PlainlyNamed) {f : Focus}
    (hf : f ∈ walk m.root) {name : String} {n : Node}
    (h : (name, n) ∈ Symbols.methodsOf m f.node) : PlainName name := by
  obtain ⟨body, hbody, hmember, -, hkind, hmethod⟩ := Symbols.mem_methodsOf.mp h
  have hclass := Node.All.of_mem_walk hm hf
  have hall := (hclass.child body (List.mem_of_find?_eq_some hbody)).child n hmember
  exact hall.self name (.method hkind hmethod)

theorem PlainlyNamed.plain_declarator {m : Module} (hm : m.PlainlyNamed) {f : Focus}
    (hf : f ∈ walk m.root) {name : String} {d : Node} (hd : d ∈ Exports.declarators f.node)
    (named : m.plainName? d = some name) : PlainName name := by
  obtain ⟨hmember, -, hkind⟩ := Exports.mem_declarators.mp hd
  exact ((Node.All.of_mem_walk hm hf).child d hmember).self name (.variableDef hkind named)

end Module

/-! ## What a name tells -/

namespace Symbols

variable {m : Module} {file : String} {f : Focus} {s : Symbol}

/-- A symbol has a plain name and no parent, or it is a method, and then its name and its parent are
made from the name of its class. -/
theorem Makes.plain_or_method (hm : m.PlainlyNamed) (hf : f ∈ walk m.root)
    (h : Makes m file f s) :
    PlainName s.name ∧ s.parent = none ∨
      ∃ className method, PlainName className ∧ PlainName method ∧ s.kind = .method ∧
        s.name = Module.qualifiedName className method ∧
        s.parent = some (symbolId file className) := by
  cases h with
  | function kind named => exact Or.inl ⟨hm.plain hf (.function kind named), rfl⟩
  | functionValue kind named =>
    obtain ⟨step, rest, habove, hkind, hname⟩ := Module.assignedName?_eq_some named
    have hvisit : (⟨f.node, step :: rest⟩ : Focus) ∈ walk m.root := by
      rw [← habove]
      exact hf
    exact Or.inl ⟨hm.plain (mem_walk_of_above hvisit).1 (.variableDef hkind hname), rfl⟩
  | method kind named member =>
    exact Or.inr ⟨_, _, hm.plain hf (.classDef kind named), hm.plain_method hf member, rfl, rfl,
      rfl⟩
  | classDef kind named => exact Or.inl ⟨hm.plain hf (.classDef kind named), rfl⟩
  | variableDef kind top declared named long own =>
    exact Or.inl ⟨hm.plain_declarator hf declared named, rfl⟩
  | type kind named => exact Or.inl ⟨hm.plain hf (.type kind named), rfl⟩

/-- Whatever goes by the name of a method is a method of that class. -/
theorem Makes.of_qualifiedName (hm : m.PlainlyNamed) (hf : f ∈ walk m.root)
    (h : Makes m file f s) {className method : String} (hclass : PlainName className)
    (hmethod : PlainName method) (hname : s.name = Module.qualifiedName className method) :
    s.kind = .method ∧ s.parent = some (symbolId file className) := by
  rcases h.plain_or_method hm hf with ⟨hplain, -⟩ | ⟨className', method', -, -, hkind, hname', hp⟩
  · rw [hname] at hplain
    exact absurd hplain (Module.qualifiedName_not_plain className method)
  · obtain ⟨rfl, -⟩ := Module.qualifiedName_inj hclass hmethod (hname'.symm.trans hname)
    exact ⟨hkind, hp⟩

theorem Makes.colon_notMem_name (hm : m.PlainlyNamed) (hf : f ∈ walk m.root)
    (h : Makes m file f s) : ':' ∉ s.name.toList := by
  rcases h.plain_or_method hm hf with ⟨hplain, -⟩ | ⟨_, _, hclass, hmethod, -, hname, -⟩
  · exact hplain.2
  · rw [hname]
    exact Module.colon_notMem_qualifiedName hclass hmethod

/-- With a method, its class is made. -/
theorem Makes.exists_parent (h : Makes m file f s) {parent : String} (hp : s.parent = some parent) :
    ∃ t, Makes m file f t ∧ t.id = parent := by
  cases h with
  | method kind named member => exact ⟨_, .classDef kind named, Option.some.inj hp⟩
  | function kind named => exact absurd hp (by simp [spanning])
  | functionValue kind named => exact absurd hp (by simp [spanning])
  | classDef kind named => exact absurd hp (by simp [spanning])
  | variableDef kind top declared named long own => exact absurd hp (by simp [spanning])
  | type kind named => exact absurd hp (by simp [spanning])

/-- With a class, its methods are made, and its name and theirs are plain. -/
theorem Makes.exists_method (hm : m.PlainlyNamed) (hf : f ∈ walk m.root) (h : Makes m file f s)
    {method : String} (hmethod : method ∈ s.methods.getD []) :
    PlainName s.name ∧ PlainName method ∧
      ∃ t, Makes m file f t ∧ t.name = Module.qualifiedName s.name method := by
  cases h with
  | classDef kind named =>
    obtain ⟨⟨name, n⟩, member, rfl⟩ := List.mem_map.mp hmethod
    exact ⟨hm.plain hf (.classDef kind named), hm.plain_method hf member, _,
      .method kind named member, rfl⟩
  | function kind named => exact absurd hmethod List.not_mem_nil
  | functionValue kind named => exact absurd hmethod List.not_mem_nil
  | method kind named member => exact absurd hmethod List.not_mem_nil
  | variableDef kind top declared named long own => exact absurd hmethod List.not_mem_nil
  | type kind named => exact absurd hmethod List.not_mem_nil

end Symbols

/-! ## Linked graphs -/

/-- The symbols of the entry are those of a module with plain names. -/
def FileSymbols.PlainlyRead (f : FileSymbols) : Prop :=
  ∃ m : Module, m.PlainlyNamed ∧ f.symbols = m.symbols f.file

theorem FileSymbols.PlainlyRead.exists_module {f : FileSymbols} (h : f.PlainlyRead) :
    ∃ m : Module, m.PlainlyNamed ∧
      ∀ s, s ∈ f.symbols ↔ ∃ v ∈ walk m.root, Symbols.Makes m f.file v s := by
  obtain ⟨m, hm, hsymbols⟩ := h
  refine ⟨m, hm, ?_⟩
  intro s
  rw [hsymbols]
  exact Symbols.mem_symbols

theorem FileSymbols.PlainlyRead.proper {f : FileSymbols} (h : f.PlainlyRead) : f.Proper := by
  obtain ⟨m, hm, hmade⟩ := h.exists_module
  refine ⟨?_, ?_, ?_⟩
  · intro s hs
    obtain ⟨v, -, hmakes⟩ := (hmade s).mp hs
    exact hmakes.proper.1
  · intro s hs
    obtain ⟨v, -, hmakes⟩ := (hmade s).mp hs
    exact hmakes.proper.2
  · intro s hs
    obtain ⟨v, hv, hmakes⟩ := (hmade s).mp hs
    exact hmakes.colon_notMem_name hm hv

namespace Link

variable {resolvers : List Resolver} {files : List FileSymbols}

theorem exists_entry_of_linked {s : Symbol} (h : s ∈ (linkSymbols resolvers files).1) :
    ∃ f ∈ files, s ∈ f.symbols :=
  SymbolIndex.exists_entry_of_mem_values h

/-- What a file brings is kept, or something of the same name and file is kept in its place. -/
theorem exists_kept (hproper : ∀ f ∈ files, f.Proper) {f : FileSymbols} (hf : f ∈ files)
    {s : Symbol} (hs : s ∈ f.symbols) :
    ∃ t ∈ (linkSymbols resolvers files).1, t.id = s.id ∧ t.name = s.name ∧
      ∃ g ∈ files, g.file = f.file ∧ t ∈ g.symbols := by
  have hid : s.id ∈ (linkSymbols resolvers files).1.map (·.id) := by
    rw [map_id_linkSymbols]
    exact (SymbolIndex.mem_ids_ofFiles files s.id).mpr ⟨f, hf, s, hs, rfl⟩
  obtain ⟨t, ht, hsame⟩ := List.mem_map.mp hid
  obtain ⟨g, hg, htg⟩ := exists_entry_of_linked ht
  have hnames : symbolId g.file t.name = symbolId f.file s.name := by
    rw [← (hproper g hg).id t htg, ← (hproper f hf).id s hs]
    exact hsame
  obtain ⟨hfile, hname⟩ :=
    symbolId_inj ((hproper g hg).name t htg) ((hproper f hf).name s hs) hnames
  exact ⟨t, ht, hsame, hname, g, hg, hfile, htg⟩

/-- **Classes and methods refer to what is there.** In a graph linked from modules with plain
names, a symbol's parent is a symbol of the same file; and for each method that a class lists there
is a symbol, which is a method of that name and has the class as its parent. Names may be declared
any number of times, and a file may even be given more than once. -/
theorem linkSymbols_members (hread : ∀ f ∈ files, f.PlainlyRead) :
    (∀ s ∈ (linkSymbols resolvers files).1, ∀ parent, s.parent = some parent →
      ∃ t ∈ (linkSymbols resolvers files).1, t.id = parent ∧ t.file = s.file) ∧
    ∀ c ∈ (linkSymbols resolvers files).1, c.kind = .classDef → ∀ method ∈ c.methods.getD [],
      ∃ s ∈ (linkSymbols resolvers files).1, s.id = c.id ++ "." ++ method ∧ s.kind = .method ∧
        s.name = c.name ++ "." ++ method ∧ s.parent = some c.id := by
  have hproper : ∀ f ∈ files, f.Proper := fun f hf => (hread f hf).proper
  constructor
  · intro s hs parent hparent
    obtain ⟨f, hf, hsf⟩ := exists_entry_of_linked hs
    obtain ⟨m, hm, hmade⟩ := (hread f hf).exists_module
    obtain ⟨v, hv, hmakes⟩ := (hmade s).mp hsf
    obtain ⟨t, ht, hid⟩ := hmakes.exists_parent hparent
    have htf : t ∈ f.symbols := (hmade t).mpr ⟨v, hv, ht⟩
    obtain ⟨t', ht', hsame, -, g, hg, hfile, htg⟩ := exists_kept hproper hf htf
    refine ⟨t', ht', hsame.trans hid, ?_⟩
    rw [(hproper g hg).file t' htg, hfile, hmakes.proper.1]
  · intro c hc _ method hmethod
    obtain ⟨f, hf, hcf⟩ := exists_entry_of_linked hc
    obtain ⟨m, hm, hmade⟩ := (hread f hf).exists_module
    obtain ⟨v, hv, hmakes⟩ := (hmade c).mp hcf
    obtain ⟨hclass, hplain, t, ht, hname⟩ := hmakes.exists_method hm hv hmethod
    have htf : t ∈ f.symbols := (hmade t).mpr ⟨v, hv, ht⟩
    -- the symbol that is kept may come from another declaration: its name tells what it is
    obtain ⟨s, hs, hid, hsame, g, hg, hfile, hsg⟩ := exists_kept hproper hf htf
    obtain ⟨m', hm', hmade'⟩ := (hread g hg).exists_module
    obtain ⟨v', hv', hmakes'⟩ := (hmade' s).mp hsg
    rw [hfile] at hmakes'
    obtain ⟨hkind, hparent⟩ :=
      hmakes'.of_qualifiedName hm' hv' hclass hplain (hsame.trans hname)
    refine ⟨s, hs, ?_, hkind, hsame.trans hname, ?_⟩
    · rw [hid, ht.proper.2, hname, hmakes.proper.2]
      simp [symbolId, Module.qualifiedName, String.append_assoc]
    · rw [hparent, hmakes.proper.2]

end Link

/-- The source `class A{m(){}}class A{k(){}}`, in which a class is declared twice. -/
def Module.redeclared : Module where
  path := "a.js"
  text := "class A\x7bm()\x7b\x7d\x7dclass A\x7bk()\x7b\x7d\x7d"
  language := .javascript
  source := [99, 108, 97, 115, 115, 32, 65, 123, 109, 40, 41, 123, 125, 125,
    99, 108, 97, 115, 115, 32, 65, 123, 107, 40, 41, 123, 125, 125]
  root := ⟨"program", true, none, 0, 28,
    [⟨"class_declaration", true, none, 0, 14,
      [⟨"identifier", true, some "name", 6, 7, []⟩,
       ⟨"class_body", true, some "body", 7, 14,
        [⟨"method_definition", true, none, 8, 13,
          [⟨"property_identifier", true, some "name", 8, 9, []⟩,
           ⟨"formal_parameters", true, some "parameters", 9, 11, []⟩,
           ⟨"statement_block", true, some "body", 11, 13, []⟩]⟩]⟩]⟩,
     ⟨"class_declaration", true, none, 14, 28,
      [⟨"identifier", true, some "name", 20, 21, []⟩,
       ⟨"class_body", true, some "body", 21, 28,
        [⟨"method_definition", true, none, 22, 27,
          [⟨"property_identifier", true, some "name", 22, 23, []⟩,
           ⟨"formal_parameters", true, some "parameters", 23, 25, []⟩,
           ⟨"statement_block", true, some "body", 25, 27, []⟩]⟩]⟩]⟩]⟩

theorem Module.redeclared_plainlyNamed : redeclared.PlainlyNamed := by
  have hclass : PlainName (redeclared.slice 6 7) := by decide
  have hmethod : PlainName (redeclared.slice 8 9) := by decide
  have hclass' : PlainName (redeclared.slice 20 21) := by decide
  have hmethod' : PlainName (redeclared.slice 22 23) := by decide
  refine PlainlyNamed.of_texts ?_
  show Node.All _ (Node.mk _ _ _ _ _ _)
  simp [Node.all_mk, Module.textOf, hclass, hmethod, hclass', hmethod']

/-- Of the class that is declared twice the second one is kept. The method of the first one is there
still, and so is its parent. -/
theorem Link.linkSymbols_redeclared :
    let files : List FileSymbols := [⟨"a.js", Module.redeclared.symbols "a.js", [], []⟩]
    (∀ f ∈ files, f.PlainlyRead) ∧
    (∃ s ∈ (linkSymbols Resolver.standard files).1, s.name = "A.m" ∧
      ∃ t ∈ (linkSymbols Resolver.standard files).1, some t.id = s.parent ∧ t.file = s.file) ∧
    ∃ c ∈ (linkSymbols Resolver.standard files).1, c.name = "A" ∧ c.methods = some ["k"] ∧
      ∃ s ∈ (linkSymbols Resolver.standard files).1, s.id = c.id ++ "." ++ "k" ∧
        s.kind = .method ∧ s.name = c.name ++ "." ++ "k" ∧ s.parent = some c.id := by
  intro files
  have hread : ∀ f ∈ files, f.PlainlyRead := by
    intro f hf
    obtain rfl := List.mem_singleton.mp hf
    exact ⟨Module.redeclared, Module.redeclared_plainlyNamed, rfl⟩
  obtain ⟨hparents, hmethods⟩ := linkSymbols_members hread
  refine ⟨hread, ?_, ?_⟩
  · obtain ⟨s, hs, hname, hparent⟩ : ∃ s ∈ (linkSymbols Resolver.standard files).1,
        s.name = "A.m" ∧ s.parent = some "a.js::A" := by decide +kernel
    obtain ⟨t, ht, hid, hfile⟩ := hparents s hs _ hparent
    exact ⟨s, hs, hname, t, ht, by rw [hid, hparent], hfile⟩
  · obtain ⟨c, hc, hname, hkind, hlist⟩ : ∃ c ∈ (linkSymbols Resolver.standard files).1,
        c.name = "A" ∧ c.kind = .classDef ∧ c.methods = some ["k"] := by decide +kernel
    exact ⟨c, hc, hname, hlist, hmethods c hc hkind "k" (by rw [hlist]; decide)⟩

end CodeGraph
