import CodeGraph.Analysis.Files
import CodeGraph.Proofs.Facts.Callers
import CodeGraph.Proofs.Source.Reexport

/-!
# Lines of symbols and calls

A symbol has the lines of a node that lies within the visited one (`Symbols.Makes.exists_span`), a
method among them has its class around it (`Symbols.Makes.exists_class`), and a call has the line on
which its node starts. Lines are counted in the bytes that were parsed. These may be rewritten and
longer than those of the file, but they have as many line feeds, so no line is beyond the end of the
file (`Module.ReadFrom.lineAt_le`).
-/

namespace CodeGraph

namespace Symbols

variable {m : Module} {file : String} {f : Focus} {s : Symbol}

/-- A symbol has the lines of a node inside the visited one. But for methods and variables, that is
the visited node itself. -/
theorem Makes.exists_span (hf : f.node.All Node.Nested) (h : Makes m file f s) :
    ∃ n : Node, Spans m file s.name n s ∧ n.start ≤ n.stop ∧ f.node.Encloses n ∧
      (n = f.node ∨ s.kind = .method ∨ s.kind = .variableDef) := by
  have hrange := hf.self.range
  have hself := hf.self.encloses_self
  cases h with
  | function kind named => exact ⟨f.node, ⟨rfl, rfl, rfl, rfl⟩, hrange, hself, Or.inl rfl⟩
  | functionValue kind named => exact ⟨f.node, ⟨rfl, rfl, rfl, rfl⟩, hrange, hself, Or.inl rfl⟩
  | classDef kind named => exact ⟨f.node, ⟨rfl, rfl, rfl, rfl⟩, hrange, hself, Or.inl rfl⟩
  | type kind named => exact ⟨f.node, ⟨rfl, rfl, rfl, rfl⟩, hrange, hself, Or.inl rfl⟩
  | @method className name n kind named member =>
    obtain ⟨body, hbody, hn, -⟩ := mem_methodsOf.mp member
    have hchild := hf.child body (List.mem_of_find?_eq_some hbody)
    have hencloses :=
      (hf.self.nested body (List.mem_of_find?_eq_some hbody)).trans (hchild.self.nested n hn)
    exact ⟨n, ⟨rfl, rfl, rfl, rfl⟩, (hchild.child n hn).self.range, hencloses, Or.inr (Or.inl rfl)⟩
  | @variableDef name d kind top declared named long own =>
    obtain ⟨hd, -, -⟩ := Exports.mem_declarators.mp declared
    exact ⟨d, ⟨rfl, rfl, rfl, rfl⟩, (hf.child d hd).self.range, hf.self.nested d hd,
      Or.inr (Or.inr rfl)⟩

/-- The visit that makes a method makes its class, and the lines of the class are around those of
the method. -/
theorem Makes.exists_class (hf : f.node.All Node.Nested) (h : Makes m file f s)
    (hkind : s.kind = .method) :
    ∃ c, Makes m file f c ∧ c.kind = .classDef ∧ s.parent = some c.id ∧
      c.startLine ≤ s.startLine ∧ s.endLine ≤ c.endLine := by
  obtain ⟨n, ⟨-, -, hstart, hend⟩, -, hencloses, -⟩ := h.exists_span hf
  cases h with
  | method kind named member =>
    refine ⟨_, .classDef kind named, rfl, rfl, ?_, ?_⟩
    · rw [hstart]
      exact Int.ofNat_le.mpr (m.lineAt_mono hencloses.1.1)
    · rw [hend]
      exact Int.ofNat_le.mpr (m.lineAt_mono hencloses.2.2)
  | function kind named => cases hkind
  | functionValue kind named => cases hkind
  | classDef kind named => cases hkind
  | variableDef kind top declared named long own => cases hkind
  | @type name k kind named =>
    have hk : k = .method := hkind
    rw [hk] at kind
    exact absurd (typeKind?_mem kind) (by simp)

end Symbols

namespace Module

/-- The parsed bytes are those of the file, as they are or with its re-exports rewritten. -/
def ReadFrom (m : Module) (data : Bytes) : Prop :=
  m.source = data ∨ m.source = Reexport.normalize data

theorem readFrom_of_parseSource {parser : Parser} {path : String} {data : Bytes} {m : Module}
    (h : parseSource parser path data = .ok m) : m.ReadFrom data := by
  unfold parseSource at h
  split at h
  · cases h
  · dsimp only at h
    split at h
    · cases h
    · split at h
      · exact .inl (congrArg Module.source (Except.ok.inj h)).symm
      · split at h
        · cases h
        · split at h
          · exact .inr (congrArg Module.source (Except.ok.inj h)).symm
          · cases h

variable {m : Module} {data : Bytes}

theorem ReadFrom.count_newline (h : m.ReadFrom data) :
    m.source.count Reexport.newline = data.count Reexport.newline := by
  rcases h with hsource | hsource
  · rw [hsource]
  · rw [hsource, Reexport.count_newline_normalize]

/-- No offset of the parsed bytes is on a line beyond the end of the file. -/
theorem ReadFrom.lineAt_le (h : m.ReadFrom data) (offset : Nat) :
    m.lineAt offset ≤ countLines data := by
  rw [lineAt, countLines, ← h.count_newline]
  exact Nat.add_le_add_right ((List.take_sublist offset m.source).count_le _) 1

theorem one_le_lineAt (m : Module) (offset : Nat) : 1 ≤ m.lineAt offset :=
  Nat.le_add_left 1 _

/-- **Symbols and calls stay within the lines of their file.** Whether the bytes of a file are
parsed as they are or rewritten, the lines of a symbol are a range of lines of the file, the line of
a call is one of them, and a method comes with its class, whose lines are around its own. -/
theorem line_facts_within_file (data : Bytes) :
    (∀ parser path m, parseSource parser path data = .ok m → m.ReadFrom data) ∧
    ∀ m : Module, m.ReadFrom data → m.root.All Node.Nested → ∀ (file : String) (limit : Int),
      (∀ s ∈ m.symbols file,
        1 ≤ s.startLine ∧ s.startLine ≤ s.endLine ∧ s.endLine ≤ countLines data) ∧
      (∀ c ∈ m.calls limit, 1 ≤ c.line ∧ c.line ≤ countLines data) ∧
      ∀ s ∈ m.symbols file, s.kind = .method →
        ∃ f ∈ walk m.root, s ∈ Symbols.ofVisit m file f ∧ ∃ c ∈ Symbols.ofVisit m file f,
          c.kind = .classDef ∧ s.parent = some c.id ∧
            c.startLine ≤ s.startLine ∧ s.endLine ≤ c.endLine := by
  refine ⟨fun parser path m h => readFrom_of_parseSource h, fun m hread hnested file limit => ?_⟩
  refine ⟨fun s hs => ?_, fun c hc => ?_, fun s hs hkind => ?_⟩
  · obtain ⟨f, hf, hmakes⟩ := Symbols.mem_symbols.mp hs
    obtain ⟨n, ⟨-, -, hstart, hend⟩, hrange, -, -⟩ := hmakes.exists_span (hnested.of_mem_walk hf)
    rw [hstart, hend]
    exact ⟨Int.ofNat_le.mpr (m.one_le_lineAt n.start), Int.ofNat_le.mpr (m.lineAt_mono hrange),
      Int.ofNat_le.mpr (hread.lineAt_le n.stop)⟩
  · obtain ⟨f, -, -, hline⟩ := Calls.exists_visit hc
    rw [hline]
    exact ⟨Int.ofNat_le.mpr (m.one_le_lineAt f.node.start),
      Int.ofNat_le.mpr (hread.lineAt_le f.node.start)⟩
  · obtain ⟨f, hf, hmakes⟩ := Symbols.mem_symbols.mp hs
    obtain ⟨c, hclass, hc⟩ := hmakes.exists_class (hnested.of_mem_walk hf) hkind
    exact ⟨f, hf, Symbols.mem_ofVisit.mpr hmakes, c, Symbols.mem_ofVisit.mpr hclass, hc⟩

/-- The bytes of a source of three lines that re-exports a default and has a class. -/
def threeLines : Bytes :=
  Reexport.bytes "export v from 'm'\nclass A\x7b\nm()\x7bf()\x7d\x7d"

/-- That source with its re-export rewritten. -/
def rewritten : Module where
  path := "a.js"
  text := "export v from 'm'\nclass A\x7b\nm()\x7bf()\x7d\x7d"
  language := .javascript
  source := Reexport.normalize threeLines
  root := ⟨"program", true, none, 0, 51,
    [⟨"export_statement", true, none, 0, 32, [⟨"string", true, some "source", 29, 32, []⟩]⟩,
     ⟨"class_declaration", true, none, 33, 51,
      [⟨"identifier", true, some "name", 39, 40, []⟩,
       ⟨"class_body", true, some "body", 40, 51,
        [⟨"method_definition", true, none, 42, 50,
          [⟨"property_identifier", true, some "name", 42, 43, []⟩,
           ⟨"formal_parameters", true, some "parameters", 43, 45, []⟩,
           ⟨"statement_block", true, some "body", 45, 50,
            [⟨"expression_statement", true, none, 46, 49,
              [⟨"call_expression", true, none, 46, 49,
                [⟨"identifier", true, some "function", 46, 47, []⟩,
                 ⟨"arguments", true, some "arguments", 47, 49, []⟩]⟩]⟩]⟩]⟩]⟩]⟩]⟩

theorem rewritten_nested : rewritten.root.All Node.Nested := by
  simp [rewritten, Node.all_mk, Node.nested_iff, Node.Encloses]

/-- The rewritten source is longer than the file. Its class is on lines two and three, its method on
the third and last one. -/
theorem rewritten_lines_within_file :
    threeLines.length < rewritten.source.length ∧ countLines threeLines = 3 ∧
    rewritten.ReadFrom threeLines ∧ rewritten.root.All Node.Nested ∧
    (rewritten.symbols "a.js").map (fun s => (s.name, s.startLine, s.endLine)) =
      [("A.m", 3, 3), ("A", 2, 3)] ∧
    (rewritten.calls 80).map (·.line) = [3] ∧
    ∀ s ∈ rewritten.symbols "a.js", s.endLine ≤ 3 := by
  have hlines : countLines threeLines = 3 := by decide
  have hread : rewritten.ReadFrom threeLines := .inr rfl
  have hwithin := (line_facts_within_file threeLines).2 rewritten hread rewritten_nested "a.js" 80
  refine ⟨by decide +kernel, hlines, hread, rewritten_nested, by decide +kernel, by decide +kernel,
    fun s hs => ?_⟩
  have hend := (hwithin.1 s hs).2.2
  rwa [hlines] at hend

end Module

end CodeGraph
