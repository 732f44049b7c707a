import CodeGraph.Facts.Conditions
import CodeGraph.Proofs.Syntax.Walk

/-!
# The condition of a visit is the innermost branch around it

On the way up from a visit, each step says which node is left and as which of its children. A step
enters a branch if the child stands under one of the two fields of an `if` or a ternary (`Enters`).
The condition that is found belongs to the first such step before any function is left
(`nearest_eq_some_iff`), and there is one if there is such a step (`isSome_nearest_iff`). So what
stands at the nearest function and above it does not matter (`nearest_of_function`), and neither
does a conditional whose test the way comes from (`nearest_of_test`).
-/

namespace CodeGraph

/-! ## Steps and the children they enter -/

theorem Node.exists_of_fieldIndex? {n : Node} {name : String} {i : Nat}
    (h : n.fieldIndex? name = some i) : ∃ c, n.children[i]? = some c ∧ c.field = some name := by
  obtain ⟨hi, hfield, -⟩ := List.findIdx?_eq_some_iff_getElem.mp h
  exact ⟨_, List.getElem?_eq_getElem hi, by simpa using hfield⟩

/-- A child stands under one field. -/
theorem Node.field_unique {n : Node} {name name' : String} {i : Nat}
    (h : n.fieldIndex? name = some i) (h' : n.fieldIndex? name' = some i) : name = name' := by
  obtain ⟨c, hc, hfield⟩ := Node.exists_of_fieldIndex? h
  obtain ⟨c', hc', hfield'⟩ := Node.exists_of_fieldIndex? h'
  obtain rfl : c = c' := Option.some.inj (hc.symm.trans hc')
  exact Option.some.inj (hfield.symm.trans hfield')

/-- The child that a step on the way up comes from is the node of the way right below it. -/
theorem child_on_way {root : Node} {f : Focus} {below above : List Step} {s : Step}
    (hf : f ∈ walk root) (hway : f.above = below ++ s :: above) :
    s.parent.children[s.index]? = (f.node :: below.map (·.parent)).getLast? := by
  induction below generalizing f with
  | nil =>
    obtain ⟨n, way⟩ := f
    obtain rfl : way = s :: above := hway
    exact (mem_walk_of_above hf).2.1
  | cons t below ih =>
    obtain ⟨n, way⟩ := f
    obtain rfl : way = t :: (below ++ s :: above) := hway
    rw [ih (mem_walk_of_above hf).1 rfl, List.map_cons, List.getLast?_cons_cons]

namespace Conditions

/-! ## Branches -/

/-- A step comes from a branch: from the child under one of the two fields of a conditional. -/
inductive Enters (s : Step) : Branch → Prop
  | ifThen : s.parent.kind = "if_statement" →
      s.parent.fieldIndex? "consequence" = some s.index → Enters s .ifThen
  | ifElse : s.parent.kind = "if_statement" →
      s.parent.fieldIndex? "alternative" = some s.index → Enters s .ifElse
  | ternaryThen : s.parent.kind = "ternary_expression" →
      s.parent.fieldIndex? "consequence" = some s.index → Enters s .ternaryThen
  | ternaryElse : s.parent.kind = "ternary_expression" →
      s.parent.fieldIndex? "alternative" = some s.index → Enters s .ternaryElse

theorem branches?_eq_some {kind : String} {taken other : Branch}
    (h : branches? kind = some (taken, other)) :
    kind = "if_statement" ∧ taken = .ifThen ∧ other = .ifElse ∨
      kind = "ternary_expression" ∧ taken = .ternaryThen ∧ other = .ternaryElse := by
  unfold branches? at h
  split_ifs at h with hif hternary
  · obtain ⟨rfl, rfl⟩ := Prod.mk.inj (Option.some.inj h)
    exact .inl ⟨by simpa using hif, rfl, rfl⟩
  · obtain ⟨rfl, rfl⟩ := Prod.mk.inj (Option.some.inj h)
    exact .inr ⟨by simpa using hternary, rfl, rfl⟩

theorem enters_of_branchOf? {s : Step} {b : Branch} (h : branchOf? s = some b) : Enters s b := by
  unfold branchOf? Step.entersField at h
  split at h
  · rename_i taken other hkind
    rcases branches?_eq_some hkind with ⟨hif, rfl, rfl⟩ | ⟨hternary, rfl, rfl⟩
    · split_ifs at h with hthen helse
      · exact Option.some.inj h ▸ .ifThen hif (by simpa using hthen)
      · exact Option.some.inj h ▸ .ifElse hif (by simpa using helse)
    · split_ifs at h with hthen helse
      · exact Option.some.inj h ▸ .ternaryThen hternary (by simpa using hthen)
      · exact Option.some.inj h ▸ .ternaryElse hternary (by simpa using helse)
  · cases h

theorem branchOf?_iff {s : Step} {b : Branch} : branchOf? s = some b ↔ Enters s b := by
  have hother : s.parent.fieldIndex? "alternative" = some s.index →
      s.parent.fieldIndex? "consequence" ≠ some s.index := by
    intro halternative hconsequence
    exact absurd (Node.field_unique halternative hconsequence) (by decide)
  refine ⟨enters_of_branchOf?, fun h => ?_⟩
  unfold branchOf? branches? Step.entersField
  cases h with
  | ifThen hkind hfield => simp [hkind, hfield]
  | ifElse hkind hfield => simp [hkind, hfield, hother hfield]
  | ternaryThen hkind hfield => simp [hkind, hfield]
  | ternaryElse hkind hfield => simp [hkind, hfield, hother hfield]

theorem branchOf?_eq_none {s : Step} : branchOf? s = none ↔ ∀ b, ¬ Enters s b := by
  rw [Option.eq_none_iff_forall_ne_some]
  exact forall_congr' fun b => not_congr branchOf?_iff

/-- A conditional is no function. -/
theorem Enters.not_function {s : Step} {b : Branch} (h : Enters s b) :
    s.parent.kind ∉ functionKinds := by
  cases h with
  | ifThen hkind | ifElse hkind | ternaryThen hkind | ternaryElse hkind =>
    rw [hkind]
    decide

/-- Who comes from the test comes from neither branch. -/
theorem not_enters_of_test {s : Step} (h : s.parent.fieldIndex? "condition" = some s.index)
    (b : Branch) : ¬ Enters s b := by
  intro henters
  cases henters with
  | ifThen _ hfield | ifElse _ hfield | ternaryThen _ hfield | ternaryElse _ hfield =>
    exact absurd (Node.field_unique h hfield) (by decide)

/-! ## Tests -/

/-- What a test is without the parentheses around it: their first named child that is no comment,
if there is one. -/
inductive Bare (test : Node) : Node → Prop
  | plain : test.kind ≠ "parenthesized_expression" → Bare test test
  | wrapped {before after : List Node} {inner : Node} : test.kind = "parenthesized_expression" →
      test.namedChildren = before ++ inner :: after → (∀ c ∈ before, c.kind = "comment") →
      inner.kind ≠ "comment" → Bare test inner
  | hollow : test.kind = "parenthesized_expression" →
      (∀ c ∈ test.namedChildren, c.kind = "comment") → Bare test test

theorem bare_iff {test inner : Node} : Bare test inner ↔ unwrap test = inner := by
  unfold unwrap
  constructor
  · intro h
    cases h with
    | plain hkind => rw [if_neg (by simpa using hkind)]
    | wrapped hkind hcut hbefore hinner =>
      have hfind : test.namedChildren.find? (fun c => c.kind != "comment") = some inner :=
        List.find?_eq_some_iff_append.mpr
          ⟨by simpa using hinner, _, _, hcut, by simpa using hbefore⟩
      rw [if_pos (by simpa using hkind), hfind]
      rfl
    | hollow hkind hcomments =>
      have hfind : test.namedChildren.find? (fun c => c.kind != "comment") = none :=
        List.find?_eq_none.mpr (by simpa using hcomments)
      rw [if_pos (by simpa using hkind), hfind]
      rfl
  · rintro rfl
    split
    · rename_i hkind
      have hparens : test.kind = "parenthesized_expression" := by simpa using hkind
      cases hfind : test.namedChildren.find? (fun c => c.kind != "comment") with
      | none => exact .hollow hparens (by simpa using List.find?_eq_none.mp hfind)
      | some inner =>
        obtain ⟨hinner, before, after, hcut, hbefore⟩ := List.find?_eq_some_iff_append.mp hfind
        exact .wrapped hparens hcut (by simpa using hbefore) (by simpa using hinner)
    · rename_i hkind
      exact .plain (by simpa using hkind)

/-- The condition describes the conditional that a step leaves: the branch it comes from, and the
text of the test in one line and cut to the limit. A conditional without a test has an empty one. -/
structure Describes (m : Module) (limit : Int) (s : Step) (c : Condition) : Prop where
  branch : Enters s c.branch
  text : (s.parent.field? "condition" = none ∧ c.text = shorten "" limit) ∨
    ∃ test inner, s.parent.field? "condition" = some test ∧ Bare test inner ∧
      c.text = shorten (m.textOf inner) limit

theorem describes_iff {m : Module} {limit : Int} {s : Step} {c : Condition} :
    Describes m limit s c ↔
      Enters s c.branch ∧ c.text = testText m (s.parent.field? "condition") limit := by
  constructor
  · rintro ⟨hbranch, htext⟩
    refine ⟨hbranch, ?_⟩
    rcases htext with ⟨hnone, htext⟩ | ⟨test, inner, htest, hbare, htext⟩
    · rw [htext, hnone]
      rfl
    · rw [htext, htest, ← bare_iff.mp hbare]
      rfl
  · rintro ⟨hbranch, htext⟩
    refine ⟨hbranch, ?_⟩
    cases htest : s.parent.field? "condition" with
    | none =>
      rw [htest] at htext
      exact .inl ⟨rfl, htext⟩
    | some test =>
      rw [htest] at htext
      exact .inr ⟨test, _, rfl, bare_iff.mpr rfl, htext⟩

/-! ## The way up -/

section

variable {m m' : Module} {limit : Int} {below above : List Step} {s : Step}

theorem nearest_cons_of_function (h : s.parent.kind ∈ functionKinds) (rest : List Step) :
    nearest m limit (s :: rest) = none := by
  rw [nearest, if_pos (by simpa using h)]

theorem nearest_cons_of_enters {c : Condition} (h : Describes m limit s c) (rest : List Step) :
    nearest m limit (s :: rest) = some c := by
  obtain ⟨hbranch, htext⟩ := describes_iff.mp h
  rw [nearest, if_neg (by simpa using hbranch.not_function), branchOf?_iff.mpr hbranch, ← htext]

theorem nearest_cons_of_passes (hkind : s.parent.kind ∉ functionKinds) (h : ∀ b, ¬ Enters s b)
    (rest : List Step) : nearest m limit (s :: rest) = nearest m limit rest := by
  rw [nearest, if_neg (by simpa using hkind), branchOf?_eq_none.mpr h]

/-- Steps that leave no function and come from no branch are passed. -/
theorem nearest_append (h : ∀ t ∈ below, t.parent.kind ∉ functionKinds ∧ ∀ b, ¬ Enters t b)
    (rest : List Step) : nearest m limit (below ++ rest) = nearest m limit rest := by
  induction below with
  | nil => rfl
  | cons t below ih =>
    obtain ⟨hkind, hnone⟩ := h t List.mem_cons_self
    rw [List.cons_append, nearest_cons_of_passes hkind hnone,
      ih (fun u hu => h u (List.mem_cons_of_mem _ hu))]

/-- What the first step of a way is: it leaves a function, comes from a branch, or is passed. -/
theorem step_cases (m : Module) (limit : Int) (s : Step) :
    s.parent.kind ∈ functionKinds ∨ (∃ c, Describes m limit s c) ∨
      s.parent.kind ∉ functionKinds ∧ ∀ b, ¬ Enters s b := by
  by_cases hkind : s.parent.kind ∈ functionKinds
  · exact .inl hkind
  · by_cases hbranch : ∃ b, Enters s b
    · obtain ⟨b, hb⟩ := hbranch
      exact .inr (.inl ⟨⟨testText m (s.parent.field? "condition") limit, b⟩,
        describes_iff.mpr ⟨hb, rfl⟩⟩)
    · exact .inr (.inr ⟨hkind, not_exists.mp hbranch⟩)

/-- The condition that is found describes the first step that comes from a branch, if no function is
left before. -/
theorem nearest_eq_some_iff {way : List Step} {c : Condition} :
    nearest m limit way = some c ↔ ∃ below s above, way = below ++ s :: above ∧
      (∀ t ∈ below, t.parent.kind ∉ functionKinds ∧ ∀ b, ¬ Enters t b) ∧ Describes m limit s c := by
  constructor
  · intro h
    induction way with
    | nil => cases h
    | cons s rest ih =>
      rcases step_cases m limit s with hkind | ⟨c', hc'⟩ | ⟨hkind, hnone⟩
      · rw [nearest_cons_of_function hkind] at h
        cases h
      · rw [nearest_cons_of_enters hc'] at h
        obtain rfl := Option.some.inj h
        exact ⟨[], s, rest, rfl, by simp, hc'⟩
      · rw [nearest_cons_of_passes hkind hnone] at h
        obtain ⟨below, t, above, rfl, hbelow, hc⟩ := ih h
        exact ⟨s :: below, t, above, rfl, List.forall_mem_cons.mpr ⟨⟨hkind, hnone⟩, hbelow⟩, hc⟩
  · rintro ⟨below, s, above, rfl, hbelow, hc⟩
    rw [nearest_append hbelow, nearest_cons_of_enters hc]

/-- There is a condition if some step comes from a branch and no function is left before it. -/
theorem isSome_nearest_iff {way : List Step} :
    (nearest m limit way).isSome ↔ ∃ below s above b, way = below ++ s :: above ∧
      (∀ t ∈ below, t.parent.kind ∉ functionKinds) ∧ Enters s b := by
  constructor
  · intro h
    obtain ⟨c, hc⟩ := Option.isSome_iff_exists.mp h
    obtain ⟨below, s, above, hway, hbelow, hdescribes⟩ := nearest_eq_some_iff.mp hc
    exact ⟨below, s, above, c.branch, hway, fun t ht => (hbelow t ht).1, hdescribes.branch⟩
  · rintro ⟨below, s, above, b, rfl, hbelow, hb⟩
    induction below with
    | nil =>
      have hdescribes : Describes m limit s ⟨testText m (s.parent.field? "condition") limit, b⟩ :=
        describes_iff.mpr ⟨hb, rfl⟩
      rw [List.nil_append, nearest_cons_of_enters hdescribes]
      rfl
    | cons t below ih =>
      rw [List.cons_append]
      rcases step_cases m limit t with hkind | ⟨c, hc⟩ | ⟨hkind, hnone⟩
      · exact absurd hkind (hbelow t List.mem_cons_self)
      · rw [nearest_cons_of_enters hc]
        rfl
      · rw [nearest_cons_of_passes hkind hnone]
        exact ih (fun u hu => hbelow u (List.mem_cons_of_mem _ hu))

/-- A conditional is passed by the way that comes from its test. -/
theorem nearest_of_test (hkind : s.parent.kind ∉ functionKinds)
    (htest : s.parent.fieldIndex? "condition" = some s.index) :
    nearest m limit (below ++ s :: above) = nearest m limit (below ++ above) := by
  induction below with
  | nil => exact nearest_cons_of_passes hkind (not_enters_of_test htest) above
  | cons t below ih =>
    rw [List.cons_append, List.cons_append]
    rcases step_cases m limit t with hleaves | ⟨c, hc⟩ | ⟨hpasses, hnone⟩
    · rw [nearest_cons_of_function hleaves, nearest_cons_of_function hleaves]
    · rw [nearest_cons_of_enters hc, nearest_cons_of_enters hc]
    · rw [nearest_cons_of_passes hpasses hnone, nearest_cons_of_passes hpasses hnone, ih]

/-- Two steps, perhaps of two sources, look alike: they leave nodes of the same kind, come from
children under the same fields, and the tests of the nodes read the same. -/
structure Alike (m m' : Module) (t t' : Step) : Prop where
  kind : t.parent.kind = t'.parent.kind
  fields : ∀ name, t.entersField name = t'.entersField name
  test : ∀ limit, testText m (t.parent.field? "condition") limit =
    testText m' (t'.parent.field? "condition") limit

/-- What stands at the nearest function and above it does not matter. -/
theorem nearest_of_function {below' above' : List Step} {s' : Step}
    (halike : List.Forall₂ (Alike m m') below below') (hkind : s.parent.kind ∈ functionKinds)
    (hkind' : s'.parent.kind ∈ functionKinds) :
    nearest m limit (below ++ s :: above) = nearest m' limit (below' ++ s' :: above') := by
  induction halike with
  | nil => rw [List.nil_append, List.nil_append, nearest_cons_of_function hkind,
      nearest_cons_of_function hkind']
  | @cons t t' below below' ht _ ih =>
    have hbranch : branchOf? t = branchOf? t' := by
      unfold branchOf?
      rw [ht.kind, ht.fields, ht.fields]
    rw [List.cons_append, List.cons_append, nearest, nearest, ht.kind, hbranch, ht.test, ih]

end

end Conditions

/-- **The condition of a visit is the innermost branch inside the nearest function.** There is one
exactly if the way up comes from a branch of a conditional before it leaves a function, and then it
describes the first such conditional. The steps of the way are those between the nodes of the tree.
What stands at the nearest function and above it may be replaced, as long as it stays a function.
The way from the test of a conditional comes from none of its branches, and the condition is the one
that it would have without that conditional. -/
theorem Module.condition_is_innermost_branch (m : Module) {f : Focus} (hf : f ∈ walk m.root)
    (limit : Int) :
    ((m.conditionOf f limit).isSome ↔ ∃ below s above b, f.above = below ++ s :: above ∧
      (∀ t ∈ below, t.parent.kind ∉ functionKinds) ∧ Conditions.Enters s b) ∧
    (∀ c, m.conditionOf f limit = some c ↔ ∃ below s above, f.above = below ++ s :: above ∧
      (∀ t ∈ below, t.parent.kind ∉ functionKinds ∧ ∀ b, ¬ Conditions.Enters t b) ∧
      Conditions.Describes m limit s c) ∧
    ∀ below s above, f.above = below ++ s :: above →
      s.parent.children[s.index]? = (f.node :: below.map (·.parent)).getLast? ∧
      (s.parent.kind ∈ functionKinds → ∀ (m' : Module) (f' : Focus) (below' : List Step)
        (s' : Step) (above' : List Step), f'.above = below' ++ s' :: above' →
        s'.parent.kind ∈ functionKinds → List.Forall₂ (Conditions.Alike m m') below below' →
        m'.conditionOf f' limit = m.conditionOf f limit) ∧
      (s.parent.kind ∈ ["if_statement", "ternary_expression"] →
        s.parent.fieldIndex? "condition" = some s.index →
        (∀ b, ¬ Conditions.Enters s b) ∧
        m.conditionOf f limit = m.conditionOf ⟨f.node, below ++ above⟩ limit) := by
  refine ⟨Conditions.isSome_nearest_iff, fun c => Conditions.nearest_eq_some_iff,
    fun below s above hway => ⟨child_on_way hf hway, ?_, ?_⟩⟩
  · intro hkind m' f' below' s' above' hway' hkind' halike
    rw [conditionOf, conditionOf, hway, hway']
    exact (Conditions.nearest_of_function halike hkind hkind').symm
  · intro hkind htest
    have hnone : s.parent.kind ∉ functionKinds :=
      (by decide : ∀ kind ∈ ["if_statement", "ternary_expression"], kind ∉ functionKinds) _ hkind
    refine ⟨Conditions.not_enters_of_test htest, ?_⟩
    rw [conditionOf, conditionOf, hway]
    exact Conditions.nearest_of_test hnone htest

/-! ### A ternary inside a test -/

namespace TestedCall

/-- The call in `if(a?f():b)c`. -/
def call : Node :=
  ⟨"call_expression", true, some "consequence", 5, 8,
    [⟨"identifier", true, some "function", 5, 6, []⟩,
     ⟨"arguments", true, some "arguments", 6, 8, []⟩]⟩

/-- The ternary around it. -/
def ternary : Node :=
  ⟨"ternary_expression", true, none, 3, 10,
    [⟨"identifier", true, some "condition", 3, 4, []⟩, ⟨"?", false, none, 4, 5, []⟩, call,
     ⟨":", false, none, 8, 9, []⟩, ⟨"identifier", true, some "alternative", 9, 10, []⟩]⟩

/-- The test, which the ternary is. -/
def test : Node :=
  ⟨"parenthesized_expression", true, some "condition", 2, 11,
    [⟨"(", false, none, 2, 3, []⟩, ternary, ⟨")", false, none, 10, 11, []⟩]⟩

/-- The statement with that test. -/
def statement : Node :=
  ⟨"if_statement", true, none, 0, 12,
    [⟨"if", false, none, 0, 2, []⟩, test,
     ⟨"expression_statement", true, some "consequence", 11, 12,
      [⟨"identifier", true, none, 11, 12, []⟩]⟩]⟩

/-- The source. -/
def source : Module where
  path := "a.js"
  text := "if(a?f():b)c"
  language := .javascript
  source := [105, 102, 40, 97, 63, 102, 40, 41, 58, 98, 41, 99]
  root := ⟨"program", true, none, 0, 12, [statement]⟩

/-- The way up from the call. -/
def way : List Step :=
  [⟨ternary, 2⟩, ⟨test, 1⟩, ⟨statement, 1⟩, ⟨source.root, 0⟩]

/-- The call is made if the test of the ternary holds; the statement around it does not matter. -/
theorem condition_of_ternary :
    ⟨call, way⟩ ∈ walk source.root ∧
      source.conditionOf ⟨call, way⟩ 80 = some ⟨"a", .ternaryThen⟩ ∧
      source.conditionOf ⟨call, way⟩ 80 =
        source.conditionOf ⟨call, [⟨ternary, 2⟩, ⟨test, 1⟩, ⟨source.root, 0⟩]⟩ 80 := by
  have hstatement : (Focus.ofRoot source.root).Reaches ⟨statement, way.drop 3⟩ :=
    .single (Focus.mem_below.mpr ⟨0, rfl, rfl, rfl⟩)
  have htest : (Focus.ofRoot source.root).Reaches ⟨test, way.drop 2⟩ :=
    .tail hstatement (Focus.mem_below.mpr ⟨1, rfl, rfl, rfl⟩)
  have hternary : (Focus.ofRoot source.root).Reaches ⟨ternary, way.drop 1⟩ :=
    .tail htest (Focus.mem_below.mpr ⟨1, rfl, rfl, rfl⟩)
  have hf : ⟨call, way⟩ ∈ walk source.root := (mem_walk_iff _ _).mpr
    (.tail hternary (Focus.mem_below.mpr ⟨2, rfl, rfl, rfl⟩))
  obtain ⟨-, hfound, hways⟩ := source.condition_is_innermost_branch hf 80
  have hdescribes : Conditions.Describes source 80 ⟨ternary, 2⟩ ⟨"a", .ternaryThen⟩ :=
    ⟨.ternaryThen rfl (by decide), .inr ⟨_, _, rfl, .plain (by decide), by decide⟩⟩
  exact ⟨hf, (hfound _).mpr ⟨[], _, _, rfl, by simp, hdescribes⟩,
    ((hways [⟨ternary, 2⟩, ⟨test, 1⟩] ⟨statement, 1⟩ [⟨source.root, 0⟩] rfl).2.2 (by decide)
      (by decide)).2⟩

end TestedCall

end CodeGraph
