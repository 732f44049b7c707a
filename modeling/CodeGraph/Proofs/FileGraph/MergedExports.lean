import CodeGraph.FileGraph.Assemble
import Mathlib.Data.List.Basic

/-!
# Exports filled up with declarations

A file is shown with its exports and, behind them, with what else it declares. The names that are
taken grow while the declarations are read, so a name is added once, by its first declaration
(`mem_addDeclared`), and in the order of first declarations (`addDeclared_pairwise`). Afterwards
every declared name is taken, so filling up again adds nothing (`addDeclared_eq_nil`).
-/

namespace CodeGraph

theorem DeclarationKind.text_toExport (k : DeclarationKind) : k.toExport.text = k.text := by
  cases k <;> rfl

/-- The first declaration of a name. -/
def firstDeclaration? (declarations : List Declaration) (name : String) : Option Declaration :=
  declarations.find? (fun d => d.name == name)

/-- How many declarations are read before the name is declared for the first time. -/
def declaredAt (declarations : List Declaration) (name : String) : Nat :=
  (declarations.map (·.name)).idxOf name

section FirstDeclarations

variable {d : Declaration} {rest : List Declaration} {name : String}

theorem firstDeclaration?_self (d : Declaration) (rest : List Declaration) :
    firstDeclaration? (d :: rest) d.name = some d :=
  List.find?_cons_of_pos (beq_self_eq_true d.name)

theorem firstDeclaration?_of_ne (h : d.name ≠ name) :
    firstDeclaration? (d :: rest) name = firstDeclaration? rest name :=
  List.find?_cons_of_neg (by simpa using h)

theorem declaredAt_self (d : Declaration) (rest : List Declaration) :
    declaredAt (d :: rest) d.name = 0 :=
  List.idxOf_cons_self

theorem declaredAt_of_ne (h : d.name ≠ name) :
    declaredAt (d :: rest) name = declaredAt rest name + 1 :=
  List.idxOf_cons_ne _ h

theorem exists_firstDeclaration? {declarations : List Declaration} :
    (∃ d, firstDeclaration? declarations name = some d) ↔ name ∈ declarations.map (·.name) := by
  rw [← Option.isSome_iff_exists, firstDeclaration?, List.find?_isSome, List.mem_map]
  simp only [beq_iff_eq]

end FirstDeclarations

theorem addDeclared_of_mem {taken : List String} {d : Declaration} (h : d.name ∈ taken)
    (rest : List Declaration) : addDeclared taken (d :: rest) = addDeclared taken rest := by
  rw [addDeclared, if_pos (List.contains_iff_mem.mpr h)]

theorem addDeclared_of_not_mem {taken : List String} {d : Declaration} (h : d.name ∉ taken)
    (rest : List Declaration) : addDeclared taken (d :: rest) =
      ⟨d.name, d.kind.toExport⟩ :: addDeclared (d.name :: taken) rest := by
  rw [addDeclared, if_neg (fun hmem => h (List.contains_iff_mem.mp hmem))]

/-- What is added are the names that are declared and not taken, each with the kind of its first
declaration. -/
theorem mem_addDeclared {taken : List String} {declarations : List Declaration} {e : Export} :
    e ∈ addDeclared taken declarations ↔ e.name ∉ taken ∧
      ∃ d, firstDeclaration? declarations e.name = some d ∧ e.kind = d.kind.toExport := by
  induction declarations generalizing taken with
  | nil => simp [addDeclared, firstDeclaration?]
  | cons d rest ih =>
    by_cases hname : d.name = e.name
    · -- the first declaration of the name: it is added here or not at all
      rw [← hname, firstDeclaration?_self]
      by_cases htaken : d.name ∈ taken
      · rw [addDeclared_of_mem htaken, ih, ← hname]
        exact iff_of_false (fun h => h.1 htaken) (fun h => h.1 htaken)
      · rw [addDeclared_of_not_mem htaken, List.mem_cons, ih, ← hname]
        constructor
        · rintro (rfl | ⟨hnot, -⟩)
          · exact ⟨htaken, d, rfl, rfl⟩
          · exact absurd List.mem_cons_self hnot
        · rintro ⟨-, d', hd', hkind⟩
          obtain rfl := Option.some.inj hd'
          obtain ⟨name, kind⟩ := e
          rw [Export.mk.injEq]
          exact Or.inl ⟨hname.symm, hkind⟩
    · rw [firstDeclaration?_of_ne hname]
      by_cases htaken : d.name ∈ taken
      · rw [addDeclared_of_mem htaken, ih]
      · rw [addDeclared_of_not_mem htaken, List.mem_cons, ih, List.mem_cons, not_or]
        constructor
        · rintro (rfl | ⟨⟨-, hnot⟩, hfirst⟩)
          · exact absurd rfl hname
          · exact ⟨hnot, hfirst⟩
        · rintro ⟨hnot, hfirst⟩
          exact Or.inr ⟨⟨fun heq => hname heq.symm, hnot⟩, hfirst⟩

theorem name_not_mem_of_mem_addDeclared {taken : List String} {declarations : List Declaration}
    {e : Export} (h : e ∈ addDeclared taken declarations) : e.name ∉ taken :=
  (mem_addDeclared.mp h).1

/-- Names are added in the order in which they are first declared. -/
theorem addDeclared_pairwise (taken : List String) (declarations : List Declaration) :
    (addDeclared taken declarations).Pairwise
      (fun e f => declaredAt declarations e.name < declaredAt declarations f.name) := by
  induction declarations generalizing taken with
  | nil => exact List.Pairwise.nil
  | cons d rest ih =>
    -- names other than the first one are declared one place later than in the rest
    have hshift : ∀ {names : List String}, d.name ∈ names →
        (addDeclared names rest).Pairwise
          (fun e f => declaredAt (d :: rest) e.name < declaredAt (d :: rest) f.name) := by
      intro names hmem
      refine (ih names).imp_of_mem ?_
      intro e f he hf hlt
      have hother : ∀ {g : Export}, g ∈ addDeclared names rest → d.name ≠ g.name :=
        fun hg heq => name_not_mem_of_mem_addDeclared hg (heq ▸ hmem)
      rw [declaredAt_of_ne (hother he), declaredAt_of_ne (hother hf)]
      exact Nat.succ_lt_succ hlt
    by_cases htaken : d.name ∈ taken
    · rw [addDeclared_of_mem htaken]
      exact hshift htaken
    · rw [addDeclared_of_not_mem htaken, List.pairwise_cons]
      refine ⟨fun e he => ?_, hshift List.mem_cons_self⟩
      have hne : d.name ≠ e.name :=
        fun heq => name_not_mem_of_mem_addDeclared he (heq ▸ List.mem_cons_self)
      rw [declaredAt_self, declaredAt_of_ne hne]
      exact Nat.succ_pos _

theorem nodup_addDeclared (taken : List String) (declarations : List Declaration) :
    ((addDeclared taken declarations).map (·.name)).Nodup := by
  refine List.pairwise_map.mpr ((addDeclared_pairwise taken declarations).imp ?_)
  intro e f hlt heq
  rw [heq] at hlt
  exact Nat.lt_irrefl _ hlt

theorem addDeclared_eq_nil {taken : List String} {declarations : List Declaration}
    (h : ∀ name ∈ declarations.map (·.name), name ∈ taken) :
    addDeclared taken declarations = [] := by
  rw [List.eq_nil_iff_forall_not_mem]
  intro e he
  obtain ⟨hnot, d, hd, -⟩ := mem_addDeclared.mp he
  exact hnot (h e.name (exists_firstDeclaration?.mp ⟨d, hd⟩))

namespace FileRecord

variable (r : FileRecord)

/-- The names that are shown are those exported and those declared. -/
theorem mem_names_mergedExports (name : String) :
    name ∈ r.mergedExports.map (·.name) ↔
      name ∈ r.exports.map (·.name) ∨ name ∈ r.declarations.map (·.name) := by
  rw [mergedExports, List.map_append, List.mem_append, List.mem_map (l := addDeclared _ _)]
  constructor
  · rintro (hexported | ⟨e, he, rfl⟩)
    · exact Or.inl hexported
    · obtain ⟨-, d, hd, -⟩ := mem_addDeclared.mp he
      exact Or.inr (exists_firstDeclaration?.mp ⟨d, hd⟩)
  · intro h
    by_cases hexported : name ∈ r.exports.map (·.name)
    · exact Or.inl hexported
    · obtain ⟨d, hd⟩ := exists_firstDeclaration?.mpr (h.resolve_left hexported)
      exact Or.inr ⟨⟨name, d.kind.toExport⟩, mem_addDeclared.mpr ⟨hexported, d, hd, rfl⟩, rfl⟩

/-- With what was added among its exports, a record has nothing more to add. -/
theorem mergedExports_mergedExports :
    { r with exports := r.mergedExports }.mergedExports = r.mergedExports := by
  have hnone : addDeclared (r.mergedExports.map (·.name)) r.declarations = [] :=
    addDeclared_eq_nil fun name h => (r.mem_names_mergedExports name).mpr (Or.inr h)
  show r.mergedExports ++ addDeclared (r.mergedExports.map (·.name)) r.declarations = _
  rw [hnone, List.append_nil]

/-- **Declarations fill up the exports.** The exports of a record come first and as they are. Behind
them stands one entry for each name that is declared and not exported, in the order of the names'
first declarations and with the kinds of these. Together they have the names that are exported or
declared and no others, no name is added twice or besides an export, and doing it again changes
nothing. -/
theorem mergedExports_fill_up :
    ∃ added, r.mergedExports = r.exports ++ added ∧
      (∀ e, e ∈ added ↔ e.name ∉ r.exports.map (·.name) ∧
        ∃ d, firstDeclaration? r.declarations e.name = some d ∧ e.kind = d.kind.toExport) ∧
      (∀ k : DeclarationKind, k.toExport.text = k.text) ∧
      added.Pairwise (fun e f =>
        declaredAt r.declarations e.name < declaredAt r.declarations f.name) ∧
      (added.map (·.name)).Nodup ∧ (∀ e ∈ added, e.name ∉ r.exports.map (·.name)) ∧
      (∀ name, name ∈ r.mergedExports.map (·.name) ↔
        name ∈ r.exports.map (·.name) ∨ name ∈ r.declarations.map (·.name)) ∧
      { r with exports := r.mergedExports }.mergedExports = r.mergedExports := by
  refine ⟨addDeclared (r.exports.map (·.name)) r.declarations, rfl, fun e => mem_addDeclared,
    DeclarationKind.text_toExport, addDeclared_pairwise _ _, nodup_addDeclared _ _, ?_,
    r.mem_names_mergedExports, r.mergedExports_mergedExports⟩
  exact fun e he => name_not_mem_of_mem_addDeclared he

end FileRecord

example : addDeclared ["run"] [⟨"ab", .variableDef⟩, ⟨"run", .function⟩, ⟨"A", .classDef⟩,
    ⟨"ab", .function⟩] = [⟨"ab", .variableDef⟩, ⟨"A", .classDef⟩] := by
  decide

end CodeGraph
