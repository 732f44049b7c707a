import CodeGraph.Proofs.Table
import CodeGraph.SymbolGraph.EdgeSet
import Mathlib.Data.Prod.Lex
import Mathlib.Data.String.Basic

/-!
# What a set of edges holds

A set of edges is filled one fact at a time: a key (source, target, kind) with or without a
condition. Whatever the order and the repetitions, what comes out is decided by which facts went
in.

* `Condition.key`: the order of conditions as an order of pairs of texts.
* `EdgeOf.Gathers`: what the edge of a key has to look like, said about the facts alone.
* `mem_edges_addAll`: the edges of a filled set are exactly those that gather the facts, and
  `nodup_keys_edges`: there is one for each key.
-/

namespace CodeGraph

/-! ## The order of conditions -/

/-- What conditions are ordered by: the text, then the spelling of the branch. -/
def Condition.key (c : Condition) : String ×ₗ String :=
  toLex (c.text, c.branch.text)

theorem Branch.text_injective : Function.Injective Branch.text := by
  intro a b h
  cases a <;> cases b <;> first | rfl | exact absurd h (by decide)

theorem Condition.key_injective : Function.Injective Condition.key := by
  rintro ⟨t, b⟩ ⟨t', b'⟩ h
  obtain ⟨ht, hb⟩ := Prod.mk.inj (toLex.injective h)
  exact congr (congrArg Condition.mk ht) (Branch.text_injective hb)

theorem Condition.before_iff (a b : Condition) : a.before b = true ↔ a.key < b.key := by
  rw [Condition.before, Condition.key, Condition.key, Prod.Lex.toLex_lt_toLex]
  simp only [Bool.or_eq_true, Bool.and_eq_true, decide_eq_true_eq, beq_iff_eq]

namespace EdgeSet

/-! ## Conditions of one edge -/

/-- Conditions in order, each of them once. -/
def Ascending (cs : List Condition) : Prop :=
  cs.Pairwise (fun a b => a.key < b.key)

theorem mem_insertCondition (c d : Condition) (cs : List Condition) :
    d ∈ insertCondition c cs ↔ d = c ∨ d ∈ cs := by
  induction cs with
  | nil => simp [insertCondition]
  | cons x rest ih =>
    rw [insertCondition]
    split
    · exact List.mem_cons
    · split
      · rename_i heq
        rw [beq_iff_eq] at heq
        subst heq
        simp
      · rw [List.mem_cons, ih, List.mem_cons]
        exact or_left_comm

theorem ascending_insertCondition (c : Condition) {cs : List Condition} (h : Ascending cs) :
    Ascending (insertCondition c cs) := by
  induction cs with
  | nil => exact List.pairwise_singleton _ _
  | cons x rest ih =>
    obtain ⟨hx, hrest⟩ := List.pairwise_cons.mp h
    rw [insertCondition]
    split
    · rename_i hlt
      rw [Condition.before_iff] at hlt
      refine List.pairwise_cons.mpr ⟨fun y hy => ?_, h⟩
      rcases List.mem_cons.mp hy with rfl | hy
      · exact hlt
      · exact lt_trans hlt (hx y hy)
    · split
      · exact h
      · -- neither before nor equal, so the new condition goes after the first
        rename_i hnot hne
        rw [Condition.before_iff, not_lt] at hnot
        rw [beq_iff_eq] at hne
        have hlt : x.key < c.key :=
          lt_of_le_of_ne hnot (fun he => hne (Condition.key_injective he).symm)
        refine List.pairwise_cons.mpr ⟨fun y hy => ?_, ih hrest⟩
        rcases (mem_insertCondition c y rest).mp hy with rfl | hy
        · exact hlt
        · exact hx y hy

theorem mem_merge (c : Option Condition) (d : Condition) (cs : List Condition) :
    d ∈ merge c cs ↔ c = some d ∨ d ∈ cs := by
  cases c with
  | none => simp [merge]
  | some c =>
    rw [merge, mem_insertCondition, Option.some.injEq]
    exact or_congr_left eq_comm

theorem ascending_merge (c : Option Condition) {cs : List Condition} (h : Ascending cs) :
    Ascending (merge c cs) := by
  cases c with
  | none => exact h
  | some c => exact ascending_insertCondition c h

variable {κ : Type}

theorem mem_foldl_merge (facts : List (EdgeKey κ × Option Condition)) (cs : List Condition)
    (d : Condition) :
    d ∈ facts.foldl (fun cs f => merge f.2 cs) cs ↔ d ∈ cs ∨ ∃ f ∈ facts, f.2 = some d := by
  induction facts generalizing cs with
  | nil => simp
  | cons f rest ih =>
    rw [List.foldl_cons, ih, mem_merge, List.exists_mem_cons_iff]
    rw [or_comm (a := f.2 = some d), or_assoc]

theorem ascending_foldl_merge (facts : List (EdgeKey κ × Option Condition))
    {cs : List Condition} (h : Ascending cs) :
    Ascending (facts.foldl (fun cs f => merge f.2 cs) cs) := by
  induction facts generalizing cs with
  | nil => exact h
  | cons f rest ih => exact ih (ascending_merge f.2 h)

/-- Conditions in order are decided by which they are. -/
theorem Ascending.ext {cs ds : List Condition} (hc : Ascending cs) (hd : Ascending ds)
    (h : ∀ c, c ∈ cs ↔ c ∈ ds) : cs = ds := by
  have hirrefl : ∀ {l : List Condition}, Ascending l → l.Nodup := fun hl =>
    hl.imp (fun hlt heq => absurd (heq ▸ hlt) (lt_irrefl _))
  have hperm : cs.Perm ds := (List.perm_ext_iff_of_nodup (hirrefl hc) (hirrefl hd)).mpr h
  exact hperm.eq_of_pairwise (fun a b _ _ hab hba => absurd hab (lt_asymm hba)) hc hd

end EdgeSet

/-! ## Filling a set -/

variable {κ : Type}

/-- What tells an edge apart. -/
def EdgeOf.key (e : EdgeOf κ) : EdgeKey κ :=
  ⟨e.source, e.target, e.kind⟩

/-- The edge of a key, given the facts: it is stated by one of them, and it lists the conditions
that the facts of its key carry, in order and each once, or nothing if they carry none. -/
structure EdgeOf.Gathers (facts : List (EdgeKey κ × Option Condition)) (e : EdgeOf κ) : Prop where
  stated : ∃ c, (e.key, c) ∈ facts
  unconditional : e.conditions = none ↔ ∀ c, (e.key, some c) ∉ facts
  ascending : ∀ cs ∈ e.conditions, EdgeSet.Ascending cs
  carried : ∀ cs ∈ e.conditions, ∀ c, c ∈ cs ↔ (e.key, some c) ∈ facts

theorem EdgeOf.Gathers.of_facts {facts facts' : List (EdgeKey κ × Option Condition)}
    {e : EdgeOf κ} (h : e.Gathers facts) (hsame : ∀ c, (e.key, c) ∈ facts ↔ (e.key, c) ∈ facts') :
    e.Gathers facts' where
  stated := by simpa only [hsame] using h.stated
  unconditional := by simpa only [hsame] using h.unconditional
  ascending := h.ascending
  carried := by simpa only [hsame] using h.carried

/-- What an edge gathers is decided by the facts of its key. -/
theorem EdgeOf.gathers_congr {facts facts' : List (EdgeKey κ × Option Condition)} {e : EdgeOf κ}
    (hsame : ∀ c, (e.key, c) ∈ facts ↔ (e.key, c) ∈ facts') : e.Gathers facts ↔ e.Gathers facts' :=
  ⟨fun h => h.of_facts hsame, fun h => h.of_facts (fun c => (hsame c).symm)⟩

namespace EdgeSet

variable [DecidableEq κ]

/-- Add some facts, one after the other. -/
def addAll (set : EdgeSet κ) (facts : List (EdgeKey κ × Option Condition)) : EdgeSet κ :=
  facts.foldl (fun set f => set.add f.1.source f.1.target f.1.kind f.2) set

/-- The facts of one key. -/
def factsOf (facts : List (EdgeKey κ × Option Condition)) (k : EdgeKey κ) :
    List (EdgeKey κ × Option Condition) :=
  facts.filter (fun f => f.1 == k)

theorem mem_factsOf {facts : List (EdgeKey κ × Option Condition)} {k : EdgeKey κ}
    {f : EdgeKey κ × Option Condition} : f ∈ factsOf facts k ↔ f ∈ facts ∧ f.1 = k := by
  simp [factsOf]

/-- A key has the conditions of its own facts. -/
theorem get?_addAll (facts : List (EdgeKey κ × Option Condition)) (k : EdgeKey κ) :
    (addAll [] facts).get? k =
      if facts.any (fun f => f.1 == k) then
        some ((factsOf facts k).foldl (fun cs f => merge f.2 cs) [])
      else none :=
  Table.get?_foldl_update (fun f : EdgeKey κ × Option Condition => f.1) []
    (fun f => merge f.2) facts [] k

theorem nodup_keys_addAll (facts : List (EdgeKey κ × Option Condition)) :
    (addAll [] facts).keys.Nodup :=
  Table.nodup_keys_foldl_update (fun f : EdgeKey κ × Option Condition => f.1) []
    (fun f => merge f.2) facts List.nodup_nil

theorem mem_addAll (facts : List (EdgeKey κ × Option Condition)) (k : EdgeKey κ)
    (cs : List Condition) :
    (k, cs) ∈ addAll [] facts ↔
      (∃ c, (k, c) ∈ facts) ∧ Ascending cs ∧ ∀ c, c ∈ cs ↔ (k, some c) ∈ facts := by
  have hasc : Ascending ((factsOf facts k).foldl (fun cs f => merge f.2 cs) []) :=
    ascending_foldl_merge _ List.Pairwise.nil
  have hmem : ∀ c, c ∈ (factsOf facts k).foldl (fun cs f => merge f.2 cs) [] ↔
      (k, some c) ∈ facts := by
    intro c
    rw [mem_foldl_merge]
    constructor
    · rintro (h | ⟨⟨k', c'⟩, hf, rfl⟩)
      · exact absurd h List.not_mem_nil
      · obtain ⟨hfact, rfl⟩ := mem_factsOf.mp hf
        exact hfact
    · intro h
      exact Or.inr ⟨(k, some c), mem_factsOf.mpr ⟨h, rfl⟩, rfl⟩
  have hany : facts.any (fun f => f.1 == k) = true ↔ ∃ c, (k, c) ∈ facts := by
    simp only [List.any_eq_true, beq_iff_eq, Prod.exists]
    exact ⟨fun ⟨_, c, h, he⟩ => ⟨c, he ▸ h⟩, fun ⟨c, h⟩ => ⟨k, c, h, rfl⟩⟩
  rw [Table.mem_iff_get? (nodup_keys_addAll facts), get?_addAll]
  constructor
  · intro h
    split at h
    · rename_i hstated
      obtain rfl := Option.some.inj h
      exact ⟨hany.mp hstated, hasc, hmem⟩
    · exact absurd h (by simp)
  · rintro ⟨hstated, hcs, hcarried⟩
    rw [if_pos (hany.mpr hstated)]
    exact congrArg some (hasc.ext hcs (fun c => (hmem c).trans (hcarried c).symm))

/-! ## The edges of a filled set -/

omit [DecidableEq κ] in
theorem toEdge_eq_iff (entry : EdgeKey κ × List Condition) (e : EdgeOf κ) :
    toEdge entry = e ↔ entry.1 = e.key ∧
      e.conditions = if entry.2.isEmpty then none else some entry.2 := by
  constructor
  · rintro rfl
    exact ⟨rfl, rfl⟩
  · obtain ⟨s, t, kind, conditions⟩ := e
    rintro ⟨hkey, rfl⟩
    rw [toEdge, hkey]
    rfl

theorem exists_mem_addAll_iff_gathers (facts : List (EdgeKey κ × Option Condition))
    (e : EdgeOf κ) : (∃ entry ∈ addAll [] facts, toEdge entry = e) ↔ e.Gathers facts := by
  constructor
  · rintro ⟨⟨k, cs⟩, hentry, he⟩
    obtain ⟨rfl, hconditions⟩ := (toEdge_eq_iff _ e).mp he
    obtain ⟨hstated, hasc, hcarried⟩ := (mem_addAll facts _ cs).mp hentry
    cases cs with
    | nil =>
      have hnone : e.conditions = none := hconditions
      refine ⟨hstated, ⟨fun _ c hc => ?_, fun _ => hnone⟩, ?_, ?_⟩
      · exact absurd ((hcarried c).mpr hc) List.not_mem_nil
      · simp [hnone]
      · simp [hnone]
    | cons c rest =>
      have hsome : e.conditions = some (c :: rest) := hconditions
      refine ⟨hstated, ⟨fun h => ?_, fun h => ?_⟩, ?_, ?_⟩
      · exact absurd (hsome.symm.trans h) (by simp)
      · exact absurd ((hcarried c).mp List.mem_cons_self) (h c)
      · simpa [hsome] using hasc
      · simpa [hsome] using hcarried
  · rintro ⟨hstated, hunconditional, hasc, hcarried⟩
    cases hconditions : e.conditions with
    | none =>
      refine ⟨(e.key, []), (mem_addAll facts _ _).mpr ⟨hstated, List.Pairwise.nil, ?_⟩, ?_⟩
      · intro c
        exact ⟨fun h => absurd h List.not_mem_nil,
          fun h => absurd h (hunconditional.mp hconditions c)⟩
      · exact (toEdge_eq_iff _ e).mpr ⟨rfl, hconditions⟩
    | some cs =>
      have hcs : ∀ c, c ∈ cs ↔ (e.key, some c) ∈ facts := hcarried cs hconditions
      refine ⟨(e.key, cs), (mem_addAll facts _ _).mpr ⟨hstated, hasc cs hconditions, hcs⟩, ?_⟩
      cases cs with
      | nil =>
        -- a list of no conditions would have been written as nothing
        have hnone : e.conditions = none :=
          hunconditional.mpr (fun c hc => absurd ((hcs c).mpr hc) List.not_mem_nil)
        exact absurd (hconditions.symm.trans hnone) (by simp)
      | cons c rest => exact (toEdge_eq_iff _ e).mpr ⟨rfl, hconditions⟩

/-- A stated key has an edge. -/
theorem exists_gathers {facts : List (EdgeKey κ × Option Condition)} {k : EdgeKey κ}
    {c : Option Condition} (h : (k, c) ∈ facts) : ∃ e : EdgeOf κ, e.key = k ∧ e.Gathers facts := by
  have hany : facts.any (fun f => f.1 == k) = true :=
    List.any_eq_true.mpr ⟨(k, c), h, beq_self_eq_true k⟩
  have hfound := get?_addAll facts k
  rw [if_pos hany] at hfound
  exact ⟨_, rfl, (exists_mem_addAll_iff_gathers facts _).mp ⟨_, Table.mem_of_get? hfound, rfl⟩⟩

/-- The edges of a filled set are those that gather its facts, as far as they are known. -/
theorem mem_edges_addAll (facts : List (EdgeKey κ × Option Condition))
    (known : Option (List String)) (e : EdgeOf κ) :
    e ∈ (addAll [] facts).edges known ↔ e.Gathers facts ∧ isKnown known e = true := by
  rw [edges, List.mem_filter, List.mem_map, exists_mem_addAll_iff_gathers]

/-- A filled set has one edge for each key. -/
theorem nodup_keys_edges (facts : List (EdgeKey κ × Option Condition))
    (known : Option (List String)) : (((addAll [] facts).edges known).map EdgeOf.key).Nodup := by
  have hkeys : ((addAll [] facts).map toEdge).map EdgeOf.key = (addAll [] facts).keys := by
    rw [List.map_map]
    rfl
  refine List.Nodup.sublist (List.filter_sublist.map EdgeOf.key) ?_
  rw [hkeys]
  exact nodup_keys_addAll facts

end EdgeSet

end CodeGraph
