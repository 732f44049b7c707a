import CodeGraph.Proofs.SymbolGraph.EdgeSet
import Mathlib.Data.Finset.Card

/-!
# Sets of edges forget how they were filled

A set of edges keeps its keys in the order in which they first came, and each key keeps its
conditions in a list of their own. Neither the order of the facts nor their repetitions can be told
from the edges: these are decided by which facts there were (`edges_perm`), and the size of a set
by which keys there were (`length_addAll`).
-/

namespace CodeGraph.EdgeSet

variable {κ : Type} [DecidableEq κ]

/-! ## Keys -/

/-- The keys of a filled set are those of its facts. -/
theorem mem_keys_addAll {facts : List (EdgeKey κ × Option Condition)} {k : EdgeKey κ} :
    k ∈ (addAll [] facts).keys ↔ ∃ c, (k, c) ∈ facts := by
  constructor
  · intro h
    obtain ⟨⟨k', cs⟩, hentry, rfl⟩ := List.mem_map.mp h
    exact ((mem_addAll facts k' cs).mp hentry).1
  · rintro ⟨c, hc⟩
    rw [← Table.get?_isSome_iff, get?_addAll, if_pos]
    · rfl
    · exact List.any_eq_true.mpr ⟨(k, c), hc, beq_self_eq_true k⟩

/-- A filled set is as large as the number of different keys. -/
theorem length_addAll (facts : List (EdgeKey κ × Option Condition)) :
    (addAll [] facts).length = (facts.map Prod.fst).toFinset.card := by
  have hkeys : (addAll [] facts).keys.toFinset = (facts.map Prod.fst).toFinset := by
    ext k
    rw [List.mem_toFinset, List.mem_toFinset, mem_keys_addAll]
    simp
  calc (addAll [] facts).length
      = (addAll [] facts).keys.length := (List.length_map _).symm
    _ = (addAll [] facts).keys.toFinset.card :=
        (List.toFinset_card_of_nodup (nodup_keys_addAll facts)).symm
    _ = (facts.map Prod.fst).toFinset.card := by rw [hkeys]

/-! ## Edges -/

omit [DecidableEq κ] in
theorem isKnown_iff {known : Option (List String)} {e : EdgeOf κ} :
    isKnown known e = true ↔ ∀ ids ∈ known, e.source ∈ ids ∧ e.target ∈ ids := by
  cases known with
  | none => simp [isKnown]
  | some ids => simp [isKnown]

/-- A key has an edge if a fact states it and its ends are known. -/
theorem mem_keys_edges {facts : List (EdgeKey κ × Option Condition)} {known : Option (List String)}
    {k : EdgeKey κ} :
    k ∈ ((addAll [] facts).edges known).map EdgeOf.key ↔
      (∃ c, (k, c) ∈ facts) ∧ ∀ ids ∈ known, k.source ∈ ids ∧ k.target ∈ ids := by
  constructor
  · intro h
    obtain ⟨e, he, rfl⟩ := List.mem_map.mp h
    obtain ⟨hgathers, hknown⟩ := (mem_edges_addAll facts known e).mp he
    exact ⟨hgathers.stated, isKnown_iff.mp hknown⟩
  · rintro ⟨⟨c, hc⟩, hknown⟩
    obtain ⟨e, rfl, hgathers⟩ := exists_gathers hc
    have he := (mem_edges_addAll facts known e).mpr ⟨hgathers, isKnown_iff.mpr hknown⟩
    exact List.mem_map_of_mem he

omit [DecidableEq κ] in
/-- An edge has no conditions exactly if all facts of its key are unconditional. -/
theorem unconditional_iff {facts : List (EdgeKey κ × Option Condition)} {e : EdgeOf κ}
    (h : e.Gathers facts) : e.conditions = none ↔ ∀ c, (e.key, c) ∈ facts → c = none := by
  rw [h.unconditional]
  constructor
  · intro hnone c hc
    cases c with
    | none => rfl
    | some c => exact absurd hc (hnone c)
  · intro hnone c hc
    exact absurd (hnone _ hc) (Option.some_ne_none c)

theorem nodup_edges (facts : List (EdgeKey κ × Option Condition)) (known : Option (List String)) :
    ((addAll [] facts).edges known).Nodup :=
  List.Nodup.of_map EdgeOf.key (nodup_keys_edges facts known)

theorem edges_perm {facts facts' : List (EdgeKey κ × Option Condition)}
    (hsame : ∀ fact, fact ∈ facts ↔ fact ∈ facts') (known : Option (List String)) :
    ((addAll [] facts).edges known).Perm ((addAll [] facts').edges known) := by
  rw [List.perm_ext_iff_of_nodup (nodup_edges facts known) (nodup_edges facts' known)]
  intro e
  rw [mem_edges_addAll, mem_edges_addAll, EdgeOf.gathers_congr (fun c => hsame (e.key, c))]

/-- **The facts decide the edges.** Two sets that were filled with the same facts, in whatever order
and however often, have the same edges up to their order. There is one edge for each key that a
fact states and whose ends are known. It has no conditions if all facts of the key are
unconditional; otherwise it lists the conditions of these facts, in order and each once. The size of
a set is the number of different keys. -/
theorem edges_decided_by_facts {facts facts' : List (EdgeKey κ × Option Condition)}
    (hsame : ∀ fact, fact ∈ facts ↔ fact ∈ facts') (known : Option (List String)) :
    ((addAll [] facts).edges known).Perm ((addAll [] facts').edges known) ∧
    (((addAll [] facts).edges known).map EdgeOf.key).Nodup ∧
    (∀ k, k ∈ ((addAll [] facts).edges known).map EdgeOf.key ↔
      (∃ c, (k, c) ∈ facts) ∧ ∀ ids ∈ known, k.source ∈ ids ∧ k.target ∈ ids) ∧
    (∀ e ∈ (addAll [] facts).edges known,
      (e.conditions = none ↔ ∀ c, (e.key, c) ∈ facts → c = none) ∧
      ∀ cs, e.conditions = some cs →
        cs.Pairwise (fun a b => a.key < b.key) ∧ ∀ c, c ∈ cs ↔ (e.key, some c) ∈ facts) ∧
    (addAll [] facts).length = (facts.map Prod.fst).toFinset.card := by
  refine ⟨edges_perm hsame known, nodup_keys_edges facts known, fun k => mem_keys_edges, ?_,
    length_addAll facts⟩
  intro e he
  have hgathers := ((mem_edges_addAll facts known e).mp he).1
  exact ⟨unconditional_iff hgathers,
    fun cs hcs => ⟨hgathers.ascending cs hcs, hgathers.carried cs hcs⟩⟩

/-! ### Two ways to fill a set -/

/-- A call under two conditions and under none, and a call of something unknown. -/
def guardedFacts : List (EdgeKey EdgeKind × Option Condition) :=
  [(⟨"a", "b", .calls⟩, some ⟨"y", .ifThen⟩), (⟨"a", "b", .calls⟩, none),
    (⟨"b", "z", .calls⟩, none), (⟨"a", "b", .calls⟩, some ⟨"x", .ifElse⟩)]

/-- The same facts, some of them twice and in another order. -/
def guardedFacts.shuffled : List (EdgeKey EdgeKind × Option Condition) :=
  [(⟨"b", "z", .calls⟩, none), (⟨"a", "b", .calls⟩, some ⟨"x", .ifElse⟩),
    (⟨"a", "b", .calls⟩, none), (⟨"a", "b", .calls⟩, some ⟨"y", .ifThen⟩),
    (⟨"a", "b", .calls⟩, some ⟨"x", .ifElse⟩)]

theorem shuffled_facts_agree :
    (∀ fact, fact ∈ guardedFacts ↔ fact ∈ guardedFacts.shuffled) ∧
    ((addAll [] guardedFacts).edges (some ["a", "b"])).Perm
      ((addAll [] guardedFacts.shuffled).edges (some ["a", "b"])) ∧
    (addAll [] guardedFacts.shuffled).edges (some ["a", "b"]) =
      [⟨"a", "b", .calls, some [⟨"x", .ifElse⟩, ⟨"y", .ifThen⟩]⟩] ∧
    (addAll [] guardedFacts).length = 2 := by
  have hsame : ∀ fact, fact ∈ guardedFacts ↔ fact ∈ guardedFacts.shuffled := by
    intro fact
    constructor
    · have hforth : ∀ f ∈ guardedFacts, f ∈ guardedFacts.shuffled := by decide
      exact hforth fact
    · have hback : ∀ f ∈ guardedFacts.shuffled, f ∈ guardedFacts := by decide
      exact hback fact
  exact ⟨hsame, (edges_decided_by_facts hsame (some ["a", "b"])).1, by decide,
    by decide⟩

end CodeGraph.EdgeSet
