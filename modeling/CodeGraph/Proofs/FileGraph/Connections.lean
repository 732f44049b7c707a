import CodeGraph.FileGraph.Builder
import CodeGraph.Proofs.Table
import Mathlib

/-!
# What connections add up to

A builder is told facts, one after the other: imports and script tags. What it has counted at the
end is said here about the facts alone, pair by pair, so that their order cannot matter.

* `ConnectionFact`, `FileGraphBuilder.ofFacts`: the facts and the builder that was told them.
* `total`, `references`: what the facts say about an unordered pair of files.
* `get?_connections`: the builder keeps one connection for each pair that a fact joins.
* `mem_edges_ofFacts`, `edges_ofFacts_ascending`: the edges are the pairs with a total, in order.
* `incomingCount_ofFacts`: imports of a file are counted whether or not they connect anything.
-/

namespace CodeGraph

/-- What a builder is told. -/
inductive ConnectionFact where
  | importOf (file : String) (i : Import)
  | scriptOf (page script : String)
  deriving DecidableEq, Repr

/-- A fact about the first two files joins the other two: it does so in either direction, and a
file is never joined to itself. -/
def Joins (source target a b : String) : Prop :=
  target ≠ source ∧ (source = a ∧ target = b ∨ source = b ∧ target = a)

instance (source target a b : String) : Decidable (Joins source target a b) :=
  inferInstanceAs (Decidable (_ ∧ _))

namespace ConnectionFact

/-- The file that says it. -/
def source : ConnectionFact → String
  | importOf file _ => file
  | scriptOf page _ => page

/-- The file it leads to, if it leads anywhere. -/
def target? : ConnectionFact → Option String
  | importOf _ i => i.resolved
  | scriptOf _ script => some script

/-- The names it counts for. -/
def names : ConnectionFact → List String
  | importOf _ i => i.specifiers.map (·.name)
  | scriptOf _ _ => [FileGraphBuilder.scriptReference]

/-- Does it connect two files, the second one being known? -/
def Connects (known : List String) (a b : String) (f : ConnectionFact) : Prop :=
  ∃ target ∈ f.target?, target ∈ known ∧ Joins f.source target a b

instance (known : List String) (a b : String) (f : ConnectionFact) :
    Decidable (f.Connects known a b) :=
  inferInstanceAs (Decidable (∃ target ∈ f.target?, _))

/-- Is it an import of this file? -/
def isImportOf (path : String) : ConnectionFact → Bool
  | importOf _ i => i.resolved == some path
  | scriptOf _ _ => false

/-- The imports between two files. -/
def importsBetween (known : List String) (facts : List ConnectionFact) (a b : String) :
    List Import :=
  facts.filterMap fun
    | importOf file i => if (importOf file i).Connects known a b then some i else none
    | scriptOf _ _ => none

/-- The number of script tags between two files. -/
def scriptsBetween (known : List String) (facts : List ConnectionFact) (a b : String) : Nat :=
  facts.countP fun
    | importOf _ _ => false
    | scriptOf page script => (scriptOf page script).Connects known a b

/-- What the facts add up to between two files: the names of the imports and the script tags. -/
def total (known : List String) (facts : List ConnectionFact) (a b : String) : Nat :=
  ((importsBetween known facts a b).map (·.specifiers.length)).sum + scriptsBetween known facts a b

/-- What the facts refer to between two files: the names of the imports, and a mark for each
script tag. -/
def references (known : List String) (facts : List ConnectionFact) (a b : String) :
    List String :=
  (importsBetween known facts a b).flatMap (fun i => i.specifiers.map (·.name)) ++
    List.replicate (scriptsBetween known facts a b) FileGraphBuilder.scriptReference

theorem length_references (known : List String) (facts : List ConnectionFact) (a b : String) :
    (references known facts a b).length = total known facts a b := by
  simp [references, total, List.length_flatMap]

/-! ## Order does not matter -/

theorem importsBetween_perm (known : List String) {facts facts' : List ConnectionFact}
    (h : facts.Perm facts') (a b : String) :
    (importsBetween known facts a b).Perm (importsBetween known facts' a b) :=
  h.filterMap _

theorem scriptsBetween_perm (known : List String) {facts facts' : List ConnectionFact}
    (h : facts.Perm facts') (a b : String) :
    scriptsBetween known facts a b = scriptsBetween known facts' a b :=
  h.countP_eq _

theorem references_perm (known : List String) {facts facts' : List ConnectionFact}
    (h : facts.Perm facts') (a b : String) :
    (references known facts a b).Perm (references known facts' a b) := by
  rw [references, references, scriptsBetween_perm known h]
  exact ((importsBetween_perm known h a b).flatMap_right _).append_right _

theorem total_perm (known : List String) {facts facts' : List ConnectionFact}
    (h : facts.Perm facts') (a b : String) : total known facts a b = total known facts' a b := by
  rw [← length_references, ← length_references]
  exact (references_perm known h a b).length_eq

/-! ## The names in the order in which they came -/

/-- The names of the facts between two files, as they came. -/
def namesBetween (known : List String) (facts : List ConnectionFact) (a b : String) :
    List String :=
  (facts.filter (fun f => f.Connects known a b)).flatMap names

theorem namesBetween_cons (known : List String) (f : ConnectionFact) (rest : List ConnectionFact)
    (a b : String) :
    namesBetween known (f :: rest) a b =
      (if f.Connects known a b then f.names else []) ++ namesBetween known rest a b := by
  by_cases h : f.Connects known a b <;> simp [namesBetween, h]

theorem references_cons_of_not_connects {known : List String} {f : ConnectionFact} {a b : String}
    (h : ¬ f.Connects known a b) (rest : List ConnectionFact) :
    references known (f :: rest) a b = references known rest a b := by
  cases f <;> simp [references, importsBetween, scriptsBetween, h]

theorem references_cons_perm {known : List String} {f : ConnectionFact} {a b : String}
    (h : f.Connects known a b) (rest : List ConnectionFact) :
    (references known (f :: rest) a b).Perm (f.names ++ references known rest a b) := by
  cases f with
  | importOf file i =>
    refine List.Perm.of_eq ?_
    simp [references, importsBetween, scriptsBetween, h, names]
  | scriptOf page script =>
    have hlast : references known (scriptOf page script :: rest) a b =
        references known rest a b ++ [FileGraphBuilder.scriptReference] := by
      simp [references, importsBetween, scriptsBetween, h, List.replicate_succ']
    rw [hlast]
    exact List.perm_append_singleton _ _

/-- As they came, the names are the references in another order. -/
theorem namesBetween_perm_references (known : List String) (facts : List ConnectionFact)
    (a b : String) : (namesBetween known facts a b).Perm (references known facts a b) := by
  induction facts with
  | nil => exact List.Perm.nil
  | cons f rest ih =>
    rw [namesBetween_cons]
    by_cases h : f.Connects known a b
    · rw [if_pos h]
      exact (ih.append_left f.names).trans (references_cons_perm h rest).symm
    · rw [if_neg h, references_cons_of_not_connects h]
      exact ih

theorem length_namesBetween (known : List String) (facts : List ConnectionFact) (a b : String) :
    (namesBetween known facts a b).length = total known facts a b := by
  rw [← length_references]
  exact (namesBetween_perm_references known facts a b).length_eq

/-- Where something adds up, a fact connects. -/
theorem exists_connects_of_total {known : List String} {facts : List ConnectionFact}
    {a b : String} (h : 0 < total known facts a b) : ∃ f ∈ facts, f.Connects known a b := by
  rw [← length_namesBetween] at h
  obtain ⟨name, hname⟩ := List.exists_mem_of_length_pos h
  obtain ⟨f, hf, -⟩ := List.mem_flatMap.mp hname
  exact ⟨f, (List.mem_filter.mp hf).1, by simpa using (List.mem_filter.mp hf).2⟩

/-! ## The pair that a fact counts for -/

/-- The pair under which a fact is counted, if it is counted. -/
def pair? (known : List String) (f : ConnectionFact) : Option (String × String) :=
  f.target?.bind fun target =>
    if target ∈ known ∧ target ≠ f.source then some (canonicalPair f.source target) else none

theorem canonicalPair_eq_iff {source target a b : String} (h : target ≠ source) :
    canonicalPair source target = (a, b) ↔
      a < b ∧ (source = a ∧ target = b ∨ source = b ∧ target = a) := by
  unfold canonicalPair
  split
  · rename_i hle
    have hlt : source < target := lt_of_le_of_ne hle h.symm
    constructor
    · rintro ⟨⟩
      exact ⟨hlt, Or.inl ⟨rfl, rfl⟩⟩
    · rintro ⟨hab, ⟨rfl, rfl⟩ | ⟨rfl, rfl⟩⟩
      · rfl
      · exact absurd hab (lt_asymm hlt)
  · rename_i hle
    have hlt : target < source := not_le.mp hle
    constructor
    · rintro ⟨⟩
      exact ⟨hlt, Or.inr ⟨rfl, rfl⟩⟩
    · rintro ⟨hab, ⟨rfl, rfl⟩ | ⟨rfl, rfl⟩⟩
      · exact absurd hab (lt_asymm hlt)
      · rfl

/-- A fact is counted under the pair of the files that it connects, in their order. -/
theorem pair?_eq_some_iff (known : List String) (f : ConnectionFact) (a b : String) :
    f.pair? known = some (a, b) ↔ a < b ∧ f.Connects known a b := by
  constructor
  · intro h
    obtain ⟨target, htarget, hpair⟩ := Option.bind_eq_some_iff.mp h
    split at hpair
    · rename_i hknown
      obtain ⟨hab, hends⟩ := (canonicalPair_eq_iff hknown.2).mp (Option.some.inj hpair)
      exact ⟨hab, target, htarget, hknown.1, hknown.2, hends⟩
    · exact absurd hpair (by simp)
  · rintro ⟨hab, target, htarget, hknown, hne, hends⟩
    refine Option.bind_eq_some_iff.mpr ⟨target, htarget, ?_⟩
    rw [if_pos ⟨hknown, hne⟩, (canonicalPair_eq_iff hne).mpr ⟨hab, hends⟩]

/-- The pairs counted, each with its names. -/
def links (known : List String) (facts : List ConnectionFact) :
    List ((String × String) × List String) :=
  facts.filterMap (fun f => (f.pair? known).map (fun pair => (pair, f.names)))

theorem flatMap_names_links (known : List String) (facts : List ConnectionFact) {a b : String}
    (hab : a < b) :
    ((links known facts).filter (fun x => x.1 == (a, b))).flatMap (·.2) =
      namesBetween known facts a b := by
  induction facts with
  | nil => rfl
  | cons f rest ih =>
    have hiff := pair?_eq_some_iff known f a b
    rw [namesBetween_cons]
    cases hpair : f.pair? known with
    | none =>
      have hnot : ¬ f.Connects known a b := fun hc => by
        simpa [hpair] using hiff.mpr ⟨hab, hc⟩
      have hlinks : links known (f :: rest) = links known rest := by
        simp [links, hpair]
      rw [hlinks, ih, if_neg hnot, List.nil_append]
    | some pair =>
      have hlinks : links known (f :: rest) = (pair, f.names) :: links known rest := by
        simp [links, hpair]
      rw [hlinks, List.filter_cons]
      by_cases hkey : pair = (a, b)
      · have hyes : f.Connects known a b := (hiff.mp (hkey ▸ hpair)).2
        rw [if_pos (by simpa using hkey), List.flatMap_cons, ih, if_pos hyes]
      · have hnot : ¬ f.Connects known a b := fun hc =>
          hkey (Option.some.inj (hpair.symm.trans (hiff.mpr ⟨hab, hc⟩)))
        rw [if_neg (by simpa using hkey), ih, if_neg hnot, List.nil_append]

theorem any_links_iff (known : List String) (facts : List ConnectionFact) (a b : String) :
    (links known facts).any (fun x => x.1 == (a, b)) = true ↔
      a < b ∧ ∃ f ∈ facts, f.Connects known a b := by
  rw [List.any_eq_true]
  constructor
  · rintro ⟨x, hx, hkey⟩
    obtain ⟨f, hf, hlink⟩ := List.mem_filterMap.mp hx
    obtain ⟨pair, hpair, rfl⟩ := Option.map_eq_some_iff.mp hlink
    obtain rfl : pair = (a, b) := beq_iff_eq.mp hkey
    obtain ⟨hab, hconnects⟩ := (pair?_eq_some_iff known f a b).mp hpair
    exact ⟨hab, f, hf, hconnects⟩
  · rintro ⟨hab, f, hf, hconnects⟩
    have hpair := (pair?_eq_some_iff known f a b).mpr ⟨hab, hconnects⟩
    exact ⟨((a, b), f.names), List.mem_filterMap.mpr ⟨f, hf, by rw [hpair]; rfl⟩, by simp⟩

end ConnectionFact

namespace FileGraphBuilder

/-! ## What the builder keeps -/

/-- Count one fact. -/
def tell (b : FileGraphBuilder) : ConnectionFact → FileGraphBuilder
  | .importOf file i => b.addImport file i
  | .scriptOf page script => b.addScript page script

/-- The builder that was told these facts, in this order. -/
def ofFacts (known : List String) (facts : List ConnectionFact) : FileGraphBuilder :=
  facts.foldl tell (new known)

/-- A connection with more names. -/
def extend (names : List String) (c : Connection) : Connection :=
  ⟨c.weight + names.length, c.references ++ names⟩

/-- Connect two files if the second one is known. -/
def connectKnown (b : FileGraphBuilder) (source target : String) (names : List String) :
    FileGraphBuilder :=
  if b.known.contains target then b.connect source target names else b

/-- Connecting changes the connections only, and of these only the one of the pair. -/
theorem connectKnown_eq (b : FileGraphBuilder) (source target : String) (names : List String) :
    b.connectKnown source target names =
      { b with connections :=
          if target ∈ b.known ∧ target ≠ source then
            b.connections.update (canonicalPair source target) ⟨0, []⟩ (extend names)
          else b.connections } := by
  unfold connectKnown connect
  by_cases hknown : target ∈ b.known
  · by_cases hself : source = target
    · simp [hself]
    · rw [if_pos (by simpa using hknown), if_neg (by simpa using hself),
        if_pos ⟨hknown, Ne.symm hself⟩]
      rfl
  · simp [hknown]

/-- Telling a fact counts it as incoming, if it is an import, and then connects its files. -/
theorem tell_eq (b : FileGraphBuilder) (f : ConnectionFact) :
    b.tell f =
      match f.target? with
      | none => b
      | some target =>
        connectKnown
          { b with incoming :=
              if f.isImportOf target then b.incoming.update target 0 (· + 1) else b.incoming }
          f.source target f.names := by
  cases f with
  | importOf file i =>
    obtain ⟨source, _ | target, specifiers⟩ := i
    · rfl
    · simp [tell, addImport, connectKnown, ConnectionFact.target?, ConnectionFact.isImportOf,
        ConnectionFact.source, ConnectionFact.names]
  | scriptOf page script => rfl

theorem known_tell (b : FileGraphBuilder) (f : ConnectionFact) : (b.tell f).known = b.known := by
  rw [tell_eq]
  split
  · rfl
  · rw [connectKnown_eq]

/-- One fact changes the connection of its own pair only. -/
theorem connections_tell (b : FileGraphBuilder) (f : ConnectionFact) :
    (b.tell f).connections =
      match f.pair? b.known with
      | some pair => b.connections.update pair ⟨0, []⟩ (extend f.names)
      | none => b.connections := by
  rw [tell_eq, ConnectionFact.pair?]
  cases f.target? with
  | none => rfl
  | some target =>
    simp only [connectKnown_eq, Option.bind_some]
    split <;> rfl

/-- One fact counts as incoming for the file that it imports, and nothing else does. -/
theorem incomingCount_tell (b : FileGraphBuilder) (f : ConnectionFact) (path : String) :
    (b.tell f).incomingCount path =
      b.incomingCount path + if f.isImportOf path then 1 else 0 := by
  cases f with
  | importOf file i =>
    obtain ⟨source, _ | target, specifiers⟩ := i
    · rfl
    · simp only [tell_eq, ConnectionFact.target?, connectKnown_eq, incomingCount,
        ConnectionFact.isImportOf, beq_self_eq_true, if_true]
      rw [Table.get?_update]
      by_cases h : target = path <;> simp [h]
  | scriptOf page script =>
    simp only [tell_eq, ConnectionFact.target?, connectKnown_eq, incomingCount,
      ConnectionFact.isImportOf]
    simp

theorem connections_foldl_tell (facts : List ConnectionFact) (b : FileGraphBuilder) :
    (facts.foldl tell b).connections =
      (ConnectionFact.links b.known facts).foldl
        (fun t x => t.update x.1 ⟨0, []⟩ (extend x.2)) b.connections := by
  induction facts generalizing b with
  | nil => rfl
  | cons f rest ih =>
    rw [List.foldl_cons, ih, known_tell, connections_tell]
    cases hpair : f.pair? b.known with
    | none => simp [ConnectionFact.links, hpair]
    | some pair => simp [ConnectionFact.links, hpair]

/-- Imports of a file are counted, whether or not they connect anything. -/
theorem incomingCount_ofFacts (known : List String) (facts : List ConnectionFact)
    (path : String) :
    (ofFacts known facts).incomingCount path = facts.countP (·.isImportOf path) := by
  have hrun : ∀ b : FileGraphBuilder, (facts.foldl tell b).incomingCount path =
      b.incomingCount path + facts.countP (·.isImportOf path) := by
    induction facts with
    | nil => intro b; rfl
    | cons f rest ih =>
      intro b
      rw [List.foldl_cons, ih, incomingCount_tell, List.countP_cons]
      omega
  rw [ofFacts, hrun]
  exact Nat.zero_add _

theorem foldl_extend (xs : List ((String × String) × List String)) (c : Connection) :
    xs.foldl (fun c x => extend x.2 c) c = extend (xs.flatMap (·.2)) c := by
  induction xs generalizing c with
  | nil => simp [extend]
  | cons x rest ih =>
    rw [List.foldl_cons, ih]
    simp [extend, Nat.add_assoc]

/-- For each pair that a fact joins, the builder keeps the names of the facts between its files,
and their number. -/
theorem get?_connections (known : List String) (facts : List ConnectionFact) (a b : String) :
    (ofFacts known facts).connections.get? (a, b) =
      if a < b ∧ ∃ f ∈ facts, f.Connects known a b then
        some ⟨ConnectionFact.total known facts a b, ConnectionFact.namesBetween known facts a b⟩
      else none := by
  have hrun := Table.get?_foldl_update (·.1) ⟨0, []⟩ (fun x => extend x.2)
    (ConnectionFact.links known facts) ([] : Table (String × String) Connection) (a, b)
  rw [ofFacts, connections_foldl_tell]
  refine hrun.trans ?_
  by_cases h : a < b ∧ ∃ f ∈ facts, f.Connects known a b
  · rw [if_pos h, if_pos ((ConnectionFact.any_links_iff known facts a b).mpr h), foldl_extend,
      ConnectionFact.flatMap_names_links known facts h.1]
    simp [extend, Table.get?, ConnectionFact.length_namesBetween]
  · rw [if_neg h, if_neg (mt (ConnectionFact.any_links_iff known facts a b).mp h)]
    rfl

theorem nodup_keys_connections (known : List String) (facts : List ConnectionFact) :
    (ofFacts known facts).connections.keys.Nodup := by
  rw [ofFacts, connections_foldl_tell]
  exact Table.nodup_keys_foldl_update _ _ _ _ List.nodup_nil

/-! ## The edges -/

/-- The edges are the pairs with a total, with that total as their weight. -/
theorem mem_edges_ofFacts (known : List String) (facts : List ConnectionFact) (e : FileEdge) :
    e ∈ (ofFacts known facts).edges ↔
      e.source < e.target ∧ 0 < ConnectionFact.total known facts e.source e.target ∧
        e.weight = ConnectionFact.total known facts e.source e.target ∧
        e.references = ConnectionFact.namesBetween known facts e.source e.target := by
  unfold edges
  simp only [List.mem_map, List.mem_mergeSort, List.mem_filter, decide_eq_true_eq]
  constructor
  · rintro ⟨⟨⟨a, b⟩, c⟩, ⟨hentry, hpos⟩, rfl⟩
    have hfound := (Table.mem_iff_get? (nodup_keys_connections known facts) _ _).mp hentry
    rw [get?_connections] at hfound
    split at hfound
    · rename_i hjoin
      obtain rfl := Option.some.inj hfound
      exact ⟨hjoin.1, hpos, rfl, rfl⟩
    · exact absurd hfound (by simp)
  · rintro ⟨hab, hpos, hweight, hreferences⟩
    have hfound := get?_connections known facts e.source e.target
    rw [if_pos ⟨hab, ConnectionFact.exists_connects_of_total hpos⟩] at hfound
    refine ⟨_, ⟨Table.mem_of_get? hfound, hpos⟩, ?_⟩
    rw [toEdge, ← hweight, ← hreferences]

/-- What edges are ordered by. -/
def edgeKey (e : FileEdge) : String ×ₗ String :=
  toLex (e.source, e.target)

theorem pairBefore_iff (x y : String × String) :
    pairBefore x y = true ↔ toLex x ≤ toLex y := by
  rw [pairBefore, Prod.Lex.toLex_le_toLex]
  simp only [Bool.or_eq_true, Bool.and_eq_true, decide_eq_true_eq, beq_iff_eq]

theorem edges_ofFacts_ascending (known : List String) (facts : List ConnectionFact) :
    (ofFacts known facts).edges.Pairwise (fun e e' => edgeKey e < edgeKey e') := by
  have htrans : ∀ x y z : (String × String) × Connection,
      pairBefore x.1 y.1 = true → pairBefore y.1 z.1 = true → pairBefore x.1 z.1 = true := by
    intro x y z hxy hyz
    rw [pairBefore_iff] at *
    exact le_trans hxy hyz
  have htotal : ∀ x y : (String × String) × Connection,
      (pairBefore x.1 y.1 || pairBefore y.1 x.1) = true := by
    intro x y
    rw [Bool.or_eq_true, pairBefore_iff, pairBefore_iff]
    exact le_total _ _
  have hsorted := List.pairwise_mergeSort htrans htotal
    ((ofFacts known facts).connections.filter (fun e => 0 < e.2.weight))
  have hdistinct : (((ofFacts known facts).connections.filter
      (fun e => 0 < e.2.weight)).mergeSort (fun x y => pairBefore x.1 y.1)).Pairwise
        (fun x y => x.1 ≠ y.1) := by
    rw [← List.pairwise_map]
    refine ((List.mergeSort_perm _ _).map Prod.fst).nodup_iff.mpr ?_
    exact (nodup_keys_connections known facts).sublist (List.filter_sublist.map _)
  rw [edges, List.pairwise_map]
  refine (hsorted.and hdistinct).imp (fun {x y} hxy => ?_)
  exact lt_of_le_of_ne ((pairBefore_iff _ _).mp hxy.1) (fun h => hxy.2 (toLex.injective h))

theorem exists_edge_iff (known : List String) (facts : List ConnectionFact) (s t : String) :
    (∃ e ∈ (ofFacts known facts).edges, e.source = s ∧ e.target = t) ↔
      s < t ∧ 0 < ConnectionFact.total known facts s t := by
  constructor
  · rintro ⟨e, he, rfl, rfl⟩
    obtain ⟨hlt, hpos, -⟩ := (mem_edges_ofFacts known facts e).mp he
    exact ⟨hlt, hpos⟩
  · rintro ⟨hlt, hpos⟩
    let e : FileEdge :=
      ⟨s, t, ConnectionFact.total known facts s t, ConnectionFact.namesBetween known facts s t⟩
    exact ⟨e, (mem_edges_ofFacts known facts e).mpr ⟨hlt, hpos, rfl, rfl⟩, rfl, rfl⟩

/-! ## Facts in another order -/

theorem mem_edgeKeys_iff (known : List String) (facts : List ConnectionFact)
    (k : String ×ₗ String) :
    k ∈ (ofFacts known facts).edges.map edgeKey ↔
      (ofLex k).1 < (ofLex k).2 ∧ 0 < ConnectionFact.total known facts (ofLex k).1 (ofLex k).2 := by
  rw [← exists_edge_iff, List.mem_map]
  constructor
  · rintro ⟨e, he, rfl⟩
    exact ⟨e, he, rfl, rfl⟩
  · rintro ⟨e, he, hs, ht⟩
    exact ⟨e, he, by rw [edgeKey, hs, ht]; rfl⟩

theorem edgeKeys_ofFacts_perm (known : List String) {facts facts' : List ConnectionFact}
    (h : facts.Perm facts') :
    (ofFacts known facts).edges.map edgeKey = (ofFacts known facts').edges.map edgeKey := by
  have hascending : ∀ facts : List ConnectionFact,
      ((ofFacts known facts).edges.map edgeKey).Pairwise (· < ·) :=
    fun facts => List.pairwise_map.mpr (edges_ofFacts_ascending known facts)
  have hnodup : ∀ facts : List ConnectionFact,
      ((ofFacts known facts).edges.map edgeKey).Nodup :=
    fun facts => (hascending facts).imp ne_of_lt
  refine List.Perm.eq_of_pairwise (fun x y _ _ hxy hyx => absurd hxy (lt_asymm hyx))
    (hascending facts) (hascending facts') ?_
  refine (List.perm_ext_iff_of_nodup (hnodup facts) (hnodup facts')).mpr (fun k => ?_)
  rw [mem_edgeKeys_iff, mem_edgeKeys_iff, ConnectionFact.total_perm known h]

/-- Two edges that differ at most in the order of their references. -/
def SameEdge (e e' : FileEdge) : Prop :=
  e.source = e'.source ∧ e.target = e'.target ∧ e.weight = e'.weight ∧
    e.references.Perm e'.references

theorem sameEdge_of_edgeKey_eq {known : List String} {facts facts' : List ConnectionFact}
    (h : facts.Perm facts') {e e' : FileEdge} (he : e ∈ (ofFacts known facts).edges)
    (he' : e' ∈ (ofFacts known facts').edges) (hkey : edgeKey e = edgeKey e') :
    SameEdge e e' := by
  obtain ⟨hs, ht⟩ := Prod.mk.inj (toLex.injective hkey)
  obtain ⟨-, -, hweight, hnames⟩ := (mem_edges_ofFacts known facts e).mp he
  obtain ⟨-, -, hweight', hnames'⟩ := (mem_edges_ofFacts known facts' e').mp he'
  refine ⟨hs, ht, ?_, ?_⟩
  · rw [hweight, hweight', hs, ht, ConnectionFact.total_perm known h]
  · rw [hnames, hnames', hs, ht]
    exact (h.filter _).flatMap_right _

theorem edges_ofFacts_perm (known : List String) {facts facts' : List ConnectionFact}
    (h : facts.Perm facts') :
    List.Forall₂ SameEdge (ofFacts known facts).edges (ofFacts known facts').edges := by
  have hkeys : List.Forall₂ (fun e e' => edgeKey e = edgeKey e')
      (ofFacts known facts).edges (ofFacts known facts').edges := by
    have heq := edgeKeys_ofFacts_perm known h
    rw [← List.forall₂_eq_eq_eq, List.forall₂_map_left_iff, List.forall₂_map_right_iff] at heq
    exact heq
  obtain ⟨hlength, hzip⟩ := List.forall₂_iff_zip.mp hkeys
  refine List.forall₂_iff_zip.mpr ⟨hlength, fun {e e'} hpair => ?_⟩
  obtain ⟨he, he'⟩ := List.of_mem_zip hpair
  exact sameEdge_of_edgeKey_eq h he he' (hzip hpair)

/-- **Connections add up.** Whatever facts a builder was told, its edges are, in order and each
once, the pairs of files with a total; the weight is the total, and the references are the names
that were counted. Imports count as incoming whatever they connect. Told the same facts in another
order, a builder has the same edges and the same counts. -/
theorem edges_ofFacts_exact (known : List String) (facts : List ConnectionFact) :
    (ofFacts known facts).edges.Pairwise (fun e e' => edgeKey e < edgeKey e') ∧
    (∀ s t, (∃ e ∈ (ofFacts known facts).edges, e.source = s ∧ e.target = t) ↔
      s < t ∧ 0 < ConnectionFact.total known facts s t) ∧
    (∀ e ∈ (ofFacts known facts).edges,
      e.weight = ConnectionFact.total known facts e.source e.target ∧
      e.references.Perm (ConnectionFact.references known facts e.source e.target) ∧
      e.references.length = e.weight) ∧
    (∀ path, (ofFacts known facts).incomingCount path = facts.countP (·.isImportOf path)) ∧
    ∀ facts', facts.Perm facts' →
      List.Forall₂ SameEdge (ofFacts known facts).edges (ofFacts known facts').edges ∧
      ∀ path, (ofFacts known facts).incomingCount path =
        (ofFacts known facts').incomingCount path := by
  refine ⟨edges_ofFacts_ascending known facts, exists_edge_iff known facts, ?_,
    incomingCount_ofFacts known facts, fun facts' h => ⟨edges_ofFacts_perm known h, ?_⟩⟩
  · intro e he
    obtain ⟨-, -, hweight, hreferences⟩ := (mem_edges_ofFacts known facts e).mp he
    rw [hweight, hreferences, ConnectionFact.length_namesBetween]
    exact ⟨rfl, ConnectionFact.namesBetween_perm_references known facts _ _, rfl⟩
  · intro path
    rw [incomingCount_ofFacts, incomingCount_ofFacts]
    exact h.countP_eq _

end FileGraphBuilder

end CodeGraph
