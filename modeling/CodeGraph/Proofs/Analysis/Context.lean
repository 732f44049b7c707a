import CodeGraph.Analysis.Context
import CodeGraph.Proofs.Table

/-!
# What a context keeps

A context answers requests for the bytes, the text and the tree of a file, and keeps what it has
read. All three answers are views of the same bytes (`answer_file`): those that are kept, or else
those on the disk (`bytesOf_eq`). For the tree this rests on an invariant: a tree that is kept
belongs to bytes that are kept (`Coherent`).

`readBytes_cases` and `parse_cases` say all that reading can do. From them follows what any request
on any disk does (`grows_answer`): what was kept is kept, and nothing is taken up but what the disk
has.
-/

namespace CodeGraph.Context

/-- The ways to look at a file. -/
inductive View where
  | bytes
  | text
  | tree
  deriving DecidableEq, Repr

/-- What can be asked of a context: what is in a file, or where an import leads. -/
inductive Request where
  | file (view : View) (path : String)
  | target (extensions : List String) (specifier path : String)

/-- What a context answers. -/
inductive Answer where
  | bytes (data : Bytes)
  | text (text : String)
  | tree (parsed : Parsed)
  | target (file : Option String)

/-- Bytes in a view; trees are made by a parser. -/
def View.of (parser : Parser) (path : String) (data : Bytes) : View → Answer
  | bytes => .bytes data
  | text => .text (Utf8.decodeLossy data)
  | tree => .tree (parseSource parser path data)

/-- The answer to a request, and the context after it. -/
def answer (c : Context) (d : Disk) : Request → Except DiskError Answer × Context
  | .file .bytes path => ((c.readBytes d path).1.map .bytes, (c.readBytes d path).2)
  | .file .text path => ((c.readText d path).1.map .text, (c.readText d path).2)
  | .file .tree path => ((c.parse d path).1.map .tree, (c.parse d path).2)
  | .target extensions specifier path =>
    (.ok (.target (c.resolve d extensions specifier path)), c)

/-- The bytes that a request for a file is answered from. -/
def bytesOf (c : Context) (d : Disk) (path : String) : Except DiskError Bytes :=
  (c.readBytes d path).1

/-- Every tree that is kept is the tree of the bytes that are kept. -/
def Coherent (c : Context) : Prop :=
  ∀ path p, c.parsed.get? path = some p →
    ∃ data, c.data.get? path = some data ∧ p = parseSource c.parser path data

variable {c : Context} {d : Disk} {path : String} {data : Bytes}

/-! ## Bytes -/

/-- Bytes are kept already, or come from the disk and are kept from now on, or cannot be read. -/
theorem readBytes_cases (c : Context) (d : Disk) (path : String) :
    (∃ data, c.data.get? path = some data ∧ c.readBytes d path = (.ok data, c)) ∨
    (c.data.get? path = none ∧ ∃ data, d.read (c.placeOf path) = .ok data ∧
      c.readBytes d path = (.ok data, { c with data := c.data.set path data })) ∨
    (c.data.get? path = none ∧ ∃ e, d.read (c.placeOf path) = .error e ∧
      c.readBytes d path = (.error e, c)) := by
  unfold readBytes
  cases hkept : c.data.get? path with
  | some data => exact Or.inl ⟨data, rfl, rfl⟩
  | none =>
    cases hread : d.read (c.placeOf path) with
    | ok data => exact Or.inr (Or.inl ⟨rfl, data, rfl, rfl⟩)
    | error e => exact Or.inr (Or.inr ⟨rfl, e, rfl, rfl⟩)

theorem bytesOf_eq (c : Context) (d : Disk) (path : String) :
    c.bytesOf d path =
      match c.data.get? path with
      | some data => .ok data
      | none => d.read (c.placeOf path) := by
  unfold bytesOf
  rcases readBytes_cases c d path with
    ⟨data, hkept, hread⟩ | ⟨hnone, data, hdisk, hread⟩ | ⟨hnone, e, hdisk, hread⟩
  · simp only [hkept, hread]
  · simp only [hnone, hdisk, hread]
  · simp only [hnone, hdisk, hread]

theorem bytesOf_of_kept (h : c.data.get? path = some data) (d : Disk) :
    c.bytesOf d path = .ok data := by
  rw [bytesOf_eq, h]

theorem bytesOf_of_new (h : c.data.get? path = none) (d : Disk) :
    c.bytesOf d path = d.read (c.placeOf path) := by
  rw [bytesOf_eq, h]

/-- Bytes that were read are kept. -/
theorem kept_of_readBytes (h : c.bytesOf d path = .ok data) :
    (c.readBytes d path).2.data.get? path = some data := by
  unfold bytesOf at h
  rcases readBytes_cases c d path with
    ⟨found, hkept, hread⟩ | ⟨-, found, -, hread⟩ | ⟨-, e, -, hread⟩
  · rw [hread] at h ⊢
    rw [hkept, Except.ok.inj h]
  · rw [hread] at h ⊢
    rw [Table.get?_set, if_pos (beq_self_eq_true path), Except.ok.inj h]
  · rw [hread] at h
    cases h

theorem readBytes_error {e : DiskError} (h : c.bytesOf d path = .error e) :
    (c.readBytes d path).2 = c := by
  unfold bytesOf at h
  rcases readBytes_cases c d path with ⟨data, -, hread⟩ | ⟨-, data, -, hread⟩ | ⟨-, e, -, hread⟩
  · rw [hread]
  · rw [hread] at h
    cases h
  · rw [hread]

theorem data_readBytes_other {other : String} (hother : other ≠ path) :
    (c.readBytes d other).2.data.get? path = c.data.get? path := by
  rcases readBytes_cases c d other with
    ⟨data, -, hread⟩ | ⟨-, data, -, hread⟩ | ⟨-, e, -, hread⟩
  · rw [hread]
  · rw [hread]
    dsimp only
    rw [Table.get?_set, if_neg (by simpa using hother)]
  · rw [hread]

/-! ## Trees -/

/-- A tree is kept already, or made from the bytes and kept from now on, or there are no bytes. -/
theorem parse_cases (c : Context) (d : Disk) (path : String) :
    (∃ p, c.parsed.get? path = some p ∧ c.parse d path = (.ok p, c)) ∨
    (∃ data, c.bytesOf d path = .ok data ∧ c.parse d path = (.ok (parseSource c.parser path data),
      { (c.readBytes d path).2 with
        parsed := (c.readBytes d path).2.parsed.set path (parseSource c.parser path data) })) ∨
    (∃ e, c.bytesOf d path = .error e ∧ c.parse d path = (.error e, c)) := by
  unfold parse
  cases hp : c.parsed.get? path with
  | some p => exact Or.inl ⟨p, rfl, rfl⟩
  | none =>
    cases hread : c.readBytes d path with
    | mk bytes after =>
      have hbytes : c.bytesOf d path = bytes := by rw [bytesOf, hread]
      cases bytes with
      | ok data => exact Or.inr (Or.inl ⟨data, hbytes, rfl⟩)
      | error e =>
        have hsame := readBytes_error hbytes
        rw [hread] at hsame
        exact Or.inr (Or.inr ⟨e, hbytes, congrArg (Prod.mk _) hsame⟩)

/-- A tree is that of the bytes that a request gets, and cannot be had without them. -/
theorem parse_fst (hc : c.Coherent) (d : Disk) (path : String) :
    (c.parse d path).1 = (c.bytesOf d path).map (parseSource c.parser path) := by
  rcases parse_cases c d path with ⟨p, hp, hparse⟩ | ⟨data, hdata, hparse⟩ | ⟨e, he, hparse⟩
  · obtain ⟨data, hkept, rfl⟩ := hc path p hp
    rw [hparse, bytesOf_of_kept hkept]
    rfl
  · rw [hparse, hdata]
    rfl
  · rw [hparse, he]
    rfl

theorem kept_of_parse (hc : c.Coherent) (h : c.bytesOf d path = .ok data) :
    (c.parse d path).2.data.get? path = some data := by
  rcases parse_cases c d path with ⟨p, hp, hparse⟩ | ⟨found, -, hparse⟩ | ⟨e, he, -⟩
  · obtain ⟨found, hkept, -⟩ := hc path p hp
    rw [bytesOf_of_kept hkept] at h
    rw [hparse, hkept, Except.ok.inj h]
  · rw [hparse]
    exact kept_of_readBytes h
  · rw [he] at h
    cases h

/-! ## What a request does to a context -/

/-- A context after some requests: what was kept is kept, and trees go on to belong to bytes. -/
structure Keeps (c after : Context) : Prop where
  parser : after.parser = c.parser
  root : after.root = c.root
  kept : ∀ path data, c.data.get? path = some data → after.data.get? path = some data
  coherent : c.Coherent → after.Coherent

theorem Keeps.refl (c : Context) : Keeps c c :=
  ⟨rfl, rfl, fun _ _ h => h, id⟩

theorem Keeps.trans {b after : Context} (h : Keeps c b) (h' : Keeps b after) : Keeps c after where
  parser := h'.parser.trans h.parser
  root := h'.root.trans h.root
  kept path data hkept := h'.kept path data (h.kept path data hkept)
  coherent hc := h'.coherent (h.coherent hc)

theorem Keeps.placeOf {after : Context} (h : Keeps c after) (path : String) :
    after.placeOf path = c.placeOf path := by
  rw [Context.placeOf, Context.placeOf, h.root]

/-- A context after some requests on one disk: moreover, no request on this disk gets other bytes
than before. -/
structure Grows (d : Disk) (c after : Context) : Prop extends Keeps c after where
  same : ∀ path, after.bytesOf d path = c.bytesOf d path

theorem Grows.refl (d : Disk) (c : Context) : Grows d c c :=
  ⟨.refl c, fun _ => rfl⟩

theorem Grows.trans {b after : Context} (h : Grows d c b) (h' : Grows d b after) :
    Grows d c after :=
  ⟨h.toKeeps.trans h'.toKeeps, fun path => (h'.same path).trans (h.same path)⟩

theorem grows_readBytes (c : Context) (d : Disk) (path : String) :
    Grows d c (c.readBytes d path).2 := by
  rcases readBytes_cases c d path with
    ⟨data, -, hread⟩ | ⟨hnone, data, hdisk, hread⟩ | ⟨-, e, -, hread⟩
  · rw [hread]
    exact .refl d c
  · rw [hread]
    have hget : ∀ p, (c.data.set path data).get? p =
        if path == p then some data else c.data.get? p := fun p => Table.get?_set _ _ _ _
    have hkept : ∀ p x, c.data.get? p = some x → (c.data.set path data).get? p = some x := by
      intro p x hp
      have hne : path ≠ p := by
        rintro rfl
        rw [hnone] at hp
        cases hp
      rw [hget, if_neg (by simpa using hne), hp]
    refine ⟨⟨rfl, rfl, hkept, fun hc p t ht => ?_⟩, fun p => ?_⟩
    · obtain ⟨x, hx, htree⟩ := hc p t ht
      exact ⟨x, hkept p x hx, htree⟩
    · rw [bytesOf_eq, bytesOf_eq]
      dsimp only [placeOf]
      rw [hget]
      by_cases hp : path = p
      · subst hp
        rw [if_pos (beq_self_eq_true path), hnone]
        exact hdisk.symm
      · rw [if_neg (by simpa using hp)]
  · rw [hread]
    exact .refl d c

theorem grows_parse (c : Context) (d : Disk) (path : String) : Grows d c (c.parse d path).2 := by
  rcases parse_cases c d path with ⟨p, -, hparse⟩ | ⟨data, hdata, hparse⟩ | ⟨e, -, hparse⟩
  · rw [hparse]
    exact .refl d c
  · rw [hparse]
    have hgrows := grows_readBytes c d path
    refine ⟨⟨hgrows.parser, hgrows.root, hgrows.kept, fun hc p t ht => ?_⟩, fun p => ?_⟩
    · -- the new tree belongs to the bytes just read, the others are as they were
      dsimp only at ht
      rw [Table.get?_set] at ht
      by_cases hp : path = p
      · subst hp
        rw [if_pos (beq_self_eq_true path)] at ht
        refine ⟨data, kept_of_readBytes hdata, ?_⟩
        dsimp only
        rw [hgrows.parser]
        exact (Option.some.inj ht).symm
      · rw [if_neg (by simpa using hp)] at ht
        exact hgrows.coherent hc p t ht
    · rw [← hgrows.same p, bytesOf_eq, bytesOf_eq]
      rfl
  · rw [hparse]
    exact .refl d c

theorem grows_answer (c : Context) (d : Disk) (r : Request) : Grows d c (c.answer d r).2 := by
  cases r with
  | target => exact .refl d c
  | file view path =>
    cases view with
    | bytes => exact grows_readBytes c d path
    | text => exact grows_readBytes c d path
    | tree => exact grows_parse c d path

/-! ## Answers -/

/-- What is answered about a file is a view of its bytes. -/
theorem answer_file (hc : c.Coherent) (d : Disk) (view : View) (path : String) :
    (c.answer d (.file view path)).1 =
      (c.bytesOf d path).map (fun data => view.of c.parser path data) := by
  cases view with
  | bytes => rfl
  | text =>
    simp only [answer, readText, bytesOf]
    cases (c.readBytes d path).1 <;> rfl
  | tree =>
    simp only [answer, parse_fst hc]
    cases c.bytesOf d path <;> rfl

/-- Once a request for a file has been answered, its bytes are kept. -/
theorem kept_of_answer (hc : c.Coherent) (h : c.bytesOf d path = .ok data) (view : View) :
    (c.answer d (.file view path)).2.data.get? path = some data := by
  cases view with
  | bytes => exact kept_of_readBytes h
  | text => exact kept_of_readBytes h
  | tree => exact kept_of_parse hc h

/-- A request that fails changes nothing. -/
theorem answer_error (hc : c.Coherent) {r : Request} {e : DiskError}
    (h : (c.answer d r).1 = .error e) : (c.answer d r).2 = c := by
  cases r with
  | target => rfl
  | file view path =>
    rw [answer_file hc] at h
    cases hbytes : c.bytesOf d path with
    | ok data =>
      rw [hbytes] at h
      cases h
    | error e' =>
      cases view with
      | bytes => exact readBytes_error hbytes
      | text => exact readBytes_error hbytes
      | tree =>
        rcases parse_cases c d path with ⟨p, -, hparse⟩ | ⟨data, hdata, -⟩ | ⟨e, -, hparse⟩
        · exact congrArg Prod.snd hparse
        · rw [hbytes] at hdata
          cases hdata
        · exact congrArg Prod.snd hparse

/-- A request for something else leaves a file alone. -/
theorem data_answer_other {r : Request} (hother : ∀ view, r ≠ .file view path) :
    (c.answer d r).2.data.get? path = c.data.get? path := by
  cases r with
  | target => rfl
  | file view other =>
    have hne : other ≠ path := by
      rintro rfl
      exact hother view rfl
    cases view with
    | bytes => exact data_readBytes_other hne
    | text => exact data_readBytes_other hne
    | tree =>
      simp only [answer]
      rcases parse_cases c d other with ⟨p, -, hparse⟩ | ⟨data, -, hparse⟩ | ⟨e, -, hparse⟩
      · rw [hparse]
      · rw [hparse]
        exact data_readBytes_other hne
      · rw [hparse]

end CodeGraph.Context
