import CodeGraph.Analysis.ReadSource

/-!
# Line ends in bytes and in text

The text of a file has its bytes decoded, bad stretches replaced, and all line ends made line
feeds. Bytes outside the ASCII range never decode to a line end, and those inside stand for
themselves (`Utf8.cut_pieces`). So the line ends of the text can be counted in the bytes: every line
feed is one, and so is every carriage return that no line feed follows (`count_newline_fileText`).
-/

namespace CodeGraph

/-! ## Pieces -/

namespace Utf8

/-- The piece stands for bytes outside the ASCII range, and its character ends no line. -/
structure HighPiece (p : Piece) (chunk : Bytes) : Prop where
  high : ∀ b ∈ chunk, 0x80 ≤ b
  noFeed : p.toChar ≠ '\n'
  noReturn : p.toChar ≠ '\r'

/-- Bytes are cut into pieces: those of the ASCII range stand for themselves. -/
inductive Cut : Bytes → List Piece → Prop
  | nil : Cut [] []
  | ascii {b : UInt8} {rest : Bytes} {ps : List Piece} : b < 0x80 → Cut rest ps →
      Cut (b :: rest) (.char (Char.ofNat b.toNat) 1 :: ps)
  | high {p : Piece} {chunk rest : Bytes} {ps : List Piece} : HighPiece p chunk → chunk ≠ [] →
      Cut rest ps → Cut (chunk ++ rest) (p :: ps)

theorem high_of_isTail {b : UInt8} (h : isTail b = true) : 0x80 ≤ b := by
  rw [isTail, Bool.and_eq_true] at h
  exact of_decide_eq_true h.1

theorem high_of_isSecond {lead b : UInt8} (h : isSecond lead b = true) : 0x80 ≤ b := by
  simp only [isSecond, Bool.and_eq_true] at h
  exact high_of_isTail h.1.1.1.1

theorem toNat_ofNat {n : Nat} (h : n.isValidChar) : (Char.ofNat n).toNat = n := by
  rw [Char.ofNat, dif_pos h]
  rfl

/-- A character beyond the control characters ends no line. -/
theorem ofNat_ne_lineEnd {n : Nat} (h : 14 ≤ n) : Char.ofNat n ≠ '\n' ∧ Char.ofNat n ≠ '\r' := by
  have hne : ∀ c : Char, c.toNat < 14 → c ≠ '\x00' → Char.ofNat n ≠ c := by
    intro c hc hzero heq
    by_cases hvalid : n.isValidChar
    · rw [← heq, toNat_ofNat hvalid] at hc
      omega
    · rw [Char.ofNat, dif_neg hvalid] at heq
      exact hzero heq.symm
  exact ⟨hne '\n' (by decide) (by decide), hne '\r' (by decide) (by decide)⟩

/-- Bytes of the ASCII range stand for different characters. -/
theorem ofNat_toNat_eq_iff {b k : UInt8} (hb : b < 0x80) (hk : k < 0x80) :
    Char.ofNat b.toNat = Char.ofNat k.toNat ↔ b = k := by
  have hvalid : ∀ {x : UInt8}, x < 0x80 → x.toNat.isValidChar := by
    intro x hx
    simp only [UInt8.lt_iff_toNat_lt, UInt8.reduceToNat] at hx
    exact Or.inl (by omega)
  refine ⟨fun h => ?_, fun h => by rw [h]⟩
  have hnat := congrArg Char.toNat h
  rw [toNat_ofNat (hvalid hb), toNat_ofNat (hvalid hk)] at hnat
  exact UInt8.toNat_inj.mp hnat

section Pieces

variable {rest : Bytes} {ps : List Piece} {b0 b1 b2 b3 : UInt8}

theorem Cut.bad (fault : Fault) (chunk : Bytes) (hne : chunk ≠ []) (h : ∀ b ∈ chunk, 0x80 ≤ b)
    (hrest : Cut rest ps) : Cut (chunk ++ rest) (.bad fault chunk :: ps) :=
  .high ⟨h, by show replacement ≠ '\n'; decide, by show replacement ≠ '\r'; decide⟩ hne hrest

theorem Cut.char {n : Nat} (width : Nat) (chunk : Bytes) (hne : chunk ≠ [])
    (h : ∀ b ∈ chunk, 0x80 ≤ b) (hn : 14 ≤ n) (hrest : Cut rest ps) :
    Cut (chunk ++ rest) (.char (Char.ofNat n) width :: ps) :=
  .high ⟨h, (ofNat_ne_lineEnd hn).1, (ofNat_ne_lineEnd hn).2⟩ hne hrest

theorem le_of_two (h0 : ¬ (decide (b0 < 0xC2) || decide (0xF4 < b0)) = true) (h1 : b0 < 0xE0) :
    14 ≤ b0.toNat % 32 * 64 + low b1 := by
  simp only [Bool.or_eq_true, decide_eq_true_eq, not_or, UInt8.lt_iff_toNat_lt,
    UInt8.reduceToNat] at h0 h1
  omega

/-- No overlong forms: three bytes stand for a character that two cannot stand for. -/
theorem le_of_three (h0 : ¬ b0 < 0xE0) (h1 : b0 < 0xF0) (hsecond : isSecond b0 b1 = true) :
    14 ≤ (b0.toNat % 16 * 64 + low b1) * 64 + low b2 := by
  simp only [isSecond, isTail, Bool.and_eq_true, Bool.or_eq_true, decide_eq_true_eq, bne_iff_ne,
    ne_eq, UInt8.le_iff_toNat_le, UInt8.lt_iff_toNat_lt, ← UInt8.toNat_inj, UInt8.reduceToNat,
    low] at *
  omega

theorem le_of_four (h0 : ¬ (decide (b0 < 0xC2) || decide (0xF4 < b0)) = true) (h1 : ¬ b0 < 0xF0)
    (hsecond : isSecond b0 b1 = true) :
    14 ≤ ((b0.toNat % 8 * 64 + low b1) * 64 + low b2) * 64 + low b3 := by
  simp only [isSecond, isTail, Bool.and_eq_true, Bool.or_eq_true, decide_eq_true_eq, bne_iff_ne,
    ne_eq, not_or, UInt8.le_iff_toNat_le, UInt8.lt_iff_toNat_lt, ← UInt8.toNat_inj,
    UInt8.reduceToNat, low] at *
  omega

end Pieces

theorem cut_pieces (data : Bytes) : Cut data (pieces data) := by
  fun_induction pieces data with
  | case1 => exact .nil
  | case2 b0 r h ih => exact .ascii h ih
  | case3 b0 r h h1 ih => exact .bad _ [b0] (by simp) (by simpa using h) ih
  -- two bytes
  | case4 b0 h h1 h2 => exact .bad _ [b0] (by simp) (by simpa using h) .nil
  | case5 b0 h h1 h2 b1 r1 ht ih =>
    exact .char 2 [b0, b1] (by simp) (by simpa using ⟨UInt8.not_lt.mp h, high_of_isTail ht⟩)
      (le_of_two h1 h2) ih
  | case6 b0 h h1 h2 b1 r1 ht ih => exact .bad _ [b0] (by simp) (by simpa using h) ih
  -- three bytes
  | case7 b0 h h1 h2 h3 => exact .bad _ [b0] (by simp) (by simpa using h) .nil
  | case8 b0 h h1 h2 h3 b1 hs =>
    exact .bad _ [b0, b1] (by simp) (by simpa using ⟨UInt8.not_lt.mp h, high_of_isSecond hs⟩) .nil
  | case9 b0 h h1 h2 h3 b1 hs b2 r2 ht ih =>
    exact .char 3 [b0, b1, b2] (by simp)
      (by simpa using ⟨UInt8.not_lt.mp h, high_of_isSecond hs, high_of_isTail ht⟩)
      (le_of_three h2 h3 hs) ih
  | case10 b0 h h1 h2 h3 b1 hs b2 r2 ht ih =>
    exact .bad _ [b0, b1] (by simp) (by simpa using ⟨UInt8.not_lt.mp h, high_of_isSecond hs⟩) ih
  | case11 b0 h h1 h2 h3 b1 r1 hs ih => exact .bad _ [b0] (by simp) (by simpa using h) ih
  -- four bytes
  | case12 b0 h h1 h2 h3 => exact .bad _ [b0] (by simp) (by simpa using h) .nil
  | case13 b0 h h1 h2 h3 b1 hs =>
    exact .bad _ [b0, b1] (by simp) (by simpa using ⟨UInt8.not_lt.mp h, high_of_isSecond hs⟩) .nil
  | case14 b0 h h1 h2 h3 b1 hs b2 ht =>
    exact .bad _ [b0, b1, b2] (by simp)
      (by simpa using ⟨UInt8.not_lt.mp h, high_of_isSecond hs, high_of_isTail ht⟩) .nil
  | case15 b0 h h1 h2 h3 b1 hs b2 ht b3 r3 ht' ih =>
    exact .char 4 [b0, b1, b2, b3] (by simp)
      (by simpa using
        ⟨UInt8.not_lt.mp h, high_of_isSecond hs, high_of_isTail ht, high_of_isTail ht'⟩)
      (le_of_four h1 h3 hs) ih
  | case16 b0 h h1 h2 h3 b1 hs b2 ht b3 r3 ht' ih =>
    exact .bad _ [b0, b1, b2] (by simp)
      (by simpa using ⟨UInt8.not_lt.mp h, high_of_isSecond hs, high_of_isTail ht⟩) ih
  | case17 b0 h h1 h2 h3 b1 hs b2 r2 ht ih =>
    exact .bad _ [b0, b1] (by simp) (by simpa using ⟨UInt8.not_lt.mp h, high_of_isSecond hs⟩) ih
  | case18 b0 h h1 h2 h3 b1 r1 hs ih => exact .bad _ [b0] (by simp) (by simpa using h) ih

end Utf8

/-! ## Lone elements of a list -/

section Lone

variable {α : Type} [DecidableEq α]

/-- How often an element stands in a list without another one right behind it. -/
def countLone (x next : α) : List α → Nat
  | [] => 0
  | y :: rest => (if y = x ∧ rest.head? ≠ some next then 1 else 0) + countLone x next rest

theorem countLone_cons_of_ne {x y : α} (next : α) (h : y ≠ x) (rest : List α) :
    countLone x next (y :: rest) = countLone x next rest := by
  rw [countLone, if_neg (fun hy => h hy.1), Nat.zero_add]

theorem countLone_append {x : α} (next : α) {front : List α} (h : x ∉ front) (rest : List α) :
    countLone x next (front ++ rest) = countLone x next rest := by
  induction front with
  | nil => rfl
  | cons y front ih =>
    have hy : y ≠ x := fun heq => h (heq ▸ List.mem_cons_self)
    rw [List.cons_append, countLone_cons_of_ne next hy,
      ih (fun hx => h (List.mem_cons_of_mem _ hx))]

end Lone

/-! ## Line ends -/

/-- The carriage return. -/
def carriageReturn : UInt8 := 13

/-- The carriage returns of a file that no line feed follows. -/
def loneReturns (data : Bytes) : Nat :=
  countLone carriageReturn Reexport.newline data

/-- Made line feeds, the line ends are the line feeds and the lone carriage returns. -/
theorem count_unifyLineEnds (cs : List Char) :
    (unifyLineEnds cs).count '\n' = cs.count '\n' + countLone '\r' '\n' cs := by
  fun_induction unifyLineEnds cs with
  | case1 rest ih =>
    have hfollowed : countLone '\r' '\n' ('\r' :: '\n' :: rest) = countLone '\r' '\n' rest := by
      rw [countLone, if_neg (by simp), Nat.zero_add, countLone_cons_of_ne _ (by decide)]
    rw [hfollowed, List.count_cons_self, ih, List.count_cons_of_ne (by decide),
      List.count_cons_self]
    omega
  | case2 rest hrest ih =>
    have hlone : countLone '\r' '\n' ('\r' :: rest) = 1 + countLone '\r' '\n' rest := by
      rw [countLone, if_pos]
      refine ⟨rfl, fun hhead => ?_⟩
      obtain ⟨more, hmore⟩ := List.head?_eq_some_iff.mp hhead
      exact hrest more hmore
    rw [hlone, List.count_cons_self, ih, List.count_cons_of_ne (by decide)]
    omega
  | case3 c rest _ hc ih =>
    have hne : c ≠ '\r' := hc
    rw [countLone_cons_of_ne _ hne, List.count_cons, List.count_cons, ih]
    omega
  | case4 => rfl

/-- Bytes and the characters they are cut into have the same line ends at the same places. -/
structure SameLineEnds (data : Bytes) (cs : List Char) : Prop where
  feeds : cs.count '\n' = data.count Reexport.newline
  lone : countLone '\r' '\n' cs = loneReturns data
  first : cs.head? = some '\n' ↔ data.head? = some Reexport.newline

theorem Utf8.HighPiece.notMem {p : Piece} {chunk : Bytes} (h : HighPiece p chunk) {b : UInt8}
    (hb : b < 0x80) : b ∉ chunk :=
  fun hmem => UInt8.not_lt.mpr (h.high b hmem) hb

theorem Utf8.Cut.sameLineEnds {data : Bytes} {ps : List Piece} (h : Cut data ps) :
    SameLineEnds data (ps.map Piece.toChar) := by
  induction h with
  | nil => exact ⟨rfl, rfl, by simp⟩
  | @ascii b rest ps hb _ ih =>
    have hfeed : Char.ofNat b.toNat = '\n' ↔ b = Reexport.newline :=
      ofNat_toNat_eq_iff hb (by decide : Reexport.newline < 0x80)
    have hreturn : Char.ofNat b.toNat = '\r' ↔ b = carriageReturn :=
      ofNat_toNat_eq_iff hb (by decide : carriageReturn < 0x80)
    refine ⟨?_, ?_, ?_⟩
    · simp only [List.map_cons, Piece.toChar, List.count_cons, beq_iff_eq, hfeed, ih.feeds]
    · simp only [List.map_cons, Piece.toChar, loneReturns, countLone, hreturn, ne_eq, ih.first,
        ih.lone]
    · simp only [List.map_cons, Piece.toChar, List.head?_cons, Option.some.injEq, hfeed]
  | @high p chunk rest ps hp hne _ ih =>
    have hfeed := hp.notMem (by decide : Reexport.newline < 0x80)
    have hreturn := hp.notMem (by decide : carriageReturn < 0x80)
    refine ⟨?_, ?_, ?_⟩
    · rw [List.map_cons, List.count_cons_of_ne hp.noFeed, ih.feeds, List.count_append,
        List.count_eq_zero.mpr hfeed, Nat.zero_add]
    · rw [List.map_cons, countLone_cons_of_ne _ hp.noReturn, ih.lone, loneReturns, loneReturns,
        countLone_append _ hreturn]
    · refine iff_of_false (fun h => hp.noFeed (Option.some.inj h)) (fun h => ?_)
      obtain ⟨first, more, rfl⟩ := List.exists_cons_of_ne_nil hne
      exact hfeed (Option.some.inj h ▸ List.mem_cons_self)

/-- The line feeds of a file's text: those of the file, and one for each lone carriage return. -/
theorem count_newline_fileText (data : Bytes) :
    (fileText data).toList.count '\n' = data.count Reexport.newline + loneReturns data := by
  have hsame := (Utf8.cut_pieces data).sameLineEnds
  rw [fileText, String.toList_ofList, count_unifyLineEnds, Utf8.decodeLossy, String.toList_ofList,
    hsame.feeds, hsame.lone]

end CodeGraph
