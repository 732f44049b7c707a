import CodeGraph.Source

/-!
# Rewriting re-exports keeps the lines

A source that cannot be read otherwise is rewritten line by line. A line stays as it is, or
something is put before the name that it re-exports and something else takes the place of what
follows the name (`normalizeLine_cases`). Neither brings a line feed in or takes one away, so a
rewritten source has its lines where they were (`count_newline_normalize`).
-/

namespace CodeGraph.Reexport

/-! ## Lines -/

theorem splitLines_ne_nil (data : Bytes) : splitLines data ≠ [] := by
  cases data with
  | nil => exact List.cons_ne_nil _ _
  | cons b bs =>
    rw [splitLines]
    split
    · exact List.cons_ne_nil _ _
    · split <;> exact List.cons_ne_nil _ _

theorem splitLines_newline (bs : Bytes) : splitLines (newline :: bs) = [] :: splitLines bs := rfl

theorem splitLines_cons {b : UInt8} (hb : b ≠ newline) {bs first : Bytes} {rest : List Bytes}
    (h : splitLines bs = first :: rest) : splitLines (b :: bs) = (b :: first) :: rest := by
  rw [splitLines, if_neg (by simpa using hb), h]

theorem newline_notMem_of_mem_splitLines {data line : Bytes} (h : line ∈ splitLines data) :
    newline ∉ line := by
  induction data generalizing line with
  | nil =>
    rw [List.mem_singleton.mp h]
    exact List.not_mem_nil
  | cons b bs ih =>
    by_cases hb : b = newline
    · subst hb
      rw [splitLines_newline] at h
      rcases List.mem_cons.mp h with rfl | hline
      · exact List.not_mem_nil
      · exact ih hline
    · obtain ⟨first, rest, hsplit⟩ := List.exists_cons_of_ne_nil (splitLines_ne_nil bs)
      rw [splitLines_cons hb hsplit] at h
      rw [hsplit] at ih
      rcases List.mem_cons.mp h with rfl | hline
      · intro hmem
        rcases List.mem_cons.mp hmem with heq | hmem
        · exact hb heq.symm
        · exact ih List.mem_cons_self hmem
      · exact ih (List.mem_cons_of_mem _ hline)

/-- There is one line more than there are line feeds. -/
theorem length_splitLines (data : Bytes) :
    (splitLines data).length = data.count newline + 1 := by
  induction data with
  | nil => rfl
  | cons b bs ih =>
    by_cases hb : b = newline
    · subst hb
      rw [splitLines_newline, List.length_cons, ih, List.count_cons_self]
    · obtain ⟨first, rest, hsplit⟩ := List.exists_cons_of_ne_nil (splitLines_ne_nil bs)
      rw [hsplit] at ih
      rw [splitLines_cons hb hsplit, List.count_cons_of_ne hb, ← ih]
      rfl

theorem count_newline_joinLines {lines : List Bytes} (hne : lines ≠ [])
    (h : ∀ line ∈ lines, newline ∉ line) :
    (joinLines lines).count newline + 1 = lines.length := by
  induction lines with
  | nil => exact absurd rfl hne
  | cons line rest ih =>
    have hline : line.count newline = 0 := List.count_eq_zero.mpr (h line List.mem_cons_self)
    cases rest with
    | nil => rw [joinLines, hline]; rfl
    | cons next more =>
      have hrest := ih (List.cons_ne_nil _ _) (fun l hl => h l (List.mem_cons_of_mem _ hl))
      rw [joinLines, List.count_append, hline, List.count_cons_self, List.length_cons, ← hrest]
      · omega
      · exact List.cons_ne_nil _ _

/-! ## One line -/

theorem dropStart_eq_some {start bs rest : Bytes} (h : dropStart start bs = some rest) :
    bs = start ++ rest := by
  fun_induction dropStart start bs with
  | case1 bs => exact Option.some.inj h
  | case2 => cases h
  | case3 t ts b bs heq ih =>
    rw [ih h, beq_iff_eq.mp heq]
    rfl
  | case4 => cases h

/-- The head of a re-export and what follows it make up the line. -/
theorem head?_eq_some {line head rest : Bytes} (h : head? line = some (head, rest)) :
    line = head ++ rest := by
  unfold head? at h
  dsimp only at h
  split at h
  · rename_i behind hbehind
    split at h
    · cases h
    · obtain ⟨rfl, rfl⟩ := Prod.mk.inj (Option.some.inj h)
      rw [List.append_assoc, List.append_assoc, List.takeWhile_append_dropWhile,
        ← dropStart_eq_some hbehind, List.takeWhile_append_dropWhile]
  · cases h

/-- What is left after a comma and a brace is the end of what was there. -/
theorem tail?_list {bs rest : Bytes} (h : tail? bs = some (.list rest)) : rest <:+ bs := by
  unfold tail? at h
  dsimp only at h
  split at h
  · cases h
  · split at h
    · rename_i behind hcomma
      split at h
      · rename_i more hbrace
        obtain rfl := Tail.list.inj (Option.some.inj h)
        have hbehind : more <:+ behind :=
          (hbrace ▸ List.suffix_cons 123 more).trans (List.dropWhile_suffix isBlank)
        have hbs : behind <:+ bs :=
          (hcomma ▸ List.suffix_cons 44 behind).trans (List.dropWhile_suffix isBlank)
        exact hbehind.trans hbs
      · cases h
    · cases h

/-- A line stays as it is, or its name is put into a list: what stands before the name is kept, and
so is what is left of the line after it. -/
theorem normalizeLine_cases (line : Bytes) :
    normalizeLine line = line ∨
      ∃ head name gap rest, line = head ++ (name ++ (gap ++ rest)) ∧
        ∃ close ∈ [bytes " \x7d ", bytes ", "],
          normalizeLine line = head ++ bytes "\x7b default as " ++ name ++ close ++ rest := by
  unfold normalizeLine
  split
  · exact .inl rfl
  · rename_i head rest hhead
    rw [head?_eq_some hhead]
    dsimp only
    split
    · exact .inl rfl
    · split
      · exact .inl rfl
      · generalize hname : rest.takeWhile isNameByte = name
        generalize hafter : rest.dropWhile isNameByte = after
        have hrest : rest = name ++ after := by
          rw [← hname, ← hafter, List.takeWhile_append_dropWhile]
        split
        · refine .inr ⟨head, name, after.takeWhile isBlank, after.dropWhile isBlank, ?_, _,
            List.mem_cons_self, rfl⟩
          rw [List.takeWhile_append_dropWhile, hrest]
        · rename_i tail htail
          obtain ⟨gap, hgap⟩ := tail?_list htail
          refine .inr ⟨head, name, gap, tail, ?_, _, List.mem_cons_of_mem _ List.mem_cons_self, rfl⟩
          rw [hgap, hrest]
        · split
          · exact .inl rfl
          · refine .inr ⟨head, name.take (name.length - 4), [], _, ?_, _, List.mem_cons_self, rfl⟩
            rw [List.nil_append, ← List.append_assoc (name.take _), List.take_append_drop, hrest]

theorem newline_notMem_normalizeLine {line : Bytes} (h : newline ∉ line) :
    newline ∉ normalizeLine line := by
  rcases normalizeLine_cases line with hsame | ⟨head, name, gap, rest, hline, close, hclose, hout⟩
  · rwa [hsame]
  · have hopen : newline ∉ bytes "\x7b default as " := by decide
    have hshut : newline ∉ close :=
      (by decide : ∀ close ∈ [bytes " \x7d ", bytes ", "], newline ∉ close) close hclose
    rw [hline] at h
    simp only [List.mem_append, not_or] at h
    rw [hout]
    simp only [List.mem_append, not_or]
    exact ⟨⟨⟨⟨h.1, hopen⟩, h.2.1⟩, hshut⟩, h.2.2.2⟩

/-- Rewriting keeps the number of line feeds. -/
theorem count_newline_normalize (data : Bytes) :
    (normalize data).count newline = data.count newline := by
  have hlines : ∀ line ∈ (splitLines data).map normalizeLine, newline ∉ line := by
    intro line hline
    obtain ⟨original, horiginal, rfl⟩ := List.mem_map.mp hline
    exact newline_notMem_normalizeLine (newline_notMem_of_mem_splitLines horiginal)
  have hjoined := count_newline_joinLines (by simpa using splitLines_ne_nil data) hlines
  rw [List.length_map, length_splitLines] at hjoined
  exact Nat.succ.inj hjoined

end CodeGraph.Reexport
