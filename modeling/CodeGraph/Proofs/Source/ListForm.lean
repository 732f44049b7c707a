import CodeGraph.Proofs.Source.Reexport
import CodeGraph.Proofs.Text.Words
import Mathlib.Data.List.Forall2

/-!
# Re-exports of a default, line by line

Which lines are rewritten, and into what, is said by `ListForm`, without a reader: a line is put
together from an indented `export`, a name and what follows it, and its list form from the same
pieces. Each step of the reader is compared with the piece it reads (`head?_iff`, `isSource_iff`,
`tail?_source_iff`, `tail?_list_iff`). So a line is rewritten exactly if it has a list form, and
then into that (`listForm_iff`); and since a list form has none itself, a second time changes
nothing.

A name may run into the word `from` that follows it. There is still only one way to read such a
line: if the name ended elsewhere, neither `from` nor a comma could follow.
-/

namespace CodeGraph.Reexport

/-! ## Lines as the pieces between line feeds -/

theorem splitLines_eq_splitOn (data : Bytes) : splitLines data = data.splitOn newline := by
  induction data with
  | nil => rfl
  | cons b bs ih =>
    rw [List.splitOn_cons_eq_if_modifyHead, ← ih, splitLines]
    split
    · rfl
    · obtain ⟨first, rest, hsplit⟩ := List.exists_cons_of_ne_nil (splitLines_ne_nil bs)
      rw [hsplit]
      rfl

theorem joinLines_eq_intercalate (lines : List Bytes) :
    joinLines lines = [newline].intercalate lines := by
  induction lines with
  | nil => rfl
  | cons line rest ih =>
    cases rest with
    | nil => rw [List.intercalate_singleton, joinLines]
    | cons next more =>
      rw [List.intercalate_cons_cons, ← ih, List.append_assoc]
      rfl

theorem splitLines_append (a b : Bytes) :
    splitLines (a ++ newline :: b) = splitLines a ++ splitLines b := by
  simp only [splitLines_eq_splitOn]
  exact List.splitOnP_append_cons a b (beq_self_eq_true newline)

theorem joinLines_append {xs ys : List Bytes} (hx : xs ≠ []) (hy : ys ≠ []) :
    joinLines (xs ++ ys) = joinLines xs ++ newline :: joinLines ys := by
  obtain ⟨y, more, rfl⟩ := List.exists_cons_of_ne_nil hy
  simp only [joinLines_eq_intercalate]
  induction xs with
  | nil => exact absurd rfl hx
  | cons x xs ih =>
    cases xs with
    | nil => simp [List.intercalate_cons_cons]
    | cons x' xs =>
      have hrest := ih (List.cons_ne_nil _ _)
      rw [List.cons_append] at hrest
      rw [List.cons_append, List.cons_append, List.intercalate_cons_cons, hrest,
        List.intercalate_cons_cons, List.append_assoc (x ++ [newline])]

/-- The lines of a rewritten source are its lines, rewritten one by one. -/
theorem splitLines_normalize (data : Bytes) :
    splitLines (normalize data) = (splitLines data).map normalizeLine := by
  have hlines : ∀ line ∈ (splitLines data).map normalizeLine, newline ∉ line := by
    intro line hline
    obtain ⟨original, horiginal, rfl⟩ := List.mem_map.mp hline
    exact newline_notMem_normalizeLine (newline_notMem_of_mem_splitLines horiginal)
  rw [splitLines_eq_splitOn, normalize, joinLines_eq_intercalate]
  exact List.splitOn_intercalate newline hlines (by simpa using splitLines_ne_nil data)

theorem normalize_append (a b : Bytes) :
    normalize (a ++ newline :: b) = normalize a ++ newline :: normalize b := by
  rw [normalize, splitLines_append, List.map_append]
  exact joinLines_append (by simpa using splitLines_ne_nil a) (by simpa using splitLines_ne_nil b)

/-! ## The statement and its list form -/

/-- Nothing but blanks. -/
def AllBlank (bs : Bytes) : Prop :=
  ∀ b ∈ bs, isBlank b = true

/-- A name: not empty, and not beginning with a digit. -/
structure IsName (name : Bytes) : Prop where
  ne_nil : name ≠ []
  nameBytes : ∀ b ∈ name, isNameByte b = true
  noDigit : ∀ b, name.head? = some b → ¬ (48 ≤ b ∧ b ≤ 57)

/-- The words that are not re-exported in this way. -/
def reserved : List Bytes :=
  [bytes "default", bytes "from", bytes "type"]

/-- The word `export` at the start of a line, indented or not, and the blanks after it. -/
inductive Opening : Bytes → Prop
  | intro {indent gap : Bytes} : AllBlank indent → AllBlank gap → gap ≠ [] →
      Opening (indent ++ bytes "export" ++ gap)

/-- A line that re-exports a default, and the line with the list form of the statement. The name is
followed by `from` and a quote, or by a comma and a brace, with or without blanks. The word that
stands in its place, up to the first byte that belongs to no word, is not a reserved one. -/
inductive ListForm : Bytes → Bytes → Prop
  | source {head name before after : Bytes} {quote : UInt8} (rest : Bytes) : Opening head →
      IsName name → AllBlank before → AllBlank after → quote ∈ bytes "\"'" →
      (name ++ before ++ bytes "from").takeWhile isWordByte ∉ reserved →
      ListForm (head ++ name ++ before ++ bytes "from" ++ after ++ [quote] ++ rest)
        (head ++ bytes "\x7b default as " ++ name ++ bytes " \x7d from" ++ after ++ [quote] ++ rest)
  | list {head name before after : Bytes} (rest : Bytes) : Opening head → IsName name →
      AllBlank before → AllBlank after → name.takeWhile isWordByte ∉ reserved →
      ListForm (head ++ name ++ before ++ bytes "," ++ after ++ bytes "\x7b" ++ rest)
        (head ++ bytes "\x7b default as " ++ name ++ bytes ", " ++ rest)

/-! ## What the reader finds -/

theorem dropStart_iff {start bs rest : Bytes} :
    dropStart start bs = some rest ↔ bs = start ++ rest := by
  refine ⟨dropStart_eq_some, ?_⟩
  rintro rfl
  induction start with
  | nil => cases rest <;> rfl
  | cons t ts ih => rwa [List.cons_append, dropStart, if_pos (beq_self_eq_true t)]

theorem isBlank_iff {b : UInt8} : isBlank b = true ↔ b = 32 ∨ b = 9 := by
  rw [isBlank, Bool.or_eq_true, beq_iff_eq, beq_iff_eq]

theorem isNameByte_of_isBlank {b : UInt8} (h : isBlank b = true) : isNameByte b = false := by
  rcases isBlank_iff.mp h with rfl | rfl <;> decide

theorem isBlank_of_isNameByte {b : UInt8} (h : isNameByte b = true) : isBlank b = false := by
  rw [← Bool.not_eq_true]
  intro hblank
  rw [isNameByte_of_isBlank hblank] at h
  exact Bool.false_ne_true h

theorem isWordByte_of_isNameByte {b : UInt8} (h : isNameByte b = false) : isWordByte b = false := by
  rw [isNameByte, Bool.or_eq_false_iff] at h
  exact h.1

/-- The word that stands somewhere is the longest stretch of word bytes. -/
theorem startsKeyword_iff (bs : Bytes) :
    startsKeyword bs = true ↔ bs.takeWhile isWordByte ∈ reserved := by
  have hword : ∀ w ∈ reserved, ∀ b ∈ w, isWordByte b = true := by decide +kernel
  rw [startsKeyword, List.any_eq_true]
  constructor
  · rintro ⟨w, hw, hstarts⟩
    suffices hsame : bs.takeWhile isWordByte = w from hsame ▸ hw
    split at hstarts
    · rename_i b rest hdrop
      rw [dropStart_iff.mp hdrop]
      refine takeWhile_stretch (hword w hw) (fun x hx => ?_)
      obtain rfl : b = x := Option.some.inj hx
      simpa using hstarts
    · rename_i hdrop
      rw [dropStart_iff.mp hdrop]
      exact takeWhile_stretch (hword w hw) (by simp)
    · cases hstarts
  · intro hmem
    refine ⟨_, hmem, ?_⟩
    have hdrop : dropStart (bs.takeWhile isWordByte) bs = some (bs.dropWhile isWordByte) :=
      dropStart_iff.mpr List.takeWhile_append_dropWhile.symm
    rw [hdrop]
    cases hrest : bs.dropWhile isWordByte with
    | nil => rfl
    | cons b rest => simpa using head?_dropWhile (congrArg List.head? hrest)

theorem bytes_from : bytes "from" = [102, 114, 111, 109] := by decide

theorem isSource_iff (bs : Bytes) :
    isSource bs = true ↔ ∃ after quote rest, AllBlank after ∧ quote ∈ bytes "\"'" ∧
      bs = bytes "from" ++ (after ++ quote :: rest) := by
  have hquotes : bytes "\"'" = [34, 39] := by decide
  rw [isSource, hquotes]
  constructor
  · intro h
    split at h
    · rename_i behind hdrop
      split at h
      · rename_i quote rest hquote
        refine ⟨behind.takeWhile isBlank, quote, rest,
          fun b hb => List.mem_takeWhile_imp hb, ?_, ?_⟩
        · simpa using h
        · rw [dropStart_iff.mp hdrop, ← hquote, List.takeWhile_append_dropWhile]
      · cases h
    · cases h
  · rintro ⟨after, quote, rest, hafter, hquote, rfl⟩
    have hq : isBlank quote = false := by
      rcases List.mem_pair.mp hquote with rfl | rfl <;> decide
    rw [dropStart_iff.mpr rfl]
    dsimp only
    rw [dropWhile_stretch hafter (by simpa using hq)]
    simpa using hquote

theorem tail?_source_iff (bs : Bytes) :
    tail? bs = some .source ↔ ∃ before rest, AllBlank before ∧ isSource rest = true ∧
      bs = before ++ rest := by
  unfold tail?
  dsimp only
  constructor
  · intro h
    split at h
    · rename_i hsource
      exact ⟨_, _, fun b hb => List.mem_takeWhile_imp hb, hsource,
        List.takeWhile_append_dropWhile.symm⟩
    · split at h
      · split at h <;> cases h
      · cases h
  · rintro ⟨before, rest, hbefore, hsource, rfl⟩
    have hstop : ∀ b, rest.head? = some b → isBlank b = false := by
      intro b hb
      obtain ⟨after, quote, more, -, -, rfl⟩ := (isSource_iff rest).mp hsource
      obtain rfl : 102 = b := by simpa [bytes_from] using hb
      decide
    rw [dropWhile_stretch hbefore hstop, if_pos hsource]

theorem tail?_list_iff (bs rest : Bytes) :
    tail? bs = some (.list rest) ↔ ∃ before after, AllBlank before ∧ AllBlank after ∧
      bs = before ++ 44 :: (after ++ 123 :: rest) := by
  unfold tail?
  dsimp only
  constructor
  · intro h
    split at h
    · cases h
    · split at h
      · rename_i behind hcomma
        split at h
        · rename_i more hbrace
          obtain rfl := Tail.list.inj (Option.some.inj h)
          refine ⟨bs.takeWhile isBlank, behind.takeWhile isBlank,
            fun b hb => List.mem_takeWhile_imp hb, fun b hb => List.mem_takeWhile_imp hb, ?_⟩
          rw [← hbrace, List.takeWhile_append_dropWhile, ← hcomma,
            List.takeWhile_append_dropWhile]
        · cases h
      · cases h
  · rintro ⟨before, after, hbefore, hafter, rfl⟩
    have hcomma : ∀ b, (44 :: (after ++ 123 :: rest)).head? = some b → isBlank b = false := by
      simp [isBlank]
    have hbrace : ∀ b, (123 :: rest).head? = some b → isBlank b = false := by
      simp [isBlank]
    rw [dropWhile_stretch hbefore hcomma, if_neg]
    · simp only [dropWhile_stretch hafter hbrace]
    · rw [isSource_iff]
      rintro ⟨_, _, _, -, -, hfrom⟩
      simp [bytes_from] at hfrom

theorem head?_iff {line head rest : Bytes} :
    head? line = some (head, rest) ↔ Opening head ∧ line = head ++ rest ∧
      ∀ b, rest.head? = some b → isBlank b = false := by
  constructor
  · intro h
    refine ⟨?_, head?_eq_some h, ?_⟩ <;> unfold head? at h <;> dsimp only at h <;> split at h
    · rename_i behind hbehind
      split at h
      · cases h
      · rename_i hgap
        obtain ⟨rfl, rfl⟩ := Prod.mk.inj (Option.some.inj h)
        exact .intro (fun b hb => List.mem_takeWhile_imp hb) (fun b hb => List.mem_takeWhile_imp hb)
          (by simpa using hgap)
    · cases h
    · split at h
      · cases h
      · obtain ⟨rfl, rfl⟩ := Prod.mk.inj (Option.some.inj h)
        exact fun b hb => head?_dropWhile hb
    · cases h
  · rintro ⟨⟨hindent, hgap, hne⟩, rfl, hrest⟩
    rename_i indent gap
    have hexport : ∀ b, (bytes "export" ++ (gap ++ rest)).head? = some b → isBlank b = false := by
      intro b hb
      obtain rfl : 101 = b := by
        simpa [show bytes "export" = [101, 120, 112, 111, 114, 116] by decide] using hb
      decide
    unfold head?
    rw [List.append_assoc, List.append_assoc, takeWhile_stretch hindent hexport,
      dropWhile_stretch hindent hexport, dropStart_iff.mpr rfl]
    dsimp only
    rw [takeWhile_stretch hgap hrest, dropWhile_stretch hgap hrest, if_neg (by simpa using hne),
      List.append_assoc]

/-! ## Rewritten lines -/

/-- A name in its place is treated as what follows it says. -/
theorem normalizeLine_of_name {head word after : Bytes} (hhead : Opening head) (hword : IsName word)
    (hafter : ∀ b, after.head? = some b → isNameByte b = false)
    (hfree : (word ++ after).takeWhile isWordByte ∉ reserved) :
    normalizeLine (head ++ (word ++ after)) =
      match tail? after with
      | some .source =>
        head ++ bytes "\x7b default as " ++ word ++ bytes " \x7d " ++ after.dropWhile isBlank
      | some (.list tail) => head ++ bytes "\x7b default as " ++ word ++ bytes ", " ++ tail
      | none =>
        let name := word.take (word.length - 4)
        let glued := word.drop (word.length - 4) ++ after
        if name.isEmpty || !isSource glued then head ++ (word ++ after)
        else head ++ bytes "\x7b default as " ++ name ++ bytes " \x7d " ++ glued := by
  obtain ⟨first, more, rfl⟩ := List.exists_cons_of_ne_nil hword.ne_nil
  have hblank : ∀ b, (first :: more ++ after).head? = some b → isBlank b = false := by
    intro b hb
    obtain rfl : first = b := Option.some.inj hb
    exact isBlank_of_isNameByte (hword.nameBytes first List.mem_cons_self)
  have hkept : ((48 ≤ first && first ≤ 57) || startsKeyword (first :: more ++ after)) = false := by
    have hkeyword : startsKeyword (first :: more ++ after) = false := by
      rw [← Bool.not_eq_true, startsKeyword_iff]
      exact hfree
    rw [hkeyword, Bool.or_false, ← Bool.not_eq_true, Bool.and_eq_true, decide_eq_true_eq,
      decide_eq_true_eq]
    exact hword.noDigit first rfl
  unfold normalizeLine
  rw [head?_iff.mpr ⟨hhead, rfl, hblank⟩]
  dsimp only
  rw [takeWhile_stretch hword.nameBytes hafter, dropWhile_stretch hword.nameBytes hafter]
  dsimp only
  rw [hkept]
  rfl

theorem IsName.append {name more : Bytes} (h : IsName name)
    (hmore : ∀ b ∈ more, isNameByte b = true) : IsName (name ++ more) where
  ne_nil := List.append_ne_nil_of_left_ne_nil h.ne_nil more
  nameBytes b hb := (List.mem_append.mp hb).elim (h.nameBytes b) (hmore b)
  noDigit b hb := by
    rw [List.head?_append_of_ne_nil _ h.ne_nil] at hb
    exact h.noDigit b hb

/-- Blanks that separate a name from something else end the name. -/
theorem stop_of_blank {before rest : Bytes} (hbefore : AllBlank before) (hne : before ≠ []) :
    ∀ b, (before ++ rest).head? = some b → isNameByte b = false := by
  intro b hb
  rw [List.head?_append_of_ne_nil _ hne] at hb
  exact isNameByte_of_isBlank (hbefore b (List.mem_of_head? hb))

/-- A quote ends a name, and so does a comma, whether or not blanks come first. -/
theorem stop_of_mark {before : Bytes} {mark : UInt8} (hbefore : AllBlank before)
    (hmark : isNameByte mark = false) (rest : Bytes) :
    ∀ b, (before ++ mark :: rest).head? = some b → isNameByte b = false := by
  by_cases hne : before = []
  · subst hne
    intro b hb
    rwa [← Option.some.inj hb]
  · exact stop_of_blank hbefore hne

theorem takeWhile_word (bs : Bytes) {rest : Bytes}
    (h : ∀ b, rest.head? = some b → isNameByte b = false) :
    (bs ++ rest).takeWhile isWordByte = bs.takeWhile isWordByte := by
  induction bs with
  | nil => exact takeWhile_stretch (by simp) (fun b hb => isWordByte_of_isNameByte (h b hb))
  | cons b bs ih => simp only [List.cons_append, List.takeWhile_cons, ih]

/-- Behind blanks and a quote there is neither `from` nor a comma. -/
theorem tail?_of_quote {after : Bytes} {quote : UInt8} (hafter : AllBlank after)
    (hquote : quote ∈ bytes "\"'") (rest : Bytes) : tail? (after ++ quote :: rest) = none := by
  have hquotes : bytes "\"'" = [34, 39] := by decide
  rw [hquotes] at hquote
  have hblank : ∀ b, (quote :: rest).head? = some b → isBlank b = false := by
    intro b hb
    rw [← Option.some.inj hb]
    rcases List.mem_pair.mp hquote with rfl | rfl <;> decide
  have hsource : isSource (quote :: rest) = false := by
    rw [← Bool.not_eq_true, isSource_iff]
    rintro ⟨_, _, _, -, -, hfrom⟩
    rw [bytes_from] at hfrom
    obtain rfl := (List.cons.inj hfrom).1
    simp at hquote
  unfold tail?
  rw [dropWhile_stretch hafter hblank]
  dsimp only
  rw [hsource, if_neg Bool.false_ne_true]
  rcases List.mem_pair.mp hquote with rfl | rfl <;> rfl

theorem normalizeLine_of_source {head name before after : Bytes} {quote : UInt8}
    (hhead : Opening head) (hname : IsName name) (hbefore : AllBlank before)
    (hafter : AllBlank after) (hquote : quote ∈ bytes "\"'")
    (hfree : (name ++ before ++ bytes "from").takeWhile isWordByte ∉ reserved) (rest : Bytes) :
    normalizeLine (head ++ (name ++ (before ++ (bytes "from" ++ (after ++ quote :: rest))))) =
      head ++ bytes "\x7b default as " ++ name ++ bytes " \x7d " ++
        (bytes "from" ++ (after ++ quote :: rest)) := by
  have hsource : isSource (bytes "from" ++ (after ++ quote :: rest)) = true :=
    (isSource_iff _).mpr ⟨after, quote, rest, hafter, hquote, rfl⟩
  have hmark : isNameByte quote = false :=
    (by decide +kernel : ∀ q ∈ bytes "\"'", isNameByte q = false) quote hquote
  have hstop := stop_of_mark hafter hmark rest
  rw [← takeWhile_word _ hstop] at hfree
  simp only [List.append_assoc] at hfree
  by_cases hglued : before = []
  · -- the name runs into `from`: the word is both, and nothing that follows it fits
    subst hglued
    have hword : IsName (name ++ bytes "from") := hname.append (by decide +kernel)
    have hcut : (name ++ bytes "from").length - 4 = name.length := by simp [bytes_from]
    have hne : name.isEmpty = false := by simpa using hname.ne_nil
    rw [List.nil_append] at hfree ⊢
    rw [← List.append_assoc name] at hfree ⊢
    rw [normalizeLine_of_name hhead hword hstop hfree, tail?_of_quote hafter hquote]
    dsimp only
    rw [hcut, List.take_left, List.drop_left, hsource, hne]
    rfl
  · have htail := (tail?_source_iff _).mpr ⟨before, _, hbefore, hsource, rfl⟩
    have hfrom : ∀ b, (bytes "from" ++ (after ++ quote :: rest)).head? = some b →
        isBlank b = false := by
      intro b hb
      obtain rfl : 102 = b := by simpa [bytes_from] using hb
      decide
    rw [normalizeLine_of_name hhead hname (stop_of_blank hbefore hglued) hfree, htail]
    dsimp only
    rw [dropWhile_stretch hbefore hfrom]

theorem normalizeLine_of_list {head name before after : Bytes} (hhead : Opening head)
    (hname : IsName name) (hbefore : AllBlank before) (hafter : AllBlank after)
    (hfree : name.takeWhile isWordByte ∉ reserved) (rest : Bytes) :
    normalizeLine (head ++ (name ++ (before ++ 44 :: (after ++ 123 :: rest)))) =
      head ++ bytes "\x7b default as " ++ name ++ bytes ", " ++ rest := by
  have hstop := stop_of_mark hbefore (by decide : isNameByte 44 = false) (after ++ 123 :: rest)
  rw [← takeWhile_word _ hstop] at hfree
  have htail := (tail?_list_iff _ rest).mpr ⟨before, after, hbefore, hafter, rfl⟩
  rw [normalizeLine_of_name hhead hname hstop hfree, htail]

theorem normalizeLine_of_listForm {line out : Bytes} (h : ListForm line out) :
    normalizeLine line = out := by
  cases h with
  | source rest hhead hname hbefore hafter hquote hfree =>
    have hclose : bytes " \x7d from" = bytes " \x7d " ++ bytes "from" := by decide
    have hline := normalizeLine_of_source hhead hname hbefore hafter hquote hfree rest
    simp only [List.append_assoc, List.singleton_append, hclose] at hline ⊢
    exact hline
  | list rest hhead hname hbefore hafter hfree =>
    have hcomma : bytes "," = [44] := by decide
    have hbrace : bytes "\x7b" = [123] := by decide
    have hline := normalizeLine_of_list hhead hname hbefore hafter hfree rest
    simp only [List.append_assoc, List.singleton_append, hcomma, hbrace] at hline ⊢
    exact hline

/-- A name with something that fits behind it has a list form. -/
theorem exists_listForm_of_tail {head word after : Bytes} {t : Tail} (hhead : Opening head)
    (hword : IsName word) (hfree : (word ++ after).takeWhile isWordByte ∉ reserved)
    (htail : tail? after = some t) : ∃ out, ListForm (head ++ (word ++ after)) out := by
  cases t with
  | source =>
    obtain ⟨before, behind, hbefore, hsource, rfl⟩ := (tail?_source_iff after).mp htail
    obtain ⟨blanks, quote, rest, hblanks, hquote, rfl⟩ := (isSource_iff behind).mp hsource
    have hmark : isNameByte quote = false :=
      (by decide +kernel : ∀ q ∈ bytes "\"'", isNameByte q = false) quote hquote
    simp only [← List.append_assoc word, ← List.append_assoc (word ++ before)] at hfree
    rw [takeWhile_word _ (stop_of_mark hblanks hmark rest)] at hfree
    have hform := ListForm.source rest hhead hword hbefore hblanks hquote hfree
    simp only [List.append_assoc, List.singleton_append] at hform
    exact ⟨_, hform⟩
  | list rest =>
    obtain ⟨before, blanks, hbefore, hblanks, rfl⟩ := (tail?_list_iff after rest).mp htail
    rw [takeWhile_word _ (stop_of_mark hbefore (by decide : isNameByte 44 = false) _)] at hfree
    have hcomma : bytes "," = [44] := by decide
    have hbrace : bytes "\x7b" = [123] := by decide
    have hform := ListForm.list rest hhead hword hbefore hblanks hfree
    simp only [List.append_assoc, List.singleton_append, hcomma, hbrace] at hform
    exact ⟨_, hform⟩

/-- A name that runs into `from` with a quote behind it has a list form. -/
theorem exists_listForm_of_glued {head word after : Bytes} (hhead : Opening head)
    (hword : IsName word) (hfree : (word ++ after).takeWhile isWordByte ∉ reserved)
    (hname : word.take (word.length - 4) ≠ [])
    (hglued : isSource (word.drop (word.length - 4) ++ after) = true) :
    ∃ out, ListForm (head ++ (word ++ after)) out := by
  have hcut := List.take_append_drop (word.length - 4) word
  have hshort : IsName (word.take (word.length - 4)) :=
    { ne_nil := hname
      nameBytes := fun b hb => hword.nameBytes b (List.mem_of_mem_take hb)
      noDigit := fun b hb => hword.noDigit b (by
        rw [← hcut, List.head?_append_of_ne_nil _ hname]
        exact hb) }
  have htail : tail? (word.drop (word.length - 4) ++ after) = some .source :=
    (tail?_source_iff _).mpr ⟨[], _, by simp [AllBlank], hglued, rfl⟩
  rw [← hcut, List.append_assoc] at hfree ⊢
  exact exists_listForm_of_tail hhead hshort hfree htail

/-- A line that does not stay as it is has a list form. -/
theorem exists_listForm {line : Bytes} (h : normalizeLine line ≠ line) :
    ∃ out, ListForm line out := by
  unfold normalizeLine at h
  split at h
  · exact absurd rfl h
  · rename_i head rest hhead
    obtain ⟨hopening, hline, -⟩ := head?_iff.mp hhead
    dsimp only at h
    generalize hword : rest.takeWhile isNameByte = word at h
    generalize hafter : rest.dropWhile isNameByte = after at h
    have hrest : rest = word ++ after := by
      rw [← hword, ← hafter, List.takeWhile_append_dropWhile]
    cases word with
    | nil => exact absurd rfl h
    | cons first more =>
      dsimp only at h
      split at h
      · exact absurd rfl h
      · rename_i hkept
        rw [Bool.or_eq_true, not_or, startsKeyword_iff, Bool.and_eq_true, decide_eq_true_eq,
          decide_eq_true_eq, hrest] at hkept
        have hname : IsName (first :: more) :=
          { ne_nil := List.cons_ne_nil _ _
            nameBytes := fun b hb => List.mem_takeWhile_imp (hword ▸ hb)
            noDigit := fun b hb => Option.some.inj hb ▸ hkept.1 }
        rw [hline, hrest]
        cases htail : tail? after with
        | some t => exact exists_listForm_of_tail hopening hname hkept.2 htail
        | none =>
          rw [htail] at h
          dsimp only at h
          split at h
          · exact absurd rfl h
          · rename_i hglued
            rw [Bool.or_eq_true, not_or, Bool.not_eq_true', Bool.not_eq_false,
              List.isEmpty_iff] at hglued
            exact exists_listForm_of_glued hopening hname hkept.2 hglued.1 hglued.2

/-! ## Lists stay as they are -/

/-- What is exported in braces is no name. -/
theorem normalizeLine_of_brace {head : Bytes} (hhead : Opening head) (rest : Bytes) :
    normalizeLine (head ++ 123 :: rest) = head ++ 123 :: rest := by
  have hblank : ∀ b, (123 :: rest).head? = some b → isBlank b = false := by simp [isBlank]
  unfold normalizeLine
  rw [head?_iff.mpr ⟨hhead, rfl, hblank⟩]
  dsimp only
  rw [List.takeWhile_cons_of_neg (by decide)]

/-- A list form has a brace where the line has its name. -/
theorem ListForm.exists_brace {line out : Bytes} (h : ListForm line out) :
    ∃ head name, Opening head ∧ IsName name ∧ head ++ name <+: line ∧ head ++ [123] <+: out := by
  have hopen : [123] <+: bytes "\x7b default as " := by decide
  cases h with
  | source rest hhead hname =>
    refine ⟨_, _, hhead, hname, ?_, ?_⟩
    · simp only [List.append_assoc, List.prefix_append_right_inj, List.prefix_append]
    · simp only [List.append_assoc, List.prefix_append_right_inj]
      exact hopen.trans (List.prefix_append _ _)
  | list rest hhead hname =>
    refine ⟨_, _, hhead, hname, ?_, ?_⟩
    · simp only [List.append_assoc, List.prefix_append_right_inj, List.prefix_append]
    · simp only [List.append_assoc, List.prefix_append_right_inj]
      exact hopen.trans (List.prefix_append _ _)

theorem ListForm.ne {line out : Bytes} (h : ListForm line out) : out ≠ line := by
  obtain ⟨head, name, -, hname, ⟨more, hline⟩, ⟨rest, hout⟩⟩ := h.exists_brace
  obtain ⟨first, others, rfl⟩ := List.exists_cons_of_ne_nil hname.ne_nil
  rintro rfl
  rw [← hline, List.append_assoc, List.append_assoc] at hout
  obtain ⟨rfl, -⟩ := List.cons.inj (List.append_cancel_left hout)
  exact absurd (hname.nameBytes 123 List.mem_cons_self) (by decide)

/-- A line is rewritten exactly if it has a list form, and then into that. -/
theorem listForm_iff {line out : Bytes} :
    ListForm line out ↔ normalizeLine line = out ∧ out ≠ line := by
  constructor
  · exact fun h => ⟨normalizeLine_of_listForm h, h.ne⟩
  · rintro ⟨rfl, hne⟩
    obtain ⟨out, hform⟩ := exists_listForm hne
    rwa [normalizeLine_of_listForm hform]

theorem normalizeLine_normalizeLine (line : Bytes) :
    normalizeLine (normalizeLine line) = normalizeLine line := by
  by_cases hsame : normalizeLine line = line
  · rw [hsame, hsame]
  · obtain ⟨head, -, hhead, -, -, ⟨rest, hout⟩⟩ := (listForm_iff.mpr ⟨rfl, hsame⟩).exists_brace
    rw [← hout, List.append_assoc]
    exact normalizeLine_of_brace hhead rest

theorem normalize_normalize (data : Bytes) : normalize (normalize data) = normalize data := by
  rw [normalize, splitLines_normalize, List.map_map, normalize]
  exact congrArg joinLines (List.map_congr_left fun line _ => normalizeLine_normalizeLine line)

/-- **Sources are rewritten line by line.** What is on both sides of a line feed is rewritten on its
own, and a second time nothing changes. There are as many line feeds as before; a line that has a
list form becomes that, and every other line stays as it is. -/
theorem rewritten_line_by_line :
    (∀ a b, normalize (a ++ newline :: b) = normalize a ++ newline :: normalize b) ∧
    (∀ data, normalize (normalize data) = normalize data) ∧
    ∀ data, (normalize data).count newline = data.count newline ∧
      List.Forall₂ (fun line out => ListForm line out ∨ out = line ∧ ∀ form, ¬ ListForm line form)
        (data.splitOn newline) ((normalize data).splitOn newline) := by
  refine ⟨normalize_append, normalize_normalize, fun data => ⟨count_newline_normalize data, ?_⟩⟩
  rw [← splitLines_eq_splitOn, ← splitLines_eq_splitOn, splitLines_normalize,
    List.forall₂_map_right_iff, List.forall₂_same]
  intro line _
  by_cases hsame : normalizeLine line = line
  · refine .inr ⟨hsame, fun form hform => ?_⟩
    obtain ⟨rfl, hne⟩ := listForm_iff.mp hform
    exact hne hsame
  · exact .inl (listForm_iff.mpr ⟨rfl, hsame⟩)

/-- A name may run into `from`, and the start of a reserved word is no reserved word. -/
example :
    normalize (bytes "\texport vfrom'm'\nexport type from 'm'\nexport types , \x7bx\x7d from 'm'") =
      bytes ("\texport \x7b default as v \x7d from'm'\nexport type from 'm'\n" ++
        "export \x7b default as types, x\x7d from 'm'") := by
  decide

end CodeGraph.Reexport
