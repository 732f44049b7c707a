import CodeGraph.Facts.ScriptTags
import CodeGraph.Proofs.Text.Words
import Mathlib.Data.List.Forall2
import Mathlib.Data.List.Infix

/-!
# Pages with tags

A page is read by searching for tags, case aside, and for the last `src=` of each that works. Here
a page is written down instead: pieces of text in which no tag begins, and tags with one address
each (`Page`). Reading such a page gives the addresses of its tags, in order (`addresses_text`).

A word does not reach across a character that none of its letters matches (`Occurs.of_foreign`).
That is why neither a quote nor the `<` of the next tag can stand inside a word that is searched
for.
-/

namespace CodeGraph

namespace ScriptTags

/-! ## Words, case aside -/

/-- A text spells a word, case aside. -/
def Spells (word text : List Char) : Prop :=
  List.Forall₂ (fun p c => sameLetter p c = true) word text

/-- A word stands somewhere in a text, case aside. -/
def Occurs (word text : List Char) : Prop :=
  ∃ before found after, text = before ++ found ++ after ∧ Spells word found

/-- None of the letters of a word matches a character. -/
def foreign (word : List Char) (q : Char) : Bool :=
  word.all (fun p => !sameLetter p q)

theorem foreign_cons {p q : Char} {word : List Char} (h : foreign (p :: word) q = true) :
    sameLetter p q = false ∧ foreign word q = true := by
  rw [foreign, List.all_cons, Bool.and_eq_true, Bool.not_eq_true'] at h
  exact h

theorem dropWord_iff {word cs rest : List Char} :
    dropWord word cs = some rest ↔ ∃ found, Spells word found ∧ cs = found ++ rest := by
  constructor
  · intro h
    fun_induction dropWord word cs with
    | case1 cs =>
      obtain rfl := Option.some.inj h
      exact ⟨[], .nil, rfl⟩
    | case2 => cases h
    | case3 p ps c cs hsame ih =>
      obtain ⟨found, hfound, rfl⟩ := ih h
      exact ⟨c :: found, .cons hsame hfound, rfl⟩
    | case4 => cases h
  · rintro ⟨found, hfound, rfl⟩
    induction hfound with
    | nil => cases rest <;> rfl
    | cons hsame _ ih => rwa [List.cons_append, dropWord, if_pos hsame]

theorem dropWord_append {word found : List Char} (h : Spells word found) (rest : List Char) :
    dropWord word (found ++ rest) = some rest :=
  dropWord_iff.mpr ⟨found, h, rfl⟩

theorem occurs_of_dropWord {word cs rest : List Char} (h : dropWord word cs = some rest) :
    Occurs word cs := by
  obtain ⟨found, hfound, rfl⟩ := dropWord_iff.mp h
  exact ⟨[], found, rest, rfl, hfound⟩

theorem Occurs.cons {word cs : List Char} (h : Occurs word cs) (c : Char) :
    Occurs word (c :: cs) := by
  obtain ⟨before, found, after, rfl, hfound⟩ := h
  exact ⟨c :: before, found, after, rfl, hfound⟩

theorem Spells.length_eq {word text : List Char} (h : Spells word text) :
    word.length = text.length :=
  List.Forall₂.length_eq h

theorem Spells.not_mem {word text : List Char} (h : Spells word text) {q : Char}
    (hq : foreign word q = true) : q ∉ text := by
  induction h with
  | nil => exact List.not_mem_nil
  | cons hsame _ ih =>
    intro hmem
    rcases List.mem_cons.mp hmem with rfl | hmem
    · rw [(foreign_cons hq).1] at hsame
      cases hsame
    · exact ih (foreign_cons hq).2 hmem

theorem Occurs.length_le {word cs : List Char} (h : Occurs word cs) :
    word.length ≤ cs.length := by
  obtain ⟨before, found, after, rfl, hfound⟩ := h
  rw [hfound.length_eq, List.length_append, List.length_append]
  omega

/-- What no letter of a word matches ends the text in which the word can stand. -/
theorem dropWord_of_foreign {word cs rest out : List Char} {q : Char}
    (hq : foreign word q = true) (h : dropWord word (cs ++ q :: rest) = some out) :
    ∃ out', dropWord word cs = some out' := by
  induction word generalizing cs with
  | nil => cases cs <;> exact ⟨_, rfl⟩
  | cons p ps ih =>
    cases cs with
    | nil =>
      rw [List.nil_append, dropWord, (foreign_cons hq).1] at h
      cases h
    | cons c cs =>
      rw [List.cons_append, dropWord] at h
      split at h
      · rename_i hsame
        obtain ⟨out', hout'⟩ := ih (foreign_cons hq).2 h
        exact ⟨out', by rwa [dropWord, if_pos hsame]⟩
      · cases h

theorem occurs_iff {word cs : List Char} :
    Occurs word cs ↔ ∃ before after out, cs = before ++ after ∧ dropWord word after = some out := by
  constructor
  · rintro ⟨before, found, after, rfl, hfound⟩
    exact ⟨before, found ++ after, after, by rw [List.append_assoc], dropWord_append hfound after⟩
  · rintro ⟨before, after, out, rfl, hdrop⟩
    obtain ⟨found, hfound, rfl⟩ := dropWord_iff.mp hdrop
    exact ⟨before, found, out, by rw [List.append_assoc], hfound⟩

instance (word text : List Char) : Decidable (Spells word text) :=
  decidable_of_iff (dropWord word text = some []) <| dropWord_iff.trans
    ⟨fun ⟨found, hfound, htext⟩ => by rwa [htext, List.append_nil],
      fun h => ⟨text, h, (List.append_nil text).symm⟩⟩

instance (word cs : List Char) : Decidable (Occurs word cs) :=
  decidable_of_iff (∃ after ∈ cs.tails, (dropWord word after).isSome = true) <| by
    simp only [List.mem_tails, Option.isSome_iff_exists, occurs_iff]
    exact ⟨fun ⟨after, ⟨before, hcut⟩, out, hout⟩ => ⟨before, after, out, hcut.symm, hout⟩,
      fun ⟨before, after, out, hcut, hout⟩ => ⟨after, ⟨before, hcut.symm⟩, out, hout⟩⟩

/-- A word stands on one side of a character that it has no letter for. -/
theorem Occurs.of_foreign {word xs ys : List Char} {q : Char}
    (hq : foreign word q = true) (hne : word ≠ [])
    (h : Occurs word (xs ++ q :: ys)) : Occurs word xs ∨ Occurs word ys := by
  obtain ⟨before, after, out, hcut, hdrop⟩ := occurs_iff.mp h
  rcases List.append_eq_append_iff.mp hcut with ⟨more, hbefore, hafter⟩ | ⟨more, rfl, hafter⟩
  · cases more with
    | nil =>
      obtain ⟨p, ps, rfl⟩ := List.exists_cons_of_ne_nil hne
      rw [List.nil_append] at hafter
      rw [← hafter, dropWord, (foreign_cons hq).1] at hdrop
      cases hdrop
    | cons m more =>
      obtain ⟨-, rfl⟩ := List.cons.inj hafter
      exact .inr (occurs_iff.mpr ⟨more, after, out, rfl, hdrop⟩)
  · rw [hafter] at hdrop
    obtain ⟨out', hout'⟩ := dropWord_of_foreign hq hdrop
    exact .inl (occurs_iff.mpr ⟨before, more, out', rfl, hout'⟩)

/-! ## Tags as they are written -/

/-- The start of a tag. -/
def tagWord : List Char := "<script".toList

theorem tagWord_eq : tagWord = '<' :: "script".toList := by decide

/-- The start of the attribute with the address. -/
def sourceWord : List Char := "src=".toList

/-- A tag with one address: `<script`, something, `src=`, the quoted address and the rest. -/
structure Tag where
  start : List Char
  before : List Char
  label : List Char
  quote : Char
  address : List Char
  after : List Char
  spells_start : Spells tagWord start
  spells_label : Spells sourceWord label
  quote_mem : quote = '"' ∨ quote = '\''
  before_ne_nil : before ≠ []
  address_ne_nil : address ≠ []
  noQuote : '"' ∉ address ∧ '\'' ∉ address
  noClose : ∀ piece ∈ [before, address, after], '>' ∉ piece
  noLabel : ∀ piece ∈ [before, address, after], ¬ Occurs sourceWord piece

/-- The text of a tag. -/
def Tag.text (t : Tag) : List Char :=
  t.start ++ t.before ++ t.label ++ [t.quote] ++ t.address ++ [t.quote] ++ t.after ++ ['>']

/-- A page: a text in which no tag begins, and tags, each with such a text after it. -/
structure Page where
  lead : List Char
  tags : List (Tag × List Char)
  clear : ∀ text ∈ lead :: tags.map (·.2), ¬ Occurs tagWord text

/-- The text of a page. -/
def Page.text (p : Page) : List Char :=
  p.lead ++ p.tags.flatMap (fun t => t.1.text ++ t.2)

/-- The addresses of a page's tags, in order. -/
def Page.addresses (p : Page) : List (List Char) :=
  p.tags.map (·.1.address)

/-! ## Reading a tag -/

theorem lastAddress_cons {c : Char} (hc : c ≠ '>') (cs : List Char) :
    lastAddress (c :: cs) = (lastAddress cs).or (readAddress (c :: cs)) := by
  rw [lastAddress, if_neg (by simpa using hc)]
  cases lastAddress cs <;> rfl

/-- What stands before an address that works does not matter. -/
theorem lastAddress_append {xs ys : List Char} (hxs : '>' ∉ xs) {found : List Char × List Char}
    (h : lastAddress ys = some found) : lastAddress (xs ++ ys) = some found := by
  induction xs with
  | nil => exact h
  | cons c xs ih =>
    obtain ⟨hc, hxs⟩ := not_or.mp (List.mem_cons.not.mp hxs)
    rw [List.cons_append, lastAddress_cons (Ne.symm hc), ih hxs, Option.some_or]

theorem readAddress_eq_none {cs : List Char} (h : dropWord sourceWord cs = none) :
    readAddress cs = none := by
  have hdrop : dropWord "src=".toList cs = none := h
  rw [readAddress, hdrop]

theorem readTag_eq_none {cs : List Char} (h : dropWord tagWord cs = none) :
    readTag cs = none := by
  have hdrop : dropWord "<script".toList cs = none := h
  rw [readTag, hdrop]

theorem readTag_of_dropWord {c : Char} {cs rest : List Char}
    (h : dropWord tagWord cs = some (c :: rest)) (hc : c ≠ '>') :
    readTag cs = lastAddress rest := by
  have hdrop : dropWord "<script".toList cs = some (c :: rest) := h
  rw [readTag, hdrop]
  exact if_neg (by simpa using hc)

/-- In the rest of a tag without the attribute there is no address. -/
theorem lastAddress_of_clear {zs : List Char} (hclose : '>' ∉ zs)
    (hlabel : ¬ Occurs sourceWord zs) (rest : List Char) :
    lastAddress (zs ++ '>' :: rest) = none := by
  induction zs with
  | nil => rw [List.nil_append, lastAddress, if_pos (by decide)]
  | cons c zs ih =>
    obtain ⟨hc, hclose⟩ := not_or.mp (List.mem_cons.not.mp hclose)
    have hnone : dropWord sourceWord (c :: zs ++ '>' :: rest) = none := by
      rw [Option.eq_none_iff_forall_ne_some]
      intro out hout
      obtain ⟨out', hout'⟩ := dropWord_of_foreign (by decide) hout
      exact hlabel (occurs_of_dropWord hout')
    rw [List.cons_append, lastAddress_cons (Ne.symm hc), ih hclose (fun h => hlabel (h.cons c)),
      Option.none_or]
    exact readAddress_eq_none hnone

namespace Tag

variable (t : Tag)

theorem isQuote_quote : isQuote t.quote = true := by
  rcases t.quote_mem with h | h <;> rw [h] <;> decide

theorem isQuote_of_mem {c : Char} (h : c ∈ t.address) : (!isQuote c) = true := by
  have hne : c ≠ '"' ∧ c ≠ '\'' :=
    ⟨fun heq => t.noQuote.1 (heq ▸ h), fun heq => t.noQuote.2 (heq ▸ h)⟩
  simp [isQuote, hne]

theorem readAddress_label (rest : List Char) :
    readAddress (t.label ++ t.quote :: (t.address ++ t.quote :: (t.after ++ '>' :: rest))) =
      some (t.address, rest) := by
  have hquote : ∀ c, (t.quote :: (t.after ++ '>' :: rest)).head? = some c →
      (!isQuote c) = false := by
    intro c hc
    rw [← Option.some.inj hc, t.isQuote_quote]
    rfl
  have hafter : ∀ c ∈ t.after, (c != '>') = true := by
    intro c hc
    have hclose := t.noClose t.after (by simp)
    exact bne_iff_ne.mpr (fun heq => hclose (heq ▸ hc))
  have hne : t.address.isEmpty = false := by simpa using t.address_ne_nil
  have hdrop : dropWord "src=".toList (t.label ++ t.quote ::
      (t.address ++ t.quote :: (t.after ++ '>' :: rest))) =
      some (t.quote :: (t.address ++ t.quote :: (t.after ++ '>' :: rest))) :=
    dropWord_append t.spells_label _
  unfold readAddress
  rw [hdrop]
  dsimp only
  rw [if_pos t.isQuote_quote, takeWhile_stretch (fun c hc => t.isQuote_of_mem hc) hquote,
    dropWhile_stretch (fun c hc => t.isQuote_of_mem hc) hquote]
  dsimp only
  rw [dropWhile_stretch hafter (by simp)]
  dsimp only
  rw [hne]
  rfl

/-- After the attribute's first letter, the tag has no attribute any more. -/
theorem noLabel_after {c : Char} {letters : List Char} (h : t.label = c :: letters) :
    ¬ Occurs sourceWord (letters ++ t.quote :: (t.address ++ t.quote :: t.after)) := by
  have hquote : foreign sourceWord t.quote = true := by
    rcases t.quote_mem with hq | hq <;> rw [hq] <;> decide
  have hne : sourceWord ≠ [] := by decide
  intro hoccurs
  rcases hoccurs.of_foreign hquote hne with hletters | hoccurs
  · -- three letters do not hold a word of four
    have hlong := hletters.length_le
    have hlabel := t.spells_label.length_eq
    rw [h, List.length_cons] at hlabel
    omega
  · rcases hoccurs.of_foreign hquote hne with haddress | hafter
    · exact t.noLabel t.address (by simp) haddress
    · exact t.noLabel t.after (by simp) hafter

theorem noClose_after {c : Char} {letters : List Char} (h : t.label = c :: letters) :
    '>' ∉ letters ++ t.quote :: (t.address ++ t.quote :: t.after) := by
  have hlabel : '>' ∉ t.label := t.spells_label.not_mem (by decide)
  have hquote : '>' ≠ t.quote := by
    rcases t.quote_mem with hq | hq <;> rw [hq] <;> decide
  have haddress := t.noClose t.address (by simp)
  have hafter := t.noClose t.after (by simp)
  rw [h] at hlabel
  simp only [List.mem_cons, List.mem_append, not_or] at hlabel ⊢
  exact ⟨hlabel.2, hquote, haddress, hquote, hafter⟩

theorem lastAddress_label (rest : List Char) :
    lastAddress (t.label ++ t.quote :: (t.address ++ t.quote :: (t.after ++ '>' :: rest))) =
      some (t.address, rest) := by
  have hread := t.readAddress_label rest
  have hclose : '>' ∉ t.label := t.spells_label.not_mem (by decide)
  obtain ⟨c, letters, hlabel⟩ : ∃ c letters, t.label = c :: letters := by
    refine List.exists_cons_of_ne_nil (fun hnil => ?_)
    have hlength := t.spells_label.length_eq
    rw [hnil] at hlength
    cases hlength
  have hnone := lastAddress_of_clear (t.noClose_after hlabel) (t.noLabel_after hlabel) rest
  simp only [List.append_assoc, List.cons_append] at hnone
  rw [hlabel] at hread hclose ⊢
  rw [List.cons_append] at hread ⊢
  rw [lastAddress_cons (fun heq => hclose (heq ▸ List.mem_cons_self)), hnone, Option.none_or, hread]

/-- A tag is read as its address, whatever comes after it. -/
theorem readTag_text (rest : List Char) : readTag (t.text ++ rest) = some (t.address, rest) := by
  obtain ⟨c, before, hbefore⟩ := List.exists_cons_of_ne_nil t.before_ne_nil
  have hclose := t.noClose t.before (by simp)
  rw [hbefore] at hclose
  obtain ⟨hc, hclose⟩ := not_or.mp (List.mem_cons.not.mp hclose)
  have htext : t.text ++ rest = t.start ++ c :: (before ++ (t.label ++ t.quote ::
      (t.address ++ t.quote :: (t.after ++ '>' :: rest)))) := by
    simp [text, hbefore]
  rw [htext, readTag_of_dropWord (dropWord_append t.spells_start _) (Ne.symm hc)]
  exact lastAddress_append hclose (t.lastAddress_label rest)

theorem exists_text_eq : ∃ more, t.text = '<' :: more := by
  have hspells := t.spells_start
  rw [tagWord_eq] at hspells
  obtain ⟨c, more, hsame, -, hstart⟩ := List.forall₂_cons_left_iff.mp hspells
  have hc : c = '<' := by simpa [sameLetter] using hsame
  rw [text, hstart, hc]
  exact ⟨_, rfl⟩

end Tag

/-! ## Reading a page -/

theorem addresses_of_readTag {cs address rest : List Char}
    (h : readTag cs = some (address, rest)) : addresses cs = address :: addresses rest := by
  rw [addresses]
  split
  · rename_i found more hread
    obtain ⟨rfl, rfl⟩ := Prod.mk.inj (Option.some.inj (hread.symm.trans h))
    rfl
  · rename_i hread
    rw [h] at hread
    cases hread

theorem addresses_cons_of_readTag {c : Char} {cs : List Char} (h : readTag (c :: cs) = none) :
    addresses (c :: cs) = addresses cs := by
  rw [addresses]
  split
  · rename_i hread
    rw [h] at hread
    cases hread
  · rfl

theorem addresses_nil : addresses [] = [] := by
  rw [addresses]
  rfl

/-- Where a tag begins in a text before `<`, its first word ends there too: none of its later
letters is `<`. -/
theorem occurs_of_dropWord_append {c : Char} {cs rest out : List Char}
    (hrest : rest = [] ∨ ∃ more, rest = '<' :: more)
    (h : dropWord tagWord (c :: cs ++ rest) = some out) : Occurs tagWord (c :: cs) := by
  rcases hrest with rfl | ⟨more, rfl⟩
  · rw [List.append_nil] at h
    exact occurs_of_dropWord h
  · rw [tagWord_eq, List.cons_append, dropWord] at h
    split at h
    · rename_i hsame
      obtain ⟨out', hout'⟩ := dropWord_of_foreign (by decide) h
      have hdrop : dropWord tagWord (c :: cs) = some out' := by
        rw [tagWord_eq, dropWord, if_pos hsame, hout']
      exact occurs_of_dropWord hdrop
    · cases h

/-- A text in which no tag begins is passed over. -/
theorem addresses_append {cs rest : List Char} (hclear : ¬ Occurs tagWord cs)
    (hrest : rest = [] ∨ ∃ more, rest = '<' :: more) :
    addresses (cs ++ rest) = addresses rest := by
  induction cs with
  | nil => rfl
  | cons c cs ih =>
    have hnone : readTag (c :: cs ++ rest) = none :=
      readTag_eq_none (Option.eq_none_iff_forall_ne_some.mpr
        (fun out hout => hclear (occurs_of_dropWord_append hrest hout)))
    rw [List.cons_append] at hnone ⊢
    rw [addresses_cons_of_readTag hnone]
    exact ih (fun h => hclear (h.cons c))

theorem tags_open (tags : List (Tag × List Char)) :
    tags.flatMap (fun t => t.1.text ++ t.2) = [] ∨
      ∃ more, tags.flatMap (fun t => t.1.text ++ t.2) = '<' :: more := by
  cases tags with
  | nil => exact .inl rfl
  | cons t tags =>
    obtain ⟨more, hmore⟩ := t.1.exists_text_eq
    rw [List.flatMap_cons, hmore]
    exact .inr ⟨_, rfl⟩

theorem addresses_tags {tags : List (Tag × List Char)}
    (hclear : ∀ text ∈ tags.map (·.2), ¬ Occurs tagWord text) :
    addresses (tags.flatMap (fun t => t.1.text ++ t.2)) = tags.map (·.1.address) := by
  induction tags with
  | nil => exact addresses_nil
  | cons t tags ih =>
    rw [List.flatMap_cons, List.append_assoc, addresses_of_readTag (t.1.readTag_text _),
      addresses_append (hclear t.2 (by simp)) (tags_open tags),
      ih (fun text htext => hclear text (List.mem_cons_of_mem _ htext)), List.map_cons]

/-- A page is read as the addresses of its tags, in order. -/
theorem addresses_text (p : Page) : addresses p.text = p.addresses := by
  rw [Page.text, addresses_append (p.clear p.lead List.mem_cons_self) (tags_open p.tags)]
  exact addresses_tags (fun text htext => p.clear text (List.mem_cons_of_mem _ htext))

end ScriptTags

end CodeGraph
