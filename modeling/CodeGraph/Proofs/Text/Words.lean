import CodeGraph.Text.Words
import Mathlib.Data.List.Basic
import Mathlib.Data.List.Chain
import Mathlib.Data.List.TakeWhile

/-!
# Words and flat texts

Texts are read stretch by stretch: as much as passes a test, then the rest. A text that was put
together from such a stretch and something that does not begin with more of it is cut apart again at
the same place (`takeWhile_stretch`, `dropWhile_stretch`).

`Spelled` says what the words of a text are without reading it from left to right: words are
stretches without whitespace, and whitespace stands between them. Every text spells exactly one
sequence of words (`spelled_iff`).

A text is flat if it has no whitespace but single spaces inside (`Flat`). Collapsing makes a text
flat (`flat_collapse`) and leaves flat texts alone (`collapse_of_flat`).
-/

namespace CodeGraph

/-! ## Longest stretches -/

section Stretches

variable {α : Type} {p : α → Bool} {l xs rest : List α}

theorem head?_dropWhile {x : α} (h : (l.dropWhile p).head? = some x) : p x = false := by
  have hfirst := List.head?_dropWhile_not p l
  rwa [h] at hfirst

theorem takeWhile_stretch (hxs : ∀ x ∈ xs, p x = true)
    (hrest : ∀ x, rest.head? = some x → p x = false) : (xs ++ rest).takeWhile p = xs := by
  rw [List.takeWhile_append_of_pos hxs]
  cases rest with
  | nil => exact List.append_nil xs
  | cons x rest =>
    have hx : ¬ p x = true := by simpa using hrest x rfl
    rw [List.takeWhile_cons_of_neg hx, List.append_nil]

theorem dropWhile_stretch (hxs : ∀ x ∈ xs, p x = true)
    (hrest : ∀ x, rest.head? = some x → p x = false) : (xs ++ rest).dropWhile p = rest := by
  rw [List.dropWhile_append_of_pos hxs]
  cases rest with
  | nil => rfl
  | cons x rest =>
    have hx : ¬ p x = true := by simpa using hrest x rfl
    exact List.dropWhile_cons_of_neg hx

end Stretches

namespace Words

/-- A word: not empty, and without whitespace. -/
structure IsWord (w : List Char) : Prop where
  nonempty : w ≠ []
  solid : ∀ c ∈ w, isSpace c = false

/-- The text spells these words. -/
inductive Spelled : List Char → List (List Char) → Prop
  | nil : Spelled [] []
  | space {c : Char} {cs : List Char} {ws : List (List Char)} (blank : isSpace c = true)
      (rest : Spelled cs ws) : Spelled (c :: cs) ws
  | last {w : List Char} (word : IsWord w) : Spelled w [w]
  | word {w : List Char} {c : Char} {cs : List Char} {ws : List (List Char)} (word : IsWord w)
      (blank : isSpace c = true) (rest : Spelled cs ws) : Spelled (w ++ c :: cs) (w :: ws)

/-! ## A text has its words and no others -/

theorem words_nil : words [] = [] := rfl

theorem words_space {c : Char} (h : isSpace c = true) (cs : List Char) :
    words (c :: cs) = words cs := by
  rw [words.eq_def]
  exact if_pos h

/-- The first word ends where whitespace comes or the text ends. -/
theorem words_append {w rest : List Char} (hw : IsWord w)
    (hrest : ∀ c, rest.head? = some c → isSpace c = true) :
    words (w ++ rest) = w :: words rest := by
  induction w with
  | nil => exact absurd rfl hw.nonempty
  | cons c w ih =>
    have hc : isSpace c = false := hw.solid c List.mem_cons_self
    cases w with
    | nil =>
      cases rest with
      | nil =>
        rw [List.append_nil, words.eq_def]
        simp [hc, words_nil]
      | cons d rest =>
        have hd : isSpace d = true := hrest d rfl
        rw [List.cons_append, words.eq_def]
        simp [hc, hd]
    | cons d w =>
      have htail : IsWord (d :: w) :=
        ⟨List.cons_ne_nil d w, fun x hx => hw.solid x (List.mem_cons_of_mem c hx)⟩
      have hd : isSpace d = false := htail.solid d List.mem_cons_self
      rw [List.cons_append, words.eq_def]
      simp only [hc, Bool.false_eq_true, if_false, ih htail]
      simp [hd]

theorem Spelled.words_eq {cs : List Char} {ws : List (List Char)} (h : Spelled cs ws) :
    words cs = ws := by
  induction h with
  | nil => rfl
  | space blank _ ih => rw [words_space blank, ih]
  | @last w word =>
    have hrest : ∀ c, ([] : List Char).head? = some c → isSpace c = true := by simp
    have hwords := words_append word hrest
    rwa [List.append_nil] at hwords
  | @word w c cs ws word blank _ ih =>
    have hrest : ∀ d, (c :: cs).head? = some d → isSpace d = true := by
      intro d hd
      rwa [← Option.some.inj hd]
    rw [words_append word hrest, words_space blank, ih]

theorem Spelled.of_space {c : Char} {cs : List Char} {ws : List (List Char)}
    (h : Spelled (c :: cs) ws) (hc : isSpace c = true) : Spelled cs ws := by
  generalize htext : c :: cs = text at h
  cases h with
  | nil => exact absurd htext (List.cons_ne_nil c cs)
  | space _ rest =>
    obtain ⟨-, rfl⟩ := List.cons.inj htext
    exact rest
  | last word =>
    have hsolid := word.solid c (htext ▸ List.mem_cons_self)
    rw [hc] at hsolid
    cases hsolid
  | @word w d ds vs word blank rest =>
    obtain ⟨x, w, rfl⟩ := List.exists_cons_of_ne_nil word.nonempty
    obtain ⟨rfl, -⟩ := List.cons.inj htext
    have hsolid := word.solid c List.mem_cons_self
    rw [hc] at hsolid
    cases hsolid

/-- A character in front of a word makes the word longer. -/
theorem Spelled.of_solid {c d : Char} {cs : List Char} {ws : List (List Char)}
    (h : Spelled (d :: cs) ws) (hd : isSpace d = false) (hc : isSpace c = false) :
    ∃ first rest, ws = first :: rest ∧ Spelled (c :: d :: cs) ((c :: first) :: rest) := by
  have longer : ∀ {w}, IsWord w → IsWord (c :: w) := fun {w} hw =>
    ⟨List.cons_ne_nil c w, by simpa [hc] using hw.solid⟩
  generalize htext : d :: cs = text at h
  cases h with
  | nil => exact absurd htext (List.cons_ne_nil d cs)
  | space blank _ =>
    obtain ⟨rfl, -⟩ := List.cons.inj htext
    rw [hd] at blank
    cases blank
  | last word => exact ⟨text, [], rfl, .last (longer word)⟩
  | @word w x ds vs word blank rest => exact ⟨w, vs, rfl, .word (longer word) blank rest⟩

theorem spelled_words (cs : List Char) : Spelled cs (words cs) := by
  induction cs with
  | nil => exact .nil
  | cons c cs ih =>
    by_cases hc : isSpace c = true
    · rw [words_space hc]
      exact .space hc ih
    · have hc : isSpace c = false := by simpa using hc
      have hletter : IsWord [c] := ⟨List.cons_ne_nil c [], by simpa using hc⟩
      cases cs with
      | nil =>
        rw [words.eq_def]
        simpa [hc] using Spelled.last hletter
      | cons d cs =>
        by_cases hd : isSpace d = true
        · rw [words.eq_def]
          simpa [hc, hd] using Spelled.word hletter hd (ih.of_space hd)
        · have hd : isSpace d = false := by simpa using hd
          obtain ⟨first, rest, hwords, hspelled⟩ := ih.of_solid hd hc
          rw [words.eq_def]
          simpa [hc, hd, hwords] using hspelled

theorem spelled_iff {cs : List Char} {ws : List (List Char)} : Spelled cs ws ↔ ws = words cs :=
  ⟨fun h => h.words_eq.symm, fun h => h ▸ spelled_words cs⟩

theorem Spelled.isWord {cs : List Char} {ws : List (List Char)} (h : Spelled cs ws) :
    ∀ w ∈ ws, IsWord w := by
  induction h with
  | nil => simp
  | space _ _ ih => exact ih
  | last word => simpa using word
  | word word _ _ ih => simpa using ⟨word, ih⟩

/-! ## Flat texts -/

/-- A text in one line: no whitespace at its ends, and inside nothing but single spaces. -/
structure Flat (cs : List Char) : Prop where
  first : ∀ c, cs.head? = some c → isSpace c = false
  last : ∀ c, cs.getLast? = some c → isSpace c = false
  only : ∀ c ∈ cs, isSpace c = true → c = ' '
  single : cs.IsChain (fun a b => isSpace a = false ∨ isSpace b = false)

theorem flat_nil : Flat [] := by
  constructor <;> simp

theorem IsWord.flat {w : List Char} (hw : IsWord w) : Flat w where
  first c hc := hw.solid c (List.mem_of_mem_head? hc)
  last c hc := hw.solid c (List.mem_of_mem_getLast? hc)
  only c hc hspace := by
    rw [hw.solid c hc] at hspace
    cases hspace
  single := by
    refine List.Pairwise.isChain (List.pairwise_of_forall_mem_list ?_)
    intro a ha b _
    exact Or.inl (hw.solid a ha)

/-- A word, a space and a flat text are a flat text. -/
theorem IsWord.flat_append {w rest : List Char} (hw : IsWord w) (hrest : Flat rest)
    (hne : rest ≠ []) : Flat (w ++ ' ' :: rest) where
  first c hc := by
    obtain ⟨x, xs, rfl⟩ := List.exists_cons_of_ne_nil hw.nonempty
    obtain rfl : x = c := Option.some.inj hc
    exact hw.solid x List.mem_cons_self
  last c hc := by
    obtain ⟨x, xs, rfl⟩ := List.exists_cons_of_ne_nil hne
    refine hrest.last c ?_
    simpa using hc
  only c hc hspace := by
    rcases List.mem_append.mp hc with hword | htail
    · exact hw.flat.only c hword hspace
    · rcases List.mem_cons.mp htail with rfl | hlater
      · rfl
      · exact hrest.only c hlater hspace
  single := by
    refine List.isChain_append.mpr ⟨hw.flat.single, ?_, ?_⟩
    · refine List.isChain_cons.mpr ⟨fun y hy => Or.inr (hrest.first y hy), hrest.single⟩
    · intro x hx y _
      exact Or.inl (hw.flat.last x hx)

theorem unwords_cons {w : List Char} {ws : List (List Char)} (h : ws ≠ []) :
    unwords (w :: ws) = w ++ ' ' :: unwords ws := by
  obtain ⟨v, vs, rfl⟩ := List.exists_cons_of_ne_nil h
  rfl

theorem unwords_ne_nil {ws : List (List Char)} (hws : ∀ w ∈ ws, IsWord w) (h : ws ≠ []) :
    unwords ws ≠ [] := by
  obtain ⟨w, vs, rfl⟩ := List.exists_cons_of_ne_nil h
  have hw : w ≠ [] := (hws w List.mem_cons_self).nonempty
  cases vs with
  | nil => exact hw
  | cons v vs =>
    rw [unwords_cons (List.cons_ne_nil v vs)]
    exact List.append_ne_nil_of_left_ne_nil hw _

theorem flat_unwords {ws : List (List Char)} (hws : ∀ w ∈ ws, IsWord w) : Flat (unwords ws) := by
  induction ws with
  | nil => exact flat_nil
  | cons w ws ih =>
    have hw : IsWord w := hws w List.mem_cons_self
    have hrest : ∀ v ∈ ws, IsWord v := fun v hv => hws v (List.mem_cons_of_mem w hv)
    by_cases hnil : ws = []
    · rw [hnil]
      exact hw.flat
    · rw [unwords_cons hnil]
      exact hw.flat_append (ih hrest) (unwords_ne_nil hrest hnil)

theorem flat_collapse (cs : List Char) : Flat (collapse cs) :=
  flat_unwords (spelled_words cs).isWord

/-- What follows a word and a space in a flat text is flat, and there is something. -/
theorem Flat.of_append {w rest : List Char} {c : Char} (h : Flat (w ++ c :: rest))
    (hc : isSpace c = true) : c = ' ' ∧ rest ≠ [] ∧ Flat rest := by
  have hne : rest ≠ [] := by
    rintro rfl
    have hlast := h.last c (by simp)
    rw [hc] at hlast
    cases hlast
  have hchain : (c :: rest).IsChain _ := (List.isChain_append.mp h.single).2.1
  obtain ⟨hnext, hsingle⟩ := List.isChain_cons.mp hchain
  refine ⟨h.only c (by simp) hc, hne, ?_, ?_, ?_, hsingle⟩
  · intro d hd
    rcases hnext d hd with hsolid | hsolid
    · rw [hc] at hsolid
      cases hsolid
    · exact hsolid
  · intro d hd
    obtain ⟨x, xs, rfl⟩ := List.exists_cons_of_ne_nil hne
    refine h.last d ?_
    simpa using hd
  · intro d hd
    exact h.only d (by simp [hd])

/-- A flat text is its words with single spaces between them. -/
theorem Spelled.unwords_eq {cs : List Char} {ws : List (List Char)} (h : Spelled cs ws)
    (hflat : Flat cs) : unwords ws = cs := by
  induction h with
  | nil => rfl
  | space blank _ _ =>
    have hfirst := hflat.first _ rfl
    rw [blank] at hfirst
    cases hfirst
  | last _ => rfl
  | @word w c cs ws word blank rest ih =>
    obtain ⟨rfl, hne, hrest⟩ := hflat.of_append blank
    have hws : ws ≠ [] := by
      rintro rfl
      exact hne (ih hrest).symm
    rw [unwords_cons hws, ih hrest]

theorem collapse_of_flat {cs : List Char} (h : Flat cs) : collapse cs = cs :=
  (spelled_words cs).unwords_eq h

/-- A flat text stays flat if it is cut anywhere and something solid is put in place of the rest. -/
theorem Flat.take_append {cs mark : List Char} (h : Flat cs) (hmark : IsWord mark) (n : Nat) :
    Flat (cs.take n ++ mark) where
  first c hc := by
    cases hcut : cs.take n with
    | nil =>
      rw [hcut] at hc
      exact hmark.flat.first c hc
    | cons x xs =>
      rw [hcut] at hc
      refine h.first c ?_
      have hhead : (cs.take n).head? = some c := by rw [hcut]; exact hc
      rw [List.head?_take] at hhead
      exact (Option.ite_none_left_eq_some.mp hhead).2
  last c hc := by
    rw [List.getLast?_append_of_ne_nil _ hmark.nonempty] at hc
    exact hmark.flat.last c hc
  only c hc hspace := by
    rcases List.mem_append.mp hc with hcut | hadded
    · exact h.only c (List.mem_of_mem_take hcut) hspace
    · exact hmark.flat.only c hadded hspace
  single := by
    refine List.isChain_append.mpr ⟨h.single.take n, hmark.flat.single, ?_⟩
    intro x _ y hy
    exact Or.inr (hmark.flat.first y hy)

end Words

end CodeGraph
