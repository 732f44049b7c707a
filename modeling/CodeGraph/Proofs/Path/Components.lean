import CodeGraph.Path
import Mathlib.Data.List.Infix

/-!
# Paths as lists of components

A path from the top is decided by its normalised components: normalising writes them down again
(`normalize_eq`), reading what was written gives them back (`components_written`), and containment
of texts is the prefix order on them (`isWithin_iff`).

A path that begins with exactly two slashes keeps both, so it is set apart: `leading` says with
which slashes a path begins.
-/

namespace CodeGraph.Path

/-! ## Cutting and joining -/

theorem splitSlash_ne_nil (cs : List Char) : splitSlash cs ≠ [] := by
  cases cs with
  | nil => exact List.cons_ne_nil _ _
  | cons c cs =>
    rw [splitSlash]
    split
    · exact List.cons_ne_nil _ _
    · split <;> exact List.cons_ne_nil _ _

theorem splitSlash_slash (cs : List Char) : splitSlash ('/' :: cs) = [] :: splitSlash cs := rfl

theorem splitSlash_cons {c : Char} (hc : c ≠ '/') {cs first : List Char} {rest : List (List Char)}
    (h : splitSlash cs = first :: rest) : splitSlash (c :: cs) = (c :: first) :: rest := by
  rw [splitSlash, if_neg (by simpa using hc), h]

/-- A slash cuts a text in two that are cut on their own. -/
theorem splitSlash_append (xs ys : List Char) :
    splitSlash (xs ++ '/' :: ys) = splitSlash xs ++ splitSlash ys := by
  induction xs with
  | nil => rfl
  | cons c xs ih =>
    by_cases hc : c = '/'
    · subst hc
      rw [List.cons_append, splitSlash_slash, splitSlash_slash, ih, List.cons_append]
    · obtain ⟨first, rest, hxs⟩ := List.exists_cons_of_ne_nil (splitSlash_ne_nil xs)
      rw [hxs] at ih
      rw [List.cons_append, splitSlash_cons hc ih, splitSlash_cons hc hxs]
      rfl

theorem noSlash_of_mem_splitSlash {cs part : List Char} (h : part ∈ splitSlash cs) :
    '/' ∉ part := by
  induction cs generalizing part with
  | nil =>
    rw [List.mem_singleton.mp h]
    exact List.not_mem_nil
  | cons c cs ih =>
    by_cases hc : c = '/'
    · subst hc
      rw [splitSlash_slash] at h
      rcases List.mem_cons.mp h with rfl | h
      · exact List.not_mem_nil
      · exact ih h
    · obtain ⟨first, rest, hcs⟩ := List.exists_cons_of_ne_nil (splitSlash_ne_nil cs)
      rw [splitSlash_cons hc hcs] at h
      rw [hcs] at ih
      rcases List.mem_cons.mp h with rfl | h
      · intro hslash
        rcases List.mem_cons.mp hslash with heq | hslash
        · exact hc heq.symm
        · exact ih List.mem_cons_self hslash
      · exact ih (List.mem_cons_of_mem _ h)

theorem mem_of_mem_splitSlash {cs part : List Char} {c : Char} (h : part ∈ splitSlash cs)
    (hc : c ∈ part) : c ∈ cs := by
  induction cs generalizing part with
  | nil =>
    rw [List.mem_singleton.mp h] at hc
    exact hc
  | cons x cs ih =>
    by_cases hx : x = '/'
    · subst hx
      rw [splitSlash_slash] at h
      rcases List.mem_cons.mp h with rfl | h
      · cases hc
      · exact List.mem_cons_of_mem _ (ih h hc)
    · obtain ⟨first, rest, hcs⟩ := List.exists_cons_of_ne_nil (splitSlash_ne_nil cs)
      rw [splitSlash_cons hx hcs] at h
      rw [hcs] at ih
      rcases List.mem_cons.mp h with rfl | h
      · rcases List.mem_cons.mp hc with rfl | hc
        · exact List.mem_cons_self
        · exact List.mem_cons_of_mem _ (ih List.mem_cons_self hc)
      · exact List.mem_cons_of_mem _ (ih (List.mem_cons_of_mem _ h) hc)

theorem splitSlash_of_noSlash {part : List Char} (h : '/' ∉ part) : splitSlash part = [part] := by
  induction part with
  | nil => rfl
  | cons c cs ih =>
    have hc : c ≠ '/' := fun heq => h (heq ▸ List.mem_cons_self)
    exact splitSlash_cons hc (ih (fun hcs => h (List.mem_cons_of_mem _ hcs)))

theorem joinSlash_cons (part : List Char) {rest : List (List Char)} (h : rest ≠ []) :
    joinSlash (part :: rest) = part ++ '/' :: joinSlash rest := by
  cases rest with
  | nil => exact absurd rfl h
  | cons p ps => rfl

theorem joinSlash_append {xs ys : List (List Char)} (hx : xs ≠ []) (hy : ys ≠ []) :
    joinSlash (xs ++ ys) = joinSlash xs ++ '/' :: joinSlash ys := by
  induction xs with
  | nil => exact absurd rfl hx
  | cons x xs ih =>
    cases xs with
    | nil => exact joinSlash_cons x hy
    | cons x' xs =>
      rw [List.cons_append, joinSlash_cons x (by simp), ih (by simp), joinSlash_cons x (by simp),
        List.append_assoc]
      rfl

/-- Joined components are cut apart again where they were joined. -/
theorem splitSlash_joinSlash {parts : List (List Char)} (hne : parts ≠ [])
    (h : ∀ part ∈ parts, '/' ∉ part) : splitSlash (joinSlash parts) = parts := by
  induction parts with
  | nil => exact absurd rfl hne
  | cons part rest ih =>
    have hpart := splitSlash_of_noSlash (h part List.mem_cons_self)
    cases rest with
    | nil => exact hpart
    | cons p ps =>
      rw [joinSlash_cons part (by simp), splitSlash_append, hpart,
        ih (by simp) (fun q hq => h q (List.mem_cons_of_mem _ hq))]
      rfl

/-! ## Components that name something -/

/-- A component that is neither empty nor one of the two with a meaning of their own. -/
structure Plain (part : List Char) : Prop where
  ne_nil : part ≠ []
  ne_here : part ≠ here
  ne_up : part ≠ up
  noSlash : '/' ∉ part

/-- A component says nothing, leads up or is a name. -/
theorem part_cases {part : List Char} (hslash : '/' ∉ part) :
    (part = [] ∨ part = here) ∨ part = up ∨ Plain part := by
  by_cases hsilent : part = [] ∨ part = here
  · exact Or.inl hsilent
  · by_cases hup : part = up
    · exact Or.inr (Or.inl hup)
    · rw [not_or] at hsilent
      exact Or.inr (Or.inr ⟨hsilent.1, hsilent.2, hup, hslash⟩)

theorem push_silent {part : List Char} (h : part = [] ∨ part = here) (rooted : Bool)
    (kept : List (List Char)) : push rooted kept part = kept := by
  rcases h with rfl | rfl <;> rfl

theorem push_up_cons {last : List Char} (h : last ≠ up) (kept : List (List Char)) :
    push true (last :: kept) up = kept := by
  have hlast : (last == up) = false := by simpa using h
  simp only [push, hlast]
  rfl

theorem push_up {kept : List (List Char)} (h : ∀ part ∈ kept, Plain part) :
    push true kept up = kept.tail := by
  cases kept with
  | nil => rfl
  | cons last rest => exact push_up_cons (h last List.mem_cons_self).ne_up rest

theorem push_plain {part : List Char} (h : Plain part) (kept : List (List Char)) :
    push true kept part = part :: kept := by
  have hkeep : (part == [] || part == here) = false := by simp [h.ne_nil, h.ne_here]
  have hname : (part == up) = false := by simp [h.ne_up]
  simp only [push, hkeep, hname, Bool.false_eq_true, if_false]

theorem plain_push {kept : List (List Char)} (hkept : ∀ part ∈ kept, Plain part)
    {part : List Char} (hslash : '/' ∉ part) : ∀ p ∈ push true kept part, Plain p := by
  rcases part_cases hslash with hsilent | rfl | hplain
  · rwa [push_silent hsilent]
  · rw [push_up hkept]
    exact fun p hp => hkept p (List.mem_of_mem_tail hp)
  · rw [push_plain hplain]
    exact List.forall_mem_cons.mpr ⟨hplain, hkept⟩

theorem foldl_push_plain {parts : List (List Char)} (h : ∀ part ∈ parts, Plain part)
    (kept : List (List Char)) : parts.foldl (push true) kept = parts.reverse ++ kept := by
  induction parts generalizing kept with
  | nil => rfl
  | cons part rest ih =>
    rw [List.foldl_cons, push_plain (h part List.mem_cons_self),
      ih (fun p hp => h p (List.mem_cons_of_mem _ hp)), List.reverse_cons, List.append_assoc]
    rfl

theorem normalParts_plain {parts : List (List Char)} (h : ∀ part ∈ parts, Plain part) :
    normalParts true parts = parts := by
  rw [normalParts, foldl_push_plain h, List.append_nil, List.reverse_reverse]

theorem plain_foldl_push {parts kept : List (List Char)} (hkept : ∀ part ∈ kept, Plain part)
    (h : ∀ part ∈ parts, '/' ∉ part) : ∀ p ∈ parts.foldl (push true) kept, Plain p := by
  induction parts generalizing kept with
  | nil => exact hkept
  | cons part rest ih =>
    exact ih (plain_push hkept (h part List.mem_cons_self))
      (fun p hp => h p (List.mem_cons_of_mem _ hp))

/-- The normalised components of a path from the top. -/
def components (p : String) : List (List Char) :=
  normalParts true (splitSlash p.toList)

theorem plain_components (p : String) : ∀ part ∈ components p, Plain part := by
  intro part hpart
  refine plain_foldl_push (by simp) (fun q hq => ?_) part (List.mem_reverse.mp hpart)
  exact noSlash_of_mem_splitSlash hq

/-! ## Writing components down -/

/-- The text of the path from the top with these components. -/
def written (parts : List (List Char)) : List Char :=
  '/' :: joinSlash parts

theorem leading_written {parts : List (List Char)} (h : ∀ part ∈ parts, Plain part) :
    leading (written parts) = ['/'] := by
  cases parts with
  | nil => rfl
  | cons part rest =>
    obtain ⟨c, cs, hpart⟩ := List.exists_cons_of_ne_nil (h part List.mem_cons_self).ne_nil
    have hc : c ≠ '/' := by
      rintro rfl
      exact (h part List.mem_cons_self).noSlash (hpart ▸ List.mem_cons_self)
    have hhead : ∃ tail, joinSlash (part :: rest) = c :: tail := by
      cases rest with
      | nil => exact ⟨cs, hpart⟩
      | cons p ps => exact ⟨cs ++ '/' :: joinSlash (p :: ps), by rw [hpart]; rfl⟩
    obtain ⟨tail, htail⟩ := hhead
    rw [written, htail]
    unfold leading
    split <;> simp_all

theorem components_written {parts : List (List Char)} (h : ∀ part ∈ parts, Plain part) :
    components (String.ofList (written parts)) = parts := by
  rw [components, String.toList_ofList, written, splitSlash_slash]
  by_cases hne : parts = []
  · subst hne
    rfl
  · rw [splitSlash_joinSlash hne (fun p hp => (h p hp).noSlash)]
    have hempty : normalParts true ([] :: parts) = normalParts true parts := rfl
    rw [hempty, normalParts_plain h]

/-- Normalising writes the components down. -/
theorem normalize_eq {p : String} (h : leading p.toList = ['/']) :
    normalize p = String.ofList (written (components p)) := by
  simp [normalize, h, written, components]

theorem isRooted_of_leading {p : String} (h : leading p.toList = ['/']) : isRooted p = true := by
  rw [isRooted, beq_iff_eq]
  unfold leading at h
  split at h <;> simp_all

theorem join_of_isRooted (dir : String) {path : String} (h : isRooted path = true) :
    join dir path = path := by
  rw [join, h]
  rfl

theorem isRooted_join {dir : String} (h : isRooted dir = true) (path : String) :
    isRooted (join dir path) = true := by
  have hhead : dir.toList.head? = some '/' := by simpa [isRooted] using h
  obtain ⟨cs, hcs⟩ := List.head?_eq_some_iff.mp hhead
  by_cases hpath : isRooted path = true
  · rwa [join_of_isRooted dir hpath]
  · have hdir : dir.isEmpty = false := by
      rw [← Bool.not_eq_true, String.isEmpty_iff]
      rintro rfl
      cases hcs
    simp only [join, hpath, hdir, Bool.or_self, Bool.false_eq_true, if_false]
    split <;> simp [isRooted, hcs]

theorem isRooted_absolute {cwd : String} (h : isRooted cwd = true) (path : String) :
    isRooted (absolute cwd path) = true :=
  isRooted_normalize (isRooted_join h path)

theorem absolute_eq (cwd : String) {p : String} (h : leading p.toList = ['/']) :
    absolute cwd p = String.ofList (written (components p)) := by
  rw [absolute, join_of_isRooted cwd (isRooted_of_leading h)]
  exact normalize_eq h

/-! ## Containment -/

theorem trimSlashes_written_nil : trimSlashes (written []) = [] := rfl

theorem getLast?_written {parts : List (List Char)} (hne : parts ≠ [])
    (h : ∀ part ∈ parts, Plain part) : (written parts).getLast? ≠ some '/' := by
  obtain ⟨front, last, rfl⟩ : ∃ front last, parts = front ++ [last] :=
    ⟨_, _, (List.dropLast_append_getLast hne).symm⟩
  have hlast : Plain last := h last (by simp)
  obtain ⟨start, hend⟩ : ∃ start, written (front ++ [last]) = start ++ last := by
    cases front with
    | nil => exact ⟨['/'], rfl⟩
    | cons p ps =>
      refine ⟨'/' :: (joinSlash (p :: ps) ++ ['/']), ?_⟩
      rw [written, joinSlash_append (by simp) (by simp)]
      simp [joinSlash]
  rw [hend, List.getLast?_append_of_ne_nil _ hlast.ne_nil]
  intro hslash
  exact hlast.noSlash (List.mem_of_getLast? hslash)

theorem trimSlashes_of_getLast? {cs : List Char} (h : cs.getLast? ≠ some '/') :
    trimSlashes cs = cs := by
  rw [trimSlashes]
  cases hrev : cs.reverse with
  | nil => simpa using hrev
  | cons c rest =>
    have hc : c ≠ '/' := by
      rintro rfl
      rw [List.getLast?_eq_head?_reverse, hrev] at h
      exact h rfl
    rw [List.dropWhile_cons_of_neg (by simpa using hc), ← hrev, List.reverse_reverse]

/-- On written components, containment is the prefix order. -/
theorem contained_iff {ps qs : List (List Char)} (hp : ∀ part ∈ ps, Plain part)
    (hq : ∀ part ∈ qs, Plain part) :
    (written qs = written ps ∨ trimSlashes (written ps) ++ ['/'] <+: written qs) ↔
      ps <+: qs := by
  by_cases hne : ps = []
  · subst hne
    rw [trimSlashes_written_nil]
    exact iff_of_true (Or.inr ⟨joinSlash qs, rfl⟩) (List.nil_prefix)
  · rw [trimSlashes_of_getLast? (getLast?_written hne hp)]
    constructor
    · rintro (heq | ⟨tail, htail⟩)
      · have hparts := congrArg (fun cs => components (String.ofList cs)) heq
        simp only [components_written hp, components_written hq] at hparts
        exact hparts ▸ List.prefix_refl _
      · -- cut both texts at their slashes: the components of the first come first
        have hsplit : splitSlash (joinSlash qs) = ps ++ splitSlash tail := by
          have hjoin : joinSlash qs = joinSlash ps ++ '/' :: tail := by
            simpa [written] using htail.symm
          rw [hjoin, splitSlash_append, splitSlash_joinSlash hne (fun p h => (hp p h).noSlash)]
        by_cases hqs : qs = []
        · subst hqs
          have hlength := congrArg List.length hsplit
          have hps := List.length_pos_of_ne_nil hne
          have htailne := List.length_pos_of_ne_nil (splitSlash_ne_nil tail)
          simp [joinSlash, splitSlash] at hlength
          omega
        · rw [splitSlash_joinSlash hqs (fun p h => (hq p h).noSlash)] at hsplit
          exact ⟨_, hsplit.symm⟩
    · rintro ⟨rest, rfl⟩
      by_cases hrest : rest = []
      · subst hrest
        exact Or.inl (by rw [List.append_nil])
      · refine Or.inr ⟨joinSlash rest, ?_⟩
        simp [written, joinSlash_append hne hrest]

/-- Containment of texts is the prefix order on their components. -/
theorem isWithin_iff (cwd : String) {root path : String} (hroot : leading root.toList = ['/'])
    (hpath : leading path.toList = ['/']) :
    isWithin cwd root path = true ↔ components root <+: components path := by
  rw [← contained_iff (plain_components root) (plain_components path), isWithin,
    absolute_eq cwd hroot, absolute_eq cwd hpath]
  simp only [String.toList_ofList, Bool.or_eq_true, beq_iff_eq, List.isPrefixOf_iff_prefix]

end CodeGraph.Path
