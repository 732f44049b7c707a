import CodeGraph.Proofs.Path.Composed
import Mathlib.Logic.Relation

/-!
# Containment by names

What a path from the top names can be said without reading it from front to back: between its
slashes, empty stretches and points say nothing, a name and the `..` behind it take each other back,
and a `..` at the top leads nowhere else (`Shortens`). In whichever order this is done, the names
that are left are the same, and normalising finds them (`hasNames_iff`).

A place lies in a directory when the names of the directory are the first ones of the place. The
texts are compared, not the names, so names that begin alike (`app` and `app-x`) have to be told
apart by the slash behind them.
-/

namespace CodeGraph.Path

/-! ## The names of a path -/

/-- Leave out something between the slashes of a path from the top that changes nothing. -/
inductive Shortens : List (List Char) → List (List Char) → Prop
  | silent (front back : List (List Char)) {part : List Char} (h : part = [] ∨ part = here) :
      Shortens (front ++ part :: back) (front ++ back)
  | takenBack (front back : List (List Char)) {name : List Char} (h : Plain name) :
      Shortens (front ++ name :: up :: back) (front ++ back)
  | aboveTop (back : List (List Char)) : Shortens (up :: back) back

/-- The path can be shortened to these names, and no further. -/
structure HasNames (p : String) (names : List (List Char)) : Prop where
  shortens : Relation.ReflTransGen Shortens (splitSlash p.toList) names
  plain : ∀ name ∈ names, Plain name

theorem Shortens.normalParts_eq {parts shorter : List (List Char)} (h : Shortens parts shorter) :
    normalParts true parts = normalParts true shorter := by
  cases h with
  | silent front back h =>
    rw [normalParts, normalParts, List.foldl_append, List.foldl_append, List.foldl_cons,
      push_silent h]
  | takenBack front back h =>
    rw [normalParts, normalParts, List.foldl_append, List.foldl_append, List.foldl_cons,
      List.foldl_cons, push_plain h, push_up_cons h.ne_up]
  | aboveTop back => rfl

theorem normalParts_of_shortens {parts shorter : List (List Char)}
    (h : Relation.ReflTransGen Shortens parts shorter) :
    normalParts true parts = normalParts true shorter := by
  induction h with
  | refl => rfl
  | tail _ hstep ih => rw [ih, hstep.normalParts_eq]

/-- Reading one more stretch leaves it out or keeps it. -/
theorem shortens_push {kept : List (List Char)} (hkept : ∀ name ∈ kept, Plain name)
    {part : List Char} (hslash : '/' ∉ part) (rest : List (List Char)) :
    Relation.ReflTransGen Shortens (kept.reverse ++ part :: rest)
      ((push true kept part).reverse ++ rest) := by
  rcases part_cases hslash with hsilent | rfl | hplain
  · rw [push_silent hsilent]
    exact .single (.silent _ _ hsilent)
  · rw [push_up hkept]
    cases kept with
    | nil => exact .single (.aboveTop rest)
    | cons last front =>
      rw [List.tail_cons, List.reverse_cons, List.append_assoc]
      exact .single (.takenBack _ _ (hkept last List.mem_cons_self))
  · rw [push_plain hplain, List.reverse_cons, List.append_assoc]
    exact .refl

/-- Reading from front to back is one way to shorten. -/
theorem shortens_foldl_push {parts kept : List (List Char)} (hkept : ∀ name ∈ kept, Plain name)
    (hparts : ∀ part ∈ parts, '/' ∉ part) :
    Relation.ReflTransGen Shortens (kept.reverse ++ parts)
      (parts.foldl (push true) kept).reverse := by
  induction parts generalizing kept with
  | nil => rw [List.append_nil, List.foldl_nil]
  | cons part rest ih =>
    have hslash := hparts part List.mem_cons_self
    exact (shortens_push hkept hslash rest).trans
      (ih (plain_push hkept hslash) (fun p hp => hparts p (List.mem_cons_of_mem _ hp)))

theorem shortens_components (p : String) :
    Relation.ReflTransGen Shortens (splitSlash p.toList) (components p) := by
  have hnone : ∀ name ∈ ([] : List (List Char)), Plain name := by simp
  exact shortens_foldl_push hnone (fun _ hpart => noSlash_of_mem_splitSlash hpart)

/-- However a path is shortened, its normalised components are left. -/
theorem hasNames_iff {p : String} {names : List (List Char)} :
    HasNames p names ↔ names = components p := by
  constructor
  · intro h
    rw [components, normalParts_of_shortens h.shortens, normalParts_plain h.plain]
  · rintro rfl
    exact ⟨shortens_components p, plain_components p⟩

theorem parts_normalize {p : String} (h : isRooted p = true) :
    parts (normalize p) = components p := by
  have hnone : ∀ name ∈ ([] : List (List Char)), Plain name := by simp
  have hparts := parts_below h hnone
  rwa [below, List.append_nil, ← normalize_of_isRooted h] at hparts

/-! ## Containment -/

/-- The path begins with exactly two slashes. -/
def BeginsWithTwo (p : String) : Prop :=
  ∃ rest, p.toList = '/' :: '/' :: rest ∧ rest.head? ≠ some '/'

theorem leading_eq_one_iff (p : String) :
    leading p.toList = ['/'] ↔ isRooted p = true ∧ ¬ BeginsWithTwo p := by
  constructor
  · intro hlead
    refine ⟨isRooted_of_leading hlead, ?_⟩
    rintro ⟨rest, hp, hhead⟩
    rw [hp] at hlead
    cases rest with
    | nil => cases hlead
    | cons c rest => simp [leading, show c ≠ '/' by simpa using hhead] at hlead
  · rintro ⟨hrooted, htwo⟩
    refine (leading_cases hrooted).resolve_right fun hlead => htwo ?_
    unfold leading at hlead
    split at hlead
    · cases hlead
    · rename_i rest hnot hp
      refine ⟨rest, hp, fun hhead => ?_⟩
      obtain ⟨more, hmore⟩ := List.head?_eq_some_iff.mp hhead
      exact hnot more hmore
    · cases hlead
    · cases hlead

/-- Names that go on where the last name of a directory ends are not below the directory. -/
theorem not_prefix_of_extended {front rest : List (List Char)} {last more : List Char}
    (hmore : more ≠ []) : ¬ front ++ [last] <+: front ++ (last ++ more) :: rest := by
  rw [List.prefix_append_right_inj, List.cons_prefix_cons]
  rintro ⟨hname, -⟩
  exact hmore (List.append_right_eq_self.mp hname.symm)

/-- Everything lies in the top directory. -/
theorem isWithin_top (cwd : String) {path : String} (h : isRooted path = true) :
    isWithin cwd "/" path = true := by
  have htop : (absolute cwd "/").toList = ['/'] := by
    rw [absolute, join_of_isRooted cwd rfl]
    rfl
  have hrooted : isRooted (absolute cwd path) = true := by
    rw [absolute, join_of_isRooted cwd h]
    exact isRooted_normalize h
  obtain ⟨cs, hcs⟩ := List.head?_eq_some_iff.mp (beq_iff_eq.mp hrooted)
  rw [isWithin, htop, hcs, Bool.or_eq_true, List.isPrefixOf_iff_prefix]
  exact Or.inr ⟨cs, rfl⟩

/-- **Containment is the prefix order on names.** For paths from the top that do not begin with
exactly two slashes, a place lies in a directory if and only if the components of the normalised
directory are the first components of the normalised place. These components are the names that are
left when the path is shortened, however that is done. So a neighbour whose name only begins with
that of the directory, and what lies below the neighbour, is not in it, and everything lies in the
top directory. -/
theorem isWithin_iff_names_prefix (cwd : String) {root path : String}
    (hroot : isRooted root = true) (hroot_two : ¬ BeginsWithTwo root)
    (hpath : isRooted path = true) (hpath_two : ¬ BeginsWithTwo path) :
    (isWithin cwd root path = true ↔ parts (normalize root) <+: parts (normalize path)) ∧
    (∀ names, HasNames root names ↔ names = parts (normalize root)) ∧
    (∀ names, HasNames path names ↔ names = parts (normalize path)) ∧
    (∀ front last more rest, parts (normalize root) = front ++ [last] → more ≠ [] →
      parts (normalize path) = front ++ (last ++ more) :: rest →
      isWithin cwd root path = false) ∧
    isWithin cwd "/" path = true := by
  have hiff : isWithin cwd root path = true ↔
      parts (normalize root) <+: parts (normalize path) := by
    rw [parts_normalize hroot, parts_normalize hpath]
    exact isWithin_iff cwd ((leading_eq_one_iff root).mpr ⟨hroot, hroot_two⟩)
      ((leading_eq_one_iff path).mpr ⟨hpath, hpath_two⟩)
  refine ⟨hiff, fun names => ?_, fun names => ?_, ?_, isWithin_top cwd hpath⟩
  · rw [hasNames_iff, parts_normalize hroot]
  · rw [hasNames_iff, parts_normalize hpath]
  · intro front last more rest hrootParts hmore hpathParts
    rw [← Bool.not_eq_true, hiff, hrootParts, hpathParts]
    exact not_prefix_of_extended hmore

/-- What is written with a `..` above the top and with more slashes lies below `/srv/app`, and what
is below its neighbour `app-x` does not. -/
theorem neighbour_of_app_apart :
    isWithin "/" "/srv//app/." "/../srv/x/../app///y" = true ∧
    isWithin "/" "/srv//app/." "/srv/app-x/y" = false := by
  obtain ⟨hroot, hroot_two⟩ := (leading_eq_one_iff "/srv//app/.").mp (by decide)
  obtain ⟨hin, hin_two⟩ := (leading_eq_one_iff "/../srv/x/../app///y").mp (by decide)
  obtain ⟨hout, hout_two⟩ := (leading_eq_one_iff "/srv/app-x/y").mp (by decide)
  obtain ⟨hiff, -⟩ := isWithin_iff_names_prefix "/" hroot hroot_two hin hin_two
  obtain ⟨-, -, -, hneighbour, -⟩ := isWithin_iff_names_prefix "/" hroot hroot_two hout hout_two
  refine ⟨hiff.mpr (by decide), ?_⟩
  exact hneighbour ["srv".toList] "app".toList "-x".toList ["y".toList] (by decide) (by decide)
    (by decide)

end CodeGraph.Path
