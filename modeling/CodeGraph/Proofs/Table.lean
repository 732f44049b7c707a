import CodeGraph.Table
import Mathlib.Data.List.Nodup
import Mathlib.Data.String.Basic

/-!
# Tables: lookups after updates

A table is read through `get?` and `keys`. Both updates, `set` and `update`, touch the value of
one key and leave the order of the keys alone; a key that is new comes last. `set` is the update
that forgets what was there (`set_eq_update`), so everything is proved for `update`.

For a list of entries set one after the other, the last entry of a key wins (`get?_foldl_set`),
and the keys stand in the order of their first entries (`keys_foldl_set`).
For a list of changes made one after the other, each key sees its own changes, in their order, and
no others (`get?_foldl_update`).

Names are told apart by marks in them, which are looked for from one end (`takeWhile_bne_append`).
The distinct texts of a list are the texts of the list (`Sorted.mem_distinct`), each once and in
order (`Sorted.ascending_distinct`).
-/

namespace CodeGraph.Table

variable {κ α ι : Type} [BEq κ] [LawfulBEq κ]

/-! ## One update -/

omit [LawfulBEq κ] in
theorem set_eq_update (t : Table κ α) (key : κ) (value : α) :
    t.set key value = t.update key value (fun _ => value) := by
  induction t with
  | nil => rfl
  | cons entry rest ih =>
    obtain ⟨k, v⟩ := entry
    rw [set, update]
    by_cases h : (k == key) = true
    · rw [if_pos h, if_pos h]
    · rw [if_neg h, if_neg h, ih]

theorem get?_update (t : Table κ α) (key k : κ) (default : α) (f : α → α) :
    (t.update key default f).get? k =
      if key == k then some (f ((t.get? key).getD default)) else t.get? k := by
  induction t with
  | nil => rfl
  | cons entry rest ih =>
    obtain ⟨k', v⟩ := entry
    rw [update]
    by_cases h : k' = key
    · subst h
      by_cases hk : k' = k <;> simp [get?, hk]
    · by_cases hk : k' = k
      · subst hk
        simp [get?, h, Ne.symm h]
      · simp [get?, h, hk, ih]

theorem get?_set (t : Table κ α) (key k : κ) (value : α) :
    (t.set key value).get? k = if key == k then some value else t.get? k := by
  rw [set_eq_update, get?_update]

theorem keys_update (t : Table κ α) (key : κ) (default : α) (f : α → α) :
    (t.update key default f).keys = if t.keys.contains key then t.keys else t.keys ++ [key] := by
  induction t with
  | nil => rfl
  | cons entry rest ih =>
    obtain ⟨k, v⟩ := entry
    rw [update]
    by_cases h : k = key
    · simp [keys, h]
    · have hkeys : keys ((k, v) :: update rest key default f) =
          k :: (update rest key default f).keys := rfl
      rw [if_neg (by simpa using h), hkeys, ih]
      have hcontains : (keys ((k, v) :: rest)).contains key = (keys rest).contains key := by
        simp [keys, Ne.symm h]
      rw [hcontains]
      split <;> rfl

theorem nodup_keys_update {t : Table κ α} (h : t.keys.Nodup) (key : κ) (default : α)
    (f : α → α) : (t.update key default f).keys.Nodup := by
  rw [keys_update]
  split
  · exact h
  · rename_i hnew
    refine List.nodup_append.mpr ⟨h, List.nodup_singleton _, ?_⟩
    rintro a ha b hb rfl
    rw [List.mem_singleton] at hb
    subst hb
    exact hnew (by simpa using ha)

theorem nodup_keys_set {t : Table κ α} (h : t.keys.Nodup) (key : κ) (value : α) :
    (t.set key value).keys.Nodup := by
  rw [set_eq_update]
  exact nodup_keys_update h _ _ _

theorem keys_set (t : Table κ α) (key : κ) (value : α) :
    (t.set key value).keys = if t.keys.contains key then t.keys else t.keys ++ [key] := by
  rw [set_eq_update, keys_update]

/-! ## Reading a table -/

theorem get?_isSome_iff (t : Table κ α) (k : κ) : (t.get? k).isSome ↔ k ∈ t.keys := by
  induction t with
  | nil => simp [get?, keys]
  | cons entry rest ih =>
    obtain ⟨k', v⟩ := entry
    rw [get?]
    by_cases h : k' = k
    · simp [keys, h]
    · rw [if_neg (by simpa using h), ih]
      simp [keys, Ne.symm h]

theorem mem_of_get? {t : Table κ α} {k : κ} {v : α} (h : t.get? k = some v) : (k, v) ∈ t := by
  induction t with
  | nil => simp [get?] at h
  | cons entry rest ih =>
    obtain ⟨k', v'⟩ := entry
    rw [get?] at h
    by_cases hk : k' = k
    · rw [if_pos (by simpa using hk)] at h
      simp_all
    · rw [if_neg (by simpa using hk)] at h
      exact List.mem_cons_of_mem _ (ih h)

omit [BEq κ] [LawfulBEq κ] in
theorem mem_keys_of_mem {t : Table κ α} {k : κ} {v : α} (h : (k, v) ∈ t) : k ∈ t.keys :=
  List.mem_map.mpr ⟨(k, v), h, rfl⟩

/-- In a table without repeated keys, the entries are what lookups find. -/
theorem mem_iff_get? {t : Table κ α} (hn : t.keys.Nodup) (k : κ) (v : α) :
    (k, v) ∈ t ↔ t.get? k = some v := by
  refine ⟨fun h => ?_, mem_of_get?⟩
  induction t with
  | nil => simp at h
  | cons entry rest ih =>
    obtain ⟨k', v'⟩ := entry
    obtain ⟨hnew, hrest⟩ := List.nodup_cons.mp (show (k' :: keys rest).Nodup from hn)
    rw [get?]
    rcases List.mem_cons.mp h with heq | hmem
    · obtain ⟨rfl, rfl⟩ := Prod.mk.inj heq
      simp
    · have hne : k' ≠ k := by
        rintro rfl
        exact hnew (mem_keys_of_mem hmem)
      rw [if_neg (by simpa using hne)]
      exact ih hrest hmem

/-! ## Entries set one after the other -/

omit [BEq κ] [LawfulBEq κ] in
/-- Searching from the end finds the last that passes. -/
theorem find?_reverse_eq_some_iff {passes : ι → Bool} {entries : List ι} {x : ι} :
    entries.reverse.find? passes = some x ↔
      passes x = true ∧ ∃ before after, entries = before ++ x :: after ∧
        ∀ y ∈ after, passes y = false := by
  rw [List.find?_eq_some_iff_append, and_congr_right_iff]
  intro _
  constructor
  · rintro ⟨after, before, hall, hafter⟩
    refine ⟨before.reverse, after.reverse, ?_, fun y hy => ?_⟩
    · rw [← List.reverse_reverse entries, hall]
      simp
    · simpa using hafter y (List.mem_reverse.mp hy)
  · rintro ⟨before, after, rfl, hafter⟩
    refine ⟨after.reverse, before.reverse, by simp, fun y hy => ?_⟩
    simpa using hafter y (List.mem_reverse.mp hy)

/-- The last entry of a key wins; a key without one keeps its value. -/
theorem get?_foldl_set (key : ι → κ) (value : ι → α) (entries : List ι) (t : Table κ α)
    (k : κ) :
    (entries.foldl (fun t x => t.set (key x) (value x)) t).get? k =
      ((entries.reverse.find? (fun x => key x == k)).map value).or (t.get? k) := by
  induction entries generalizing t with
  | nil => simp
  | cons x rest ih =>
    rw [List.foldl_cons, ih, get?_set, List.reverse_cons, List.find?_append]
    cases rest.reverse.find? (fun x => key x == k) with
    | some y => simp
    | none =>
      by_cases h : key x = k <;> simp [h]

theorem nodup_keys_foldl_set (key : ι → κ) (value : ι → α) (entries : List ι) {t : Table κ α}
    (h : t.keys.Nodup) :
    (entries.foldl (fun t x => t.set (key x) (value x)) t).keys.Nodup := by
  induction entries generalizing t with
  | nil => exact h
  | cons x rest ih => exact ih (nodup_keys_set h _ _)

/-- The keys stand in the order of their first entries, after those that were there before. -/
theorem keys_foldl_set (key : ι → κ) (value : ι → α) (entries : List ι) (t : Table κ α) :
    (entries.foldl (fun t x => t.set (key x) (value x)) t).keys =
      t.keys ++ ((entries.map key).removeAll t.keys).eraseDups := by
  induction entries generalizing t with
  | nil => simp [List.removeAll]
  | cons x rest ih =>
    rw [List.foldl_cons, ih, keys_set, List.map_cons]
    by_cases h : t.keys.contains (key x) = true
    · rw [if_pos h, List.cons_removeAll, if_neg (by simpa using h)]
    · have hlater : (rest.map key).removeAll (t.keys ++ [key x]) =
          ((rest.map key).removeAll t.keys).filter (fun k => !k == key x) := by
        rw [List.removeAll, List.removeAll, List.filter_filter]
        refine List.filter_congr (fun k _ => ?_)
        rw [List.elem_eq_contains, List.elem_eq_contains, List.contains_append, Bool.not_or,
          Bool.and_comm]
        simp
      rw [if_neg h, List.cons_removeAll, if_pos (by simpa using h), hlater, List.eraseDups_cons,
        List.append_assoc]
      rfl

theorem filter_set (q : κ → Bool) (t : Table κ α) (key : κ) (value : α) :
    (t.set key value).filter (fun e => q e.1) =
      if q key then Table.set (t.filter (fun e => q e.1)) key value
      else t.filter (fun e => q e.1) := by
  induction t with
  | nil => cases h : q key <;> simp [set, h]
  | cons entry rest ih =>
    obtain ⟨k, v⟩ := entry
    rw [set]
    by_cases hk : k = key
    · subst hk
      cases h : q k <;> simp [h, set]
    · rw [if_neg (by simpa using hk), List.filter_cons, List.filter_cons, ih]
      cases h : q k <;> cases hkey : q key <;> simp [set, hk]

/-- The entries under some of the keys are made by the entries for these keys. -/
theorem filter_foldl_set (q : κ → Bool) (key : ι → κ) (value : ι → α) (entries : List ι)
    (t : Table κ α) :
    (entries.foldl (fun t x => t.set (key x) (value x)) t).filter (fun e => q e.1) =
      (entries.filter (fun x => q (key x))).foldl
        (fun (t : Table κ α) x => t.set (key x) (value x)) (t.filter (fun e => q e.1)) := by
  induction entries generalizing t with
  | nil => rfl
  | cons x rest ih =>
    rw [List.foldl_cons, ih, filter_set, List.filter_cons]
    cases h : q (key x) <;> rfl

/-- Values by a key of theirs; of several values with one key the last is kept. -/
def keyed (key : α → κ) (values : List α) : Table κ α :=
  values.foldl (fun t x => t.set (key x) x) []

theorem nodup_keys_keyed (key : α → κ) (values : List α) : (keyed key values).keys.Nodup :=
  nodup_keys_foldl_set key id values List.nodup_nil

/-- Under a key stands the last value with that key. -/
theorem get?_keyed (key : α → κ) (values : List α) (k : κ) :
    (keyed key values).get? k = values.reverse.find? (fun x => key x == k) := by
  rw [keyed, get?_foldl_set, Option.map_id', get?, Option.or_none]

theorem mem_keyed {key : α → κ} {values : List α} {k : κ} {x : α} (h : (k, x) ∈ keyed key values) :
    x ∈ values ∧ key x = k := by
  rw [mem_iff_get? (nodup_keys_keyed key values), get?_keyed] at h
  exact ⟨List.mem_reverse.mp (List.mem_of_find?_eq_some h), by simpa using List.find?_some h⟩

theorem contains_keyed {key : α → κ} {values : List α} {k : κ} :
    (keyed key values).contains k = true ↔ ∃ x ∈ values, key x = k := by
  rw [contains, get?_keyed, List.find?_isSome]
  simp

theorem filter_keyed (q : κ → Bool) (key : α → κ) (values : List α) :
    (keyed key values).filter (fun e => q e.1) = keyed key (values.filter (fun x => q (key x))) :=
  filter_foldl_set q key id values []

/-! ## Changes made one after the other -/

/-- The value of a key is what its own changes make of the default. -/
theorem get?_foldl_update (key : ι → κ) (default : α) (change : ι → α → α) (entries : List ι)
    (t : Table κ α) (k : κ) :
    (entries.foldl (fun t x => t.update (key x) default (change x)) t).get? k =
      if entries.any (fun x => key x == k) then
        some ((entries.filter (fun x => key x == k)).foldl (fun v x => change x v)
          ((t.get? k).getD default))
      else t.get? k := by
  induction entries generalizing t with
  | nil => rfl
  | cons x rest ih =>
    rw [List.foldl_cons, ih, get?_update]
    by_cases hx : key x = k
    · subst hx
      by_cases hrest : rest.any (fun y => key y == key x) = true
      · simp [hrest]
      · have hnone : rest.filter (fun y => key y == key x) = [] := by
          simpa using hrest
        simp [hrest, hnone]
    · have hother : (key x == k) = false := by simpa using hx
      rw [List.any_cons, List.filter_cons, hother]
      rfl

theorem nodup_keys_foldl_update (key : ι → κ) (default : α) (change : ι → α → α)
    (entries : List ι) {t : Table κ α} (h : t.keys.Nodup) :
    (entries.foldl (fun t x => t.update (key x) default (change x)) t).keys.Nodup := by
  induction entries generalizing t with
  | nil => exact h
  | cons x rest ih => exact ih (nodup_keys_update h _ _ _)

end CodeGraph.Table

/-! ## Names up to a mark -/

/-- What has no mark in it is read whole, and what follows up to its first mark. -/
theorem CodeGraph.takeWhile_bne_append {mark : Char} {cs : List Char} (h : mark ∉ cs)
    (rest : List Char) :
    (cs ++ rest).takeWhile (· != mark) = cs ++ rest.takeWhile (· != mark) := by
  refine List.takeWhile_append_of_pos (fun c hc => ?_)
  rw [bne_iff_ne]
  rintro rfl
  exact h hc

namespace CodeGraph.Sorted

/-! ## Sorted names -/

theorem mem_insert {s x : String} {texts : List String} :
    x ∈ insert s texts ↔ x = s ∨ x ∈ texts := by
  induction texts with
  | nil => simp [insert]
  | cons t rest ih =>
    rw [insert]
    by_cases hlt : s < t
    · rw [if_pos hlt, List.mem_cons]
    · rw [if_neg hlt]
      by_cases heq : s = t
      · subst heq
        simp
      · rw [if_neg (by simpa using heq), List.mem_cons, ih, List.mem_cons]
        exact or_left_comm

theorem ascending_insert (s : String) {texts : List String} (h : texts.Pairwise (· < ·)) :
    (insert s texts).Pairwise (· < ·) := by
  induction texts with
  | nil => simp [insert]
  | cons t rest ih =>
    obtain ⟨hfirst, hrest⟩ := List.pairwise_cons.mp h
    rw [insert]
    by_cases hlt : s < t
    · rw [if_pos hlt]
      refine List.pairwise_cons.mpr ⟨?_, h⟩
      intro x hx
      rcases List.mem_cons.mp hx with rfl | hmem
      · exact hlt
      · exact lt_trans hlt (hfirst x hmem)
    · rw [if_neg hlt]
      by_cases heq : s = t
      · rw [if_pos (by simpa using heq)]
        exact h
      · have hgt : t < s := lt_of_le_of_ne (not_lt.mp hlt) (Ne.symm heq)
        rw [if_neg (by simpa using heq)]
        refine List.pairwise_cons.mpr ⟨?_, ih hrest⟩
        intro x hx
        rcases mem_insert.mp hx with rfl | hmem
        · exact hgt
        · exact hfirst x hmem

theorem mem_distinct {x : String} {texts : List String} : x ∈ distinct texts ↔ x ∈ texts := by
  induction texts with
  | nil => rfl
  | cons t rest ih => rw [distinct, List.foldr_cons, mem_insert, List.mem_cons, ← ih]; rfl

theorem ascending_distinct (texts : List String) : (distinct texts).Pairwise (· < ·) := by
  induction texts with
  | nil => exact List.Pairwise.nil
  | cons t rest ih => exact ascending_insert t ih

end CodeGraph.Sorted
