import CodeGraph.Proofs.Path.Components
import Mathlib.Data.List.TakeWhile

/-!
# Paths that are put together

Joining, taking the directory and normalising work on texts. On the names between the slashes
(`parts`) they are plain list operations: joining appends (`parts_join`), the directory drops the
last stretch (`parts_directory`), and normalising reads the names one after the other
(`normalize_of_isRooted`). The slashes in front are kept by all of them.

A root may begin with one slash or with two, and it may be nothing but slashes. `below` is the path
with some names below a root; it lies within the root (`isWithin_below`), and the way from the root
to it is these names again (`relative_below`). Any path with names joined to it one after the other
(`joinAll`) is at least as long as those of the directories on its way (`utf8ByteSize_joinAll_le`).
-/

namespace CodeGraph.Path

/-! ## Stretches and names -/

instance (part : List Char) : Decidable (Plain part) :=
  decidable_of_iff (part ≠ [] ∧ part ≠ here ∧ part ≠ up ∧ '/' ∉ part)
    ⟨fun ⟨h₁, h₂, h₃, h₄⟩ => ⟨h₁, h₂, h₃, h₄⟩, fun ⟨h₁, h₂, h₃, h₄⟩ => ⟨h₁, h₂, h₃, h₄⟩⟩

theorem splitSlash_replicate (k : Nat) (cs : List Char) :
    splitSlash (List.replicate k '/' ++ cs) = List.replicate k [] ++ splitSlash cs := by
  induction k with
  | zero => rfl
  | succ k ih => rw [List.replicate_succ, List.cons_append, splitSlash_slash, ih]; rfl

theorem filter_replicate_nil (k : Nat) :
    (List.replicate k ([] : List Char)).filter (· != []) = [] := by
  simp

/-- Names that stand behind slashes are found again. -/
theorem parts_joined {names : List (List Char)} (h : ∀ name ∈ names, name ≠ [] ∧ '/' ∉ name)
    (k : Nat) : parts (String.ofList (List.replicate k '/' ++ joinSlash names)) = names := by
  rw [parts, String.toList_ofList, splitSlash_replicate, List.filter_append, filter_replicate_nil,
    List.nil_append]
  by_cases hne : names = []
  · subst hne
    rfl
  · rw [splitSlash_joinSlash hne (fun name hname => (h name hname).2), List.filter_eq_self]
    exact fun name hname => by simpa using (h name hname).1

theorem noSlash_of_mem_parts {p : String} {name : List Char} (h : name ∈ parts p) : '/' ∉ name :=
  noSlash_of_mem_splitSlash (List.mem_of_mem_filter h)

/-- A joined path is cut into stretches with the names of the directory, then those of the path. -/
theorem splitSlash_join (dir : String) {path : String} (h : isRooted path = false) :
    ∃ front, splitSlash (join dir path).toList = front ++ splitSlash path.toList ∧
      front.filter (· != []) = parts dir := by
  rw [join, h, Bool.false_or]
  by_cases hempty : dir.isEmpty = true
  · rw [if_pos hempty, String.isEmpty_iff.mp hempty]
    exact ⟨[], rfl, rfl⟩
  · rw [if_neg hempty]
    split
    · rename_i hlast
      obtain ⟨front, hdir⟩ := List.getLast?_eq_some_iff.mp (beq_iff_eq.mp hlast)
      refine ⟨splitSlash front, ?_, ?_⟩
      · rw [String.toList_append, hdir, List.append_assoc, List.singleton_append,
          splitSlash_append]
      · rw [parts, hdir, splitSlash_append, List.filter_append]
        exact (List.append_nil _).symm
    · refine ⟨splitSlash dir.toList, ?_, rfl⟩
      rw [String.toList_append, String.toList_append, List.append_assoc]
      exact splitSlash_append dir.toList path.toList

theorem parts_join (dir : String) {path : String} (h : isRooted path = false) :
    parts (join dir path) = parts dir ++ parts path := by
  obtain ⟨front, hsplit, hfront⟩ := splitSlash_join dir h
  rw [← hfront, parts, hsplit, List.filter_append]
  rfl

/-! ## The directory of a path -/

theorem eq_replicate_takeWhile (cs : List Char) :
    cs.takeWhile (· == '/') = List.replicate (cs.takeWhile (· == '/')).length '/' :=
  List.eq_replicate_of_mem fun _ hc => by simpa using List.mem_takeWhile_imp hc

theorem parts_dropWhile_slash (path : String) :
    parts (String.ofList (path.toList.dropWhile (· == '/'))) = parts path := by
  have hsplit : path.toList = List.replicate (path.toList.takeWhile (· == '/')).length '/' ++
      path.toList.dropWhile (· == '/') := by
    rw [← eq_replicate_takeWhile, List.takeWhile_append_dropWhile]
  rw [parts, parts, String.toList_ofList, hsplit, splitSlash_replicate, List.filter_append,
    filter_replicate_nil, List.nil_append, ← hsplit]

/-- Either nothing but slashes stands before the last name, or the directory ends in something else
and slashes stand between it and the name. -/
theorem directory_cases (p : String) :
    (∃ k name, '/' ∉ name ∧ p.toList = List.replicate k '/' ++ name ∧
      (directory p).toList = List.replicate k '/') ∨
    ∃ front c k name, c ≠ '/' ∧ '/' ∉ name ∧
      p.toList = front ++ c :: (List.replicate (k + 1) '/' ++ name) ∧
      (directory p).toList = front ++ [c] := by
  -- read from the end: the name, then slashes, then the rest
  generalize hname : p.toList.reverse.takeWhile (· != '/') = name
  generalize hhead : p.toList.reverse.dropWhile (· != '/') = head
  generalize hslashes : head.takeWhile (· == '/') = slashes
  generalize hrest : head.dropWhile (· == '/') = rest
  have hp : p.toList = head.reverse ++ name.reverse := by
    rw [← List.reverse_append, ← hname, ← hhead, List.takeWhile_append_dropWhile,
      List.reverse_reverse]
  have hnoslash : '/' ∉ name.reverse := by
    intro hmem
    rw [List.mem_reverse, ← hname] at hmem
    simpa using List.mem_takeWhile_imp hmem
  have hhead_eq : head = List.replicate slashes.length '/' ++ rest := by
    rw [← hslashes, ← eq_replicate_takeWhile, ← hrest, List.takeWhile_append_dropWhile]
  have hdir : (directory p).toList =
      if head.reverse.all (· == '/') then head.reverse else rest.reverse := by
    rw [directory, hhead, trimSlashes, List.reverse_reverse, hrest]
    split <;> exact String.toList_ofList
  cases rest with
  | nil =>
    rw [List.append_nil] at hhead_eq
    refine Or.inl ⟨slashes.length, name.reverse, hnoslash, ?_, ?_⟩
    · rw [hp, hhead_eq, List.reverse_replicate]
    · rw [hdir, hhead_eq]
      simp
  | cons c rest =>
    have hc : c ≠ '/' := by
      have hfirst := List.head?_dropWhile_not (· == '/') head
      rw [hrest] at hfirst
      simpa using hfirst
    -- the first character from the end that is not part of the name is a slash
    have hpositive : slashes.length = slashes.length - 1 + 1 := by
      refine (Nat.succ_pred_eq_of_pos (List.length_pos_iff.mpr ?_)).symm
      rintro rfl
      have hfirst := List.head?_dropWhile_not (· != '/') p.toList.reverse
      rw [hhead, hhead_eq] at hfirst
      exact hc (by simpa using hfirst)
    refine Or.inr ⟨rest.reverse, c, slashes.length - 1, name.reverse, hc, hnoslash, ?_, ?_⟩
    · rw [hp, hhead_eq, ← hpositive]
      simp
    · rw [hdir, if_neg]
      · simp
      · rw [hhead_eq]
        simp [hc]

theorem parts_directory (p : String) :
    parts (directory p) = (splitSlash p.toList).dropLast.filter (· != []) := by
  rcases directory_cases p with
    ⟨k, name, hname, hp, hdir⟩ | ⟨front, c, k, name, -, hname, hp, hdir⟩
  · have hslashes : directory p = String.ofList (List.replicate k '/' ++ joinSlash []) := by
      rw [← String.toList_inj, String.toList_ofList, hdir]
      exact (List.append_nil _).symm
    rw [hslashes, parts_joined (by simp), hp, splitSlash_replicate, splitSlash_of_noSlash hname,
      List.dropLast_concat, filter_replicate_nil]
  · have hcut : p.toList = (front ++ [c]) ++ '/' :: (List.replicate k '/' ++ name) := by
      rw [hp, List.replicate_succ]
      simp
    rw [parts, hdir, hcut, splitSlash_append, splitSlash_replicate, splitSlash_of_noSlash hname,
      ← List.append_assoc, List.dropLast_concat, List.filter_append, filter_replicate_nil,
      List.append_nil]

theorem parts_directory_join (dir : String) {path : String} (h : isRooted path = false) :
    parts (directory (join dir path)) = parts dir ++ parts (directory path) := by
  obtain ⟨front, hsplit, hfront⟩ := splitSlash_join dir h
  rw [parts_directory, parts_directory, hsplit,
    List.dropLast_append_of_ne_nil (splitSlash_ne_nil path.toList), List.filter_append, hfront]

/-! ## The slashes in front -/

/-- The slashes in front end at the first other character. -/
theorem leading_append {cs : List Char} (h : ∃ c ∈ cs, c ≠ '/') (more : List Char) :
    leading (cs ++ more) = leading cs := by
  match cs with
  | [] => simp at h
  | [a] =>
    have ha : a ≠ '/' := by simpa using h
    simp [leading, ha]
  | [a, b] =>
    by_cases ha : a = '/'
    · have hb : b ≠ '/' := by simpa [ha] using h
      simp [leading, ha, hb]
    · simp [leading, ha]
  | a :: b :: c :: cs =>
    by_cases ha : a = '/' <;> by_cases hb : b = '/' <;> by_cases hc : c = '/' <;>
      simp [leading, ha, hb, hc]

theorem leading_replicate_append (k : Nat) {cs : List Char} (h : cs.head? ≠ some '/') :
    leading (List.replicate k '/' ++ cs) = leading (List.replicate k '/') := by
  cases cs with
  | nil => rw [List.append_nil]
  | cons c cs =>
    have hc : c ≠ '/' := by simpa using h
    match k with
    | 0 => simp [leading, hc]
    | 1 => simp [leading, hc]
    | 2 => simp [leading, hc]
    | k + 3 => rfl

theorem leading_directory (p : String) : leading (directory p).toList = leading p.toList := by
  rcases directory_cases p with
    ⟨k, name, hname, hp, hdir⟩ | ⟨front, c, k, name, hc, -, hp, hdir⟩
  · have hhead : name.head? ≠ some '/' := fun hslash => hname (List.mem_of_head? hslash)
    rw [hdir, hp, leading_replicate_append k hhead]
  · have hsome : ∃ x ∈ front ++ [c], x ≠ '/' := ⟨c, by simp, hc⟩
    rw [hdir, hp, ← leading_append hsome (List.replicate (k + 1) '/' ++ name)]
    simp

theorem exists_replicate_of_all_slash {cs : List Char} (h : ¬ ∃ c ∈ cs, c ≠ '/') :
    cs = List.replicate cs.length '/' :=
  List.eq_replicate_of_mem fun c hc => by_contra fun hne => h ⟨c, hc, hne⟩

theorem leading_join {dir path : String} (hdir : isRooted dir = true)
    (hpath : isRooted path = false) : leading (join dir path).toList = leading dir.toList := by
  have hne : dir.isEmpty = false := by
    rw [← Bool.not_eq_true, String.isEmpty_iff]
    rintro rfl
    cases hdir
  have hhead : path.toList.head? ≠ some '/' := by simpa [isRooted] using hpath
  simp only [join, hpath, hne, Bool.or_self, Bool.false_eq_true, if_false]
  by_cases hother : ∃ c ∈ dir.toList, c ≠ '/'
  · split
    · rw [String.toList_append, leading_append hother]
    · rw [String.toList_append, String.toList_append, List.append_assoc, leading_append hother]
  · -- a directory of slashes only ends in one
    have hslashes := exists_replicate_of_all_slash hother
    have hlast : (dir.toList.getLast? == some '/') = true := by
      obtain ⟨cs, hcs⟩ := List.head?_eq_some_iff.mp (by simpa [isRooted] using hdir)
      rw [hslashes, hcs, List.getLast?_replicate]
      rfl
    rw [if_pos hlast, String.toList_append, hslashes, leading_replicate_append _ hhead]

theorem isRooted_iff_leading (p : String) : isRooted p = true ↔ leading p.toList ≠ [] := by
  rw [isRooted, beq_iff_eq, List.head?_eq_some_iff]
  unfold leading
  split <;> simp_all

theorem leading_cases {p : String} (h : isRooted p = true) :
    leading p.toList = ['/'] ∨ leading p.toList = ['/', '/'] := by
  rw [isRooted_iff_leading] at h
  unfold leading at h ⊢
  split <;> simp_all

/-! ## Normal paths -/

theorem foldl_push_filter (rooted : Bool) (names kept : List (List Char)) :
    (names.filter (· != [])).foldl (push rooted) kept = names.foldl (push rooted) kept := by
  induction names generalizing kept with
  | nil => rfl
  | cons name rest ih =>
    by_cases hname : name = []
    · subst hname
      exact ih kept
    · rw [List.filter_cons_of_pos (by simpa using hname), List.foldl_cons, List.foldl_cons, ih]

theorem normalParts_filter (parts : List (List Char)) :
    normalParts true (parts.filter (· != [])) = normalParts true parts := by
  rw [normalParts, normalParts, foldl_push_filter]

theorem components_eq (p : String) : components p = normalParts true (parts p) := by
  rw [components, parts, normalParts_filter]

theorem normalize_of_isRooted {p : String} (h : isRooted p = true) :
    normalize p = String.ofList (leading p.toList ++ joinSlash (components p)) := by
  have hne : leading p.toList ≠ [] := (isRooted_iff_leading p).mp h
  have hlead : (leading p.toList).isEmpty = false := by simpa using hne
  simp [normalize, hne, hlead, components]

/-- A path from the top that normalising leaves as it is. -/
structure IsNormal (p : String) : Prop where
  rooted : isRooted p = true
  normal : normalize p = p

/-- The path with some names below a root. -/
def below (root : String) (names : List (List Char)) : String :=
  String.ofList (leading root.toList ++ joinSlash (components root ++ names))

theorem IsNormal.below_nil {root : String} (h : IsNormal root) : below root [] = root := by
  rw [below, List.append_nil, ← normalize_of_isRooted h.rooted, h.normal]

section Below

variable {root : String} {names : List (List Char)}

theorem plain_components_append (root : String) (hnames : ∀ name ∈ names, Plain name) :
    ∀ part ∈ components root ++ names, Plain part := by
  intro part hpart
  rcases List.mem_append.mp hpart with hpart | hpart
  · exact plain_components root part hpart
  · exact hnames part hpart

theorem head?_joinSlash {parts : List (List Char)} (h : ∀ part ∈ parts, Plain part) :
    (joinSlash parts).head? ≠ some '/' := by
  cases parts with
  | nil => simp [joinSlash]
  | cons part rest =>
    have hplain := h part List.mem_cons_self
    obtain ⟨c, cs, rfl⟩ := List.exists_cons_of_ne_nil hplain.ne_nil
    have hc : c ≠ '/' := fun heq => hplain.noSlash (heq ▸ List.mem_cons_self)
    cases rest <;> simpa [joinSlash] using hc

theorem leading_below (hroot : isRooted root = true) (hnames : ∀ name ∈ names, Plain name) :
    leading (below root names).toList = leading root.toList := by
  have hhead := head?_joinSlash (plain_components_append root hnames)
  rw [below, String.toList_ofList]
  rcases leading_cases hroot with hlead | hlead
  · rw [hlead]
    exact leading_replicate_append 1 hhead
  · rw [hlead]
    exact leading_replicate_append 2 hhead

theorem parts_below (hroot : isRooted root = true) (hnames : ∀ name ∈ names, Plain name) :
    parts (below root names) = components root ++ names := by
  have hplain := plain_components_append root hnames
  have hjoined := parts_joined (fun name hname => ⟨(hplain name hname).ne_nil,
    (hplain name hname).noSlash⟩)
  rw [below]
  rcases leading_cases hroot with hlead | hlead
  · rw [hlead]
    exact hjoined 1
  · rw [hlead]
    exact hjoined 2

theorem components_below (hroot : isRooted root = true) (hnames : ∀ name ∈ names, Plain name) :
    components (below root names) = components root ++ names := by
  rw [components_eq, parts_below hroot hnames,
    normalParts_plain (plain_components_append root hnames)]

theorem isRooted_below (hroot : isRooted root = true) (hnames : ∀ name ∈ names, Plain name) :
    isRooted (below root names) = true := by
  rw [isRooted_iff_leading, leading_below hroot hnames]
  exact (isRooted_iff_leading root).mp hroot

theorem isNormal_below (hroot : isRooted root = true) (hnames : ∀ name ∈ names, Plain name) :
    IsNormal (below root names) where
  rooted := isRooted_below hroot hnames
  normal := by
    rw [normalize_of_isRooted (isRooted_below hroot hnames), leading_below hroot hnames,
      components_below hroot hnames, below]

theorem IsNormal.absolute_eq {p : String} (h : IsNormal p) (cwd : String) :
    absolute cwd p = p := by
  rw [absolute, join_of_isRooted cwd h.rooted, h.normal]

theorem IsNormal.parts_eq {p : String} (h : IsNormal p) : parts p = components p := by
  have hnone : ∀ name ∈ ([] : List (List Char)), Plain name := by simp
  have hparts := parts_below h.rooted hnone
  rwa [h.below_nil, List.append_nil] at hparts

/-! ## Containment and the way back -/

theorem shared_append (ps qs : List (List Char)) : shared ps (ps ++ qs) = ps.length := by
  induction ps with
  | nil => cases qs <;> rfl
  | cons p ps ih => simp [shared, ih]

theorem relativeParts_append (ps qs : List (List Char)) : relativeParts ps (ps ++ qs) = qs := by
  simp [relativeParts, shared_append]

/-- The way from a root to a place below it is the names of the place. -/
theorem relative_below (cwd : String) (hroot : IsNormal root)
    (hnames : ∀ name ∈ names, Plain name) :
    relative cwd root (below root names) =
      if names = [] then "." else String.ofList (joinSlash names) := by
  have hplace := isNormal_below hroot.rooted hnames
  rw [relative, hroot.absolute_eq, hplace.absolute_eq, hroot.parts_eq,
    parts_below hroot.rooted hnames, relativeParts_append]
  simp

theorem IsNormal.toList_eq (h : IsNormal root) :
    root.toList = leading root.toList ++ joinSlash (components root) := by
  have hroot := congrArg String.toList h.below_nil
  rwa [below, String.toList_ofList, List.append_nil, eq_comm] at hroot

theorem IsNormal.getLast?_ne_slash (h : IsNormal root) (hne : components root ≠ []) :
    root.toList.getLast? ≠ some '/' := by
  have hwritten := getLast?_written hne (plain_components root)
  rw [h.toList_eq]
  rcases leading_cases h.rooted with hlead | hlead
  · rwa [hlead]
  · rw [hlead, List.cons_append, List.getLast?_cons_of_ne_nil (by simp)]
    exact hwritten

/-- Below a root that has names, the names below it stand behind a slash. -/
theorem IsNormal.toList_below (h : IsNormal root) (hne : components root ≠ [])
    (hnames : names ≠ []) : (below root names).toList = root.toList ++ '/' :: joinSlash names := by
  rw [below, String.toList_ofList, joinSlash_append hne hnames, ← List.append_assoc,
    ← h.toList_eq]

theorem isWithin_below (cwd : String) (hroot : IsNormal root)
    (hnames : ∀ name ∈ names, Plain name) : isWithin cwd root (below root names) = true := by
  rw [isWithin, hroot.absolute_eq, (isNormal_below hroot.rooted hnames).absolute_eq,
    Bool.or_eq_true, beq_iff_eq, List.isPrefixOf_iff_prefix]
  by_cases hempty : names = []
  · rw [hempty, hroot.below_nil]
    exact Or.inl rfl
  · refine Or.inr ?_
    by_cases hne : components root = []
    · -- a root of slashes only: every path from the top is within it
      have htrim : trimSlashes root.toList = [] := by
        rw [hroot.toList_eq, hne]
        rcases leading_cases hroot.rooted with hlead | hlead <;> rw [hlead] <;> rfl
      obtain ⟨cs, hcs⟩ := List.head?_eq_some_iff.mp
        (beq_iff_eq.mp (isRooted_below hroot.rooted hnames))
      rw [htrim, hcs]
      exact ⟨cs, rfl⟩
    · rw [trimSlashes_of_getLast? (hroot.getLast?_ne_slash hne), hroot.toList_below hne hempty]
      exact ⟨joinSlash names, by simp⟩

/-- What lies within a root and begins with the same slashes is some names below it. -/
theorem isWithin_iff_exists_below (cwd : String) {root p : String} (hroot : IsNormal root)
    (hp : IsNormal p) (hlead : leading p.toList = leading root.toList) :
    isWithin cwd root p = true ↔
      ∃ names, (∀ name ∈ names, Plain name) ∧ p = below root names := by
  constructor
  · intro h
    have hcomponents : components root <+: components p := by
      rcases leading_cases hroot.rooted with hone | htwo
      · exact (isWithin_iff cwd hone (hlead.trans hone)).mp h
      · -- both texts have one slash more than their components written down
        have hroot_eq : root.toList = '/' :: written (components root) := by
          rw [hroot.toList_eq, htwo]
          rfl
        have hp_eq : p.toList = '/' :: written (components p) := by
          rw [hp.toList_eq, hlead, htwo]
          rfl
        by_cases hne : components root = []
        · rw [hne]
          exact List.nil_prefix
        · rw [isWithin, hroot.absolute_eq, hp.absolute_eq,
            trimSlashes_of_getLast? (hroot.getLast?_ne_slash hne), hroot_eq, hp_eq,
            Bool.or_eq_true, beq_iff_eq, List.isPrefixOf_iff_prefix, List.cons.injEq,
            List.cons_append, List.cons_prefix_cons] at h
          refine (contained_iff (plain_components root) (plain_components p)).mp ?_
          rw [trimSlashes_of_getLast? (getLast?_written hne (plain_components root))]
          exact h.imp And.right And.right
    obtain ⟨names, hnames⟩ := hcomponents
    refine ⟨names, fun name hname => ?_, ?_⟩
    · exact plain_components p name (hnames ▸ List.mem_append_right _ hname)
    · rw [← hp.below_nil, below, below, List.append_nil, hlead, hnames]
  · rintro ⟨names, hnames, rfl⟩
    exact isWithin_below cwd hroot hnames

/-- A path of names joined to a root is the place with these names below it. -/
theorem join_joinSlash (hroot : IsNormal root) (hnames : ∀ name ∈ names, Plain name)
    (hempty : names ≠ []) : join root (String.ofList (joinSlash names)) = below root names := by
  have hpath : isRooted (String.ofList (joinSlash names)) = false := by
    rw [← Bool.not_eq_true, isRooted, beq_iff_eq, String.toList_ofList]
    exact head?_joinSlash hnames
  have hdir : root.isEmpty = false := by
    rw [← Bool.not_eq_true, String.isEmpty_iff]
    rintro rfl
    cases hroot.rooted
  simp only [join, hpath, hdir, Bool.or_self, Bool.false_eq_true, if_false]
  rw [← String.toList_inj]
  by_cases hne : components root = []
  · have hroot_eq := hroot.toList_eq
    rw [hne, joinSlash, List.append_nil] at hroot_eq
    have hlast : (root.toList.getLast? == some '/') = true := by
      rw [hroot_eq]
      rcases leading_cases hroot.rooted with hlead | hlead <;> rw [hlead] <;> rfl
    rw [if_pos hlast, String.toList_append, String.toList_ofList, below, String.toList_ofList, hne,
      List.nil_append, ← hroot_eq]
  · rw [if_neg (by simpa using hroot.getLast?_ne_slash hne), hroot.toList_below hne hempty]
    simp

end Below

/-! ## Names joined one after the other -/

/-- The path that names lead to from a directory. -/
def joinAll (dir : String) (names : List String) : String :=
  names.foldl join dir

theorem joinAll_concat (dir : String) (names : List String) (name : String) :
    joinAll dir (names ++ [name]) = join (joinAll dir names) name := by
  rw [joinAll, joinAll, List.foldl_append]
  rfl

theorem utf8ByteSize_add_le_join (dir : String) {path : String} (h : isRooted path = false) :
    dir.utf8ByteSize + path.utf8ByteSize ≤ (join dir path).utf8ByteSize := by
  rw [join, h, Bool.false_or]
  split_ifs with hempty
  · rw [String.isEmpty_iff.mp hempty]
    exact Nat.le_of_eq (Nat.zero_add _)
  · rw [String.utf8ByteSize_append]
  · rw [String.utf8ByteSize_append, String.utf8ByteSize_append]
    omega

/-- A path is at least as long as those of the directories on its way. -/
theorem utf8ByteSize_joinAll_le (dir : String) {names more : List String}
    (h : ∀ name ∈ more, isRooted name = false) :
    (joinAll dir names).utf8ByteSize ≤ (joinAll dir (names ++ more)).utf8ByteSize := by
  rw [joinAll, joinAll, List.foldl_append]
  generalize names.foldl join dir = path
  induction more generalizing path with
  | nil => exact Nat.le_refl _
  | cons name more ih =>
    have hname := utf8ByteSize_add_le_join path (h name List.mem_cons_self)
    have hmore := ih (fun x hx => h x (List.mem_cons_of_mem _ hx)) (join path name)
    rw [List.foldl_cons]
    omega

theorem Plain.isRooted {name : String} (h : Plain name.toList) : isRooted name = false := by
  rw [← Bool.not_eq_true, Path.isRooted, beq_iff_eq]
  intro hhead
  exact h.noSlash (List.mem_of_mem_head? hhead)

theorem Plain.exists_getLast? {name : List Char} (h : Plain name) :
    ∃ c, name.getLast? = some c ∧ c ≠ '/' :=
  ⟨name.getLast h.ne_nil, List.getLast?_eq_some_getLast h.ne_nil,
    fun hslash => h.noSlash (hslash ▸ List.getLast_mem h.ne_nil)⟩

/-- What is put before a path that is joined to a directory depends on the directory only. -/
theorem exists_join_eq_append (dir : String) :
    ∃ front, ∀ path, isRooted path = false → join dir path = front ++ path := by
  by_cases hempty : dir.isEmpty = true
  · exact ⟨"", fun path h => by simp [join, hempty]⟩
  · by_cases hlast : (dir.toList.getLast? == some '/') = true
    · exact ⟨dir, fun path h => by simp only [join, h, hempty, hlast, Bool.or_self]; rfl⟩
    · exact ⟨dir ++ "/", fun path h => by simp only [join, h, hempty, hlast, Bool.or_self]; rfl⟩

theorem join_empty (path : String) : join "" path = path := by
  simp [join]

theorem join_of_getLast? {dir text : String} {c : Char} (hlast : dir.toList.getLast? = some c)
    (hc : c ≠ '/') (htext : isRooted text = false) : join dir text = dir ++ "/" ++ text := by
  have hempty : dir.isEmpty = false := by
    rw [← Bool.not_eq_true, String.isEmpty_iff]
    rintro rfl
    cases hlast
  rw [join, htext, hempty, Bool.or_self, if_neg Bool.false_ne_true, hlast,
    if_neg (by simpa using hc)]

theorem join_join (dir : String) {name text : String} (hname : Plain name.toList)
    (htext : isRooted text = false) : join (join dir name) text = join dir (join name text) := by
  obtain ⟨c, hlast, hc⟩ := hname.exists_getLast?
  obtain ⟨front, hfront⟩ := exists_join_eq_append dir
  have hjoined : isRooted (name ++ "/" ++ text) = false := by
    have hhead := hname.isRooted
    obtain ⟨first, rest, hcs⟩ := List.exists_cons_of_ne_nil hname.ne_nil
    rw [isRooted, hcs] at hhead
    rw [isRooted, String.append_assoc, String.toList_append, hcs]
    exact hhead
  rw [join_of_getLast? hlast hc htext, hfront name hname.isRooted, hfront _ hjoined,
    join_of_getLast? (by simp [hlast]) hc htext]
  simp [String.append_assoc]

end CodeGraph.Path
