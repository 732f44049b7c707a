import CodeGraph.Proofs.Resolve.Addressing

/-!
# Resolution does not depend on where the root lives

Two runs are compared: the same specifier, read in the same file of two roots that have the same
files. As long as the names do not lead above the root, what the specifier names is at the same
place below both (`base_below`). Then the candidates are alike one by one (`Alike`): either at the
same place below both roots, or outside both, like a candidate that lengthens the name of the root
itself. A search through alike candidates ends alike (`find?_alike`), so both runs give the same
answer (`resolution_root_free`).

An extension is part of a path. One that goes up again can come back into the one root by its own
name and into no other, so it is asked that what follows a slash in an extension are plain names.
-/

namespace CodeGraph

namespace Path

/-! ## Names that stay below their start -/

/-- Names, read one after the other from so many directories deep, never lead above the start. -/
def staysBelow (depth : Nat) : List (List Char) → Bool
  | [] => true
  | part :: rest =>
    if part == [] || part == here then staysBelow depth rest
    else if part == up then 0 < depth && staysBelow (depth - 1) rest
    else staysBelow (depth + 1) rest

/-- Names that stay below their start leave alone what is kept from before. -/
theorem foldl_push_append {kept : List (List Char)} (hkept : ∀ part ∈ kept, Plain part)
    {parts : List (List Char)} (hparts : ∀ part ∈ parts, '/' ∉ part)
    (h : staysBelow kept.length parts = true) (before : List (List Char)) :
    parts.foldl (push true) (kept ++ before) = parts.foldl (push true) kept ++ before := by
  induction parts generalizing kept with
  | nil => rfl
  | cons part rest ih =>
    have hslash := hparts part List.mem_cons_self
    have hrest : ∀ part ∈ rest, '/' ∉ part := fun p hp => hparts p (List.mem_cons_of_mem _ hp)
    have hplain := plain_push hkept hslash
    rw [List.foldl_cons, List.foldl_cons]
    rw [staysBelow] at h
    rcases part_cases hslash with hsilent | rfl | hname
    · rw [if_pos (by simpa using hsilent)] at h
      rw [push_silent hsilent, push_silent hsilent, ih hkept hrest h]
    · obtain ⟨hdeep, hstays⟩ : 0 < kept.length ∧ staysBelow (kept.length - 1) rest = true := by
        simpa using (show (0 < kept.length && staysBelow (kept.length - 1) rest) = true from h)
      obtain ⟨last, kept, rfl⟩ := List.exists_cons_of_length_pos hdeep
      have hlast := (hkept last List.mem_cons_self).ne_up
      rw [push_up_cons hlast] at hplain
      rw [List.cons_append, push_up_cons hlast, push_up_cons hlast]
      exact ih hplain hrest hstays
    · rw [if_neg (by simp [hname.ne_nil, hname.ne_here]), if_neg (by simp [hname.ne_up])] at h
      rw [push_plain hname] at hplain
      rw [push_plain hname, push_plain hname]
      exact ih hplain hrest h

theorem normalParts_append {before parts : List (List Char)}
    (hbefore : ∀ part ∈ before, Plain part) (hparts : ∀ part ∈ parts, '/' ∉ part)
    (h : staysBelow 0 parts = true) :
    normalParts true (before ++ parts) = before ++ normalParts true parts := by
  have hnil : ∀ part ∈ ([] : List (List Char)), Plain part := by simp
  have hkept := foldl_push_append hnil hparts h before.reverse
  rw [List.nil_append] at hkept
  rw [normalParts, normalParts, List.foldl_append, foldl_push_plain hbefore, List.append_nil, hkept,
    List.reverse_append, List.reverse_reverse]

/-! ## Lengthened paths -/

theorem joinSlash_splitSlash (cs : List Char) : joinSlash (splitSlash cs) = cs := by
  induction cs with
  | nil => rfl
  | cons c cs ih =>
    by_cases hc : c = '/'
    · subst hc
      rw [splitSlash_slash, joinSlash_cons [] (splitSlash_ne_nil cs), ih]
      rfl
    · obtain ⟨first, rest, hsplit⟩ := List.exists_cons_of_ne_nil (splitSlash_ne_nil cs)
      rw [splitSlash_cons hc hsplit]
      rw [hsplit] at ih
      cases rest with
      | nil => exact congrArg (c :: ·) ih
      | cons next rest => exact congrArg (c :: ·) ih

/-- What is written after joined components lengthens the last one up to its first slash. -/
theorem joinSlash_append_text (front : List (List Char)) (last first : List Char)
    (rest : List (List Char)) :
    joinSlash (front ++ [last]) ++ joinSlash (first :: rest) =
      joinSlash (front ++ (last ++ first) :: rest) := by
  induction front with
  | nil => cases rest <;> simp [joinSlash]
  | cons part front ih =>
    rw [List.cons_append, List.cons_append, joinSlash_cons part (by simp),
      joinSlash_cons part (by simp), ← ih, List.append_assoc, List.cons_append]

theorem Plain.append {part more : List Char} (h : Plain part) (hmore : '/' ∉ more) :
    Plain (part ++ more) where
  ne_nil := by simp [h.ne_nil]
  ne_here := by
    intro heq
    rcases List.append_eq_singleton_iff.mp heq with ⟨hpart, -⟩ | ⟨hpart, -⟩
    · exact h.ne_nil hpart
    · exact h.ne_here hpart
  ne_up := by
    intro heq
    rcases List.append_eq_cons_iff.mp heq with ⟨hpart, -⟩ | ⟨cs, hpart, hcs⟩
    · exact h.ne_nil hpart
    · rcases List.append_eq_singleton_iff.mp hcs.symm with ⟨rfl, -⟩ | ⟨rfl, -⟩
      · exact h.ne_here hpart
      · exact h.ne_up hpart
  noSlash := by simp [h.noSlash, hmore]

end Path

namespace Resolve

open CodeGraph.Path

/-! ## Two roots -/

/-- A root that has a name: normal, behind one slash, and not the top. -/
structure IsRoot (root : String) : Prop extends IsNormal root where
  oneSlash : leading root.toList = ['/']
  ne_top : root ≠ "/"

theorem IsRoot.components_ne_nil {root : String} (h : IsRoot root) : components root ≠ [] := by
  intro hnil
  refine h.ne_top (String.toList_inj.mp ?_)
  rw [h.toList_eq, h.oneSlash, hnil]
  rfl

/-- Two roots have the same files: the same paths lead to files below both. The roots themselves are
compared too; for two directories that says nothing. -/
structure SameFiles (d₁ : Disk) (root₁ : String) (d₂ : Disk) (root₂ : String) : Prop where
  files : ∀ a : Address, d₁.isFile (join root₁ a.text) = d₂.isFile (join root₂ a.text)
  roots : d₁.isFile root₁ = d₂.isFile root₂

theorem SameFiles.isFile_below {d₁ d₂ : Disk} {root₁ root₂ : String}
    (h : SameFiles d₁ root₁ d₂ root₂) (h₁ : IsNormal root₁) (h₂ : IsNormal root₂)
    {names : List (List Char)} (hnames : ∀ name ∈ names, Plain name) :
    d₁.isFile (below root₁ names) = d₂.isFile (below root₂ names) := by
  by_cases hempty : names = []
  · rw [hempty, h₁.below_nil, h₂.below_nil]
    exact h.roots
  · have hplain : ∀ name ∈ names.map String.ofList, Plain name.toList := by simpa using hnames
    have hparts : (names.map String.ofList).map String.toList = names := by
      simp [Function.comp_def]
    have hfiles := h.files ⟨names.map String.ofList, by simpa using hempty, hplain⟩
    rwa [Address.join_text h₁, Address.join_text h₂, Address.parts, hparts] at hfiles

/-- Two roots that hold one tree have the same files, if each file is found below both. -/
theorem sameFiles_of_tree {d₁ d₂ : Disk} {root₁ root₂ : String} (h₁ : IsNormal root₁)
    (h₂ : IsNormal root₂) {tree : List (String × Entry)}
    (hstat₁ : d₁.stat root₁ = .ok (.directory tree))
    (hstat₂ : d₂.stat root₂ = .ok (.directory tree))
    (hlinks : Disk.countLinks (.directory tree) = 0)
    (hfound : ∀ route ∈ d₁.filesBelow [] "" (.directory tree),
      d₁.isFile (join root₁ (routeText route)) = true ∧
        d₂.isFile (join root₂ (routeText route)) = true) :
    SameFiles d₁ root₁ d₂ root₂ where
  roots := by rw [Disk.isFile, Disk.isFile, hstat₁, hstat₂]
  files := by
    intro a
    -- the tree is listed by relative paths, which are shorter than those from the top
    have hlisted : ∀ root data, (Entry.directory tree).at? a.names = some (.file data) →
        (join root a.text).utf8ByteSize ≤ Disk.longestPath →
        d₁.isFile (join root₁ a.text) = true ∧ d₂.isFile (join root₂ a.text) = true := by
      intro root data hat hsize
      refine hfound a.names (Disk.mem_filesBelow.mpr
        (Disk.listed_of_at? a.ne_nil hat (by simp) (fun above habove => ?_)))
      refine utf8ByteSize_above a.plain a.ne_nil habove ?_
      rw [join_empty]
      have hjoin := utf8ByteSize_add_le_join root (isRooted_routeText a.plain)
      exact Nat.le_trans (Nat.le_trans (Nat.le_add_left _ _) hjoin) hsize
    rw [Bool.eq_iff_iff]
    constructor
    · intro hfile
      obtain ⟨data, hat⟩ := at?_of_isFile h₁.rooted hstat₁ hlinks a.plain hfile
      exact (hlisted root₁ data hat (utf8ByteSize_of_isFile hfile)).2
    · intro hfile
      obtain ⟨data, hat⟩ := at?_of_isFile h₂.rooted hstat₂ hlinks a.plain hfile
      exact (hlisted root₂ data hat (utf8ByteSize_of_isFile hfile)).1

/-- Two paths are alike for two roots: they have the same names below the roots, or each is outside
its root. -/
def Alike (root₁ root₂ path₁ path₂ : String) : Prop :=
  (∃ names, (∀ name ∈ names, Plain name) ∧ path₁ = below root₁ names ∧
    path₂ = below root₂ names) ∨
  ((∀ cwd, isWithin cwd root₁ path₁ = false) ∧ ∀ cwd, isWithin cwd root₂ path₂ = false)

section Alike

variable {d₁ d₂ : Disk} {root₁ root₂ path₁ path₂ : String}

theorem Alike.isMember_eq (h : Alike root₁ root₂ path₁ path₂)
    (hsame : SameFiles d₁ root₁ d₂ root₂) (h₁ : IsNormal root₁) (h₂ : IsNormal root₂) :
    isMember d₁ root₁ path₁ = isMember d₂ root₂ path₂ := by
  rcases h with ⟨names, hnames, rfl, rfl⟩ | ⟨hout₁, hout₂⟩
  · rw [isMember, isMember, isWithin_below _ h₁ hnames, isWithin_below _ h₂ hnames,
      hsame.isFile_below h₁ h₂ hnames]
  · rw [isMember, isMember, hout₁, hout₂, Bool.and_false, Bool.and_false]

theorem Alike.relative_eq (h : Alike root₁ root₂ path₁ path₂) (h₁ : IsNormal root₁)
    (h₂ : IsNormal root₂) (hmember : isMember d₁ root₁ path₁ = true) :
    relative d₁.cwd root₁ path₁ = relative d₂.cwd root₂ path₂ := by
  rcases h with ⟨names, hnames, rfl, rfl⟩ | ⟨hout₁, -⟩
  · rw [relative_below _ h₁ hnames, relative_below _ h₂ hnames]
  · rw [isMember, hout₁, Bool.and_false] at hmember
    cases hmember

/-- A search through alike paths ends alike. -/
theorem find?_alike {paths₁ paths₂ : List String}
    (h : List.Forall₂ (Alike root₁ root₂) paths₁ paths₂) (hsame : SameFiles d₁ root₁ d₂ root₂)
    (h₁ : IsNormal root₁) (h₂ : IsNormal root₂) :
    (paths₁.find? (isMember d₁ root₁)).map (relative d₁.cwd root₁) =
      (paths₂.find? (isMember d₂ root₂)).map (relative d₂.cwd root₂) := by
  induction h with
  | nil => rw [List.find?_nil, List.find?_nil, Option.map_none, Option.map_none]
  | @cons path₁ path₂ _ _ halike _ ih =>
    have hmember := halike.isMember_eq hsame h₁ h₂
    cases hfound : isMember d₁ root₁ path₁ with
    | true =>
      rw [List.find?_cons_of_pos hfound, List.find?_cons_of_pos (hmember ▸ hfound),
        Option.map_some, Option.map_some, halike.relative_eq h₁ h₂ hfound]
    | false =>
      rw [List.find?_cons_of_neg (by simp [hfound]),
        List.find?_cons_of_neg (by simp [← hmember, hfound])]
      exact ih

end Alike

/-! ## Candidates -/

/-- Only plain names follow a slash in an extension. -/
def PlainTail (ext : String) : Prop :=
  ∀ name ∈ (splitSlash ext.toList).tail, Plain name

instance (ext : String) : Decidable (PlainTail ext) :=
  inferInstanceAs (Decidable (∀ name ∈ (splitSlash ext.toList).tail, Plain name))

theorem PlainTail.exists_cons {ext : String} (h : PlainTail ext) :
    ∃ first rest, splitSlash ext.toList = first :: rest ∧ ∀ name ∈ rest, Plain name := by
  obtain ⟨first, rest, hsplit⟩ := List.exists_cons_of_ne_nil (splitSlash_ne_nil ext.toList)
  rw [PlainTail, hsplit] at h
  exact ⟨first, rest, hsplit, h⟩

section Candidates

variable {names : List (List Char)} {ext : String}

theorem below_below {root : String} (hroot : isRooted root = true)
    (hnames : ∀ name ∈ names, Plain name) (more : List (List Char)) :
    below (below root names) more = below root (names ++ more) := by
  rw [below, leading_below hroot hnames, components_below hroot hnames, List.append_assoc, below]

theorem plain_lengthened {front : List (List Char)} {last first : List Char}
    {rest : List (List Char)} (hfront : ∀ part ∈ front ++ [last], Plain part)
    (hext : splitSlash ext.toList = first :: rest) (hrest : ∀ part ∈ rest, Plain part) :
    ∀ part ∈ front ++ (last ++ first) :: rest, Plain part := by
  have hmem : first ∈ splitSlash ext.toList := hext ▸ List.mem_cons_self
  intro part hpart
  rcases List.mem_append.mp hpart with hpart | hpart
  · exact hfront part (List.mem_append_left _ hpart)
  · rcases List.mem_cons.mp hpart with rfl | hpart
    · exact (hfront last (by simp)).append (noSlash_of_mem_splitSlash hmem)
    · exact hrest part hpart

/-- Text after a path lengthens its last component up to the first slash. -/
theorem ofList_joinSlash_append (lead : List Char) (front : List (List Char)) (last : List Char)
    {first : List Char} {rest : List (List Char)} (hext : splitSlash ext.toList = first :: rest) :
    String.ofList (lead ++ joinSlash (front ++ [last])) ++ ext =
      String.ofList (lead ++ joinSlash (front ++ (last ++ first) :: rest)) := by
  rw [← String.toList_inj, String.toList_append, String.toList_ofList, String.toList_ofList,
    List.append_assoc, ← joinSlash_append_text, ← hext, joinSlash_splitSlash]

/-- A root that is lengthened by more than a slash and names is left. -/
theorem outside_of_lengthened {root : String} (hroot : IsRoot root) {first : List Char}
    {rest : List (List Char)} (hext : splitSlash ext.toList = first :: rest)
    (hrest : ∀ name ∈ rest, Plain name) (hfirst : first ≠ []) (cwd : String) :
    isWithin cwd root (below root [] ++ ext) = false := by
  obtain ⟨front, last, hparts⟩ : ∃ front last, components root = front ++ [last] :=
    ⟨_, _, (List.dropLast_append_getLast hroot.components_ne_nil).symm⟩
  have hplain : ∀ part ∈ front ++ (last ++ first) :: rest, Plain part :=
    plain_lengthened (hparts ▸ plain_components root) hext hrest
  have hpath : below root [] ++ ext =
      String.ofList (written (front ++ (last ++ first) :: rest)) := by
    rw [below, List.append_nil, hparts, ofList_joinSlash_append _ _ _ hext, hroot.oneSlash]
    rfl
  have hlead : leading (below root [] ++ ext).toList = ['/'] := by
    rw [hpath, String.toList_ofList, leading_written hplain]
  rw [← Bool.not_eq_true, isWithin_iff cwd hroot.oneSlash hlead, hpath, components_written hplain,
    hparts, List.prefix_append_right_inj]
  intro hprefix
  have hlast : last = last ++ first := (List.cons_prefix_cons.mp hprefix).1
  exact hfirst (List.self_eq_append_right.mp hlast)

/-- A path below a root, lengthened by an extension, has the same names below every root, or it
leaves every root. -/
theorem lengthened_cases (hnames : ∀ name ∈ names, Plain name) (hext : PlainTail ext) :
    (∃ longer, (∀ name ∈ longer, Plain name) ∧
      ∀ root, IsRoot root → below root names ++ ext = below root longer) ∨
    ∀ root, IsRoot root → ∀ cwd, isWithin cwd root (below root names ++ ext) = false := by
  obtain ⟨first, rest, hsplit, hrest⟩ := hext.exists_cons
  by_cases hempty : names = []
  · subst hempty
    by_cases hfirst : first = []
    · -- the extension is empty or begins with a slash
      subst hfirst
      refine Or.inl ⟨rest, hrest, fun root hroot => ?_⟩
      obtain ⟨front, last, hparts⟩ : ∃ front last, components root = front ++ [last] :=
        ⟨_, _, (List.dropLast_append_getLast hroot.components_ne_nil).symm⟩
      rw [below, List.append_nil, hparts, ofList_joinSlash_append _ _ _ hsplit, below, hparts,
        List.append_nil, List.append_assoc, List.singleton_append]
    · exact Or.inr fun root hroot => outside_of_lengthened hroot hsplit hrest hfirst
  · obtain ⟨front, last, rfl⟩ : ∃ front last, names = front ++ [last] :=
      ⟨_, _, (List.dropLast_append_getLast hempty).symm⟩
    refine Or.inl ⟨front ++ (last ++ first) :: rest, plain_lengthened hnames hsplit hrest,
      fun root _ => ?_⟩
    rw [below, ← List.append_assoc, ofList_joinSlash_append _ _ _ hsplit, below, List.append_assoc]

/-- The index of a directory below a root has the same names below every root. -/
theorem index_below (hnames : ∀ name ∈ names, Plain name) (hext : PlainTail ext) :
    ∃ longer, (∀ name ∈ longer, Plain name) ∧
      ∀ root, IsRoot root → join (below root names) ("index" ++ ext) = below root longer := by
  obtain ⟨first, rest, hsplit, hrest⟩ := hext.exists_cons
  have hindex : ∀ part ∈ [] ++ ["index".toList], Plain part := by decide
  have hlonger := plain_lengthened hindex hsplit hrest
  rw [List.nil_append] at hlonger
  have htext : "index" ++ ext = String.ofList (joinSlash (("index".toList ++ first) :: rest)) := by
    have happend := ofList_joinSlash_append [] [] "index".toList hsplit
    simpa [joinSlash] using happend
  refine ⟨names ++ ("index".toList ++ first) :: rest, fun name hname => ?_, fun root hroot => ?_⟩
  · rcases List.mem_append.mp hname with hname | hname
    · exact hnames name hname
    · exact hlonger name hname
  · rw [htext, join_joinSlash (isNormal_below hroot.rooted hnames) hlonger (by simp),
      below_below hroot.rooted hnames]

/-- The candidates for a place below two roots are alike. -/
theorem alike_candidates {root₁ root₂ : String} (h₁ : IsRoot root₁) (h₂ : IsRoot root₂)
    (hnames : ∀ name ∈ names, Plain name) {extensions : List String}
    (hexts : ∀ ext ∈ extensions, PlainTail ext) :
    List.Forall₂ (Alike root₁ root₂) (candidates (below root₁ names) extensions)
      (candidates (below root₂ names) extensions) := by
  refine .cons (Or.inl ⟨names, hnames, rfl, rfl⟩) (List.rel_append ?_ ?_)
  · rw [List.forall₂_map_left_iff, List.forall₂_map_right_iff, List.forall₂_same]
    intro ext hext
    rcases lengthened_cases hnames (hexts ext hext) with ⟨longer, hlonger, heq⟩ | hout
    · exact Or.inl ⟨longer, hlonger, heq root₁ h₁, heq root₂ h₂⟩
    · exact Or.inr ⟨hout root₁ h₁, hout root₂ h₂⟩
  · rw [List.forall₂_map_left_iff, List.forall₂_map_right_iff, List.forall₂_same]
    intro ext hext
    obtain ⟨longer, hlonger, heq⟩ := index_below hnames (hexts ext hext)
    exact Or.inl ⟨longer, hlonger, heq root₁ h₁, heq root₂ h₂⟩

end Candidates

/-! ## Two runs -/

theorem noSlash_of_mem_append_parts {p q : String} : ∀ part ∈ parts p ++ parts q, '/' ∉ part :=
  fun _ hpart => (List.mem_append.mp hpart).elim noSlash_of_mem_parts noSlash_of_mem_parts

/-- A specifier that stays below the root names the same place below every root. -/
theorem base_below {root file spec : String} (hroot : IsNormal root)
    (hfile : isRooted file = false) (hspec : isRooted spec = false)
    (hstays : staysBelow 0 (parts (directory file) ++ parts spec) = true) :
    base spec (join root file) =
      below root (normalParts true (parts (directory file) ++ parts spec)) := by
  rw [base_eq hroot.rooted hfile hspec, hroot.parts_eq, List.append_assoc,
    normalParts_append (plain_components root) noSlash_of_mem_append_parts hstays, below]

/-- **Where an import leads does not depend on where the root lives.** For two roots with the same
files, a specifier that begins with a point and does not lead above the root, read in the same file
of both, is resolved to the same path, if only plain names follow a slash in an extension. -/
theorem resolution_root_free {d₁ d₂ : Disk} {root₁ root₂ : String} (h₁ : IsRoot root₁)
    (h₂ : IsRoot root₂) (hsame : SameFiles d₁ root₁ d₂ root₂) {file spec : String}
    (hfile : isRooted file = false) (hspec : spec.startsWith "." = true)
    (hstays : staysBelow 0 (parts (directory file) ++ parts spec) = true)
    {extensions : List String} (hexts : ∀ ext ∈ extensions, PlainTail ext) :
    target? d₁ extensions spec (join root₁ file) root₁ =
      target? d₂ extensions spec (join root₂ file) root₂ := by
  have hhead : spec.toList.head? = some '.' := by
    obtain ⟨more, hmore⟩ := String.startsWith_string_iff.mp hspec
    rw [← hmore]
    rfl
  have hrooted := isRooted_of_head? hhead
  have hplain : ∀ part ∈ normalParts true (parts (directory file) ++ parts spec), Plain part :=
    fun part hpart => plain_foldl_push (by simp) noSlash_of_mem_append_parts part
      (List.mem_reverse.mp hpart)
  rw [target?, target?, if_pos (isLocal_of_head? hhead), if_pos (isLocal_of_head? hhead),
    base_below h₁.toIsNormal hfile hrooted hstays, base_below h₂.toIsNormal hfile hrooted hstays]
  exact find?_alike (alike_candidates h₁ h₂ hplain hexts) hsame h₁.toIsNormal h₂.toIsNormal

/-- One project at two places of different depth. -/
def copiedDisk : Disk where
  top := .directory
    [("home", .directory [("p", .directory twoFolders)]), ("q", .directory twoFolders)]
  cwd := "/q"
  rooted := rfl

theorem copiedDisk_sameFiles : SameFiles copiedDisk "/home/p" copiedDisk "/q" :=
  sameFiles_of_tree ⟨by decide, by decide⟩ ⟨by decide, by decide⟩
    (stat_of_directoryAt? (by decide)
      (by decide : copiedDisk.directoryAt? "/home/p" = some ["home", "p"]) rfl)
    (stat_of_directoryAt? (by decide)
      (by decide : copiedDisk.directoryAt? "/q" = some ["q"]) rfl)
    (by decide) (by decide)

/-- An import of the copied project is resolved at both places, through its second extension. -/
theorem copied_import_agrees :
    target? copiedDisk ["/main.js", ".js"] "../lib/b" "/q/src/ui/a.ts" "/q" = some "src/lib/b.js" ∧
      target? copiedDisk ["/main.js", ".js"] "../lib/b" "/home/p/src/ui/a.ts" "/home/p" =
        target? copiedDisk ["/main.js", ".js"] "../lib/b" "/q/src/ui/a.ts" "/q" := by
  have hhome : join "/home/p" "src/ui/a.ts" = "/home/p/src/ui/a.ts" := by decide
  have hq : join "/q" "src/ui/a.ts" = "/q/src/ui/a.ts" := by decide
  have hagree := resolution_root_free ⟨⟨by decide, by decide⟩, by decide, by decide⟩
    ⟨⟨by decide, by decide⟩, by decide, by decide⟩ copiedDisk_sameFiles
    (by decide : isRooted "src/ui/a.ts" = false)
    (by decide +kernel : "../lib/b".startsWith "." = true) (by decide +kernel)
    (by decide : ∀ ext ∈ ["/main.js", ".js"], PlainTail ext)
  rw [hhome, hq] at hagree
  exact ⟨by decide +kernel, hagree⟩

/-- Two roots, each with one file of the same name. -/
def namesakesDisk : Disk where
  top := .directory
    [("r1", .directory [("x", .file [])]), ("r2", .directory [("x", .file [])])]
  cwd := "/r1"
  rooted := rfl

theorem namesakesDisk_sameFiles : SameFiles namesakesDisk "/r1" namesakesDisk "/r2" :=
  sameFiles_of_tree ⟨by decide, by decide⟩ ⟨by decide, by decide⟩
    (stat_of_directoryAt? (by decide)
      (by decide : namesakesDisk.directoryAt? "/r1" = some ["r1"]) rfl)
    (stat_of_directoryAt? (by decide)
      (by decide : namesakesDisk.directoryAt? "/r2" = some ["r2"]) rfl)
    (by decide) (by decide)

/-- An extension that goes up and names a root tells that root from another with the same files. -/
theorem climbing_extension_tells_roots_apart :
    IsRoot "/r1" ∧ IsRoot "/r2" ∧ SameFiles namesakesDisk "/r1" namesakesDisk "/r2" ∧
      staysBelow 0 (parts (directory "x") ++ parts ".") = true ∧
      target? namesakesDisk ["/../r1/x"] "." (join "/r1" "x") "/r1" = some "x" ∧
      target? namesakesDisk ["/../r1/x"] "." (join "/r2" "x") "/r2" = none :=
  ⟨⟨⟨by decide, by decide⟩, by decide, by decide⟩,
    ⟨⟨by decide, by decide⟩, by decide, by decide⟩, namesakesDisk_sameFiles,
    by decide +kernel, by decide +kernel, by decide +kernel⟩

end Resolve

end CodeGraph
