import CodeGraph.Proofs.Resolve.RootFree

/-!
# An import leads to the first candidate that is a file under the root

Whether a candidate is taken is decided on texts: it is normalised, compared with the root, and
what comes after the root is the answer. If extensions have no slashes, nearly every candidate is
normal as it stands; the others come to nothing but slashes (`isTidy_of_mem_candidates`). So a
candidate is taken exactly if it is a file and its text is the root, a slash and plain names
(`isMember_iff`), and the answer is these names (`relative_address`).

A path with two slashes in front is not under a root with one, whatever file it leads to.
-/

namespace CodeGraph

namespace Path

/-! ## Tidy paths -/

/-- Normalising leaves the path as it is, or leaves nothing but slashes. -/
structure IsTidy (p : String) : Prop where
  rooted : isRooted p = true
  normal : normalize p = p ∨ components p = []

theorem IsNormal.isTidy {p : String} (h : IsNormal p) : IsTidy p :=
  ⟨h.rooted, Or.inl h.normal⟩

theorem normalize_eq_below {p : String} (h : isRooted p = true) : normalize p = below p [] := by
  rw [normalize_of_isRooted h, below, List.append_nil]

theorem isNormal_normalize {p : String} (h : isRooted p = true) : IsNormal (normalize p) := by
  rw [normalize_eq_below h]
  exact isNormal_below h (by simp)

theorem components_normalize {p : String} (h : isRooted p = true) :
    components (normalize p) = components p := by
  rw [normalize_eq_below h, components_below h (by simp), List.append_nil]

theorem isRooted_directory {p : String} (h : isRooted p = true) :
    isRooted (directory p) = true := by
  rw [isRooted_iff_leading, leading_directory]
  exact (isRooted_iff_leading p).mp h

theorem isRooted_append {p : String} (h : isRooted p = true) (more : String) :
    isRooted (p ++ more) = true := by
  obtain ⟨cs, hcs⟩ := List.head?_eq_some_iff.mp (beq_iff_eq.mp h)
  rw [isRooted, String.toList_append, hcs]
  rfl

/-- Plain names behind the slashes of a path from the top make a normal path. -/
theorem isNormal_ofList {p : String} (hp : isRooted p = true) {names : List (List Char)}
    (hnames : ∀ name ∈ names, Plain name) :
    IsNormal (String.ofList (leading p.toList ++ joinSlash names)) := by
  rcases leading_cases hp with hlead | hlead
  · rw [hlead]
    exact isNormal_below (by decide : isRooted "/" = true) hnames
  · rw [hlead]
    exact isNormal_below (by decide : isRooted "//" = true) hnames

/-- A path that ends in a name stays normal when the name is lengthened. -/
theorem IsNormal.append {p ext : String} (h : IsNormal p) (hne : components p ≠ [])
    (hext : '/' ∉ ext.toList) : IsNormal (p ++ ext) := by
  obtain ⟨front, last, hparts⟩ : ∃ front last, components p = front ++ [last] :=
    ⟨_, _, (List.dropLast_append_getLast hne).symm⟩
  have hplain := Resolve.plain_lengthened (hparts ▸ plain_components p)
    (splitSlash_of_noSlash hext) (by simp)
  have hpath : p ++ ext = String.ofList (leading p.toList ++
      joinSlash (front ++ [last ++ ext.toList])) := by
    rw [← Resolve.ofList_joinSlash_append _ _ _ (splitSlash_of_noSlash hext), ← hparts,
      ← normalize_of_isRooted h.rooted, h.normal]
  rw [hpath]
  exact isNormal_ofList h.rooted hplain

/-- After nothing but slashes comes a name, or something that leads nowhere. -/
theorem IsNormal.isTidy_append_of_top {p ext : String} (h : IsNormal p)
    (htop : components p = []) (hext : '/' ∉ ext.toList) : IsTidy (p ++ ext) := by
  have hpath : p ++ ext = String.ofList (leading p.toList ++ joinSlash [ext.toList]) := by
    have hp := h.toList_eq
    rw [htop, joinSlash, List.append_nil] at hp
    rw [← String.toList_inj, String.toList_append, String.toList_ofList, ← hp, joinSlash]
  by_cases hplain : Plain ext.toList
  · rw [hpath]
    exact (isNormal_ofList h.rooted (by simpa using hplain)).isTidy
  · refine ⟨isRooted_append h.rooted ext, Or.inr ?_⟩
    have hcases : ext.toList = [] ∨ ext.toList = here ∨ ext.toList = up := by
      by_contra hnone
      rw [not_or, not_or] at hnone
      exact hplain ⟨hnone.1, hnone.2.1, hnone.2.2, hext⟩
    rw [hpath]
    rcases leading_cases h.rooted with hlead | hlead <;>
      rcases hcases with hcase | hcase | hcase <;> rw [hlead, hcase] <;> decide

theorem IsNormal.isTidy_append {p ext : String} (h : IsNormal p) (hext : '/' ∉ ext.toList) :
    IsTidy (p ++ ext) := by
  by_cases htop : components p = []
  · exact h.isTidy_append_of_top htop hext
  · exact (h.append htop hext).isTidy

theorem IsNormal.join_index {p ext : String} (h : IsNormal p) (hext : '/' ∉ ext.toList) :
    IsNormal (join p ("index" ++ ext)) := by
  have hindex : Plain "index".toList := by decide
  have hplain : ∀ name ∈ ["index".toList ++ ext.toList], Plain name := by
    simpa using hindex.append hext
  have htext : "index" ++ ext = String.ofList (joinSlash ["index".toList ++ ext.toList]) := by
    rw [joinSlash, ← String.toList_append, String.ofList_toList]
  rw [htext, join_joinSlash h hplain (by simp)]
  exact isNormal_below h.rooted hplain

end Path

namespace Resolve

open CodeGraph.Path

/-! ## Places under a root -/

/-- After the root come a slash and the names of a place below it. -/
def Under (root p : String) : Prop :=
  ∃ a : Address, p = root ++ "/" ++ a.text

section Under

variable {root p : String}

theorem below_address (hroot : IsRoot root) (a : Address) :
    below root a.parts = root ++ "/" ++ a.text := by
  have hne : a.parts ≠ [] := by simpa [Address.parts] using a.ne_nil
  rw [← String.toList_inj, hroot.toList_below hroot.components_ne_nil hne, Address.text,
    routeText_eq]
  simp [Address.parts]

theorem exists_address {names : List (List Char)} (hnames : ∀ name ∈ names, Plain name)
    (hne : names ≠ []) : ∃ a : Address, a.parts = names := by
  refine ⟨⟨names.map String.ofList, by simpa using hne, by simpa using hnames⟩, ?_⟩
  simp [Address.parts, Function.comp_def]

/-- The texts of addresses are the paths that are neither empty nor from the top and consist of
plain names. -/
theorem exists_address_iff {r : String} :
    (∃ a : Address, a.text = r) ↔
      r ≠ "" ∧ isRooted r = false ∧ ∀ part ∈ splitSlash r.toList, Plain part := by
  constructor
  · rintro ⟨a, rfl⟩
    have hplain : ∀ part ∈ splitSlash a.text.toList, Plain part := by
      rw [a.splitSlash_text]
      exact a.plain_parts
    refine ⟨fun hempty => ?_, a.isRooted_text, hplain⟩
    rw [hempty] at hplain
    exact (hplain [] (List.mem_singleton_self _)).ne_nil rfl
  · rintro ⟨-, -, hplain⟩
    obtain ⟨a, ha⟩ := exists_address hplain (splitSlash_ne_nil r.toList)
    refine ⟨a, String.toList_inj.mp ?_⟩
    rw [← joinSlash_splitSlash a.text.toList, a.splitSlash_text, ha, joinSlash_splitSlash]

/-- The way from a root to a place under it is the text of its address. -/
theorem relative_address (cwd : String) (hroot : IsRoot root) (a : Address) :
    relative cwd root (root ++ "/" ++ a.text) = a.text := by
  have hne : a.parts ≠ [] := by simpa [Address.parts] using a.ne_nil
  rw [← below_address hroot a, relative_below cwd hroot.toIsNormal a.plain_parts, if_neg hne,
    Address.text, routeText_eq]
  rfl

/-- A path that lies within a root begins with the root, so it has one slash in front. -/
theorem leading_of_isWithin (hroot : IsRoot root) (hp : IsNormal p) {cwd : String}
    (h : isWithin cwd root p = true) : leading p.toList = ['/'] := by
  rw [isWithin, hroot.absolute_eq, hp.absolute_eq, trimSlashes_of_getLast?
    (hroot.getLast?_ne_slash hroot.components_ne_nil), Bool.or_eq_true, beq_iff_eq,
    List.isPrefixOf_iff_prefix] at h
  obtain ⟨more, hmore⟩ : root.toList <+: p.toList := by
    rcases h with heq | hprefix
    · exact heq ▸ List.prefix_rfl
    · exact (List.prefix_append _ _).trans hprefix
  have hother : ∃ c ∈ root.toList, c ≠ '/' := by
    by_contra hslashes
    refine hroot.getLast?_ne_slash hroot.components_ne_nil ?_
    rw [exists_replicate_of_all_slash hslashes, List.getLast?_replicate, hroot.toList_eq,
      hroot.oneSlash]
    simp
  rw [← hmore, leading_append hother, hroot.oneSlash]

/-- What lies within a root is some names below it. -/
theorem exists_below_of_isWithin (hroot : IsRoot root) (hp : isRooted p = true) {cwd : String}
    (h : isWithin cwd root p = true) :
    ∃ names, (∀ name ∈ names, Plain name) ∧ normalize p = below root names := by
  have hnormal := isNormal_normalize hp
  have hwithin : isWithin cwd root (normalize p) = true := by
    rwa [isWithin, hnormal.absolute_eq, ← join_of_isRooted cwd hp]
  have hlead := leading_of_isWithin hroot hnormal hwithin
  obtain ⟨names, hnames⟩ := (isWithin_iff cwd hroot.oneSlash hlead).mp hwithin
  refine ⟨names, fun name hname => ?_, ?_⟩
  · exact plain_components (normalize p) name (hnames ▸ List.mem_append_right _ hname)
  · rw [← hnormal.below_nil, below, hlead, List.append_nil, ← hnames, below, hroot.oneSlash]

/-- A tidy path is taken exactly if it is a file under the root. -/
theorem isMember_iff {d : Disk} (hroot : IsRoot root) (hdir : d.isFile root = false)
    (hp : IsTidy p) : isMember d root p = true ↔ d.isFile p = true ∧ Under root p := by
  rw [isMember, Bool.and_eq_true]
  refine and_congr_right (fun hfile => ⟨fun hwithin => ?_, ?_⟩)
  · obtain ⟨names, hnames, hbelow⟩ := exists_below_of_isWithin hroot hp.rooted hwithin
    rcases hp.normal with hnormal | htop
    · rw [hnormal] at hbelow
      have hne : names ≠ [] := by
        rintro rfl
        rw [hbelow, hroot.below_nil, hdir] at hfile
        cases hfile
      obtain ⟨a, rfl⟩ := exists_address hnames hne
      exact ⟨a, hbelow.trans (below_address hroot a)⟩
    · -- the root has a name, and nothing but slashes has none
      have hcomponents := components_normalize hp.rooted
      rw [hbelow, components_below hroot.rooted hnames, htop] at hcomponents
      exact absurd (List.append_eq_nil_iff.mp hcomponents).1 hroot.components_ne_nil
  · rintro ⟨a, rfl⟩
    rw [← below_address hroot a]
    exact isWithin_below _ hroot.toIsNormal a.plain_parts

end Under

/-! ## Candidates -/

theorem isNormal_base {fromFile : String} (h : isRooted fromFile = true) (spec : String) :
    IsNormal (base spec fromFile) :=
  isNormal_normalize (isRooted_join (isRooted_directory h) spec)

theorem isTidy_of_mem_candidates {base : String} (hbase : IsNormal base)
    {extensions : List String} (hexts : ∀ ext ∈ extensions, '/' ∉ ext.toList) {p : String}
    (hp : p ∈ candidates base extensions) : IsTidy p := by
  rcases List.mem_cons.mp hp with rfl | hp
  · exact hbase.isTidy
  · rcases List.mem_append.mp hp with hp | hp
    · obtain ⟨ext, hext, rfl⟩ := List.mem_map.mp hp
      exact hbase.isTidy_append (hexts ext hext)
    · obtain ⟨ext, hext, rfl⟩ := List.mem_map.mp hp
      exact (hbase.join_index (hexts ext hext)).isTidy

/-- If paths are taken exactly if they are files under the root, a search through them gives the
address of the first such file. -/
theorem find?_eq_some_iff_first {d : Disk} {root : String} (hroot : IsRoot root)
    {paths : List String}
    (hpaths : ∀ p ∈ paths, isMember d root p = true ↔ d.isFile p = true ∧ Under root p)
    (r : String) :
    (paths.find? (isMember d root)).map (relative d.cwd root) = some r ↔
      (∃ a : Address, a.text = r) ∧ d.isFile (root ++ "/" ++ r) = true ∧
        ∃ before after, paths = before ++ (root ++ "/" ++ r) :: after ∧
          ∀ p ∈ before, ¬ (d.isFile p = true ∧ Under root p) := by
  rw [Option.map_eq_some_iff]
  constructor
  · rintro ⟨p, hfound, rfl⟩
    obtain ⟨hp, before, after, hsplit, hbefore⟩ := List.find?_eq_some_iff_append.mp hfound
    obtain ⟨hfile, a, rfl⟩ := (hpaths p (hsplit ▸ by simp)).mp hp
    rw [relative_address _ hroot]
    refine ⟨⟨a, rfl⟩, hfile, before, after, hsplit, fun q hq => ?_⟩
    rw [← hpaths q (hsplit ▸ List.mem_append_left _ hq)]
    simpa using hbefore q hq
  · rintro ⟨⟨a, rfl⟩, hfile, before, after, hsplit, hbefore⟩
    refine ⟨root ++ "/" ++ a.text, ?_, relative_address _ hroot a⟩
    refine List.find?_eq_some_iff_append.mpr ⟨?_, before, after, hsplit, fun q hq => ?_⟩
    · exact (hpaths _ (hsplit ▸ by simp)).mpr ⟨hfile, a, rfl⟩
    · have hnot := hbefore q hq
      rw [← hpaths q (hsplit ▸ List.mem_append_left _ hq)] at hnot
      simpa using hnot

/-- **An import leads to the first candidate that is a file under the root.** The candidates are the
place that the specifier names, then that place with each extension, then its index with each
extension. A specifier that begins with neither a point nor a slash leads nowhere. -/
theorem target_is_first_file_under_root (d : Disk) {root fromFile : String}
    {extensions : List String} (hroot : IsRoot root) (hdir : d.isFile root = false)
    (hfrom : isRooted fromFile = true) (hexts : ∀ ext ∈ extensions, '/' ∉ ext.toList)
    (spec : String) :
    let place := normalize (join (directory fromFile) spec)
    let paths := place :: (extensions.map (fun ext => place ++ ext) ++
      extensions.map (fun ext => join place ("index" ++ ext)))
    (spec.toList.head? ≠ some '.' ∧ spec.toList.head? ≠ some '/' →
      target? d extensions spec fromFile root = none) ∧
    (spec.toList.head? = some '.' ∨ spec.toList.head? = some '/' →
      (∀ r, target? d extensions spec fromFile root = some r ↔
        (r ≠ "" ∧ isRooted r = false ∧ ∀ part ∈ splitSlash r.toList, Plain part) ∧
        d.isFile (root ++ "/" ++ r) = true ∧
        ∃ before after, paths = before ++ (root ++ "/" ++ r) :: after ∧
          ∀ p ∈ before, ¬ (d.isFile p = true ∧ Under root p)) ∧
      (target? d extensions spec fromFile root = none ↔
        ∀ p ∈ paths, ¬ (d.isFile p = true ∧ Under root p))) := by
  intro place paths
  have hpaths : ∀ p ∈ paths, isMember d root p = true ↔ d.isFile p = true ∧ Under root p :=
    fun p hp => isMember_iff hroot hdir
      (isTidy_of_mem_candidates (isNormal_base hfrom spec) hexts hp)
  refine ⟨fun hpackage => ?_, fun hlocal => ?_⟩
  · rw [← not_or, ← isLocal_iff] at hpackage
    rw [target?, if_neg hpackage]
  · have htarget : target? d extensions spec fromFile root =
        (paths.find? (isMember d root)).map (relative d.cwd root) := by
      rw [target?, if_pos ((isLocal_iff spec).mpr hlocal)]
      rfl
    refine ⟨fun r => ?_, ?_⟩
    · rw [htarget, find?_eq_some_iff_first hroot hpaths, exists_address_iff]
    · rw [htarget, Option.map_eq_none_iff, List.find?_eq_none]
      exact forall₂_congr (fun p hp => not_congr (hpaths p hp))

/-- A file without its extension is found by the second extension that is tried. -/
theorem extension_tried_second :
    IsRoot "/p" ∧ twoFoldersDisk.isFile "/p" = false ∧
      target? twoFoldersDisk [".ts", ".js"] "../lib/b" "/p/src/ui/a.ts" "/p" =
        some "src/lib/b.js" ∧
      twoFoldersDisk.isFile "/p/src/lib/b.js" = true := by
  have hroot : IsRoot "/p" := ⟨⟨by decide, by decide⟩, by decide, by decide⟩
  have hdir : twoFoldersDisk.isFile "/p" = false := by decide
  have hfound : target? twoFoldersDisk [".ts", ".js"] "../lib/b" "/p/src/ui/a.ts" "/p" =
      some "src/lib/b.js" := by decide +kernel
  have hfirst := target_is_first_file_under_root twoFoldersDisk hroot hdir
    (by decide : isRooted "/p/src/ui/a.ts" = true)
    (by decide : ∀ ext ∈ [".ts", ".js"], '/' ∉ ext.toList) "../lib/b"
  have hfile := (((hfirst.2 (by decide)).1 "src/lib/b.js").mp hfound).2.1
  have hpath : "/p" ++ "/" ++ "src/lib/b.js" = "/p/src/lib/b.js" := by decide
  exact ⟨hroot, hdir, hfound, hpath ▸ hfile⟩

end Resolve

end CodeGraph
