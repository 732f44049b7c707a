import CodeGraph.Proofs.Facts.ScriptTags
import CodeGraph.Proofs.Resolve.FirstMatch

/-!
# The files that the tags of a page name

An address is trimmed and cut to a path (`PathIn`), the path is resolved on its names, and what is
kept are files below the root (`Names`). `fileOf?_eq_some_iff` says that this is what the reading
does with one address; the files of a page are then those of its addresses, in order.

A root may begin with two slashes and may be nothing but slashes. What a page names begins with the
slashes of the page, so all of it can be compared with the root on the names alone.
-/

namespace CodeGraph

namespace ScriptTags

/-! ## The path in an address -/

/-- A text without the whitespace at its ends. -/
structure Trims (text core : List Char) : Prop where
  cut : ∃ before after, text = before ++ core ++ after ∧
    ∀ c ∈ before ++ after, Words.isSpace c = true
  head : ∀ c, core.head? = some c → Words.isSpace c = false
  last : ∀ c, core.getLast? = some c → Words.isSpace c = false

/-- A text up to its first `#` or `?`. -/
structure Cuts (core path : List Char) : Prop where
  cut : ∃ rest, core = path ++ rest ∧ ∀ c, rest.head? = some c → c = '#' ∨ c = '?'
  clear : ∀ c ∈ path, c ≠ '#' ∧ c ≠ '?'

/-- The path in an address that does not lead out of the tree. -/
def PathIn (address path : List Char) : Prop :=
  path ≠ [] ∧ ∃ core, Trims address core ∧
    (∀ start ∈ ["http://", "https://", "//"], ¬ start.toList <+: core) ∧ Cuts core path

theorem trims_strip (text : List Char) : Trims text (Words.strip text) := by
  generalize hxs : text.dropWhile Words.isSpace = xs
  generalize hys : xs.reverse.dropWhile Words.isSpace = ys
  have hstrip : Words.strip text = ys.reverse := by rw [Words.strip, hxs, hys]
  have htext : text = text.takeWhile Words.isSpace ++ xs := by
    rw [← hxs, List.takeWhile_append_dropWhile]
  have hxs_eq : xs = ys.reverse ++ (xs.reverse.takeWhile Words.isSpace).reverse := by
    rw [← List.reverse_append, ← hys, List.takeWhile_append_dropWhile, List.reverse_reverse]
  rw [hstrip]
  refine ⟨⟨text.takeWhile Words.isSpace, (xs.reverse.takeWhile Words.isSpace).reverse, ?_, ?_⟩,
    fun c hc => ?_, fun c hc => ?_⟩
  · rw [List.append_assoc, ← hxs_eq, ← htext]
  · intro c hc
    rcases List.mem_append.mp hc with hc | hc
    · exact List.mem_takeWhile_imp hc
    · exact List.mem_takeWhile_imp (List.mem_reverse.mp hc)
  · have hhead : xs.head? = some c := by rw [hxs_eq, List.head?_append, hc, Option.some_or]
    exact head?_dropWhile (hxs ▸ hhead)
  · rw [List.getLast?_reverse] at hc
    exact head?_dropWhile (hys ▸ hc)

theorem Trims.eq_strip {text core : List Char} (h : Trims text core) :
    core = Words.strip text := by
  obtain ⟨before, after, rfl, hspace⟩ := h.cut
  have hbefore : ∀ c ∈ before, Words.isSpace c = true :=
    fun c hc => hspace c (List.mem_append_left _ hc)
  have hafter : ∀ c ∈ after.reverse, Words.isSpace c = true :=
    fun c hc => hspace c (List.mem_append_right _ (List.mem_reverse.mp hc))
  by_cases hempty : core = []
  · have hall : (before ++ after).dropWhile Words.isSpace = [] :=
      List.dropWhile_eq_nil_iff.mpr hspace
    rw [hempty, List.append_nil, Words.strip, hall]
    rfl
  · have hhead : ∀ c, (core ++ after).head? = some c → Words.isSpace c = false := by
      intro c hc
      rw [List.head?_append_of_ne_nil _ hempty] at hc
      exact h.head c hc
    have hlast : ∀ c, core.reverse.head? = some c → Words.isSpace c = false := by
      intro c hc
      rw [List.head?_reverse] at hc
      exact h.last c hc
    rw [Words.strip, List.append_assoc, dropWhile_stretch hbefore hhead, List.reverse_append,
      dropWhile_stretch hafter hlast, List.reverse_reverse]

/-- The test for the characters of a path. -/
theorem takeWhile_path (core : List Char) :
    (core.takeWhile (· != '#')).takeWhile (· != '?') =
      core.takeWhile (fun c => c != '?' && c != '#') := by
  rw [List.takeWhile_takeWhile]
  simp only [Bool.decide_and, Bool.decide_eq_true]

theorem cuts_iff {core path : List Char} :
    Cuts core path ↔ path = core.takeWhile (fun c => c != '?' && c != '#') := by
  constructor
  · rintro ⟨⟨rest, rfl, hrest⟩, hclear⟩
    refine (takeWhile_stretch (fun c hc => ?_) (fun c hc => ?_)).symm
    · simpa using (hclear c hc).symm
    · rcases hrest c hc with rfl | rfl <;> decide
  · rintro rfl
    refine ⟨⟨core.dropWhile (fun c => c != '?' && c != '#'),
      List.takeWhile_append_dropWhile.symm, fun c hc => ?_⟩, fun c hc => ?_⟩
    · have hend := head?_dropWhile hc
      simp only [Bool.and_eq_false_iff, bne_eq_false_iff_eq] at hend
      exact hend.symm
    · have hinside : c ≠ '?' ∧ c ≠ '#' := by simpa using List.mem_takeWhile_imp hc
      exact hinside.symm

theorem localPath?_eq_some {address : List Char} {path : String} :
    localPath? address = some path ↔
      external.any (fun e => e.toList.isPrefixOf (Words.strip address)) = false ∧
        path.toList ≠ [] ∧ Cuts (Words.strip address) path.toList := by
  rw [localPath?, cuts_iff]
  dsimp only
  rw [takeWhile_path]
  generalize (Words.strip address).takeWhile (fun c => c != '?' && c != '#') = taken
  cases external.any (fun e => e.toList.isPrefixOf (Words.strip address)) with
  | true => simp
  | false =>
    rw [if_neg (by decide)]
    constructor
    · intro h
      split at h
      · cases h
      · rename_i hne
        obtain rfl := Option.some.inj h
        rw [String.toList_ofList]
        exact ⟨rfl, by simpa using hne, rfl⟩
    · rintro ⟨-, hne, rfl⟩
      rw [if_neg (by simpa using hne), String.ofList_toList]

theorem localPath?_eq_some_iff {address : List Char} {path : String} :
    localPath? address = some path ↔ PathIn address path.toList := by
  rw [localPath?_eq_some, PathIn]
  simp only [external, List.any_eq_false, List.isPrefixOf_iff_prefix]
  constructor
  · rintro ⟨hstart, hne, hcut⟩
    exact ⟨hne, _, trims_strip address, hstart, hcut⟩
  · rintro ⟨hne, core, htrims, hstart, hcut⟩
    rw [← htrims.eq_strip]
    exact ⟨hstart, hne, hcut⟩

/-! ## The file that an address names -/

open CodeGraph.Path

/-- The names on the way to where a path leads: from the root if it begins with a slash, from the
page's directory if not. -/
def namesTo (root page : String) (path : List Char) : List (List Char) :=
  normalParts true ((if path.head? = some '/' then splitSlash root.toList
    else (splitSlash page.toList).dropLast) ++ splitSlash path)

theorem plain_namesTo {root page : String} {path : List Char} :
    ∀ name ∈ namesTo root page path, Plain name := by
  intro name hname
  refine plain_foldl_push (by simp) (fun part hpart => ?_) name (List.mem_reverse.mp hname)
  rcases List.mem_append.mp hpart with hpart | hpart
  · split at hpart
    · exact noSlash_of_mem_splitSlash hpart
    · exact noSlash_of_mem_splitSlash (List.mem_of_mem_dropLast hpart)
  · exact noSlash_of_mem_splitSlash hpart

/-- The file below the root that an address on a page names. -/
def Names (d : Disk) (root page : String) (address : List Char) (file : String) : Prop :=
  ∃ path names, PathIn address path ∧ namesTo root page path = components root ++ names ∧
    names ≠ [] ∧ file = String.ofList (joinSlash names) ∧ d.isFile (join root file) = true

/-- The file that one address names, as it is read. -/
def fileOf? (d : Disk) (root page : String) (address : List Char) : Option String :=
  ((localPath? address).map (destination page root)).bind fun place =>
    if Resolve.isMember d root place then some (relative d.cwd root place) else none

theorem scriptFiles_eq (d : Disk) (html page root : String) :
    scriptFiles d html page root = (addresses html.toList).filterMap (fileOf? d root page) := by
  rw [scriptFiles]
  induction addresses html.toList with
  | nil => rfl
  | cons address rest ih =>
    cases hpath : localPath? address with
    | none =>
      have hfile : fileOf? d root page address = none := by rw [fileOf?, hpath]; rfl
      rw [List.filterMap_cons_none hpath, List.filterMap_cons_none hfile, ih]
    | some path =>
      rw [List.filterMap_cons_some hpath, List.map_cons]
      by_cases hmember : Resolve.isMember d root (destination page root path) = true
      · have hfile : fileOf? d root page address =
            some (relative d.cwd root (destination page root path)) := by
          rw [fileOf?, hpath, Option.map_some, Option.bind_some, if_pos hmember]
        rw [List.filter_cons_of_pos hmember, List.map_cons, List.filterMap_cons_some hfile, ih]
      · have hfile : fileOf? d root page address = none := by
          rw [fileOf?, hpath, Option.map_some, Option.bind_some, if_neg hmember]
        rw [List.filter_cons_of_neg hmember, List.filterMap_cons_none hfile, ih]

section Destination

variable {root page : String}

theorem isRooted_dropWhile_slash (path : String) :
    isRooted (String.ofList (path.toList.dropWhile (· == '/'))) = false := by
  rw [← Bool.not_eq_true, isRooted, beq_iff_eq, String.toList_ofList]
  intro hhead
  have hslash := head?_dropWhile hhead
  cases hslash

/-- Before it is normalised, the destination has the slashes of the root and the names that are
read. -/
theorem exists_destination (hroot : isRooted root = true)
    (hpage : leading page.toList = leading root.toList) (path : String) :
    ∃ place, destination page root path = normalize place ∧
      leading place.toList = leading root.toList ∧
      components place = namesTo root page path.toList := by
  have hstarts : path.startsWith "/" = true ↔ path.toList.head? = some '/' := by
    rw [String.startsWith_string_iff, List.head?_eq_some_iff]
    exact ⟨fun ⟨more, h⟩ => ⟨more, h.symm⟩, fun ⟨more, h⟩ => ⟨more, h.symm⟩⟩
  rw [destination, namesTo, ← normalParts_filter, List.filter_append]
  by_cases hslash : path.toList.head? = some '/'
  · refine ⟨_, by rw [if_pos (hstarts.mpr hslash)], ?_, ?_⟩
    · exact leading_join hroot (isRooted_dropWhile_slash path)
    · rw [components_eq, parts_join root (isRooted_dropWhile_slash path), parts_dropWhile_slash,
        if_pos hslash]
      rfl
  · have hrelative : isRooted path = false := by simpa [isRooted] using hslash
    have hdirectory : isRooted (directory page) = true := by
      rw [isRooted_iff_leading, leading_directory, hpage]
      exact (isRooted_iff_leading root).mp hroot
    refine ⟨_, by rw [if_neg (mt hstarts.mp hslash)], ?_, ?_⟩
    · rw [leading_join hdirectory hrelative, leading_directory, hpage]
    · rw [components_eq, parts_join _ hrelative, parts_directory, if_neg hslash]
      rfl

theorem isNormal_destination (hroot : isRooted root = true)
    (hpage : leading page.toList = leading root.toList) (path : String) :
    IsNormal (destination page root path) ∧
      leading (destination page root path).toList = leading root.toList ∧
      components (destination page root path) = namesTo root page path.toList := by
  obtain ⟨place, hplace, hlead, hnames⟩ := exists_destination hroot hpage path
  have hrooted : isRooted place = true := by
    rw [isRooted_iff_leading, hlead]
    exact (isRooted_iff_leading root).mp hroot
  rw [hplace]
  refine ⟨isNormal_normalize hrooted, ?_, ?_⟩
  · rw [normalize_eq_below hrooted, leading_below hrooted (by simp), hlead]
  · rw [components_normalize hrooted, hnames]

/-- A destination is a member of the tree exactly if it is a file with names below the root. -/
theorem isMember_destination_iff {d : Disk} (hroot : IsNormal root)
    (hdir : d.isFile root = false) (hpage : leading page.toList = leading root.toList)
    (path : String) :
    Resolve.isMember d root (destination page root path) = true ↔
      ∃ names, names ≠ [] ∧ (∀ name ∈ names, Plain name) ∧
        namesTo root page path.toList = components root ++ names ∧
        destination page root path = below root names ∧ d.isFile (below root names) = true := by
  obtain ⟨hnormal, hlead, hcomponents⟩ := isNormal_destination hroot.rooted hpage path
  rw [Resolve.isMember, Bool.and_eq_true, isWithin_iff_exists_below d.cwd hroot hnormal hlead]
  constructor
  · rintro ⟨hfile, names, hnames, hbelow⟩
    refine ⟨names, ?_, hnames, ?_, hbelow, hbelow ▸ hfile⟩
    · rintro rfl
      rw [hbelow, hroot.below_nil, hdir] at hfile
      cases hfile
    · rw [← hcomponents, hbelow, components_below hroot.rooted hnames]
  · rintro ⟨names, -, hnames, -, hbelow, hfile⟩
    exact ⟨hbelow ▸ hfile, names, hnames, hbelow⟩

theorem fileOf?_eq_some_iff {d : Disk} (hroot : IsNormal root) (hdir : d.isFile root = false)
    (hpage : leading page.toList = leading root.toList) {address : List Char} {file : String} :
    fileOf? d root page address = some file ↔ Names d root page address file := by
  rw [fileOf?, Option.bind_eq_some_iff]
  constructor
  · rintro ⟨place, hplace, hfile⟩
    obtain ⟨path, hpath, rfl⟩ := Option.map_eq_some_iff.mp hplace
    split at hfile
    · rename_i hmember
      obtain ⟨names, hne, hnames, hto, hbelow, hisFile⟩ :=
        (isMember_destination_iff hroot hdir hpage path).mp hmember
      obtain rfl := Option.some.inj hfile
      refine ⟨path.toList, names, localPath?_eq_some_iff.mp hpath, hto, hne, ?_, ?_⟩
      · rw [hbelow, relative_below d.cwd hroot hnames, if_neg hne]
      · rwa [hbelow, relative_below d.cwd hroot hnames, if_neg hne,
          join_joinSlash hroot hnames hne]
    · cases hfile
  · rintro ⟨path, names, hpath, hto, hne, rfl, hisFile⟩
    rw [← String.toList_ofList (l := path)] at hpath hto
    obtain ⟨hnormal, hlead, hcomponents⟩ :=
      isNormal_destination hroot.rooted hpage (String.ofList path)
    have hnames : ∀ name ∈ names, Plain name :=
      fun name hname => plain_namesTo name (hto ▸ List.mem_append_right _ hname)
    have hbelow : destination page root (String.ofList path) = below root names := by
      rw [← hnormal.below_nil, below, below, hlead, hcomponents, hto, List.append_nil]
    rw [join_joinSlash hroot hnames hne] at hisFile
    refine ⟨_, by rw [localPath?_eq_some_iff.mpr hpath]; rfl, ?_⟩
    rw [if_pos ((isMember_destination_iff hroot hdir hpage _).mpr
      ⟨names, hne, hnames, hto, hbelow, hisFile⟩), hbelow, relative_below d.cwd hroot hnames,
      if_neg hne]

/-- The path of a named file consists of plain names. -/
theorem Names.plain {d : Disk} {address : List Char} {file : String}
    (h : Names d root page address file) : ∀ part ∈ splitSlash file.toList, Plain part := by
  obtain ⟨path, names, -, hto, hne, rfl, -⟩ := h
  have hnames : ∀ name ∈ names, Plain name :=
    fun name hname => plain_namesTo name (hto ▸ List.mem_append_right _ hname)
  rw [String.toList_ofList,
    splitSlash_joinSlash hne (fun name hname => (hnames name hname).noSlash)]
  exact hnames

end Destination

/-- **The files of a page are those that the addresses of its tags name, in order.** Each address
names at most one file, below the root, and no step of its path leads up. -/
theorem files_named_by_tags (d : Disk) {root page : String} (hroot : IsNormal root)
    (hdir : d.isFile root = false) (hpage : leading page.toList = leading root.toList)
    (p : Page) :
    ∃ file? : List Char → Option String,
      (∀ address file, file? address = some file ↔ Names d root page address file) ∧
      scriptFiles d (String.ofList p.text) page root = p.addresses.filterMap file? ∧
      ∀ file ∈ scriptFiles d (String.ofList p.text) page root,
        up ∉ splitSlash file.toList := by
  have hfiles : scriptFiles d (String.ofList p.text) page root =
      p.addresses.filterMap (fileOf? d root page) := by
    rw [scriptFiles_eq, String.toList_ofList, addresses_text]
  refine ⟨fileOf? d root page, fun address file => fileOf?_eq_some_iff hroot hdir hpage, hfiles,
    fun file hfile hup => ?_⟩
  rw [hfiles, List.mem_filterMap] at hfile
  obtain ⟨address, -, hnamed⟩ := hfile
  exact (((fileOf?_eq_some_iff hroot hdir hpage).mp hnamed).plain up hup).ne_up rfl

/-- A tag in capital letters, with an address from the root. -/
def sharedTag : Tag where
  start := "<SCRIPT".toList
  before := " ".toList
  label := "SRC=".toList
  quote := '\''
  address := "/shared/lib.js".toList
  after := []
  spells_start := by decide
  spells_label := by decide
  quote_mem := by decide
  before_ne_nil := by decide
  address_ne_nil := by decide
  noQuote := by decide
  noClose := by decide
  noLabel := by decide

/-- A tag with another attribute and a query. -/
def moduleTag : Tag where
  start := "<script".toList
  before := " type=\"module\" ".toList
  label := "src=".toList
  quote := '"'
  address := " ../web/app.js?v=2".toList
  after := " async".toList
  spells_start := by decide
  spells_label := by decide
  quote_mem := by decide
  before_ne_nil := by decide
  address_ne_nil := by decide
  noQuote := by decide
  noClose := by decide
  noLabel := by decide

/-- A page with both tags, one of them twice. -/
def twoTagsPage : Page where
  lead := "<p>".toList
  tags := [(moduleTag, "</script>\n".toList), (sharedTag, "</SCRIPT>".toList), (moduleTag, [])]
  clear := by decide

/-- A disk with the two files that the tags name. -/
def webDisk : Disk where
  top := .directory [("h", .directory
    [("shared", .directory [("lib.js", .file [])]), ("web", .directory [("app.js", .file [])])])]
  cwd := "/h"
  rooted := rfl

/-- Both tags of the page name files, and the one that stands there twice is listed twice. -/
theorem twoTagsPage_files :
    IsNormal "/h" ∧ webDisk.isFile "/h" = false ∧
      leading "/h/web/index.html".toList = leading "/h".toList ∧
      scriptFiles webDisk (String.ofList twoTagsPage.text) "/h/web/index.html" "/h" =
        ["web/app.js", "shared/lib.js", "web/app.js"] := by
  have hroot : IsNormal "/h" := ⟨by decide, by decide⟩
  have hdir : webDisk.isFile "/h" = false := by decide
  have hpage : leading "/h/web/index.html".toList = leading "/h".toList := by decide
  have hmodule : Names webDisk "/h" "/h/web/index.html" moduleTag.address "web/app.js" :=
    ⟨"../web/app.js".toList, ["web".toList, "app.js".toList],
      localPath?_eq_some_iff.mp (by decide), by decide, by decide,
      by decide, by decide⟩
  have hshared : Names webDisk "/h" "/h/web/index.html" sharedTag.address "shared/lib.js" :=
    ⟨"/shared/lib.js".toList, ["shared".toList, "lib.js".toList],
      localPath?_eq_some_iff.mp (by decide), by decide, by decide,
      by decide, by decide⟩
  obtain ⟨file?, hnamed, hfiles, -⟩ :=
    files_named_by_tags webDisk hroot hdir hpage twoTagsPage
  have htags : twoTagsPage.addresses =
      [moduleTag.address, sharedTag.address, moduleTag.address] := rfl
  refine ⟨hroot, hdir, hpage, ?_⟩
  rw [hfiles, htags, List.filterMap_cons_some ((hnamed _ _).mpr hmodule),
    List.filterMap_cons_some ((hnamed _ _).mpr hshared),
    List.filterMap_cons_some ((hnamed _ _).mpr hmodule), List.filterMap_nil]

end ScriptTags

end CodeGraph
