import CodeGraph.Proofs.Disk.RealPath
import CodeGraph.Proofs.Path.Composed
import CodeGraph.Proofs.Table
import CodeGraph.Scan
import Mathlib.Data.List.Sort

/-!
# What is listed below a directory

`Listed` says which routes a listing has: those of entries that count as files, reached through
directories that are not skipped and whose paths are not too long. `mem_filesBelow_cons` says what
one directory adds to a listing, and by induction on the route a listing has exactly these
(`mem_filesBelow`), so a scan has their texts (`mem_scan`). `listed_iff` says the same of the whole
way at once.

Below a directory without links a path leads where its names say, so a file found by its path is a
file of the tree at these names (`at?_of_isFile`).
-/

namespace CodeGraph

/-! ## Trees -/

namespace Entry

theorem at?_append (e : Entry) (route rest : Route) :
    e.at? (route ++ rest) = (e.at? route).bind (fun below => below.at? rest) := by
  induction route generalizing e with
  | nil => cases e <;> rfl
  | cons name route ih =>
    cases e with
    | directory entries =>
      rw [List.cons_append, at?, at?]
      cases find? entries name with
      | none => rfl
      | some below => exact ih below
    | file | link => rfl

theorem mem_of_find? {entries : List (String × Entry)} {name : String} {e : Entry}
    (h : find? entries name = some e) : (name, e) ∈ entries := by
  obtain ⟨found, hfound, rfl⟩ := Option.map_eq_some_iff.mp h
  have hname : found.1 = name := by simpa using List.find?_some hfound
  exact hname ▸ List.mem_of_find?_eq_some hfound

mutual

/-- All names in a tree. -/
def allNames : Entry → List String
  | file _ => []
  | link _ => []
  | directory entries => allNamesIn entries

/-- All names in a list of entries. -/
def allNamesIn : List (String × Entry) → List String
  | [] => []
  | (name, e) :: rest => name :: (allNames e ++ allNamesIn rest)

end

theorem mem_allNamesIn {entries : List (String × Entry)} {name : String} {e : Entry}
    (h : (name, e) ∈ entries) :
    name ∈ allNamesIn entries ∧ allNames e ⊆ allNamesIn entries := by
  induction entries with
  | nil => exact absurd h List.not_mem_nil
  | cons entry rest ih =>
    obtain ⟨first, other⟩ := entry
    rw [allNamesIn]
    rcases List.mem_cons.mp h with heq | h
    · cases heq
      exact ⟨List.mem_cons_self, fun x hx =>
        List.mem_cons_of_mem _ (List.mem_append_left _ hx)⟩
    · obtain ⟨hname, hbelow⟩ := ih h
      exact ⟨List.mem_cons_of_mem _ (List.mem_append_right _ hname), fun x hx =>
        List.mem_cons_of_mem _ (List.mem_append_right _ (hbelow hx))⟩

theorem not_link_of_countLinks {e : Entry} (h : Disk.countLinks e = 0) (route : Route)
    (target : String) : e.at? route ≠ some (link target) := by
  intro hlink
  have hmem : route.reverse ++ [] ∈ Disk.linkRoutes [] e := Disk.mem_linkRoutes hlink
  have hlength := Disk.length_linkRoutes [] e
  rw [h] at hlength
  exact absurd hmem (List.length_eq_zero_iff.mp hlength ▸ List.not_mem_nil)

theorem at?_cons_eq_some {e found : Entry} {name : String} {rest : Route} :
    e.at? (name :: rest) = some found ↔
      ∃ entries below, e = directory entries ∧ find? entries name = some below ∧
        below.at? rest = some found := by
  cases e with
  | directory entries =>
    rw [at?]
    cases hfind : find? entries name <;> simp [hfind]
  | file | link => simp [at?]

/-- What is reached from an entry by names, each of them in the directory of those before it. -/
inductive Reaches : Entry → Route → Entry → Prop
  | here {e} : Reaches e [] e
  | step {entries name below rest found} : (name, below) ∈ entries → Reaches below rest found →
      Reaches (directory entries) (name :: rest) found

theorem reaches_of_at? {e found : Entry} {route : Route} (h : e.at? route = some found) :
    e.Reaches route found := by
  induction route generalizing e with
  | nil =>
    cases h
    exact .here
  | cons name rest ih =>
    obtain ⟨entries, below, rfl, hfind, hrest⟩ := at?_cons_eq_some.mp h
    exact .step (mem_of_find? hfind) (ih hrest)

/-- What is on the way to an entry is a directory that is reached too. -/
theorem Reaches.above {e found : Entry} {above rest : Route} (h : e.Reaches (above ++ rest) found)
    (hrest : rest ≠ []) : ∃ inner, e.Reaches above (directory inner) := by
  induction above generalizing e with
  | nil =>
    cases h with
    | here => exact absurd rfl hrest
    | step => exact ⟨_, .here⟩
  | cons folder above ih =>
    cases h with
    | step hmem hbelow =>
      obtain ⟨inner, hinner⟩ := ih hbelow
      exact ⟨inner, .step hmem hinner⟩

theorem Reaches.names {e found : Entry} {route : Route} (h : e.Reaches route found) :
    ∀ name ∈ route, name ∈ e.allNames := by
  induction h with
  | here => exact fun name hname => absurd hname List.not_mem_nil
  | step hmem _ ih =>
    obtain ⟨hfirst, hbelow⟩ := mem_allNamesIn hmem
    intro x hx
    rw [allNames]
    rcases List.mem_cons.mp hx with rfl | hx
    · exact hfirst
    · exact hbelow (ih x hx)

theorem mem_allNames_of_at? {e found : Entry} {route : Route} (h : e.at? route = some found) :
    ∀ name ∈ route, name ∈ e.allNames :=
  (reaches_of_at? h).names

theorem allNames_subset_of_at? {e found : Entry} {route : Route} (h : e.at? route = some found) :
    found.allNames ⊆ e.allNames := by
  induction route generalizing e with
  | nil =>
    cases h
    exact List.Subset.refl _
  | cons first rest ih =>
    obtain ⟨entries, below, rfl, hfind, hrest⟩ := at?_cons_eq_some.mp h
    rw [allNames]
    exact List.Subset.trans (ih hrest) (mem_allNamesIn (mem_of_find? hfind)).2

/-- A tree without links, all names in it being plain. -/
structure Ordinary (e : Entry) : Prop where
  plain : ∀ name ∈ e.allNames, Path.Plain name.toList
  noLinks : Disk.countLinks e = 0

end Entry

namespace Disk

/-! ## Listings -/

/-- Does an entry of a directory count as a file? Links do, unless they lead to a directory. -/
def countsAsFile (d : Disk) (path name : String) : Entry → Bool
  | .file _ => true
  | .link _ => !d.isDirectory (Path.join path name)
  | .directory _ => false

/-- The routes that a listing of a directory has: of entries that count as files, reached through
directories that are not skipped. Each directory on the way has a path that is not too long. -/
inductive Listed (d : Disk) (skip : List String) : String → Entry → Route → Prop
  | here {path entries name e} : path.utf8ByteSize ≤ longestPath → (name, e) ∈ entries →
      d.countsAsFile path name e = true → Listed d skip path (.directory entries) [name]
  | inside {path entries name inner rest} : path.utf8ByteSize ≤ longestPath →
      (name, .directory inner) ∈ entries → name ∉ skip →
      Listed d skip (Path.join path name) (.directory inner) rest →
      Listed d skip path (.directory entries) (name :: rest)

variable {d : Disk} {skip : List String} {path : String} {route : Route} {e : Entry}
  {name : String} {entries : List (String × Entry)}

/-- What one entry of a directory adds to a listing. -/
def filesOf (d : Disk) (skip : List String) (path : String) : String × Entry → List Route
  | (name, .directory inner) =>
    if skip.contains name then []
    else (d.filesBelow skip (Path.join path name) (.directory inner)).map (name :: ·)
  | (name, .file _) => [[name]]
  | (name, .link _) => if d.isDirectory (Path.join path name) then [] else [[name]]

theorem filesAmong_eq (d : Disk) (skip : List String) (path : String)
    (entries : List (String × Entry)) :
    d.filesAmong skip path entries = entries.flatMap (d.filesOf skip path) := by
  induction entries with
  | nil => simp [filesAmong]
  | cons entry rest ih =>
    obtain ⟨name, e⟩ := entry
    rw [List.flatMap_cons, ← ih]
    cases e <;> rw [filesAmong, filesOf]
    rfl

/-- What one directory adds to a listing: its own files, and what is listed below it. -/
theorem mem_filesBelow_cons {rest : Route} :
    name :: rest ∈ d.filesBelow skip path (.directory entries) ↔
      path.utf8ByteSize ≤ longestPath ∧
        ((∃ e, (name, e) ∈ entries ∧ d.countsAsFile path name e = true ∧ rest = []) ∨
        ∃ inner, (name, .directory inner) ∈ entries ∧ name ∉ skip ∧
          rest ∈ d.filesBelow skip (Path.join path name) (.directory inner)) := by
  rw [filesBelow, filesAmong_eq]
  by_cases hsize : longestPath < path.utf8ByteSize
  · rw [if_pos hsize]
    exact iff_of_false List.not_mem_nil (fun h => Nat.not_lt.mpr h.1 hsize)
  rw [if_neg hsize, List.mem_flatMap, and_iff_right (Nat.not_lt.mp hsize)]
  constructor
  · rintro ⟨⟨name', e⟩, hmem, hadds⟩
    cases e with
    | directory inner =>
      rw [filesOf] at hadds
      split at hadds
      · exact absurd hadds List.not_mem_nil
      · rename_i hskip
        obtain ⟨rest', hrest, heq⟩ := List.mem_map.mp hadds
        obtain ⟨rfl, rfl⟩ := List.cons.inj heq
        exact Or.inr ⟨inner, hmem, by simpa using hskip, hrest⟩
    | file data =>
      obtain ⟨rfl, rfl⟩ := List.cons.inj (List.mem_singleton.mp hadds)
      exact Or.inl ⟨_, hmem, rfl, rfl⟩
    | link target =>
      rw [filesOf] at hadds
      split at hadds
      · exact absurd hadds List.not_mem_nil
      · rename_i hlink
        obtain ⟨rfl, rfl⟩ := List.cons.inj (List.mem_singleton.mp hadds)
        exact Or.inl ⟨_, hmem, by simpa [countsAsFile] using hlink, rfl⟩
  · rintro (⟨e, hmem, hfile, rfl⟩ | ⟨inner, hmem, hskip, hrest⟩)
    · refine ⟨(name, e), hmem, ?_⟩
      cases e with
      | directory inner => cases hfile
      | file data => exact List.mem_singleton.mpr rfl
      | link target =>
        rw [filesOf, if_neg (by simpa [countsAsFile] using hfile)]
        exact List.mem_singleton.mpr rfl
    · refine ⟨(name, .directory inner), hmem, ?_⟩
      rw [filesOf, if_neg (by simpa using hskip)]
      exact List.mem_map.mpr ⟨rest, hrest, rfl⟩

theorem nil_not_mem_filesBelow : [] ∉ d.filesBelow skip path e := by
  cases e with
  | directory entries =>
    rw [filesBelow, filesAmong_eq]
    split
    · exact List.not_mem_nil
    · rw [List.mem_flatMap]
      rintro ⟨⟨name, e⟩, -, hadds⟩
      cases e <;> simp [filesOf] at hadds
  | file | link => exact List.not_mem_nil

/-- A listing has exactly the routes of files that are reached through directories not skipped. -/
theorem mem_filesBelow : route ∈ d.filesBelow skip path e ↔ Listed d skip path e route := by
  induction route generalizing path e with
  | nil => exact iff_of_false nil_not_mem_filesBelow (by rintro ⟨⟩)
  | cons name rest ih =>
    cases e with
    | directory entries =>
      rw [mem_filesBelow_cons]
      constructor
      · rintro ⟨hsize, ⟨e, hmem, hfile, rfl⟩ | ⟨inner, hmem, hskip, hrest⟩⟩
        · exact .here hsize hmem hfile
        · exact .inside hsize hmem hskip (ih.mp hrest)
      · rintro (⟨hsize, hmem, hfile⟩ | ⟨hsize, hmem, hskip, hrest⟩)
        · exact ⟨hsize, Or.inl ⟨_, hmem, hfile, rfl⟩⟩
        · exact ⟨hsize, Or.inr ⟨_, hmem, hskip, ih.mpr hrest⟩⟩
    | file | link => exact iff_of_false List.not_mem_nil (by rintro ⟨⟩)

/-- What is listed, said of the whole way: the folders on it are not skipped, and none of them has
too long a path. -/
theorem listed_iff : Listed d skip path e route ↔ ∃ folders name found, route = folders ++ [name] ∧
    e.Reaches route found ∧ d.countsAsFile (Path.joinAll path folders) name found = true ∧
    (∀ folder ∈ folders, folder ∉ skip) ∧
    ∀ above, above <+: folders → (Path.joinAll path above).utf8ByteSize ≤ longestPath := by
  constructor
  · intro h
    induction h with
    | @here path _ name e hsize hmem hfile =>
      refine ⟨[], name, e, rfl, .step hmem .here, hfile, by simp, fun above habove => ?_⟩
      rwa [List.prefix_nil.mp habove]
    | @inside path _ name _ _ hsize hmem hskip _ ih =>
      obtain ⟨folders, last, found, rfl, hreaches, hfile, hskips, hsizes⟩ := ih
      refine ⟨name :: folders, last, found, rfl, .step hmem hreaches, hfile,
        List.forall_mem_cons.mpr ⟨hskip, hskips⟩, fun above habove => ?_⟩
      rcases List.prefix_cons_iff.mp habove with rfl | ⟨rest, rfl, hrest⟩
      · exact hsize
      · exact hsizes rest hrest
  · rintro ⟨folders, name, found, rfl, hreaches, hfile, hskips, hsizes⟩
    induction folders generalizing path e with
    | nil =>
      cases hreaches with
      | step hmem hfound =>
        cases hfound
        exact .here (hsizes [] (List.prefix_refl _)) hmem hfile
    | cons folder folders ih =>
      rw [List.forall_mem_cons] at hskips
      cases hreaches with
      | @step _ _ below _ _ hmem hbelow =>
        have hlisted : Listed d skip (Path.join path folder) below (folders ++ [name]) :=
          ih hbelow hfile hskips.2 (fun above habove =>
            hsizes (folder :: above) (List.cons_prefix_cons.mpr ⟨rfl, habove⟩))
        cases below with
        | directory inner => exact .inside (hsizes [] List.nil_prefix) hmem hskips.1 hlisted
        | file | link => cases hlisted

theorem Listed.not_skipped (h : Listed d skip path e route) :
    ∀ name ∈ route.dropLast, name ∉ skip := by
  obtain ⟨folders, name, found, rfl, -, -, hskips, -⟩ := listed_iff.mp h
  rwa [List.dropLast_concat]

theorem Listed.names (h : Listed d skip path e route) : ∀ name ∈ route, name ∈ e.allNames := by
  obtain ⟨folders, name, found, -, hreaches, -⟩ := listed_iff.mp h
  exact hreaches.names

/-- A file of the tree is listed if no directory on its way is skipped or has too long a path. -/
theorem listed_of_at? {data : Bytes} (hne : route ≠ []) (h : e.at? route = some (.file data))
    (hskip : ∀ name ∈ route.dropLast, name ∉ skip)
    (hsize : ∀ above, above <+: route.dropLast →
      (Path.joinAll path above).utf8ByteSize ≤ longestPath) : Listed d skip path e route :=
  listed_iff.mpr ⟨route.dropLast, route.getLast hne, .file data,
    (List.dropLast_append_getLast hne).symm, Entry.reaches_of_at? h, rfl, hskip, hsize⟩

/-- A listing by one path of a directory is one by another, if the paths of directories below are
too long alike and those of links lead to directories alike. -/
theorem Listed.congr {path' : String}
    (hdirectories : ∀ route inner, e.Reaches route (.directory inner) →
      ((Path.joinAll path route).utf8ByteSize ≤ longestPath ↔
        (Path.joinAll path' route).utf8ByteSize ≤ longestPath))
    (hlinks : ∀ route target, e.Reaches route (.link target) →
      d.isDirectory (Path.joinAll path route) = d.isDirectory (Path.joinAll path' route))
    (h : Listed d skip path e route) : Listed d skip path' e route := by
  obtain ⟨folders, name, found, rfl, hreaches, hfile, hskips, hsizes⟩ := listed_iff.mp h
  refine listed_iff.mpr ⟨folders, name, found, rfl, hreaches, ?_, hskips, fun above habove => ?_⟩
  · cases found with
    | file data => rfl
    | directory entries => cases hfile
    | link target =>
      have hsame := hlinks _ target hreaches
      rw [Path.joinAll_concat, Path.joinAll_concat] at hsame
      rwa [countsAsFile, ← hsame]
  · obtain ⟨rest, rfl⟩ := habove
    rw [List.append_assoc] at hreaches
    obtain ⟨inner, hinner⟩ := hreaches.above (by simp)
    exact (hdirectories above inner hinner).mp (hsizes above (List.prefix_append above rest))

/-! ## Below a directory without links -/

variable {link? : Route → Option String} {n : Nat} {back r : Route} {xs : List String}

/-- Empty names lead nowhere else. -/
theorem leads_filter : Leads link? n back (xs.filter (· != "")) r ↔ Leads link? n back xs r := by
  constructor
  · intro h
    induction xs generalizing back with
    | nil => exact h
    | cons name rest ih =>
      by_cases hempty : name = ""
      · rw [List.filter_cons_of_neg (by simpa using hempty)] at h
        exact .idle (Or.inl hempty) (ih h)
      · rw [List.filter_cons_of_pos (by simpa using hempty)] at h
        cases h with
        | idle hname h => exact .idle hname (ih h)
        | up h => exact .up (ih h)
        | step hname hlink h => exact .step hname hlink (ih h)
        | link hname hlink htarget h => exact .link hname hlink htarget (ih h)
  · intro h
    induction h with
    | done => exact .done
    | @idle _ _ name _ _ hname _ ih =>
      by_cases hempty : name = ""
      · rwa [List.filter_cons_of_neg (by simpa using hempty)]
      · rw [List.filter_cons_of_pos (by simpa using hempty)]
        exact .idle hname ih
    | up _ ih =>
      rw [List.filter_cons_of_pos rfl]
      exact .up ih
    | step hname hlink _ ih =>
      rw [List.filter_cons_of_pos (by simpa using hname.ne_empty)]
      exact .step hname hlink ih
    | link hname hlink htarget _ _ ih =>
      rw [List.filter_cons_of_pos (by simpa using hname.ne_empty)]
      exact .link hname hlink htarget ih

theorem filter_names (path : String) :
    (names path).filter (· != "") = (Path.parts path).map String.ofList := by
  rw [names, List.filter_map, Path.parts]
  congr 1
  refine List.filter_congr fun cs _ => ?_
  rw [Function.comp_apply, Bool.eq_iff_iff, bne_iff_ne, bne_iff_ne, ne_eq, ne_eq,
    ← String.toList_inj, String.toList_ofList]
  rfl

/-- Where no name is a link, proper names lead to the route they spell. -/
theorem leads_of_noLink (hxs : ∀ name ∈ xs, Proper name)
    (hnone : ∀ below : Route, link? (below ++ back) = none) :
    Leads link? n back xs (xs.reverse ++ back) := by
  induction xs generalizing back with
  | nil => exact .done
  | cons name rest ih =>
    obtain ⟨hname, hrest⟩ := List.forall_mem_cons.mp hxs
    rw [List.reverse_cons, List.append_assoc]
    refine .step hname (hnone [name]) (ih hrest fun below => ?_)
    have hbelow := hnone (below ++ [name])
    rwa [List.append_assoc] at hbelow

end Disk

theorem exists_place_of_stat {d : Disk} {path : String} {e : Entry} (h : d.stat path = .ok e) :
    ∃ route, d.place true path = .ok (.found route e) := by
  unfold Disk.stat at h
  split at h
  · rename_i route found hplace
    exact ⟨route, Except.ok.inj h ▸ hplace⟩
  · cases h
  · cases h

theorem exists_place_of_isFile {d : Disk} {path : String} (h : d.isFile path = true) :
    ∃ route data, d.place true path = .ok (.found route (.file data)) := by
  unfold Disk.isFile at h
  split at h
  · rename_i data hstat
    obtain ⟨route, hplace⟩ := exists_place_of_stat hstat
    exact ⟨route, data, hplace⟩
  · cases h

theorem utf8ByteSize_of_isFile {d : Disk} {path : String} (h : d.isFile path = true) :
    path.utf8ByteSize ≤ Disk.longestPath := by
  obtain ⟨route, data, hplace⟩ := exists_place_of_isFile h
  exact (Disk.usable_of_place hplace).2

theorem routeText_eq (route : Route) :
    routeText route = String.ofList (Path.joinSlash (route.map String.toList)) := by
  rw [← String.toList_inj, String.toList_ofList, routeText, Disk.toList_intercalate_slash]

theorem parts_routeText {route : Route} (h : ∀ name ∈ route, Path.Plain name.toList) :
    Path.parts (routeText route) = route.map String.toList := by
  rw [routeText_eq]
  refine Path.parts_joined (fun part hpart => ?_) 0
  obtain ⟨name, hname, rfl⟩ := List.mem_map.mp hpart
  exact ⟨(h name hname).ne_nil, (h name hname).noSlash⟩

theorem isRooted_routeText {route : Route} (h : ∀ name ∈ route, Path.Plain name.toList) :
    Path.isRooted (routeText route) = false := by
  rw [← Bool.not_eq_true, Path.isRooted, beq_iff_eq, routeText_eq, String.toList_ofList]
  refine Path.head?_joinSlash fun part hpart => ?_
  obtain ⟨name, hname, rfl⟩ := List.mem_map.mp hpart
  exact h name hname

theorem join_routeText {name : String} {rest : Route} (hname : Path.Plain name.toList)
    (hrest : ∀ name ∈ rest, Path.Plain name.toList) (hne : rest ≠ []) :
    Path.join name (routeText rest) = routeText (name :: rest) := by
  obtain ⟨c, hlast, hc⟩ := hname.exists_getLast?
  rw [Path.join_of_getLast? hlast hc (isRooted_routeText hrest), routeText_eq, routeText_eq,
    List.map_cons, Path.joinSlash_cons _ (by simpa using hne), ← String.toList_inj]
  simp

/-- Names joined to a path one after the other are joined to it as the text of their route. -/
theorem joinAll_eq_join (path : String) {route : Route}
    (h : ∀ name ∈ route, Path.Plain name.toList) (hne : route ≠ []) :
    Path.joinAll path route = Path.join path (routeText route) := by
  induction route generalizing path with
  | nil => exact absurd rfl hne
  | cons name rest ih =>
    obtain ⟨hname, hrest⟩ := List.forall_mem_cons.mp h
    by_cases hempty : rest = []
    · subst hempty
      rw [routeText_eq, List.map_singleton, Path.joinSlash, String.ofList_toList]
      rfl
    · calc Path.joinAll path (name :: rest)
        _ = Path.join (Path.join path name) (routeText rest) := ih _ hrest hempty
        _ = Path.join path (Path.join name (routeText rest)) :=
            Path.join_join path hname (isRooted_routeText hrest)
        _ = Path.join path (routeText (name :: rest)) := by
            rw [join_routeText hname hrest hempty]

/-- Directories on the way to a file have paths that are not too long, if the file has one. -/
theorem utf8ByteSize_above {path : String} {route above : Route}
    (h : ∀ name ∈ route, Path.Plain name.toList) (hne : route ≠ [])
    (habove : above <+: route.dropLast)
    (hsize : (Path.join path (routeText route)).utf8ByteSize ≤ Disk.longestPath) :
    (Path.joinAll path above).utf8ByteSize ≤ Disk.longestPath := by
  obtain ⟨more, rfl⟩ := habove.trans (List.dropLast_prefix route)
  rw [← joinAll_eq_join path h hne] at hsize
  refine Nat.le_trans (Path.utf8ByteSize_joinAll_le path (fun name hname => ?_)) hsize
  exact (h name (List.mem_append_right _ hname)).isRooted

/-- Below an entry without links no route is that of a link. -/
theorem linkAt?_below {top e : Entry} {dir : Route} (hat : top.at? dir = some e)
    (hlinks : Disk.countLinks e = 0) (below : Route) :
    top.linkAt? (below ++ dir.reverse) = none := by
  rw [Entry.linkAt?_eq_none]
  intro target
  rw [List.reverse_append, List.reverse_reverse, Entry.at?_append, hat]
  exact Entry.not_link_of_countLinks hlinks below.reverse target

/-- A path below a directory leads to the directory first, and from there along its names to the
route they spell, if no link is met. -/
theorem leads_below {link? : Route → Option String} {n : Nat} {root : String} {dir route : Route}
    (hdir : Disk.Leads link? n [] (Disk.names root) dir.reverse)
    (hnone : ∀ below : Route, link? (below ++ dir.reverse) = none)
    (hroute : ∀ name ∈ route, Path.Plain name.toList) :
    Disk.Leads link? n [] (Disk.names (Path.join root (routeText route)))
      (dir ++ route).reverse := by
  have hspelled := Disk.leads_of_noLink (n := n)
    (fun name hname => Disk.proper_of_plain (hroute name hname)) hnone
  rw [← Disk.leads_filter, Disk.filter_names] at hdir ⊢
  rw [Path.parts_join root (isRooted_routeText hroute), List.map_append, parts_routeText hroute,
    List.reverse_append]
  refine hdir.append ?_
  simpa [List.map_map, Function.comp_def] using hspelled

/-- Below a directory without links, what is opened by its names is at the route they spell. -/
theorem place_below {d : Disk} {root : String} {e found : Entry} {dir place route : Route}
    (hrooted : Path.isRooted root = true) (hdir : d.place true root = .ok (.found dir e))
    (hlinks : Disk.countLinks e = 0) (hroute : ∀ name ∈ route, Path.Plain name.toList)
    (h : d.place true (Path.join root (routeText route)) = .ok (.found place found)) :
    place = dir ++ route := by
  obtain ⟨hleads, hat⟩ := Disk.leads_of_place hrooted hdir
  have hopened := (Disk.leads_of_place (Path.isRooted_join hrooted _) h).1
  have hspelled := leads_below hleads (linkAt?_below hat hlinks) hroute
  exact List.reverse_injective (hopened.unique hspelled)

/-- A file found by its path below a directory without links is in the tree where its names say. -/
theorem at?_of_isFile {d : Disk} {root : String} {e : Entry} {route : Route}
    (hrooted : Path.isRooted root = true) (hroot : d.stat root = .ok e)
    (hlinks : Disk.countLinks e = 0) (hroute : ∀ name ∈ route, Path.Plain name.toList)
    (h : d.isFile (Path.join root (routeText route)) = true) :
    ∃ data, e.at? route = some (.file data) := by
  obtain ⟨dir, hdir⟩ := exists_place_of_stat hroot
  obtain ⟨place, data, hplace⟩ := exists_place_of_isFile h
  have hat := (Disk.leads_of_place hrooted hdir).2
  have hat' := (Disk.leads_of_place (Path.isRooted_join hrooted _) hplace).2
  rw [place_below hrooted hdir hlinks hroute hplace, Entry.at?_append, hat] at hat'
  exact ⟨data, hat'⟩

/-! ## Scans -/

theorem mem_scan_iff {d : Disk} {rules : ScanRules} {root text : String} :
    text ∈ scan d rules root ↔ ∃ dir e, d.place true root = .ok (.found dir e) ∧
      ∃ route, d.Listed rules.ignoredDirectories root e route ∧
        rules.wantsRoute route = true ∧ routeText route = text := by
  rw [scan, Sorted.mem_distinct, List.mem_map]
  simp only [List.mem_filter, and_assoc]
  unfold Disk.files
  split
  · rename_i dir e hplace
    simp [hplace, Disk.mem_filesBelow]
  · rename_i hnone
    refine iff_of_false (by simp) ?_
    rintro ⟨dir, e, hplace, -⟩
    exact hnone dir e hplace

theorem mem_scan {d : Disk} {rules : ScanRules} {root text : String} {dir : Route} {e : Entry}
    (hplace : d.place true root = .ok (.found dir e)) :
    text ∈ scan d rules root ↔ ∃ route, d.Listed rules.ignoredDirectories root e route ∧
      rules.wantsRoute route = true ∧ routeText route = text := by
  simp [mem_scan_iff, hplace]

/-- Two paths of one place between which a listing makes no difference: below them, paths of
directories are too long alike, and paths of links lead to directories alike. -/
structure Disk.SameBelow (d : Disk) (path path' : String) : Prop where
  place : d.place true path = d.place true path'
  directories : ∀ dir e, d.place true path = .ok (.found dir e) →
    ∀ route inner, e.Reaches route (.directory inner) →
      ((Path.joinAll path route).utf8ByteSize ≤ Disk.longestPath ↔
        (Path.joinAll path' route).utf8ByteSize ≤ Disk.longestPath)
  links : ∀ dir e, d.place true path = .ok (.found dir e) →
    ∀ route target, e.Reaches route (.link target) →
      d.isDirectory (Path.joinAll path route) = d.isDirectory (Path.joinAll path' route)

theorem Disk.SameBelow.symm {d : Disk} {path path' : String} (h : d.SameBelow path path') :
    d.SameBelow path' path where
  place := h.place.symm
  directories dir e hplace route inner hreaches :=
    (h.directories dir e (h.place.trans hplace) route inner hreaches).symm
  links dir e hplace route target hreaches :=
    (h.links dir e (h.place.trans hplace) route target hreaches).symm

theorem Disk.SameBelow.scan_eq {d : Disk} {path path' : String} (h : d.SameBelow path path')
    (rules : ScanRules) : scan d rules path = scan d rules path' := by
  have hsubset : ∀ {p q}, d.SameBelow p q → scan d rules p ⊆ scan d rules q := by
    intro p q hsame text htext
    obtain ⟨dir, e, hplace, route, hlisted, hrest⟩ := mem_scan_iff.mp htext
    exact mem_scan_iff.mpr ⟨dir, e, hsame.place ▸ hplace, route,
      hlisted.congr (hsame.directories dir e hplace) (hsame.links dir e hplace), hrest⟩
  exact (Sorted.ascending_distinct _).eq_of_mem_iff (Sorted.ascending_distinct _)
    (fun text => ⟨fun htext => hsubset h htext, fun htext => hsubset h.symm htext⟩)

theorem routeText_inj {route route' : Route}
    (h : ∀ name ∈ route, Path.Plain name.toList) (h' : ∀ name ∈ route', Path.Plain name.toList)
    (heq : routeText route = routeText route') : route = route' := by
  have hparts := congrArg Path.parts heq
  rw [parts_routeText h, parts_routeText h'] at hparts
  exact List.map_injective_iff.mpr (fun _ _ => String.toList_injective) hparts

/-- Below a root with an ordinary tree, a scan lists a file under the text of its names, if the file
is wanted and no directory on its way is ignored, and not otherwise. -/
theorem routeText_mem_scan {d : Disk} {root : String} {e : Entry} {route : Route}
    (hrooted : Path.isRooted root = true) (hroot : d.stat root = .ok e) (htree : e.Ordinary)
    (hne : route ≠ []) (hroute : ∀ name ∈ route, Path.Plain name.toList)
    (hfile : d.isFile (Path.join root (routeText route)) = true) (rules : ScanRules) :
    routeText route ∈ scan d rules root ↔ rules.wantsRoute route = true ∧
      ∀ name ∈ route.dropLast, name ∉ rules.ignoredDirectories := by
  obtain ⟨dir, hplace⟩ := exists_place_of_stat hroot
  obtain ⟨data, hat⟩ := at?_of_isFile hrooted hroot htree.noLinks hroute hfile
  rw [mem_scan hplace]
  constructor
  · rintro ⟨listed, hlisted, hwants, htext⟩
    obtain rfl : listed = route := routeText_inj
      (fun name hname => htree.plain name (hlisted.names name hname)) hroute htext
    exact ⟨hwants, hlisted.not_skipped⟩
  · rintro ⟨hwants, hskip⟩
    have hsize := utf8ByteSize_of_isFile hfile
    exact ⟨route, Disk.listed_of_at? hne hat hskip (fun above habove =>
      utf8ByteSize_above hroute hne habove hsize), hwants, rfl⟩

end CodeGraph
