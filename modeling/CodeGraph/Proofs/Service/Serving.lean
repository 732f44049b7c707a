import CodeGraph.Proofs.Disk.NullCharacters
import CodeGraph.Proofs.Disk.Opening
import CodeGraph.Proofs.Service.History
import CodeGraph.Proofs.Text.LineEnds

/-!
# Analysed files can be served

After an analysis the files of the graph are asked for by their ids. A file is then opened by its
real path, while the analysis opened it by the root and its names. Below a root without links both
lead to the same place, if the root is in sight (`inSight_below`), so what is served is what was
analysed, with one line more for each carriage return that stands alone (`file_of_below`). Only the
lengths of the two paths differ, if a link leads to the root: a real path that is too long cannot be
opened.
-/

namespace CodeGraph

namespace Path

theorem absolute_of_isRooted {path : String} (h : isRooted path = true) (cwd cwd' : String) :
    absolute cwd path = absolute cwd' path := by
  rw [absolute, absolute, join_of_isRooted cwd h, join_of_isRooted cwd' h]

end Path

/-! ## The answer for a file below the root -/

section Below

variable {d : Disk} {root path : String} {dir route : Route} {entries : List (String × Entry)}
  {data : Bytes}

/-- Below a root that is in sight and has no links in it, every path of names is in sight. -/
theorem inSight_below (hrooted : Path.isRooted root = true) (hsight : d.InSight root)
    (hroot : d.place true root = .ok (.found dir (.directory entries)))
    (hlinks : Disk.countLinks (.directory entries) = 0)
    (hroute : ∀ name ∈ route, Path.Plain name.toList) :
    d.InSight (Path.join root (routeText route)) := by
  obtain ⟨hopened, hat⟩ := Disk.leads_of_place hrooted hroot
  have hnone := linkAt?_below hat hlinks
  obtain ⟨n, r, hseen, hall⟩ := hsight
  rw [Path.join_of_isRooted d.cwd hrooted] at hseen hall
  obtain rfl : r = dir.reverse := hall.unique hopened
  refine ⟨n, (dir ++ route).reverse, ?_⟩
  rw [Path.join_of_isRooted d.cwd (Path.isRooted_join hrooted _)]
  exact ⟨leads_below hseen (fun below => Disk.linkSeen?_of_none (hnone below)) hroute,
    leads_below hall hnone hroute⟩

/-- A file that is opened below the root has its place in the root. -/
theorem realPlace_of_below
    (hroot : d.place true (Path.absolute d.cwd root) = .ok (.found dir (.directory entries)))
    (hfile : d.place true (Path.join (Path.absolute d.cwd root) path) =
      .ok (.found (dir ++ route) (.file data)))
    (hsight : d.InSight (Path.absolute d.cwd root))
    (hsightFile : d.InSight (Path.join (Path.absolute d.cwd root) path)) :
    realPlace d root path = .ok (Disk.routePath (dir ++ route)) := by
  have hrooted := Path.isRooted_absolute d.rooted root
  have hrootedFile := Path.isRooted_join hrooted path
  have hdirectory : d.isDirectory (Path.absolute d.cwd root) = true := by
    rw [Disk.isDirectory, Disk.stat, hroot]
  have hnull : d.meetsNull (Path.join (Path.absolute d.cwd root) path) = false := by
    refine Disk.meetsNull_of_noNull ?_
    rw [Path.join_of_isRooted d.cwd hrootedFile]
    exact (Disk.usable_of_place hfile).1
  have hwithin :
      Path.isWithin d.cwd (Disk.routePath dir) (Disk.routePath (dir ++ route)) = true :=
    (Disk.isWithin_of_places hrooted hroot hrootedFile hfile).mpr (List.prefix_append dir route)
  unfold realPlace
  rw [validateRoot_of_isDirectory hdirectory]
  dsimp only
  rw [hnull, Disk.realPath_of_place hsightFile hrootedFile hfile,
    Disk.realPath_of_place hsight hrooted hroot, hwithin]
  rfl

/-- Such a file is read, unless its real path is too long. -/
theorem readSource_of_below
    (hroot : d.place true (Path.absolute d.cwd root) = .ok (.found dir (.directory entries)))
    (hfile : d.place true (Path.join (Path.absolute d.cwd root) path) =
      .ok (.found (dir ++ route) (.file data)))
    (hsight : d.InSight (Path.absolute d.cwd root))
    (hsightFile : d.InSight (Path.join (Path.absolute d.cwd root) path))
    (hnames : ∀ name ∈ dir ++ route, Disk.Storable name) (hne : route ≠ []) :
    readSource d root path =
      if Disk.longestPath < (Disk.routePath (dir ++ route)).utf8ByteSize then
        .error (.disk .unusable)
      else .ok (fileText data) := by
  have hat := (Disk.leads_of_place
    (Path.isRooted_join (Path.isRooted_absolute d.rooted root) path) hfile).2
  have hread := Disk.read_routePath hat hnames (List.append_ne_nil_of_right_ne_nil dir hne)
  unfold readSource
  rw [realPlace_of_below hroot hfile hsight hsightFile]
  dsimp only
  rw [hread]
  split_ifs <;> rfl

/-- The text of a file has the lines of its bytes, and one more for each carriage return that
stands alone. -/
theorem fileBody_fileText (path : String) (data : Bytes) :
    Service.fileBody path (fileText data) =
      .object [("path", .string path), ("content", .string (fileText data)),
        ("total_lines", .int (data.count Reexport.newline + 1 + loneReturns data))] := by
  have hlines : (((fileText data).toList.count '\n' : Nat) : Int) + 1 =
      data.count Reexport.newline + 1 + loneReturns data := by
    rw [count_newline_fileText]
    omega
  rw [Service.fileBody, hlines]

/-- A file below the root that is held is served, unless its real path is too long. -/
theorem Service.file_of_below {s : Service} {latest : Latest} (hlatest : s.latest = some latest)
    (hroot : d.place true (Path.absolute d.cwd latest.root) =
      .ok (.found dir (.directory entries)))
    (hfile : d.place true (Path.join (Path.absolute d.cwd latest.root) path) =
      .ok (.found (dir ++ route) (.file data)))
    (hsight : d.InSight (Path.absolute d.cwd latest.root))
    (hsightFile : d.InSight (Path.join (Path.absolute d.cwd latest.root) path))
    (hnames : ∀ name ∈ dir ++ route, Disk.Storable name) (hne : route ≠ []) :
    s.file d path = .ok
      (if Disk.longestPath < (Disk.routePath (dir ++ route)).utf8ByteSize then
        .refusal 404 ("File not found: " ++ path)
      else .ok (fileBody path (fileText data))) := by
  have hread := readSource_of_below hroot hfile hsight hsightFile hnames hne
  unfold Service.file
  rw [hlatest]
  dsimp only
  rw [hread]
  split_ifs <;> rfl

end Below

/-! ## Files of an analysed root -/

/-- A file of the graph was opened below the root, at the names that its id spells. -/
theorem exists_below_of_node {parser : Parser} {d : Disk}
    {settings : Except SettingsFault Settings} {root : String} {g : FileGraph} {node : FileNode}
    (h : (analyzeFiles parser d settings root).outcome = .ok g)
    (hnames : ∀ name ∈ d.top.allNames, Disk.Storable name)
    (hlinks : ∀ e, d.stat (Path.absolute d.cwd root) = .ok e → Disk.countLinks e = 0)
    (hnode : node ∈ g.nodes) :
    ∃ dir entries route data,
      d.place true (Path.absolute d.cwd root) = .ok (.found dir (.directory entries)) ∧
      Disk.countLinks (.directory entries) = 0 ∧
      d.place true (Path.join (Path.absolute d.cwd root) node.id) =
        .ok (.found (dir ++ route) (.file data)) ∧
      (∀ name ∈ dir ++ route, Disk.Storable name) ∧ route ≠ [] ∧ node.id = routeText route ∧
      node.lines = data.count Reexport.newline + 1 := by
  obtain ⟨s, content, -, hdirectory, hread, hcovers⟩ := analyzeFiles_eq_ok h
  obtain ⟨dir, hdir⟩ := Disk.exists_directoryAt? hdirectory
  obtain ⟨entries, hroot⟩ := Disk.directoryAt?_eq_some.mp hdir
  have hrooted := Path.isRooted_absolute d.rooted root
  have hat := (Disk.leads_of_place hrooted hroot).2
  have hscan : node.id ∈ scan d (s.scanRules true) (Path.absolute d.cwd root) := by
    rw [← hcovers.ids]
    exact List.mem_map_of_mem hnode
  obtain ⟨route, hlisted, -, hid⟩ := (mem_scan hroot).mp hscan
  have hroute : ∀ name ∈ route, Disk.Storable name := by
    intro name hname
    exact hnames name (Entry.allNames_subset_of_at? hat (hlisted.names name hname))
  have hne : route ≠ [] := by
    rintro rfl
    cases hlisted
  obtain ⟨place, hfileAt⟩ := Disk.exists_fileAt? (hread node.id hscan)
  have hfile := Disk.fileAt?_eq_some.mp hfileAt
  have hstat : d.stat (Path.absolute d.cwd root) = .ok (.directory entries) := by
    rw [Disk.stat, hroot]
  -- without links below the root, the names of the id spell the route
  have hplace : place = dir ++ route :=
    place_below hrooted hroot (hlinks _ hstat) (fun name hname => (hroute name hname).plain)
      (hid ▸ hfile)
  subst hplace
  refine ⟨dir, entries, route, content node.id, hroot, hlinks _ hstat, hfile,
    fun name hname => ?_, hne, hid.symm, hcovers.lines node hnode⟩
  rcases List.mem_append.mp hname with hname | hname
  · exact hnames name (Entry.mem_allNames_of_at? hat name hname)
  · exact hroute name hname

namespace Service

theorem isRooted_targetRoot (d : Disk) (path : Option String) :
    Path.isRooted (targetRoot d path none) = true := by
  cases path with
  | none => exact d.rooted
  | some p =>
    rw [targetRoot]
    split
    · exact d.rooted
    · exact Path.isRooted_absolute d.rooted p

theorem handle_file (s : Service) (parser : Parser) (d : Disk)
    (settings : Except SettingsFault Settings) (path : String) :
    (s.handle parser d settings (.file (some path))).1 = s.file d path := rfl

/-- An analysis of the directory at a path. -/
def analysisOf (d : Disk) (path : String) : Moment :=
  ⟨parseText, d, .ok .standard, .analyze (.object [("path", .string path)])⟩

/-- A directory whose files can be read is loaded by such an analysis. -/
theorem loaded_of_readable {d : Disk} {path root : String} {content : String → Bytes}
    (htarget : targetRoot d (some path) none = root)
    (hroot : d.isDirectory (Path.absolute d.cwd root) = true)
    (hread : ∀ file ∈ scan d (Settings.standard.scanRules true) (Path.absolute d.cwd root),
      d.read (Path.join (Path.absolute d.cwd root) file) = .ok (content file)) :
    lastLoaded? (empty.log [analysisOf d path]) = some (empty.exchange (analysisOf d path)) ∧
      ∃ graph, (empty.run [analysisOf d path]).latest = some ⟨root, graph⟩ ∧
        graph.Covers parseText d .standard (Path.absolute d.cwd root) content := by
  subst htarget
  have hpath : bodyPath (.object [("path", .string path)]) = .valid (some path) := rfl
  have hrun := analyzeFiles_of_readable parseText hroot hread
  obtain ⟨hgives, hstep⟩ := analyze_of_ok hpath hrun empty
  refine ⟨?_, _, congrArg Service.latest hstep, covers_assemble⟩
  have hloaded : (empty.exchange (analysisOf d path)).isLoaded = true := hgives.isLoaded
  simp [lastLoaded?, log, hloaded]

/-- A file that is no text, with line ends of all kinds. -/
def mixedBytes : Bytes :=
  [255, 13, 10, 13, 97, 13]

/-- A directory with that file, and a link that leads to it. -/
def releaseDisk : Disk where
  top := .directory [("cur", .link "srv/app"),
    ("srv", .directory [("app", .directory [("a.js", .file mixedBytes)])])]
  cwd := "/srv"
  rooted := rfl

/-- The same tree, seen from another working directory. -/
def releaseDisk.elsewhere : Disk :=
  ⟨releaseDisk.top, "/srv/app", rfl⟩

end Service

/-! ## A place that is too deep for its own path -/

namespace Entry

/-- Directories one in the other, with an entry in the last. -/
def nest (route : Route) (e : Entry) : Entry :=
  route.foldr (fun name below => directory [(name, below)]) e

theorem at?_nest (route : Route) (e : Entry) : (nest route e).at? route = some e := by
  induction route with
  | nil => cases e <;> rfl
  | cons name rest ih =>
    have hfind : find? [(name, nest rest e)] name = some (nest rest e) := by simp [find?]
    exact at?_cons_eq_some.mpr ⟨_, _, rfl, hfind, ih⟩

theorem allNames_nest (route : Route) (e : Entry) :
    (nest route e).allNames = route ++ e.allNames := by
  induction route with
  | nil => rfl
  | cons name rest ih =>
    have hbelow : (nest (name :: rest) e).allNames = name :: ((nest rest e).allNames ++ []) := by
      rw [nest, List.foldr_cons, allNames, allNamesIn, allNamesIn]
      rfl
    rw [hbelow, ih, List.append_nil, List.cons_append]

end Entry

namespace Disk

/-- A name of so many letters. -/
def filler (n : Nat) : String :=
  String.ofList (List.replicate n 'd')

theorem notMem_filler {c : Char} (hc : c ≠ 'd') (n : Nat) : c ∉ (filler n).toList := by
  rw [filler, String.toList_ofList]
  exact fun hmem => hc (List.eq_of_mem_replicate hmem)

theorem utf8ByteSize_filler (n : Nat) : (filler n).utf8ByteSize = n := by
  rw [filler, String.utf8ByteSize_ofList]
  induction n with
  | zero => rfl
  | succ n ih =>
    rw [List.replicate_succ, String.utf8Len_cons, ih]
    rfl

theorem storable_filler {n : Nat} (hpos : 0 < n) (hshort : n ≤ longestName) :
    Storable (filler n) where
  plain :=
    { ne_nil := by
        rw [filler, String.toList_ofList, ne_eq, List.replicate_eq_nil_iff]
        omega
      ne_here := fun h => notMem_filler (by decide : '.' ≠ 'd') n (h ▸ List.mem_cons_self)
      ne_up := fun h => notMem_filler (by decide : '.' ≠ 'd') n (h ▸ List.mem_cons_self)
      noSlash := notMem_filler (by decide) n }
  noNull := notMem_filler (by decide) n
  short := by rwa [utf8ByteSize_filler]

/-- The route of a root deep in the tree. -/
def deepRoute : Route :=
  filler 254 :: List.replicate 15 (filler 254)

/-- The root: a file of one carriage return. -/
def deepRoot : Entry :=
  .directory [("component-12.js", .file [13])]

/-- A tree with that root and a link at the top that leads to it, seen from a directory beside the
link. -/
def deep : Disk where
  top := .directory [("u", .directory []), ("l", .link (routePath deepRoute)),
    (filler 254, .nest (List.replicate 15 (filler 254)) deepRoot)]
  cwd := "/u"
  rooted := rfl

theorem at?_deep : deep.top.at? deepRoute = some deepRoot := by
  have hne (c : Char) (hc : c ≠ 'd') : (String.singleton c == filler 254) = false := by
    refine beq_eq_false_iff_ne.mpr (fun h => notMem_filler hc 254 ?_)
    rw [← h, String.toList_singleton]
    exact List.mem_singleton_self c
  have hu : ("u" == filler 254) = false := hne 'u' (by decide)
  have hl : ("l" == filler 254) = false := hne 'l' (by decide)
  have hfind : Entry.find? [("u", .directory []), ("l", .link (routePath deepRoute)),
      (filler 254, .nest (List.replicate 15 (filler 254)) deepRoot)] (filler 254) =
      some (.nest (List.replicate 15 (filler 254)) deepRoot) := by
    simp only [Entry.find?, List.find?_cons, hu, hl, BEq.rfl, Option.map_some]
  exact Entry.at?_cons_eq_some.mpr ⟨_, _, rfl, hfind, Entry.at?_nest _ _⟩

theorem storable_of_mem_deepRoute : ∀ name ∈ deepRoute, Storable name := by
  have hfiller : Storable (filler 254) := storable_filler (by decide) (by decide)
  intro name hname
  rcases List.mem_cons.mp hname with rfl | hname
  · exact hfiller
  · exact List.eq_of_mem_replicate hname ▸ hfiller

theorem storable_deep : ∀ name ∈ deep.top.allNames, Storable name := by
  have hall : deep.top.allNames =
      "u" :: "l" :: (filler 254 :: (List.replicate 15 (filler 254) ++ ["component-12.js"])) := by
    rw [deep, Entry.allNames, Entry.allNamesIn, Entry.allNamesIn, Entry.allNamesIn,
      Entry.allNamesIn, Entry.allNames_nest, List.append_nil]
    rfl
  intro name hname
  rw [hall, ← List.cons_append] at hname
  rcases List.mem_cons.mp hname with rfl | hname
  · decide
  rcases List.mem_cons.mp hname with rfl | hname
  · decide
  · rcases List.mem_append.mp hname with hname | hname
    · exact storable_of_mem_deepRoute name hname
    · rw [List.mem_singleton.mp hname]
      decide

/-- What begins with the link is opened below the root. -/
theorem place_deep {path : String} {below : Route} {e : Entry}
    (hat : deepRoot.at? below = some e) (hlink : ∀ target, e ≠ .link target)
    (hbelow : ∀ name ∈ below, Storable name) (hpath : names path = "" :: "l" :: below)
    (hrooted : Path.isRooted path = true) (hnull : '\x00' ∉ path.toList)
    (hsize : path.utf8ByteSize ≤ longestPath) :
    deep.place true path = .ok (.found (deepRoute ++ below) e) := by
  have hname : Storable "l" := by decide
  have hdeep : deep.top.at? (deepRoute ++ below) = some e := by
    rw [Entry.at?_append, at?_deep]
    exact hat
  have hstorable : ∀ name ∈ deepRoute ++ below, Storable name := by
    intro name hmem
    rcases List.mem_append.mp hmem with hmem | hmem
    · exact storable_of_mem_deepRoute name hmem
    · exact hbelow name hmem
  exact place_through_link rfl hname rfl hdeep hlink hstorable (List.cons_ne_nil _ _) hpath
    hrooted hnull hsize

theorem place_deepRoot : deep.place true "/l" = .ok (.found deepRoute deepRoot) := by
  have hlink : ∀ target, deepRoot ≠ .link target := fun target h => by cases h
  have hplace : deep.place true "/l" = .ok (.found (deepRoute ++ []) deepRoot) :=
    place_deep rfl hlink (by simp) (by decide) rfl (by decide) (by decide)
  rwa [List.append_nil] at hplace

theorem place_deepFile : deep.place true "/l/component-12.js" =
    .ok (.found (deepRoute ++ ["component-12.js"]) (.file [13])) := by
  have hname : ∀ name ∈ ["component-12.js"], Storable name := by decide
  exact place_deep rfl (by simp) hname (by decide) rfl (by decide) (by decide)

theorem scan_deep :
    scan deep (Settings.standard.scanRules true) "/l" = ["component-12.js"] := by
  rw [scan, files, place_deepRoot]
  dsimp only
  rw [deepRoot, filesBelow, filesAmong, filesAmong]
  decide

theorem linkRoutes_nest (back route : Route) (e : Entry) :
    linkRoutes back (.nest route e) = linkRoutes (route.reverse ++ back) e := by
  induction route generalizing back with
  | nil => rfl
  | cons name rest ih =>
    have hbelow : linkRoutes back (.nest (name :: rest) e) =
        linkRoutes (name :: back) (.nest rest e) ++ [] := by
      rw [Entry.nest, List.foldr_cons, linkRoutes, linkRoutesIn, linkRoutesIn]
      rfl
    rw [hbelow, List.append_nil, ih, List.reverse_cons, List.append_assoc, List.singleton_append]

/-- The link at the top is the only one. -/
theorem links_deep :
    ∀ here ∈ linkRoutes [] deep.top, (routePath here.reverse).utf8ByteSize ≤ longestPath := by
  have hlinks : linkRoutes [] deep.top = [["l"]] := by
    rw [deep, linkRoutes, linkRoutesIn, linkRoutesIn, linkRoutesIn, linkRoutesIn, linkRoutes_nest,
      deepRoot]
    rfl
  rw [hlinks]
  decide

theorem utf8ByteSize_deepFile :
    (routePath (deepRoute ++ ["component-12.js"])).utf8ByteSize = longestPath + 1 := by
  have hroute : deepRoute = List.replicate 16 (filler 254) := rfl
  have hname : (routePath ["component-12.js"]).utf8ByteSize = 16 := by decide
  rw [hroute, utf8ByteSize_routePath_replicate 16 _ (List.cons_ne_nil _ _), utf8ByteSize_filler,
    hname]
  rfl

end Disk

namespace Service

end Service

end CodeGraph
