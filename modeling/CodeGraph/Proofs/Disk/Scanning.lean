import CodeGraph.Proofs.Disk.Opening
import CodeGraph.Settings

/-!
# A scan lists the files it is for

Which files a scan is for is said without a walk (`Sought`): they are entries of the tree that count
as files, reached through directories none of which is ignored, with an extension that is looked
for. What the extension of a name is does not refer to reading it from its end (`IsExtension`).

A scan lists these files, each once and in order, as far as the directories on their way have paths
that are not too long (`scan_lists_sought`). A directory with a longer path is passed over without
an error, and what is below it is missing (`long_path_passed_over`).
-/

namespace CodeGraph

/-! ## Extensions -/

namespace Path

/-- A path ends in a point and this text, and before the point, other points aside, there stands
a character of the same name. -/
def EndsIn (path after : List Char) : Prop :=
  '.' ∉ after ∧ '/' ∉ after ∧ ∃ front c k, c ≠ '.' ∧ c ≠ '/' ∧
    path = front ++ c :: (List.replicate k '.' ++ '.' :: after)

/-- The extension of a path: a point and the text after it, or nothing if the path ends in none. -/
def IsExtension (path ext : String) : Prop :=
  (∃ after, EndsIn path.toList after ∧ ext.toList = '.' :: after) ∨
    (ext = "" ∧ ∀ after, ¬ EndsIn path.toList after)

theorem extensionOf_append (stem : List Char) {after : List Char} (h : '.' ∉ after) :
    extensionOf (stem ++ '.' :: after) =
      if stem.any (· != '.') then '.' :: after else [] := by
  have hreverse : (stem ++ '.' :: after).reverse = after.reverse ++ '.' :: stem.reverse := by simp
  have hafter : (after.reverse ++ '.' :: stem.reverse).takeWhile (· != '.') = after.reverse := by
    rw [takeWhile_bne_append (by simpa using h)]
    simp
  have hbefore : ((after.reverse ++ '.' :: stem.reverse).drop after.length).drop 1 =
      stem.reverse := by
    rw [List.drop_left' List.length_reverse]
    rfl
  have hlength : after.length < (stem ++ '.' :: after).length := by simp; omega
  rw [extensionOf, hreverse, hafter, List.reverse_reverse, hbefore, List.any_reverse,
    decide_eq_true hlength, Bool.true_and]

theorem extensionOf_of_notMem {name : List Char} (h : '.' ∉ name) : extensionOf name = [] := by
  have hall : name.reverse.takeWhile (· != '.') = name.reverse := by
    simpa using takeWhile_bne_append (List.mem_reverse.not.mpr h) []
  rw [extensionOf, hall, List.reverse_reverse]
  simp

theorem exists_last_point {name : List Char} (h : '.' ∈ name) :
    ∃ stem after, name = stem ++ '.' :: after ∧ '.' ∉ after := by
  obtain ⟨after, stem, hreverse, hafter⟩ :=
    List.eq_append_cons_of_mem (List.mem_reverse.mpr h)
  refine ⟨stem.reverse, after.reverse, ?_, by simpa using hafter⟩
  rw [← List.reverse_reverse name, hreverse]
  simp

theorem extensionOf_eq_cons_iff {name after : List Char} :
    extensionOf name = '.' :: after ↔
      '.' ∉ after ∧ ∃ stem, name = stem ++ '.' :: after ∧ ∃ c ∈ stem, c ≠ '.' := by
  constructor
  · intro h
    by_cases hpoint : '.' ∈ name
    · obtain ⟨stem, rest, rfl, hrest⟩ := exists_last_point hpoint
      rw [extensionOf_append stem hrest] at h
      split at h
      · rename_i hany
        obtain rfl := (List.cons.inj h).2
        exact ⟨hrest, stem, rfl, by simpa using hany⟩
      · cases h
    · rw [extensionOf_of_notMem hpoint] at h
      cases h
  · rintro ⟨hafter, stem, rfl, hstem⟩
    rw [extensionOf_append stem hafter, if_pos (by simpa using hstem)]

theorem extensionOf_cases (name : List Char) :
    extensionOf name = [] ∨ ∃ after, extensionOf name = '.' :: after := by
  rw [extensionOf]
  split
  · exact Or.inr ⟨_, rfl⟩
  · exact Or.inl rfl

/-- The last character that is no point. -/
theorem exists_last_ne_point {stem : List Char} (h : ∃ c ∈ stem, c ≠ '.') :
    ∃ front c k, c ≠ '.' ∧ stem = front ++ c :: List.replicate k '.' := by
  induction stem using List.reverseRecOn with
  | nil => simp at h
  | append_singleton front last ih =>
    by_cases hlast : last = '.'
    · subst hlast
      obtain ⟨front, c, k, hc, rfl⟩ := ih (by simpa [or_and_right, exists_or] using h)
      refine ⟨front, c, k + 1, hc, ?_⟩
      rw [List.replicate_succ', List.append_assoc, List.cons_append]
    · exact ⟨front, last, 0, hlast, rfl⟩

theorem noSlash_fileName (path : String) : '/' ∉ fileName path := by
  intro h
  rw [fileName, List.mem_reverse] at h
  simpa using List.mem_takeWhile_imp h

theorem exists_append_fileName (path : String) : ∃ front, path.toList = front ++ fileName path := by
  refine ⟨(path.toList.reverse.dropWhile (· != '/')).reverse, ?_⟩
  rw [fileName, ← List.reverse_append, List.takeWhile_append_dropWhile, List.reverse_reverse]

/-- What stands at the end of a path and has no slash is the end of its last name. -/
theorem exists_fileName_eq_append {path : String} {front last : List Char} (hlast : '/' ∉ last)
    (h : path.toList = front ++ last) : ∃ before, fileName path = before ++ last := by
  refine ⟨(front.reverse.takeWhile (· != '/')).reverse, ?_⟩
  rw [fileName, h, List.reverse_append, takeWhile_bne_append (by simpa using hlast),
    List.reverse_append, List.reverse_reverse]

theorem endsIn_iff {path : String} {after : List Char} :
    EndsIn path.toList after ↔ extensionOf (fileName path) = '.' :: after := by
  rw [extensionOf_eq_cons_iff, EndsIn]
  refine and_congr_right (fun _ => ⟨?_, ?_⟩)
  · rintro ⟨hslash, front, c, k, hc, hcslash, hpath⟩
    have hlast : '/' ∉ c :: (List.replicate k '.' ++ '.' :: after) := by
      simp [hcslash.symm, hslash]
    obtain ⟨before, hname⟩ := exists_fileName_eq_append hlast hpath
    exact ⟨before ++ c :: List.replicate k '.', by simp [hname], c, by simp, hc⟩
  · rintro ⟨stem, hname, hstem⟩
    obtain ⟨before, c, k, hc, rfl⟩ := exists_last_ne_point hstem
    obtain ⟨front, hpath⟩ := exists_append_fileName path
    have hslash := noSlash_fileName path
    rw [hname] at hslash hpath
    simp only [List.mem_append, List.mem_cons, not_or] at hslash
    exact ⟨hslash.2.2, front ++ before, c, k, hc, Ne.symm hslash.1.2.1, by simp [hpath]⟩

/-- A path has one extension, which is read off its end. -/
theorem isExtension_iff {path ext : String} : IsExtension path ext ↔ ext = Path.ext path := by
  have hread : ext = Path.ext path ↔ ext.toList = extensionOf (fileName path) := by
    rw [Path.ext, ← String.toList_inj, String.toList_ofList]
  rw [hread, IsExtension, ← String.toList_eq_nil_iff]
  simp only [endsIn_iff]
  rcases extensionOf_cases (fileName path) with hnone | ⟨after, hsome⟩
  · simp [hnone]
  · simp [hsome]

end Path

/-! ## What a scan is for -/

/-- The extensions to look for: those given, those of the settings if none are given, and those of
pages if pages are asked for. -/
def Settings.Seeks (s : Settings) (withPages : Bool) (extensions : Option (List String))
    (wanted : String) : Prop :=
  wanted ∈ extensions.getD [] ∨ (extensions.getD [] = [] ∧ wanted ∈ s.sourceExtensions) ∨
    (withPages = true ∧ wanted ∈ s.htmlExtensions)

/-- Folders below the root lead to a file that a scan is for: each is in the directory of those
before it and none has an ignored name. What they lead to counts as a file, and but for letter case
its extension is looked for. -/
structure Sought (d : Disk) (s : Settings) (withPages : Bool)
    (extensions ignored : Option (List String)) (root : String) (folders : Route) (name : String) :
    Prop where
  reached : ∃ top found, d.stat root = .ok top ∧ top.Reaches (folders ++ [name]) found ∧
    d.countsAsFile (Path.joinAll root folders) name found = true
  notIgnored : ∀ folder ∈ folders, folder ∉ ignored.getD s.ignoreDirs
  wanted : ∃ ext wanted, Path.IsExtension name ext ∧ s.Seeks withPages extensions wanted ∧
    Lowercase.lower wanted = Lowercase.lower ext

section Rules

variable {s : Settings} {withPages : Bool} {extensions ignored : Option (List String)}

theorem mem_extensions_scanRulesFor {wanted : String} :
    wanted ∈ (s.scanRulesFor withPages extensions ignored).extensions ↔
      s.Seeks withPages extensions wanted := by
  rw [Settings.scanRulesFor, Settings.Seeks, List.mem_append, ← or_assoc]
  refine or_congr ?_ ?_
  · rcases extensions with _ | (_ | ⟨first, rest⟩) <;> simp [Option.filter]
  · cases withPages <;> simp

theorem wants_scanRulesFor {name : String} :
    (s.scanRulesFor withPages extensions ignored).wants name = true ↔
      ∃ ext wanted, Path.IsExtension name ext ∧ s.Seeks withPages extensions wanted ∧
        Lowercase.lower wanted = Lowercase.lower ext := by
  rw [ScanRules.wants, List.contains_iff_mem, List.mem_map, Language.extensionOf]
  simp only [mem_extensions_scanRulesFor, Path.isExtension_iff, exists_and_left, exists_eq_left]

end Rules

/-- A root that is a directory is scanned without a failure. -/
theorem scanRoot_of_isDirectory {d : Disk} {root : String} (h : d.isDirectory root = true)
    (rules : ScanRules) : scanRoot d rules root = .ok (scan d rules root) := by
  unfold Disk.isDirectory at h
  split at h
  · rename_i entries hstat
    obtain ⟨route, hplace⟩ := exists_place_of_stat hstat
    have hnull := (Disk.usable_of_place hplace).1
    exact if_neg (by simpa using hnull)
  · cases h

/-- **A scan lists the files it is for.** The texts are in order, each comes once, and they are
those of the files that are sought, provided that no directory on the way to them, the root first,
has too long a path. -/
theorem scan_lists_sought (d : Disk) (s : Settings) (withPages : Bool)
    (extensions ignored : Option (List String)) (root : String) :
    (scan d (s.scanRulesFor withPages extensions ignored) root).Pairwise (· < ·) ∧
    ∀ text, text ∈ scan d (s.scanRulesFor withPages extensions ignored) root ↔
      ∃ folders name, text = routeText (folders ++ [name]) ∧
        Sought d s withPages extensions ignored root folders name ∧
        ∀ above, above <+: folders →
          (Path.joinAll root above).utf8ByteSize ≤ Disk.longestPath := by
  refine ⟨Sorted.ascending_distinct _, fun text => ?_⟩
  rw [mem_scan_iff]
  constructor
  · rintro ⟨dir, top, hplace, route, hlisted, hwants, rfl⟩
    obtain ⟨folders, name, found, rfl, hreaches, hfile, hskips, hsizes⟩ :=
      Disk.listed_iff.mp hlisted
    have hstat : d.stat root = .ok top := by rw [Disk.stat, hplace]
    rw [ScanRules.wantsRoute, List.getLast?_concat] at hwants
    exact ⟨folders, name, rfl, ⟨⟨top, found, hstat, hreaches, hfile⟩, hskips,
      wants_scanRulesFor.mp hwants⟩, hsizes⟩
  · rintro ⟨folders, name, rfl, ⟨⟨top, found, hstat, hreaches, hfile⟩, hskips, hwanted⟩, hsizes⟩
    obtain ⟨dir, hplace⟩ := exists_place_of_stat hstat
    refine ⟨dir, top, hplace, folders ++ [name], Disk.listed_iff.mpr
      ⟨folders, name, found, rfl, hreaches, hfile, hskips, hsizes⟩, ?_, rfl⟩
    rw [ScanRules.wantsRoute, List.getLast?_concat]
    exact wants_scanRulesFor.mpr hwanted

/-! ## A path that is too long -/

namespace Disk

/-- The working directory, said so many times. -/
def points : Nat → String
  | 0 => ""
  | n + 1 => "./" ++ points n

theorem utf8ByteSize_points (n : Nat) : (points n).utf8ByteSize = 2 * n := by
  induction n with
  | zero => rfl
  | succ n ih =>
    have hone : "./".utf8ByteSize = 2 := by decide
    rw [points, String.utf8ByteSize_append, ih, hone]
    omega

theorem toList_points_succ (n : Nat) :
    (points (n + 1)).toList = '.' :: '/' :: (points n).toList := by
  rw [points, String.toList_append]
  rfl

theorem noNull_points (n : Nat) : '\x00' ∉ (points n).toList := by
  induction n with
  | zero => simp [points]
  | succ n ih => simp [toList_points_succ, ih]

theorem names_points (n : Nat) : names (points n) = List.replicate n "." ++ [""] := by
  induction n with
  | zero => rfl
  | succ n ih =>
    have hsplit : Path.splitSlash (points (n + 1)).toList =
        ['.'] :: Path.splitSlash (points n).toList := by
      rw [toList_points_succ]
      rfl
    rw [names, hsplit, List.map_cons, ← names, ih, List.replicate_succ]
    rfl

theorem follow_points {top : Entry} {followLast : Bool}
    {atLink : Route → String → List String → Except DiskError Place} {back : Route}
    {entries : List (String × Entry)} (hdir : top.at? back.reverse = some (.directory entries))
    (n : Nat) : follow top followLast atLink back (names (points n)) =
      .ok (.found back.reverse (.directory entries)) := by
  rw [names_points]
  induction n with
  | zero =>
    rw [List.replicate_zero, List.nil_append, follow_idle hdir (Or.inl rfl), follow, hdir]
  | succ n ih => rw [List.replicate_succ, List.cons_append, follow_idle hdir (Or.inr rfl), ih]

/-- A file in the working directory and one in a folder of it. -/
def folderDisk : Disk where
  top := .directory [("v", .directory
    [("components", .directory [("a.js", .file [])]), ("top.js", .file [])])]
  cwd := "/v"
  rooted := rfl

theorem place_points {n : Nat} (hpos : n ≠ 0) (hsize : 2 * n ≤ longestPath) :
    folderDisk.place true (points n) = .ok (.found ["v"] (.directory
      [("components", .directory [("a.js", .file [])]), ("top.js", .file [])])) := by
  obtain ⟨m, rfl⟩ := Nat.exists_eq_succ_of_ne_zero hpos
  obtain ⟨atLink, hfollow⟩ := exists_followLinks_eq folderDisk.top true linkLimit
  have hrelative : Path.isRooted (points (m + 1)) = false := by
    rw [Path.isRooted, toList_points_succ]
    rfl
  have hne : points (m + 1) ≠ "" := by
    rw [← String.toList_inj.ne, toList_points_succ]
    exact List.cons_ne_nil _ _
  have hstart : folderDisk.startOf (points (m + 1)) = ["v"] := by
    rw [startOf, hrelative]
    decide
  rw [place, if_neg (by simpa using noNull_points (m + 1)), if_neg (by simpa using hne),
    utf8ByteSize_points, if_neg (Nat.not_lt.mpr hsize), hfollow, hstart]
  exact follow_points rfl (m + 1)

end Disk

/-- The root is short enough, and with the folder's name after it it is not: the file in the folder
is sought, and the scan passes it over. -/
theorem long_path_passed_over :
    Sought Disk.folderDisk .standard false none none (Disk.points 2045) ["components"] "a.js" ∧
      scan Disk.folderDisk (Settings.standard.scanRulesFor false none none) (Disk.points 2045) =
        ["top.js"] := by
  have hroot := Disk.place_points (n := 2045) (by decide) (by decide)
  have hlong : Disk.longestPath <
      (Path.join (Disk.points 2045) "components").utf8ByteSize := by
    have hjoin := Path.utf8ByteSize_add_le_join (Disk.points 2045)
      (by decide : Path.isRooted "components" = false)
    have hname : "components".utf8ByteSize = 10 := by decide
    rw [Disk.utf8ByteSize_points, hname] at hjoin
    exact Nat.lt_of_lt_of_le (by decide) hjoin
  have hstat : Disk.folderDisk.stat (Disk.points 2045) = .ok (.directory
      [("components", .directory [("a.js", .file [])]), ("top.js", .file [])]) := by
    rw [Disk.stat, hroot]
  refine ⟨⟨⟨_, .file [], hstat, .step List.mem_cons_self (.step List.mem_cons_self .here), rfl⟩,
    by decide, ".js", ".js", Path.isExtension_iff.mpr (by decide),
    Or.inr (Or.inl ⟨rfl, by decide⟩), rfl⟩, ?_⟩
  rw [scan, Disk.files, hroot]
  dsimp only
  rw [Disk.filesBelow, Disk.utf8ByteSize_points, if_neg (by decide), Disk.filesAmong,
    Disk.filesBelow, if_pos hlong, Disk.filesAmong, Disk.filesAmong]
  decide

end CodeGraph
