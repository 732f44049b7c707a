import CodeGraph.Proofs.Analysis.ReadSource
import CodeGraph.Proofs.Disk.Listing
import CodeGraph.Resolve

/-!
# Relative specifiers lead back to the file they were written for

From a file one may address another by leaving directories until both are below the same one, and
then naming the rest of the way. `base_eq` says which names a specifier amounts to when it is read
in a file below a root; for such an address they are the names of the addressed file
(`normalParts_detour`), so it is the first candidate, and it is found (`addressed_file_found`).
-/

namespace CodeGraph

/-- Where a file is below a root: the names on its way, at least one. -/
structure Address where
  names : Route
  ne_nil : names ≠ []
  plain : ∀ name ∈ names, Path.Plain name.toList

namespace Address

/-- The path of the file, relative to the root. -/
def text (a : Address) : String :=
  routeText a.names

/-- The directories on the way to the file. -/
def folder (a : Address) : Route :=
  a.names.dropLast

/-- The components of the path. -/
def parts (a : Address) : List (List Char) :=
  a.names.map String.toList

theorem plain_parts (a : Address) : ∀ part ∈ a.parts, Path.Plain part := by
  intro part hpart
  obtain ⟨name, hname, rfl⟩ := List.mem_map.mp hpart
  exact a.plain name hname

theorem plain_folder (a : Address) : ∀ name ∈ a.folder, Path.Plain name.toList :=
  fun name hname => a.plain name (List.mem_of_mem_dropLast hname)

theorem isRooted_text (a : Address) : Path.isRooted a.text = false :=
  isRooted_routeText a.plain

theorem splitSlash_text (a : Address) : Path.splitSlash a.text.toList = a.parts := by
  rw [text, routeText_eq, String.toList_ofList]
  exact Path.splitSlash_joinSlash (by simpa using a.ne_nil) (fun part hpart =>
    (a.plain_parts part hpart).noSlash)

theorem parts_directory_text (a : Address) :
    Path.parts (Path.directory a.text) = a.folder.map String.toList := by
  rw [Path.parts_directory, splitSlash_text, List.filter_eq_self.mpr, parts, folder,
    List.map_dropLast]
  intro part hpart
  simpa using (a.plain_parts part (List.mem_of_mem_dropLast hpart)).ne_nil

theorem join_text {root : String} (hroot : Path.IsNormal root) (a : Address) :
    Path.join root a.text = Path.below root a.parts := by
  rw [text, routeText_eq]
  exact Path.join_joinSlash hroot a.plain_parts (by simpa [parts] using a.ne_nil)

end Address

namespace Path

/-! ## Ways up and down -/

theorem foldl_push_up {kept : List (List Char)} (h : ∀ part ∈ kept, Plain part) (k : Nat) :
    (List.replicate k up).foldl (push true) kept = kept.drop k := by
  induction k generalizing kept with
  | zero => rfl
  | succ k ih =>
    rw [List.replicate_succ, List.foldl_cons, push_up h,
      ih (fun part hpart => h part (List.mem_of_mem_tail hpart)), List.drop_tail]

/-- Leaving directories and naming the rest of the way comes to the place below what is shared. -/
theorem normalParts_detour {shared left rest : List (List Char)}
    (hshared : ∀ part ∈ shared, Plain part) (hleft : ∀ part ∈ left, Plain part)
    (hrest : ∀ part ∈ rest, Plain part) :
    normalParts true (shared ++ left ++ here :: (List.replicate left.length up ++ rest)) =
      shared ++ rest := by
  have hdown : ∀ part ∈ shared ++ left, Plain part := fun part hpart =>
    (List.mem_append.mp hpart).elim (hshared part) (hleft part)
  have hhere : ∀ kept, push true kept here = kept := fun kept => rfl
  rw [normalParts, List.foldl_append, foldl_push_plain hdown, List.append_nil, List.foldl_cons,
    hhere, List.foldl_append, foldl_push_up (fun part hpart =>
      hdown part (List.mem_reverse.mp hpart)), List.reverse_append,
    List.drop_left' (List.length_reverse), foldl_push_plain hrest]
  simp

end Path

namespace Resolve

/-! ## What a specifier names -/

/-- A specifier in a file below a root names what the components of the root, of the file's
directory and of the specifier amount to. -/
theorem base_eq {root file spec : String} (hroot : Path.isRooted root = true)
    (hfile : Path.isRooted file = false) (hspec : Path.isRooted spec = false) :
    base spec (Path.join root file) =
      String.ofList (Path.leading root.toList ++ Path.joinSlash (Path.normalParts true
        (Path.parts root ++ Path.parts (Path.directory file) ++ Path.parts spec))) := by
  have hlead : Path.leading (Path.directory (Path.join root file)).toList =
      Path.leading root.toList := by
    rw [Path.leading_directory, Path.leading_join hroot hfile]
  have hdir : Path.isRooted (Path.directory (Path.join root file)) = true := by
    rw [Path.isRooted_iff_leading, hlead]
    exact (Path.isRooted_iff_leading root).mp hroot
  rw [base, Path.normalize_of_isRooted (Path.isRooted_join hdir spec),
    Path.leading_join hdir hspec, hlead, Path.components_eq, Path.parts_join _ hspec,
    Path.parts_directory_join root hfile]

/-- The specifier that leaves some directories and then names the rest of the way. -/
def wayTo (left rest : Route) : String :=
  routeText ("." :: (List.replicate left.length ".." ++ rest))

theorem head?_wayTo (left rest : Route) : (wayTo left rest).toList.head? = some '.' := by
  rw [wayTo, routeText_eq, String.toList_ofList, List.map_cons]
  cases (List.replicate left.length ".." ++ rest).map String.toList <;> rfl

theorem isLocal_iff (spec : String) :
    isLocal spec = true ↔ spec.toList.head? = some '.' ∨ spec.toList.head? = some '/' := by
  rw [isLocal, Bool.or_eq_true, String.startsWith_string_iff, String.startsWith_string_iff,
    List.head?_eq_some_iff, List.head?_eq_some_iff]
  exact or_congr ⟨fun ⟨more, h⟩ => ⟨more, h.symm⟩, fun ⟨more, h⟩ => ⟨more, h.symm⟩⟩
    ⟨fun ⟨more, h⟩ => ⟨more, h.symm⟩, fun ⟨more, h⟩ => ⟨more, h.symm⟩⟩

theorem isLocal_of_head? {spec : String} (h : spec.toList.head? = some '.') :
    isLocal spec = true :=
  (isLocal_iff spec).mpr (Or.inl h)

theorem isRooted_of_head? {spec : String} (h : spec.toList.head? = some '.') :
    Path.isRooted spec = false := by
  rw [Path.isRooted, h]
  rfl

theorem parts_wayTo (left : Route) {rest : Route}
    (hrest : ∀ name ∈ rest, Path.Plain name.toList) :
    Path.parts (wayTo left rest) =
      Path.here :: (List.replicate left.length Path.up ++ rest.map String.toList) := by
  have hnames : ("." :: (List.replicate left.length ".." ++ rest)).map String.toList =
      Path.here :: (List.replicate left.length Path.up ++ rest.map String.toList) := by
    simp only [List.map_cons, List.map_append, List.map_replicate]
    rfl
  rw [wayTo, routeText_eq, hnames]
  refine Path.parts_joined (fun part hpart => ?_) 0
  rcases List.mem_cons.mp hpart with rfl | hpart
  · decide
  · rcases List.mem_append.mp hpart with hup | hpart
    · rw [List.eq_of_mem_replicate hup]
      decide
    · obtain ⟨name, hname, rfl⟩ := List.mem_map.mp hpart
      exact ⟨(hrest name hname).ne_nil, (hrest name hname).noSlash⟩

/-- The way from a file's directory to another file names that file. -/
theorem base_wayTo {root : String} (hroot : Path.IsNormal root) {f g : Address}
    {shared left rest : Route} (hg : g.folder = shared ++ left) (hf : f.names = shared ++ rest) :
    base (wayTo left rest) (Path.join root g.text) = Path.join root f.text := by
  have hfolder : ∀ name ∈ shared ++ left, Path.Plain name.toList := hg ▸ g.plain_folder
  have hnames : ∀ name ∈ shared ++ rest, Path.Plain name.toList := hf ▸ f.plain
  have hshared : ∀ part ∈ Path.components root ++ shared.map String.toList, Path.Plain part :=
    Path.plain_components_append root (by
      simpa using fun name hname => hnames name (List.mem_append_left _ hname))
  have hspec := isRooted_of_head? (head?_wayTo left rest)
  have hlength : left.length = (left.map String.toList).length := (List.length_map _).symm
  rw [base_eq hroot.rooted g.isRooted_text hspec, hroot.parts_eq, g.parts_directory_text, hg,
    parts_wayTo left (fun name hname => hnames name (List.mem_append_right _ hname)),
    List.map_append, ← List.append_assoc, hlength,
    Path.normalParts_detour hshared, f.join_text hroot, Address.parts, hf, List.map_append,
    Path.below, List.append_assoc]
  · simpa using fun name hname => hfolder name (List.mem_append_right _ hname)
  · simpa using fun name hname => hnames name (List.mem_append_right _ hname)

/-- **Resolving a relative specifier undoes relative addressing.** Below a normal root with an
ordinary tree, the way from one file to another, through any directory that both are below, is
resolved to the path of the other file, whatever extensions are tried. It is the path under which a
scan lists the file when it takes it in. -/
theorem addressed_file_found {d : Disk} {root : String} {e : Entry} (hroot : Path.IsNormal root)
    (hstat : d.stat root = .ok e) (htree : e.Ordinary) {f g : Address}
    (hfile : d.isFile (Path.join root f.text) = true) {shared left rest : Route}
    (hg : g.folder = shared ++ left) (hf : f.names = shared ++ rest)
    (extensions : List String) :
    target? d extensions (wayTo left rest) (Path.join root g.text) root = some f.text ∧
    ∀ rules : ScanRules, f.text ∈ scan d rules root ↔
      rules.wantsRoute f.names = true ∧
        ∀ name ∈ f.folder, name ∉ rules.ignoredDirectories := by
  refine ⟨?_, routeText_mem_scan hroot.rooted hstat htree f.ne_nil f.plain hfile⟩
  have hmember : isMember d root (Path.join root f.text) = true := by
    rw [isMember, hfile, Bool.true_and, f.join_text hroot]
    exact Path.isWithin_below d.cwd hroot f.plain_parts
  have hpath : Path.relative d.cwd root (Path.join root f.text) = f.text := by
    rw [f.join_text hroot, Path.relative_below d.cwd hroot f.plain_parts, if_neg, Address.text,
      routeText_eq, Address.parts]
    simpa [Address.parts] using f.ne_nil
  rw [target?, if_pos (isLocal_of_head? (head?_wayTo left rest)), base_wayTo hroot hg hf,
    candidates, List.find?_cons_of_pos hmember, Option.map_some, hpath]

theorem stat_of_directoryAt? {d : Disk} {path : String} {route : Route} {e : Entry}
    (hrooted : Path.isRooted path = true) (h : d.directoryAt? path = some route)
    (hat : d.top.at? route = some e) : d.stat path = .ok e := by
  obtain ⟨entries, hplace⟩ := Disk.directoryAt?_eq_some.mp h
  have hfound := (Disk.leads_of_place hrooted hplace).2
  rw [hat] at hfound
  rw [Disk.stat, hplace, Option.some.inj hfound]

/-- The entries of a project with two folders in its sources. -/
def twoFolders : List (String × Entry) :=
  [("src", .directory
    [("lib", .directory [("b.js", .file [])]), ("ui", .directory [("a.ts", .file [])])])]

/-- A disk with that project. -/
def twoFoldersDisk : Disk where
  top := .directory [("p", .directory twoFolders)]
  cwd := "/"
  rooted := rfl

/-- A file in a neighbouring folder is addressed through the folder above. -/
theorem neighbour_found :
    twoFoldersDisk.isFile "/p/src/lib/b.js" = true ∧
      target? twoFoldersDisk [".ts"] "./../lib/b.js" "/p/src/ui/a.ts" "/p" =
        some "src/lib/b.js" ∧
      "src/lib/b.js" ∈ scan twoFoldersDisk ⟨[".js"], ["dist"]⟩ "/p" := by
  let f : Address := ⟨["src", "lib", "b.js"], by decide, by decide⟩
  let g : Address := ⟨["src", "ui", "a.ts"], by decide, by decide⟩
  have hroot : Path.IsNormal "/p" := ⟨by decide, by decide⟩
  have hdir : twoFoldersDisk.directoryAt? "/p" = some ["p"] := by decide
  have hstat : twoFoldersDisk.stat "/p" = .ok (.directory twoFolders) :=
    stat_of_directoryAt? hroot.rooted hdir rfl
  have htree : (Entry.directory twoFolders).Ordinary := ⟨by decide, by decide⟩
  have hf : f.text = "src/lib/b.js" := by decide
  have hpath : Path.join "/p" "src/lib/b.js" = "/p/src/lib/b.js" := by decide
  have hfrom : Path.join "/p" g.text = "/p/src/ui/a.ts" := by decide
  have hway : wayTo ["ui"] ["lib", "b.js"] = "./../lib/b.js" := by decide
  have hfile : twoFoldersDisk.isFile "/p/src/lib/b.js" = true := by decide
  have hshared : g.folder = ["src"] ++ ["ui"] := rfl
  have hnames : f.names = ["src"] ++ ["lib", "b.js"] := rfl
  obtain ⟨hfound, hscan⟩ := addressed_file_found hroot hstat htree
    (by rwa [hf, hpath]) hshared hnames [".ts"]
  rw [hway, hfrom, hf] at hfound
  rw [hf] at hscan
  exact ⟨hfile, hfound, (hscan ⟨[".js"], ["dist"]⟩).mpr ⟨by decide, by decide⟩⟩

end Resolve

end CodeGraph
