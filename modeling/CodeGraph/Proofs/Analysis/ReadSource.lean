import CodeGraph.Analysis.ReadSource
import CodeGraph.Proofs.Disk.RealPath

/-!
# Files that are served lie in the root

A request for a file is checked on the text of its real path and then opened, which follows links
once more. Where all links of the request that are seen can be followed, the two come to the same
place, so the file that is opened lies in the root, if the links that lead to the root are in sight.
A request that runs into a loop of links is checked on a text that still has links in it, and such a
request can reach a file outside.

* `Disk.fileAt?`, `Disk.directoryAt?`: what opening a path reaches, with its route from the top.
* `realPlace_eq_ok`, `readSource_eq_ok`: what has been checked and read when a text is served.
-/

namespace CodeGraph

namespace Disk

/-! ## What opening a path reaches -/

/-- The route and the bytes of the file that is opened at a path. -/
def fileAt? (d : Disk) (path : String) : Option (Route × Bytes) :=
  match d.place true path with
  | .ok (.found route (.file data)) => some (route, data)
  | _ => none

/-- The route of the directory that is opened at a path. -/
def directoryAt? (d : Disk) (path : String) : Option Route :=
  match d.place true path with
  | .ok (.found route (.directory _)) => some route
  | _ => none

variable {d : Disk} {path : String} {route : Route} {data : Bytes}

theorem fileAt?_eq_some :
    d.fileAt? path = some (route, data) ↔ d.place true path = .ok (.found route (.file data)) := by
  unfold fileAt?
  split <;> simp_all

theorem directoryAt?_eq_some :
    d.directoryAt? path = some route ↔
      ∃ entries, d.place true path = .ok (.found route (.directory entries)) := by
  unfold directoryAt?
  split <;> simp_all

theorem exists_fileAt? (h : d.read path = .ok data) :
    ∃ route, d.fileAt? path = some (route, data) := by
  unfold read stat at h
  cases hplace : d.place true path with
  | error e => simp [hplace] at h
  | ok place =>
    cases place with
    | vacant => simp [hplace] at h
    | found route e =>
      cases e with
      | file found =>
        obtain rfl : found = data := by simpa [hplace] using h
        exact ⟨route, fileAt?_eq_some.mpr hplace⟩
      | directory | link => simp [hplace] at h

theorem exists_directoryAt? (h : d.isDirectory path = true) :
    ∃ route, d.directoryAt? path = some route := by
  unfold isDirectory stat at h
  cases hplace : d.place true path with
  | error e => simp [hplace] at h
  | ok place =>
    cases place with
    | vacant => simp [hplace] at h
    | found route e =>
      cases e with
      | directory entries => exact ⟨route, directoryAt?_eq_some.mpr ⟨entries, hplace⟩⟩
      | file | link => simp [hplace] at h

end Disk

/-! ## Served files -/

variable {d : Disk} {root path text full : String}

theorem validateRoot_eq_ok {place : String} (h : validateRoot d root = .ok place) :
    place = Path.absolute d.cwd root ∧ d.isDirectory place = true := by
  unfold validateRoot at h
  dsimp only at h
  split_ifs at h with hexists hdirectory
  cases h
  exact ⟨rfl, by simpa using hdirectory⟩

/-- What has been checked of a request before its file is opened. -/
theorem realPlace_eq_ok (h : realPlace d root path = .ok full) :
    d.isDirectory (Path.absolute d.cwd root) = true ∧
      full = d.realPath (Path.join (Path.absolute d.cwd root) path) ∧
      Path.isWithin d.cwd (d.realPath (Path.absolute d.cwd root)) full = true := by
  unfold realPlace at h
  split at h
  · cases h
  · rename_i place hplace
    obtain ⟨rfl, hdirectory⟩ := validateRoot_eq_ok hplace
    split at h
    · cases h
    · dsimp only at h
      split at h
      · rename_i hwithin
        have hreal := Except.ok.inj h
        exact ⟨hdirectory, hreal.symm, hreal ▸ hwithin⟩
      · cases h

theorem readSource_eq_ok (h : readSource d root path = .ok text) :
    ∃ full data, realPlace d root path = .ok full ∧ d.read full = .ok data ∧
      text = fileText data := by
  unfold readSource at h
  split at h
  · cases h
  · rename_i full hfull
    split at h
    · rename_i data hdata
      cases h
      exact ⟨full, data, hfull, hdata, rfl⟩
    · cases h

/-- The route of a root that is in sight is above that of a file exactly if the real path of the
root is above that of the file's path, if that is in sight too. -/
theorem prefix_iff_isWithin {rootRoute fileRoute : Route} {data : Bytes}
    (hroot : d.directoryAt? root = some rootRoute) (hfile : d.fileAt? full = some (fileRoute, data))
    (hrooted : Path.isRooted root = true) (hfull : Path.isRooted full = true)
    (hsight : d.InSight root) (hsightFull : d.InSight full) :
    rootRoute <+: fileRoute ↔
      Path.isWithin d.cwd (d.realPath root) (d.realPath full) = true := by
  obtain ⟨entries, hrootPlace⟩ := Disk.directoryAt?_eq_some.mp hroot
  have hfilePlace := Disk.fileAt?_eq_some.mp hfile
  rw [Disk.realPath_of_place hsight hrooted hrootPlace,
    Disk.realPath_of_place hsightFull hfull hfilePlace]
  exact (Disk.isWithin_of_places hrooted hrootPlace hfull hfilePlace).symm

/-- **A served file is the one that was checked.** If all links of a request that are seen can be
followed, its file is opened at the place that was checked, and it lies in the root if the root is
in sight. After a loop of links the place that was checked may have links of its own; the file then
lies in the root exactly if that place still does once they have been followed, as far as they are
in sight. -/
theorem readSource_within_root_iff (h : readSource d root path = .ok text) :
    ∃ full rootRoute fileRoute data,
      realPlace d root path = .ok full ∧
      d.directoryAt? (Path.absolute d.cwd root) = some rootRoute ∧
      d.fileAt? full = some (fileRoute, data) ∧
      d.top.at? fileRoute = some (.file data) ∧
      text = fileText data ∧
      (d.Resolves (Path.join (Path.absolute d.cwd root) path) →
        full = Disk.routePath fileRoute) ∧
      (d.InSight (Path.absolute d.cwd root) →
        (d.InSight full →
          (rootRoute <+: fileRoute ↔ Path.isWithin d.cwd
            (d.realPath (Path.absolute d.cwd root)) (d.realPath full) = true)) ∧
        (d.Resolves (Path.join (Path.absolute d.cwd root) path) →
          rootRoute <+: fileRoute)) := by
  obtain ⟨full, data, hfull, hread, htext⟩ := readSource_eq_ok h
  obtain ⟨hdirectory, hreal, hchecked⟩ := realPlace_eq_ok hfull
  obtain ⟨rootRoute, hroot⟩ := Disk.exists_directoryAt? hdirectory
  obtain ⟨fileRoute, hfile⟩ := Disk.exists_fileAt? hread
  have hrootRooted := Path.isRooted_absolute d.rooted root
  have hfullRooted : Path.isRooted full = true := hreal ▸ Disk.isRooted_realPath d _
  have hopened := Disk.fileAt?_eq_some.mp hfile
  have hplace (hresolves : d.Resolves (Path.join (Path.absolute d.cwd root) path)) :
      full = Disk.routePath fileRoute := by
    obtain ⟨n, r, hleads⟩ := hresolves
    have hroute : fileRoute = r.reverse := Disk.route_of_realPath hleads (hreal ▸ hopened)
    rw [hreal, Disk.realPath_of_leads hleads, hroute]
  refine ⟨full, rootRoute, fileRoute, data, hfull, hroot, hfile,
    (Disk.leads_of_place hfullRooted hopened).2, htext, hplace,
    fun hsight => ⟨prefix_iff_isWithin hroot hfile hrootRooted hfullRooted hsight,
      fun hresolves => ?_⟩⟩
  -- the checked place has no links, so it is in sight and what was checked of it is what is asked
  have hown := hplace hresolves
  have hsightFull : d.InSight full := by
    rw [hown]
    exact Disk.inSight_routePath hfullRooted hopened
  refine (prefix_iff_isWithin hroot hfile hrootRooted hfullRooted hsight hsightFull).mpr ?_
  rw [Disk.realPath_of_place hsightFull hfullRooted hopened, ← hown]
  exact hchecked

/-- A root with a link to a directory inside it. -/
def Disk.linked : Disk where
  top := .directory
    [("w", .directory [("src", .directory [("a.js", .file [49])]), ("lib", .link "src")])]
  cwd := "/w"
  rooted := by decide

theorem linked_file_within_root :
    readSource .linked "." "lib/./a.js" = .ok "1" ∧
      ∃ full rootRoute fileRoute data, realPlace .linked "." "lib/./a.js" = .ok full ∧
        Disk.linked.directoryAt? (Path.absolute Disk.linked.cwd ".") = some rootRoute ∧
        Disk.linked.fileAt? full = some (fileRoute, data) ∧ rootRoute <+: fileRoute := by
  have hread : readSource .linked "." "lib/./a.js" = .ok "1" := by decide
  have hlinks : Disk.linked.fileAt? "/w/lib/./a.js" = some (["w", "src", "a.js"], [49]) := by
    decide +kernel
  have hjoin : Path.join (Path.absolute Disk.linked.cwd ".") "lib/./a.js" = "/w/lib/./a.js" := by
    decide
  have hshort : ∀ here ∈ Disk.linkRoutes [] Disk.linked.top,
      (Disk.routePath here.reverse).utf8ByteSize ≤ Disk.longestPath := by decide
  have hresolves : Disk.linked.Resolves "/w/lib/./a.js" :=
    (Disk.inSight_of_place hshort (by decide) (Disk.fileAt?_eq_some.mp hlinks)).resolves
  obtain ⟨full, rootRoute, fileRoute, data, hfull, hroot, hfile, -, -, -, hwithin⟩ :=
    readSource_within_root_iff hread
  obtain ⟨entries, hplace⟩ := Disk.directoryAt?_eq_some.mp hroot
  have hsight := Disk.inSight_of_place hshort (Path.isRooted_absolute Disk.linked.rooted ".") hplace
  exact ⟨hread, full, rootRoute, fileRoute, data, hfull, hroot, hfile,
    (hwithin hsight).2 (hjoin ▸ hresolves)⟩

/-- A root with a link to itself and a link to the directory above, and a file beside the root. -/
def Disk.looped : Disk where
  top := .directory
    [("secret.txt", .file [108, 101, 97, 107]),
     ("w", .directory [("loop", .link "loop"), ("out", .link "..")])]
  cwd := "/w"
  rooted := by decide

/-- After a loop of links the rest of a request is not looked at, and a link in it leads out of the
root when the file is opened. -/
theorem loop_leads_out_of_root :
    readSource .looped "." "loop/../out/secret.txt" = .ok "leak" ∧
      realPlace .looped "." "loop/../out/secret.txt" = .ok "/w/out/secret.txt" ∧
      Disk.looped.directoryAt? (Path.absolute Disk.looped.cwd ".") = some ["w"] ∧
      Disk.looped.fileAt? "/w/out/secret.txt" = some (["secret.txt"], [108, 101, 97, 107]) ∧
      ¬ ["w"] <+: ["secret.txt"] := by
  decide +kernel

end CodeGraph
