import CodeGraph.Proofs.Analysis.Coverage
import CodeGraph.Proofs.Analysis.ReadSource
import CodeGraph.Proofs.Disk.NullCharacters
import CodeGraph.Service

/-!
# The answers to a request for a file

A request for a file is answered in one of five ways (`FileAnswer`), each with its status and its
words. A request without a null character always gets the answer that is due. With one, looking the
path up may fail in a way that is not answered: it does if the names in front of the character lead
somewhere along the links that are seen, and only a loop of links in front of it can prevent that.
-/

namespace CodeGraph

namespace Disk

/-! ## Lookups that come upon a null character -/

variable {top : Entry} {followLast : Bool} {back : Route} {xs : List String}

theorem follow_ne_nullCharacter {atLink : Route → String → List String → Except DiskError Place}
    (hatLink : ∀ back target rest, atLink back target rest ≠ .error .nullCharacter) :
    follow top followLast atLink back xs ≠ .error .nullCharacter := by
  induction xs generalizing back with
  | nil =>
    unfold follow
    split <;> simp
  | cons name rest ih =>
    unfold follow
    split
    · rename_i entries _
      by_cases hidle : (name == "" || name == ".") = true
      · rw [if_pos hidle]
        exact ih
      by_cases hup : (name == "..") = true
      · rw [if_neg hidle, if_pos hup]
        exact ih
      by_cases hlong : longestName < name.utf8ByteSize
      · rw [if_neg hidle, if_neg hup, if_pos hlong]
        simp
      rw [if_neg hidle, if_neg hup, if_neg hlong]
      split
      · split <;> simp
      · split
        · simp
        · exact hatLink _ _ _
      · exact ih
    · simp
    · simp

theorem followLinks_ne_nullCharacter (n : Nat) :
    followLinks top followLast n back xs ≠ .error .nullCharacter := by
  induction n generalizing back xs with
  | zero => exact follow_ne_nullCharacter (fun _ _ _ => by simp)
  | succ n ih => exact follow_ne_nullCharacter (fun _ _ _ => ih)

/-- Opening a path fails for a null character only if the path has one. -/
theorem null_of_read {d : Disk} {path : String} (h : d.read path = .error .nullCharacter) :
    '\x00' ∈ path.toList := by
  have hplace : d.place true path = .error .nullCharacter := by
    unfold read stat at h
    cases hplace : d.place true path with
    | error e => simpa [hplace] using h
    | ok place =>
      rw [hplace] at h
      cases place with
      | vacant => simp at h
      | found route e => cases e <;> simp at h
  unfold place at hplace
  split at hplace
  · rename_i hnull
    simpa using hnull
  · split at hplace
    · cases hplace
    · split at hplace
      · cases hplace
      · exact absurd hplace (followLinks_ne_nullCharacter _)

end Disk

/-! ## Reading a file of a directory -/

/-- The real place of a path is in the real place of a root. -/
def LiesIn (d : Disk) (root path : String) : Prop :=
  Path.isWithin d.cwd (d.realPath root) (d.realPath (Path.join root path)) = true

section Reading

variable {d : Disk} {root path : String}

/-- Where all links of a path that are seen can be followed, it lies in a root that is in sight if
its route is below the root's. -/
theorem liesIn_iff {rootRoute r : Route} {n : Nat} (hrooted : Path.isRooted root = true)
    (hroot : d.directoryAt? root = some rootRoute) (hsight : d.InSight root)
    (hpath : Disk.Leads d.linkSeen? n [] (Disk.names (Path.join root path)) r) :
    LiesIn d root path ↔ rootRoute <+: r.reverse := by
  obtain ⟨entries, hplace⟩ := Disk.directoryAt?_eq_some.mp hroot
  have hreal : d.realPath (Path.join root path) = Disk.routePath r.reverse := by
    refine Disk.realPath_of_leads (n := n) ?_
    rwa [Path.join_of_isRooted d.cwd (Path.isRooted_join hrooted path)]
  have hsettled := hpath.settled (fun x hx => Disk.noSlash_of_mem_names hx) trivial
  have hroutes := (Disk.settled_of_place hrooted hplace).isWithin_routePath d.cwd hsettled
  rw [List.reverse_reverse] at hroutes
  rw [LiesIn, hreal, Disk.realPath_of_place hsight hrooted hplace]
  exact hroutes

/-- What is read by the real path of a path is the file at the route that the path leads to. -/
theorem at?_of_read_realPath {r : Route} {n : Nat} {data : Bytes}
    (hrooted : Path.isRooted path = true)
    (hpath : Disk.Leads d.linkSeen? n [] (Disk.names path) r)
    (hread : d.read (d.realPath path) = .ok data) : d.top.at? r.reverse = some (.file data) := by
  obtain ⟨route, hfile⟩ := Disk.exists_fileAt? hread
  have hplace := Disk.fileAt?_eq_some.mp hfile
  rw [← Path.join_of_isRooted d.cwd hrooted] at hpath
  rw [← Disk.route_of_realPath hpath hplace]
  exact (Disk.leads_of_place (Disk.isRooted_realPath d path) hplace).2

theorem realPlace_of_null (hroot : d.isDirectory (Path.absolute d.cwd root) = true)
    (hnull : d.meetsNull (Path.join (Path.absolute d.cwd root) path) = true) :
    realPlace d root path = .error (.disk .nullCharacter) := by
  unfold realPlace
  rw [validateRoot_of_isDirectory hroot]
  exact if_pos hnull

theorem realPlace_of_noNull (hroot : d.isDirectory (Path.absolute d.cwd root) = true)
    (hnull : d.meetsNull (Path.join (Path.absolute d.cwd root) path) = false) :
    realPlace d root path =
      if Path.isWithin d.cwd (d.realPath (Path.absolute d.cwd root))
          (d.realPath (Path.join (Path.absolute d.cwd root) path)) then
        .ok (d.realPath (Path.join (Path.absolute d.cwd root) path))
      else .error (.analysis (.escapes path)) := by
  unfold realPlace
  rw [validateRoot_of_isDirectory hroot]
  exact if_neg (Bool.not_eq_true _ ▸ hnull)

theorem readSource_of_error {e : Failure} (h : realPlace d root path = .error e) :
    readSource d root path = .error e := by
  unfold readSource
  rw [h]

theorem readSource_of_place {full : String} {outcome : Except DiskError Bytes}
    (h : realPlace d root path = .ok full) (hread : d.read full = outcome) :
    readSource d root path = (outcome.map fileText).mapError .disk := by
  unfold readSource
  rw [h]
  dsimp only
  rw [hread]
  cases outcome <;> rfl

end Reading

namespace Service

/-! ## The answers -/

/-- The answer that is due to a request for a file. -/
inductive FileAnswer (s : Service) (d : Disk) (path : String) : Response → Prop
  | nothing : s.latest = none →
    FileAnswer s d path (.refusal 404 "No graph loaded. POST to /api/analyze first.")
  | noRoot {latest : Latest} : s.latest = some latest →
    d.isDirectory (Path.absolute d.cwd latest.root) = false →
    FileAnswer s d path (.refusal 400
      ((if d.pathExists (Path.absolute d.cwd latest.root) then "Path is not a directory: "
        else "Path does not exist: ") ++ Path.absolute d.cwd latest.root))
  | outside {latest : Latest} : s.latest = some latest →
    d.isDirectory (Path.absolute d.cwd latest.root) = true →
    ¬ LiesIn d (Path.absolute d.cwd latest.root) path →
    FileAnswer s d path (.refusal 403 ("Path escapes the analysis root: " ++ path))
  | missing {latest : Latest} : s.latest = some latest →
    d.isDirectory (Path.absolute d.cwd latest.root) = true →
    LiesIn d (Path.absolute d.cwd latest.root) path →
    (∀ data, d.read (d.realPath (Path.join (Path.absolute d.cwd latest.root) path)) ≠ .ok data) →
    FileAnswer s d path (.refusal 404 ("File not found: " ++ path))
  | served {latest : Latest} {data : Bytes} : s.latest = some latest →
    d.isDirectory (Path.absolute d.cwd latest.root) = true →
    LiesIn d (Path.absolute d.cwd latest.root) path →
    d.read (d.realPath (Path.join (Path.absolute d.cwd latest.root) path)) = .ok data →
    FileAnswer s d path (.ok (fileBody path (fileText data)))

section Answers

variable {s : Service} {d : Disk} {path : String} {latest : Latest}

theorem file_of_latest (hlatest : s.latest = some latest) :
    s.file d path = answerRead path (readSource d latest.root path) := by
  unfold file
  rw [hlatest]

theorem file_of_readSource (hlatest : s.latest = some latest) {outcome : Except Failure String}
    (hread : readSource d latest.root path = outcome) :
    s.file d path = answerRead path outcome := by
  rw [file_of_latest hlatest, hread]

theorem file_of_refused (hlatest : s.latest = some latest)
    (hroot : d.isDirectory (Path.absolute d.cwd latest.root) = false) :
    ∃ r, s.file d path = .ok r ∧ FileAnswer s d path r := by
  refine ⟨_, ?_, .noRoot hlatest hroot⟩
  by_cases hexists : d.pathExists (Path.absolute d.cwd latest.root) = true
  · have hread : readSource d latest.root path =
        .error (.analysis (.notDirectory (Path.absolute d.cwd latest.root))) := by
      unfold readSource realPlace validateRoot
      simp only [hexists, hroot]
      rfl
    rw [if_pos hexists]
    exact file_of_readSource hlatest hread
  · have hmissing := Bool.eq_false_iff.mpr hexists
    have hread : readSource d latest.root path =
        .error (.analysis (.missing (Path.absolute d.cwd latest.root))) := by
      unfold readSource realPlace validateRoot
      simp only [hmissing]
      rfl
    rw [if_neg hexists]
    exact file_of_readSource hlatest hread

/-- Inside the root, a request is answered unless opening the real path comes upon a null
character. -/
theorem file_of_inside (hlatest : s.latest = some latest)
    (hroot : d.isDirectory (Path.absolute d.cwd latest.root) = true)
    (hnull : d.meetsNull (Path.join (Path.absolute d.cwd latest.root) path) = false)
    (hinside : LiesIn d (Path.absolute d.cwd latest.root) path) :
    (∃ r, s.file d path = .ok r ∧ FileAnswer s d path r) ∨
      (s.file d path = .error (.disk .nullCharacter) ∧
        d.read (d.realPath (Path.join (Path.absolute d.cwd latest.root) path)) =
          .error .nullCharacter) := by
  have hplace := (realPlace_of_noNull hroot hnull).trans (if_pos hinside)
  cases hdata : d.read (d.realPath (Path.join (Path.absolute d.cwd latest.root) path)) with
  | ok data =>
    have hread := readSource_of_place hplace hdata
    exact .inl ⟨_, file_of_readSource hlatest hread, .served hlatest hroot hinside hdata⟩
  | error e =>
    have hread := readSource_of_place hplace hdata
    have hfile := file_of_readSource hlatest hread
    have hnone : ∀ data, d.read (d.realPath
        (Path.join (Path.absolute d.cwd latest.root) path)) ≠ .ok data := by
      intro data hok
      rw [hdata] at hok
      cases hok
    cases e with
    | nullCharacter => exact .inr ⟨hfile, rfl⟩
    | notFound | notDirectory | isDirectory | unusable =>
      exact .inl ⟨_, hfile, .missing hlatest hroot hinside hnone⟩

/-- A request is answered as is due, or it comes upon a null character. -/
theorem file_cases (s : Service) (d : Disk) (path : String) :
    (∃ r, s.file d path = .ok r ∧ FileAnswer s d path r) ∨
      (s.file d path = .error (.disk .nullCharacter) ∧
        ∃ latest, s.latest = some latest ∧
          d.isDirectory (Path.absolute d.cwd latest.root) = true ∧
          (d.meetsNull (Path.join (Path.absolute d.cwd latest.root) path) = true ∨
            d.read (d.realPath (Path.join (Path.absolute d.cwd latest.root) path)) =
              .error .nullCharacter)) := by
  cases hlatest : s.latest with
  | none =>
    refine .inl ⟨_, ?_, .nothing hlatest⟩
    unfold file
    rw [hlatest]
    rfl
  | some latest =>
    cases hroot : d.isDirectory (Path.absolute d.cwd latest.root) with
    | false => exact .inl (file_of_refused hlatest hroot)
    | true =>
      cases hnull : d.meetsNull (Path.join (Path.absolute d.cwd latest.root) path) with
      | true =>
        have hread := readSource_of_error (realPlace_of_null hroot hnull)
        exact .inr ⟨file_of_readSource hlatest hread, latest, rfl, hroot, .inl hnull⟩
      | false =>
        by_cases hinside : LiesIn d (Path.absolute d.cwd latest.root) path
        · rcases file_of_inside hlatest hroot hnull hinside with hanswer | ⟨hfile, hread⟩
          · exact .inl hanswer
          · exact .inr ⟨hfile, latest, rfl, hroot, .inr hread⟩
        · have hplace := (realPlace_of_noNull hroot hnull).trans (if_neg hinside)
          exact .inl ⟨_, file_of_readSource hlatest (readSource_of_error hplace),
            .outside hlatest hroot hinside⟩

/-- At most one answer is due. -/
theorem FileAnswer.unique {r r' : Response} (h : FileAnswer s d path r)
    (h' : FileAnswer s d path r') : r = r' := by
  cases h <;> cases h' <;> simp_all

/-- A request without a null character comes upon none. -/
theorem exists_answer (hlinks : Disk.LinksNullFree d.top) (hpath : '\x00' ∉ path.toList) :
    ∃ r, s.file d path = .ok r ∧ FileAnswer s d path r := by
  rcases file_cases s d path with hanswer | ⟨-, latest, -, hroot, hnull⟩
  · exact hanswer
  · obtain ⟨rootRoute, hdir⟩ := Disk.exists_directoryAt? hroot
    obtain ⟨entries, hplace⟩ := Disk.directoryAt?_eq_some.mp hdir
    have hfree : '\x00' ∉
        (Path.join d.cwd (Path.join (Path.absolute d.cwd latest.root) path)).toList := by
      rw [Path.join_of_isRooted d.cwd
        (Path.isRooted_join (Path.isRooted_absolute d.rooted latest.root) path)]
      exact Path.noNull_join (Disk.usable_of_place hplace).1 hpath
    rcases hnull with hmeets | hread
    · rw [Disk.meetsNull_of_noNull hfree] at hmeets
      cases hmeets
    · exact absurd (Disk.null_of_read hread) (Disk.noNull_realPath hlinks hfree)

theorem file_of_null (hlatest : s.latest = some latest)
    (hroot : d.isDirectory (Path.absolute d.cwd latest.root) = true) {before after : List String}
    {name : String} {n : Nat} {r : Route}
    (hnames : Disk.names (Path.join (Path.absolute d.cwd latest.root) path) =
      before ++ name :: after)
    (hbefore : Disk.NullFree before) (hname : '\x00' ∈ name.toList)
    (hleads : Disk.Leads d.linkSeen? n [] before r) :
    s.file d path = .error (.disk .nullCharacter) := by
  have hrooted := Path.isRooted_join (Path.isRooted_absolute d.rooted latest.root) path
  rw [← Path.join_of_isRooted d.cwd hrooted] at hnames
  have hmeets := Disk.meetsNull_of_leads hnames hbefore hname hleads
  exact file_of_readSource hlatest (readSource_of_error (realPlace_of_null hroot hmeets))

end Answers

/-- **A request for a file gets the answer that is due, unless its path has a null character.** Then
it may fail without an answer, if a graph is held and its root is a directory; it does fail if the
names in front of the character lead somewhere along the links that are seen. Where all links of the
path that are seen can be followed, what is read is the file at the route it leads to, and if the
root is in sight, the path lies in the root exactly if that route is below the root's. -/
theorem file_request_answered (s : Service) (d : Disk) (path : String)
    (hlinks : Disk.LinksNullFree d.top) :
    (∀ r, s.file d path = .ok r → FileAnswer s d path r) ∧
    (∀ e, s.file d path = .error e → e = .disk .nullCharacter ∧ '\x00' ∈ path.toList ∧
      ∃ latest, s.latest = some latest ∧
        d.isDirectory (Path.absolute d.cwd latest.root) = true) ∧
    ('\x00' ∉ path.toList →
      ∃ r, s.file d path = .ok r ∧ ∀ r', FileAnswer s d path r' ↔ r' = r) ∧
    ∀ latest, s.latest = some latest →
      d.isDirectory (Path.absolute d.cwd latest.root) = true →
      (∀ before name after n r,
        Disk.names (Path.join (Path.absolute d.cwd latest.root) path) = before ++ name :: after →
        Disk.NullFree before → '\x00' ∈ name.toList → Disk.Leads d.linkSeen? n [] before r →
        s.file d path = .error (.disk .nullCharacter)) ∧
      ∀ n r, Disk.Leads d.linkSeen? n []
          (Disk.names (Path.join (Path.absolute d.cwd latest.root) path)) r →
        (∀ data,
          d.read (d.realPath (Path.join (Path.absolute d.cwd latest.root) path)) = .ok data →
          d.top.at? r.reverse = some (.file data)) ∧
        ∀ rootRoute, d.directoryAt? (Path.absolute d.cwd latest.root) = some rootRoute →
          d.InSight (Path.absolute d.cwd latest.root) →
          (LiesIn d (Path.absolute d.cwd latest.root) path ↔ rootRoute <+: r.reverse) := by
  refine ⟨fun r hr => ?_, fun e he => ?_, fun hpath => ?_, fun latest hlatest hroot => ⟨?_, ?_⟩⟩
  · rcases file_cases s d path with ⟨r', hr', hanswer⟩ | ⟨hfailed, -⟩
    · rwa [Except.ok.inj (hr.symm.trans hr')]
    · rw [hr] at hfailed
      cases hfailed
  · have hnull : '\x00' ∈ path.toList := by
      by_contra hpath
      obtain ⟨r, hr, -⟩ := exists_answer hlinks hpath
      rw [he] at hr
      cases hr
    rcases file_cases s d path with ⟨r, hr, -⟩ | ⟨hfailed, latest, hlatest, hroot, -⟩
    · rw [he] at hr
      cases hr
    · exact ⟨Except.error.inj (he.symm.trans hfailed), hnull, latest, hlatest, hroot⟩
  · obtain ⟨r, hr, hanswer⟩ := exists_answer hlinks hpath
    exact ⟨r, hr, fun r' => ⟨fun h => h.unique hanswer, fun h => h ▸ hanswer⟩⟩
  · intro before name after n r hnames hbefore hname hleads
    exact file_of_null hlatest hroot hnames hbefore hname hleads
  · intro n r hleads
    have hrooted := Path.isRooted_absolute d.rooted latest.root
    exact ⟨fun data hread => at?_of_read_realPath (Path.isRooted_join hrooted path) hleads hread,
      fun rootRoute hdir hsight => liesIn_iff hrooted hdir hsight hleads⟩

/-- A directory with one file. -/
def singleFileDisk : Disk where
  top := .directory [("n", .directory [("a.js", .file [])])]
  cwd := "/n"
  rooted := rfl

/-- A service that holds a graph of that directory. -/
def holdsSingleFile : Service :=
  ⟨some ⟨"/n", ⟨[], [], [], []⟩⟩⟩

theorem singleFileDisk_linksNullFree : Disk.LinksNullFree singleFileDisk.top :=
  fun route target hlink => absurd hlink (Entry.not_link_of_countLinks (by decide) route target)

/-- A file that is not there is refused as not found. -/
theorem absent_file_not_found :
    Disk.LinksNullFree singleFileDisk.top ∧ '\x00' ∉ "b.js".toList ∧
      holdsSingleFile.file singleFileDisk "b.js" =
        .ok (.refusal 404 "File not found: b.js") := by
  have hpath : '\x00' ∉ "b.js".toList := by decide
  have hroot : singleFileDisk.isDirectory (Path.absolute singleFileDisk.cwd "/n") = true := by
    decide
  have hinside : LiesIn singleFileDisk (Path.absolute singleFileDisk.cwd "/n") "b.js" := by
    unfold LiesIn
    decide
  have hread : singleFileDisk.read (singleFileDisk.realPath
      (Path.join (Path.absolute singleFileDisk.cwd "/n") "b.js")) = .error .notFound := by
    decide
  have hdue : FileAnswer holdsSingleFile singleFileDisk "b.js"
      (.refusal 404 ("File not found: " ++ "b.js")) :=
    .missing rfl hroot hinside (fun data hdata => by rw [hread] at hdata; cases hdata)
  obtain ⟨r, hr, hunique⟩ := (file_request_answered holdsSingleFile singleFileDisk "b.js"
    singleFileDisk_linksNullFree).2.2.1 hpath
  refine ⟨singleFileDisk_linksNullFree, hpath, ?_⟩
  have htext : "File not found: " ++ "b.js" = "File not found: b.js" := by decide
  rw [hr, ← (hunique _).mp hdue, htext]

/-- A path with a null character lies in the root and cannot be opened, so it should be refused as
not found; but the request fails without an answer. -/
theorem null_character_unanswered :
    FileAnswer holdsSingleFile singleFileDisk "a\x00b"
        (.refusal 404 ("File not found: " ++ "a\x00b")) ∧
      holdsSingleFile.file singleFileDisk "a\x00b" = .error (.disk .nullCharacter) := by
  have hroot : singleFileDisk.isDirectory (Path.absolute singleFileDisk.cwd "/n") = true := by
    decide
  have hinside : LiesIn singleFileDisk (Path.absolute singleFileDisk.cwd "/n") "a\x00b" := by
    unfold LiesIn
    decide
  have hread : singleFileDisk.read (singleFileDisk.realPath
      (Path.join (Path.absolute singleFileDisk.cwd "/n") "a\x00b")) = .error .nullCharacter := by
    decide
  have hfailed : readSource singleFileDisk "/n" "a\x00b" = .error (.disk .nullCharacter) := by
    decide
  have hlatest : holdsSingleFile.latest = some ⟨"/n", ⟨[], [], [], []⟩⟩ := rfl
  refine ⟨.missing hlatest hroot hinside (fun data hdata => ?_), ?_⟩
  · rw [hread] at hdata
    cases hdata
  · rw [file_of_readSource hlatest hfailed]
    rfl

end Service

end CodeGraph
