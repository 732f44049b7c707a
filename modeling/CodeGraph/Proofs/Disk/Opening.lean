import CodeGraph.Proofs.Disk.Listing

/-!
# Opening a place by its route

A lookup along names that are all there, none of them a link, goes on from where they end
(`follow_append`). So a place of the tree can be opened by the path of its route, unless the path is
too long (`place_routePath`, `place_of_long`). Being too long is a matter of the text: one place may
be opened by a short path through a link, and not by its own.
-/

namespace CodeGraph

namespace Disk

/-! ## Names on a disk -/

/-- A name that a directory can hold. -/
structure Storable (name : String) : Prop where
  plain : Path.Plain name.toList
  noNull : '\x00' ∉ name.toList
  short : name.utf8ByteSize ≤ longestName

instance (name : String) : Decidable (Storable name) :=
  decidable_of_iff (Path.Plain name.toList ∧ '\x00' ∉ name.toList ∧
      name.utf8ByteSize ≤ longestName)
    ⟨fun ⟨h₁, h₂, h₃⟩ => ⟨h₁, h₂, h₃⟩, fun ⟨h₁, h₂, h₃⟩ => ⟨h₁, h₂, h₃⟩⟩

section Follow

variable {top e : Entry} {followLast : Bool}
  {atLink : Route → String → List String → Except DiskError Place} {back : Route}
  {name : String} {xs rest : List String}

/-- In a directory, empty names and single points lead nowhere else. -/
theorem follow_idle {entries : List (String × Entry)}
    (hdir : top.at? back.reverse = some (.directory entries)) (hname : name = "" ∨ name = ".") :
    follow top followLast atLink back (name :: rest) = follow top followLast atLink back rest := by
  rw [follow, hdir]
  rcases hname with rfl | rfl <;> rfl

/-- A name that is there and is no link is gone through. -/
theorem follow_step {entries : List (String × Entry)} {below : Entry}
    (hdir : top.at? back.reverse = some (.directory entries)) (hname : Storable name)
    (hfind : Entry.find? entries name = some below) (hlink : ∀ target, below ≠ .link target) :
    follow top followLast atLink back (name :: rest) =
      follow top followLast atLink (name :: back) rest := by
  have hproper := proper_of_plain hname.plain
  rw [follow, hdir]
  simp only [hproper.ne_empty, hproper.ne_here, hproper.ne_up, Nat.not_lt.mpr hname.short, hfind,
    beq_iff_eq, Bool.or_eq_true, or_self, if_false]

/-- A name that is a link is followed. -/
theorem follow_link {entries : List (String × Entry)} {target : String}
    (hdir : top.at? back.reverse = some (.directory entries)) (hname : Storable name)
    (hfind : Entry.find? entries name = some (.link target)) :
    follow top true atLink back (name :: rest) = atLink back target rest := by
  have hproper := proper_of_plain hname.plain
  rw [follow, hdir]
  simp [hproper.ne_empty, hproper.ne_here, hproper.ne_up, Nat.not_lt.mpr hname.short, hfind]

theorem follow_append (followLast : Bool)
    (atLink : Route → String → List String → Except DiskError Place)
    (hat : top.at? (back.reverse ++ xs) = some e) (hlink : ∀ target, e ≠ .link target)
    (hxs : ∀ name ∈ xs, Storable name) (rest : List String) :
    follow top followLast atLink back (xs ++ rest) =
      follow top followLast atLink (xs.reverse ++ back) rest := by
  induction xs generalizing back with
  | nil => rfl
  | cons name xs ih =>
    rw [Entry.at?_append, Option.bind_eq_some_iff] at hat
    obtain ⟨dir, hdir, hbelow⟩ := hat
    obtain ⟨entries, below, rfl, hfind, hrest⟩ := Entry.at?_cons_eq_some.mp hbelow
    -- what has entries below it is no link, and neither is what stands at the end
    have hnot : ∀ target, below ≠ .link target := by
      rintro target rfl
      cases xs with
      | nil => exact hlink target (Option.some.inj hrest).symm
      | cons => cases hrest
    have hat' : top.at? ((name :: back).reverse ++ xs) = some e := by
      rw [List.reverse_cons, List.append_assoc, Entry.at?_append, hdir]
      exact hbelow
    rw [List.cons_append, follow_step hdir (hxs name List.mem_cons_self) hfind hnot,
      ih hat' (fun x hx => hxs x (List.mem_cons_of_mem _ hx)), List.reverse_cons,
      List.append_assoc, List.singleton_append]

theorem exists_followLinks_eq (top : Entry) (followLast : Bool) (n : Nat) :
    ∃ atLink, followLinks top followLast n = follow top followLast atLink := by
  cases n with
  | zero => exact ⟨_, rfl⟩
  | succ n => exact ⟨_, rfl⟩

end Follow

/-- From the top, names that are all there are gone through. -/
theorem followLinks_append {top e : Entry} {route : Route} (followLast : Bool) (n : Nat)
    (hat : top.at? route = some e) (hlink : ∀ target, e ≠ .link target)
    (hroute : ∀ name ∈ route, Storable name) (hne : route ≠ []) (rest : List String) :
    followLinks top followLast n [] (("" :: route) ++ rest) =
      followLinks top followLast n route.reverse rest := by
  obtain ⟨atLink, hfollow⟩ := exists_followLinks_eq top followLast n
  obtain ⟨entries, htop⟩ : ∃ entries, top = .directory entries := by
    obtain ⟨name, more, rfl⟩ := List.exists_cons_of_ne_nil hne
    obtain ⟨entries, -, htop, -, -⟩ := Entry.at?_cons_eq_some.mp hat
    exact ⟨entries, htop⟩
  have hidle : follow top followLast atLink [] ("" :: (route ++ rest)) =
      follow top followLast atLink [] (route ++ rest) :=
    follow_idle (congrArg some htop) (Or.inl rfl)
  have hgo : follow top followLast atLink [] (route ++ rest) =
      follow top followLast atLink (route.reverse ++ []) rest :=
    follow_append followLast atLink hat hlink hroute rest
  rw [hfollow, List.cons_append, hidle, hgo, List.append_nil]

/-- A link at the top to a path from there is followed from the top. -/
theorem followLinks_link {entries : List (String × Entry)} {name target : String}
    (hname : Storable name) (hfind : Entry.find? entries name = some (.link target))
    (htarget : Path.isRooted target = true) (n : Nat) (rest : List String) :
    followLinks (.directory entries) true (n + 1) [] ("" :: name :: rest) =
      followLinks (.directory entries) true n [] (names target ++ rest) := by
  have htop : (Entry.directory entries).at? ([] : Route).reverse = some (.directory entries) := rfl
  rw [followLinks, follow_idle htop (Or.inl rfl), follow_link htop hname hfind, if_pos htarget]

theorem followLinks_nil {top e : Entry} {route : Route} (followLast : Bool) (n : Nat)
    (hat : top.at? route = some e) :
    followLinks top followLast n route.reverse [] = .ok (.found route e) := by
  obtain ⟨atLink, hfollow⟩ := exists_followLinks_eq top followLast n
  rw [hfollow, follow, List.reverse_reverse, hat]

/-! ## Paths of routes -/

variable {d : Disk} {path : String} {route : Route} {e : Entry}

theorem names_routePath (hne : route ≠ []) (h : ∀ name ∈ route, Storable name) :
    names (routePath route) = "" :: route := by
  have hslash : ∀ part ∈ route.map String.toList, '/' ∉ part := by
    intro part hpart
    obtain ⟨name, hname, rfl⟩ := List.mem_map.mp hpart
    exact (h name hname).plain.noSlash
  rw [names, routePath_eq, String.toList_ofList, Path.written, Path.splitSlash_slash,
    Path.splitSlash_joinSlash (by simpa using hne) hslash]
  simp [Function.comp_def]

theorem noNull_routePath (h : ∀ name ∈ route, Storable name) :
    '\x00' ∉ (routePath route).toList := by
  have hjoined : ∀ parts : List (List Char), (∀ part ∈ parts, '\x00' ∉ part) →
      '\x00' ∉ Path.joinSlash parts := by
    intro parts hparts
    fun_induction Path.joinSlash parts with
    | case1 => exact List.not_mem_nil
    | case2 part => exact hparts part List.mem_cons_self
    | case3 part rest _ ih =>
      have hfirst := hparts part List.mem_cons_self
      have hrest := ih (fun p hp => hparts p (List.mem_cons_of_mem _ hp))
      simpa [hfirst] using hrest
  rw [routePath_eq, String.toList_ofList, Path.written, List.mem_cons, not_or]
  refine ⟨by decide, hjoined _ (fun part hpart => ?_)⟩
  obtain ⟨name, hname, rfl⟩ := List.mem_map.mp hpart
  exact (h name hname).noNull

theorem utf8ByteSize_routePath_replicate (n : Nat) (name : String) (hne : route ≠ []) :
    (routePath (List.replicate n name ++ route)).utf8ByteSize =
      n * (name.utf8ByteSize + 1) + (routePath route).utf8ByteSize := by
  induction n with
  | zero => simp
  | succ n ih =>
    rw [List.replicate_succ, List.cons_append,
      utf8ByteSize_routePath_cons name (List.append_ne_nil_of_right_ne_nil _ hne), ih,
      Nat.succ_mul]
    omega

/-- The path of a route and the text of one below it make the path of both. -/
theorem join_routePath {link? : Route → Option String} {dir : Route}
    (hdir : Settled link? dir.reverse)
    (hroute : ∀ name ∈ route, Path.Plain name.toList) (hne : route ≠ []) :
    Path.join (routePath dir) (routeText route) = routePath (dir ++ route) := by
  have hlead := hdir.leading_routePath
  have hparts := hdir.components_routePath
  have hnormal : Path.IsNormal (routePath dir.reverse.reverse) :=
    ⟨isRooted_routePath _, hdir.normalize_routePath⟩
  rw [List.reverse_reverse] at hlead hparts hnormal
  have hplain : ∀ part ∈ route.map String.toList, Path.Plain part := by
    intro part hpart
    obtain ⟨name, hname, rfl⟩ := List.mem_map.mp hpart
    exact hroute name hname
  rw [routeText_eq, Path.join_joinSlash hnormal hplain (by simpa using hne), Path.below, hlead,
    hparts, routePath_eq (dir ++ route), List.map_append]
  rfl

/-- What a lookup of a path from the top asks for before it follows the names. -/
theorem place_eq_followLinks (hpath : Path.isRooted path = true) (hnull : '\x00' ∉ path.toList)
    (hsize : path.utf8ByteSize ≤ longestPath) (followLast : Bool) :
    d.place followLast path = followLinks d.top followLast linkLimit [] (names path) := by
  have hne : path ≠ "" := by
    rintro rfl
    cases hpath
  rw [place, if_neg (by simpa using hnull), if_neg (by simpa using hne),
    if_neg (Nat.not_lt.mpr hsize), startOf, if_pos hpath]

theorem place_of_long (hnull : '\x00' ∉ path.toList) (hsize : longestPath < path.utf8ByteSize)
    (followLast : Bool) : d.place followLast path = .error .unusable := by
  have hne : path ≠ "" := by
    rintro rfl
    cases hsize
  rw [place, if_neg (by simpa using hnull), if_neg (by simpa using hne), if_pos hsize]

/-- Where a path from the top leads depends on the tree only. -/
theorem place_congr {d' : Disk} (htop : d'.top = d.top) (hpath : Path.isRooted path = true)
    (followLast : Bool) : d'.place followLast path = d.place followLast path := by
  rw [place, place, startOf, startOf, if_pos hpath, if_pos hpath, htop]

/-- What is in the tree can be opened by the path of its route, unless that is too long. -/
theorem place_routePath (hat : d.top.at? route = some e) (hlink : ∀ target, e ≠ .link target)
    (hroute : ∀ name ∈ route, Storable name) (hne : route ≠ [])
    (hsize : (routePath route).utf8ByteSize ≤ longestPath) :
    d.place true (routePath route) = .ok (.found route e) := by
  have hgo := followLinks_append true linkLimit hat hlink hroute hne []
  rw [List.append_nil] at hgo
  rw [place_eq_followLinks (isRooted_routePath route) (noNull_routePath hroute) hsize,
    names_routePath hne hroute, hgo, followLinks_nil true linkLimit hat]

/-- What is below a place can also be opened by a link at the top to the path of the place. -/
theorem place_through_link {entries : List (String × Entry)} {name : String} {below : Route}
    (htop : d.top = .directory entries) (hname : Storable name)
    (hfind : Entry.find? entries name = some (.link (routePath route)))
    (hat : d.top.at? (route ++ below) = some e) (hlink : ∀ target, e ≠ .link target)
    (hroute : ∀ name ∈ route ++ below, Storable name) (hne : route ≠ [])
    (hpath : names path = "" :: name :: below) (hrooted : Path.isRooted path = true)
    (hnull : '\x00' ∉ path.toList) (hsize : path.utf8ByteSize ≤ longestPath) :
    d.place true path = .ok (.found (route ++ below) e) := by
  have hnames : names (routePath route) = "" :: route :=
    names_routePath hne (fun x hx => hroute x (List.mem_append_left below hx))
  have hgo := followLinks_append true 39 hat hlink hroute
    (List.append_ne_nil_of_left_ne_nil hne below) []
  rw [place_eq_followLinks hrooted hnull hsize, hpath, htop,
    show linkLimit = 39 + 1 from rfl, followLinks_link hname hfind (isRooted_routePath route),
    hnames, ← htop, List.cons_append]
  rw [List.append_nil] at hgo
  rw [hgo, followLinks_nil true 39 hat]

theorem read_routePath {data : Bytes} (hat : d.top.at? route = some (.file data))
    (hroute : ∀ name ∈ route, Storable name) (hne : route ≠ []) :
    d.read (routePath route) =
      if longestPath < (routePath route).utf8ByteSize then .error .unusable else .ok data := by
  rw [read, stat]
  split_ifs with hsize
  · rw [place_of_long (noNull_routePath hroute) hsize]
  · rw [place_routePath hat (by simp) hroute hne (Nat.not_lt.mp hsize)]

end Disk

end CodeGraph
