import CodeGraph.Proofs.Disk.Resolution
import Mathlib.Data.List.Perm.Subperm
import Mathlib.Data.Nat.Find

/-!
# Real paths

Only links are followed that are seen, those whose paths are not too long. If none of them comes
back to itself (`Resolves`), the real path is that of the route which the names lead to
(`realPath_of_leads`). What has to be shown is that neither the test for loops nor the bound on the
depth cuts such a path short: a link that is still being followed is not met again, and no more
links can be open at once than the tree has (`length_le_countLinks`).

Opening a path follows all links, seen or not. The two agree on a path that is in sight (`InSight`),
and its real path is then where the opened path ends (`realPath_of_place`). They agree as well on
every real path that can be opened (`route_of_realPath`): it is short enough for all links of its
own to have been seen.
-/

namespace CodeGraph.Disk

variable {d : Disk} {n m : Nat} {back here r r' : Route} {name target path : String}
  {rest xs : List String}

/-! ## The links of a tree -/

mutual

/-- The routes of the links in an entry that is itself at a route. -/
def linkRoutes : Route → Entry → List Route
  | _, .file _ => []
  | back, .link _ => [back]
  | back, .directory entries => linkRoutesIn back entries

/-- The routes of the links among the entries of a directory. -/
def linkRoutesIn : Route → List (String × Entry) → List Route
  | _, [] => []
  | back, (name, e) :: rest => linkRoutes (name :: back) e ++ linkRoutesIn back rest

end

mutual

theorem length_linkRoutes (back : Route) (e : Entry) :
    (linkRoutes back e).length = countLinks e := by
  cases e with
  | file => simp [linkRoutes, countLinks]
  | link => simp [linkRoutes, countLinks]
  | directory entries =>
    rw [linkRoutes, countLinks]
    exact length_linkRoutesIn back entries

theorem length_linkRoutesIn (back : Route) (entries : List (String × Entry)) :
    (linkRoutesIn back entries).length = countLinksIn entries := by
  match entries with
  | [] => simp [linkRoutesIn, countLinksIn]
  | (name, e) :: rest =>
    rw [linkRoutesIn, countLinksIn, List.length_append, length_linkRoutes (name :: back) e,
      length_linkRoutesIn back rest]

end

theorem linkRoutes_subset {entries : List (String × Entry)} {e : Entry}
    (h : (name, e) ∈ entries) : linkRoutes (name :: back) e ⊆ linkRoutesIn back entries := by
  induction entries with
  | nil => exact absurd h List.not_mem_nil
  | cons first rest ih =>
    obtain ⟨first, e'⟩ := first
    rw [linkRoutesIn]
    rcases List.mem_cons.mp h with heq | h
    · cases heq
      exact List.subset_append_left _ _
    · exact List.Subset.trans (ih h) (List.subset_append_right _ _)

theorem mem_linkRoutes {e : Entry} {route : Route} (h : e.at? route = some (.link target)) :
    route.reverse ++ back ∈ linkRoutes back e := by
  induction route generalizing e back with
  | nil =>
    cases h
    rw [linkRoutes]
    exact List.mem_singleton_self _
  | cons name rest ih =>
    cases e with
    | directory entries =>
      rw [Entry.at?] at h
      split at h
      · rename_i below hfind
        obtain ⟨found, hfound, rfl⟩ := Option.map_eq_some_iff.mp hfind
        have hname : found.1 = name := by simpa using List.find?_some hfound
        have hmem : (name, found.2) ∈ entries := hname ▸ List.mem_of_find?_eq_some hfound
        rw [linkRoutes, List.reverse_cons, List.append_assoc]
        exact linkRoutes_subset hmem (ih h)
      · cases h
    | file | link => cases h

/-! ## Links that are seen -/

theorem linkSeen?_eq_some :
    d.linkSeen? back = some target ↔
      (routePath back.reverse).utf8ByteSize ≤ longestPath ∧ d.top.linkAt? back = some target := by
  unfold linkSeen?
  split_ifs with hlong
  · simp [Nat.not_le.mpr hlong]
  · simp [Nat.not_lt.mp hlong]

theorem linkSeen?_of_short (h : (routePath back.reverse).utf8ByteSize ≤ longestPath) :
    d.linkSeen? back = d.top.linkAt? back :=
  if_neg (Nat.not_lt.mpr h)

/-- Where no link is, none is seen. -/
theorem linkSeen?_of_none (h : d.top.linkAt? back = none) : d.linkSeen? back = none := by
  unfold linkSeen?
  split_ifs
  · rfl
  · exact h

theorem Settled.seen (h : Settled d.top.linkAt? r) : Settled d.linkSeen? r := by
  induction r with
  | nil => exact trivial
  | cons name back ih => exact ⟨h.1, linkSeen?_of_none h.2.1, ih h.2.2⟩

/-- A route without links in sight has none at all, if its path is not too long: the paths of the
routes above it are no longer. -/
theorem Settled.of_short (h : Settled d.linkSeen? r)
    (hsize : (routePath r.reverse).utf8ByteSize ≤ longestPath) : Settled d.top.linkAt? r := by
  induction r with
  | nil => exact trivial
  | cons name back ih =>
    have habove : (routePath back.reverse).utf8ByteSize ≤ longestPath := by
      rw [List.reverse_cons] at hsize
      exact Nat.le_trans (utf8ByteSize_routePath_le back.reverse name) hsize
    exact ⟨h.1, (linkSeen?_of_short hsize).symm.trans h.2.1, ih h.2.2 habove⟩

/-- If no link of a tree has a path that is too long, all are seen. -/
theorem linkSeen?_eq_linkAt?
    (h : ∀ here ∈ linkRoutes [] d.top, (routePath here.reverse).utf8ByteSize ≤ longestPath) :
    d.linkSeen? = d.top.linkAt? := by
  funext back
  cases hlink : d.top.linkAt? back with
  | none => exact linkSeen?_of_none hlink
  | some target =>
    have hmem : back.reverse.reverse ++ [] ∈ linkRoutes [] d.top :=
      mem_linkRoutes (Entry.linkAt?_eq_some.mp hlink)
    rw [List.append_nil, List.reverse_reverse] at hmem
    exact linkSeen?_eq_some.mpr ⟨h back hmem, hlink⟩

/-- A tree has at least as many links as different routes of links. -/
theorem length_le_countLinks {pending : List Route} (hnodup : pending.Nodup)
    (hlinks : ∀ here ∈ pending, ∃ target, d.linkSeen? here = some target) :
    pending.length ≤ countLinks d.top := by
  have hsubset : pending ⊆ linkRoutes [] d.top := by
    intro here hhere
    obtain ⟨target, hlink⟩ := hlinks here hhere
    have hmem : here.reverse.reverse ++ [] ∈ linkRoutes [] d.top :=
      mem_linkRoutes (Entry.linkAt?_eq_some.mp (linkSeen?_eq_some.mp hlink).2)
    rwa [List.append_nil, List.reverse_reverse] at hmem
  rw [← length_linkRoutes [] d.top]
  exact (List.subperm_of_subset hnodup hsubset).length_le

/-! ## One name of a real path -/

section

variable {atLink : Seen → Route → String → Seen × Real} {seen : Seen}

theorem realNames_idle (h : name = "" ∨ name = ".") :
    d.realNames atLink seen back (name :: rest) = d.realNames atLink seen back rest := by
  rw [realNames, if_pos (by simpa using h)]

theorem realNames_up :
    d.realNames atLink seen back (".." :: rest) = d.realNames atLink seen back.tail rest := by
  rw [realNames, if_neg (by decide), if_pos (by decide)]

theorem realNames_step (hname : Proper name) (hlink : d.linkSeen? (name :: back) = none) :
    d.realNames atLink seen back (name :: rest) =
      d.realNames atLink seen (name :: back) rest := by
  rw [realNames, if_neg (by simp [hname.ne_empty, hname.ne_here]), if_neg (by simp [hname.ne_up])]
  simp only [hlink]

/-- A link is looked up among those met so far, and followed if it is new. -/
theorem realNames_link (hname : Proper name) (hlink : d.linkSeen? (name :: back) = some target) :
    d.realNames atLink seen back (name :: rest) =
      match seen.lookup (name :: back) with
      | some (some known) => d.realNames atLink seen known rest
      | some none => (seen, stopAt (routePath (name :: back).reverse) rest)
      | none =>
        match atLink ((name :: back, none) :: seen) back target with
        | (seen, .resolved found) =>
          d.realNames atLink ((name :: back, some found) :: seen) found rest
        | (seen, .looping path) => (seen, stopAt path rest) := by
  rw [realNames, if_neg (by simp [hname.ne_empty, hname.ne_here]), if_neg (by simp [hname.ne_up])]
  dsimp only
  split
  · rename_i found hfound
    obtain rfl : target = found := Option.some.inj (hlink.symm.trans hfound)
    rfl
  · rename_i hnone
    rw [hlink] at hnone
    cases hnone

end

/-! ## Links that are being followed -/

/-- The link at a route leads to another. -/
def LinkLeads (d : Disk) (n : Nat) (here r : Route) : Prop :=
  ∃ target, d.linkSeen? here = some target ∧
    Leads d.linkSeen? n (origin here.tail target) (names target) r

theorem LinkLeads.unique (h : LinkLeads d n here r) (h' : LinkLeads d m here r') : r = r' := by
  obtain ⟨target, hlink, hleads⟩ := h
  obtain ⟨target', hlink', hleads'⟩ := h'
  obtain rfl : target = target' := Option.some.inj (hlink.symm.trans hlink')
  exact hleads.unique hleads'

/-- The links that are being followed when names are looked at that lead somewhere at a depth. -/
structure Pending (d : Disk) (n : Nat) (pending : List Route) : Prop where
  links : ∀ here ∈ pending, ∃ target, d.linkSeen? here = some target
  nodup : pending.Nodup
  /-- None of them is met again: it would be settled at a smaller depth than its own. -/
  deep : ∀ here ∈ pending, ∀ m < n, ∀ r, ¬ LinkLeads d m here r

/-- What is noted of the links met so far is right, and only links that are being followed are
noted without a place. -/
structure Noted (d : Disk) (pending : List Route) (seen : Seen) : Prop where
  known : ∀ here r, seen.lookup here = some (some r) → ∃ n, LinkLeads d n here r
  waiting : ∀ here, seen.lookup here = some none → here ∈ pending

variable {pending : List Route} {seen : Seen}

theorem Noted.nil : Noted d [] [] where
  known _ _ h := by cases h
  waiting _ h := by cases h

theorem Noted.wait (h : Noted d pending seen) (here : Route) :
    Noted d (here :: pending) ((here, none) :: seen) where
  known other r hother := by
    rw [List.lookup_cons] at hother
    split at hother
    · cases hother
    · exact h.known other r hother
  waiting other hother := by
    rw [List.lookup_cons] at hother
    split at hother
    · rename_i heq
      exact List.mem_cons.mpr (Or.inl (by simpa using heq))
    · exact List.mem_cons_of_mem _ (h.waiting other hother)

theorem Noted.settle (h : Noted d (here :: pending) seen) (hleads : LinkLeads d n here r) :
    Noted d pending ((here, some r) :: seen) where
  known other r' hother := by
    rw [List.lookup_cons] at hother
    split at hother
    · rename_i heq
      obtain rfl : other = here := by simpa using heq
      obtain rfl : r = r' := by simpa using hother
      exact ⟨n, hleads⟩
    · exact h.known other r' hother
  waiting other hother := by
    rw [List.lookup_cons] at hother
    split at hother
    · cases hother
    · rename_i hne
      rcases List.mem_cons.mp (h.waiting other hother) with rfl | hmem
      · simp at hne
      · exact hmem

/-- A link that leads somewhere can be followed at its least depth, at which it is not met. -/
theorem Pending.follow {k : Nat} (h : Pending d n pending) (hk : k < n)
    (hleads : LinkLeads d k here r) :
    ∃ m ≤ k, LinkLeads d m here r ∧ Pending d m (here :: pending) := by
  classical
  have hex : ∃ m r, LinkLeads d m here r := ⟨k, r, hleads⟩
  obtain ⟨r', hleast⟩ := Nat.find_spec hex
  have hle : Nat.find hex ≤ k := Nat.find_min' hex ⟨r, hleads⟩
  have hnot : here ∉ pending := fun hmem => h.deep here hmem k hk r hleads
  refine ⟨Nat.find hex, hle, hleast.unique hleads ▸ hleast, ⟨?_, ?_, ?_⟩⟩
  · intro other hother
    rcases List.mem_cons.mp hother with rfl | hother
    · exact ⟨_, hleads.choose_spec.1⟩
    · exact h.links other hother
  · exact List.nodup_cons.mpr ⟨hnot, h.nodup⟩
  · intro other hother m hm s hs
    rcases List.mem_cons.mp hother with rfl | hother
    · exact Nat.find_min hex hm ⟨s, hs⟩
    · exact h.deep other hother m (by omega) s hs

/-! ## Paths whose links can be followed -/

/-- Names that lead somewhere are followed there, if new links are. -/
theorem realNames_of_leads {atLink : Seen → Route → String → Seen × Real}
    (hatLink : ∀ {k name back target mid seen}, k < n → d.linkSeen? (name :: back) = some target →
      LinkLeads d k (name :: back) mid → Noted d pending seen →
      ∃ seen', atLink ((name :: back, none) :: seen) back target = (seen', .resolved mid) ∧
        Noted d ((name :: back) :: pending) seen')
    (hpending : Pending d n pending) (h : Leads d.linkSeen? n back xs r)
    (hnoted : Noted d pending seen) :
    ∃ seen', d.realNames atLink seen back xs = (seen', .resolved r) ∧
      Noted d pending seen' := by
  induction xs generalizing back seen with
  | nil =>
    cases h
    exact ⟨seen, rfl, hnoted⟩
  | cons name rest ih =>
    cases h with
    | idle hname h =>
      rw [realNames_idle hname]
      exact ih h hnoted
    | up h =>
      rw [realNames_up]
      exact ih h hnoted
    | step hname hlink h =>
      rw [realNames_step hname hlink]
      exact ih h hnoted
    | @link k _ _ _ target mid _ hname hlink htarget h =>
      have hleads : LinkLeads d k (name :: back) mid := ⟨target, hlink, htarget⟩
      rw [realNames_link hname hlink]
      cases hlookup : seen.lookup (name :: back) with
      | some noted =>
        cases noted with
        | some known =>
          obtain ⟨m, hknown⟩ := hnoted.known _ _ hlookup
          obtain rfl := hknown.unique hleads
          exact ih h hnoted
        | none =>
          have hmem := hnoted.waiting _ hlookup
          exact absurd hleads (hpending.deep _ hmem k (Nat.lt_succ_self k) mid)
      | none =>
        obtain ⟨seen', hreal, hseen'⟩ := hatLink (Nat.lt_succ_self k) hlink hleads hnoted
        simp only [hreal]
        exact ih h (hseen'.settle hleads)

/-- Names that lead somewhere are followed there, whatever links are being followed. -/
theorem realLinks_of_leads {fuel : Nat} (h : Leads d.linkSeen? n back xs r)
    (hpending : Pending d n pending) (hnoted : Noted d pending seen)
    (hfuel : countLinks d.top < fuel + pending.length) :
    ∃ seen', d.realLinks fuel seen back xs = (seen', .resolved r) ∧ Noted d pending seen' := by
  induction n using Nat.strong_induction_on generalizing back xs r pending seen fuel with
  | _ n ih =>
    have hopen := length_le_countLinks hpending.nodup hpending.links
    obtain ⟨fuel, rfl⟩ : ∃ k, fuel = k + 1 := ⟨fuel - 1, by omega⟩
    refine realNames_of_leads (fun {k name back target mid seen} hk hlink hleads hnoted => ?_)
      hpending h hnoted
    -- a new link is followed at its least depth, so that the links above it stay out of its way
    obtain ⟨m, hm, ⟨target', hlink', hleast⟩, hfollowed⟩ := hpending.follow hk hleads
    obtain rfl : target = target' := Option.some.inj (hlink.symm.trans hlink')
    have hfuel' : countLinks d.top < fuel + ((name :: back) :: pending).length := by
      rw [List.length_cons]
      omega
    exact ih m (Nat.lt_of_le_of_lt hm hk) hleast hfollowed (hnoted.wait (name :: back)) hfuel'

/-- A path leads somewhere along the links that are seen: none on its way comes back to itself. -/
def Resolves (d : Disk) (path : String) : Prop :=
  ∃ n r, Leads d.linkSeen? n [] (names (Path.join d.cwd path)) r

/-- The real path of a path is that of the route its names lead to. -/
theorem realPath_of_leads (h : Leads d.linkSeen? n [] (names (Path.join d.cwd path)) r) :
    d.realPath path = routePath r.reverse := by
  have hpending : Pending d n [] := ⟨by simp, List.nodup_nil, by simp⟩
  obtain ⟨seen, hreal, -⟩ := realLinks_of_leads h hpending .nil (Nat.lt_succ_self _)
  have hsettled := h.settled (fun x hx => noSlash_of_mem_names hx) trivial
  rw [realPath]
  simp only [hreal]
  exact hsettled.normalize_routePath

/-! ## Real paths start at the top -/

theorem isRooted_routePath (route : Route) : Path.isRooted (routePath route) = true := by
  simp [routePath, Path.isRooted]

theorem isRooted_of_realNames {atLink : Seen → Route → String → Seen × Real} {seen' : Seen}
    (hatLink : ∀ {seen back target seen' path},
      atLink seen back target = (seen', .looping path) → Path.isRooted path = true)
    (h : d.realNames atLink seen back xs = (seen', .looping path)) :
    Path.isRooted path = true := by
  induction xs generalizing seen back with
  | nil => cases h
  | cons name rest ih =>
    by_cases hidle : name = "" ∨ name = "."
    · rw [realNames_idle hidle] at h
      exact ih h
    by_cases hup : name = ".."
    · subst hup
      rw [realNames_up] at h
      exact ih h
    have hname : Proper name := ⟨fun h => hidle (Or.inl h), fun h => hidle (Or.inr h), hup⟩
    cases hlink : d.linkSeen? (name :: back) with
    | none =>
      rw [realNames_step hname hlink] at h
      exact ih h
    | some target =>
      rw [realNames_link hname hlink] at h
      split at h
      · exact ih h
      · cases h
        exact Path.isRooted_join (isRooted_routePath _) _
      · split at h
        · exact ih h
        · rename_i hreal
          cases h
          exact Path.isRooted_join (hatLink hreal) _

theorem isRooted_of_realLinks {fuel : Nat} {seen' : Seen}
    (h : d.realLinks fuel seen back xs = (seen', .looping path)) : Path.isRooted path = true := by
  induction fuel generalizing seen back xs seen' path with
  | zero =>
    refine isRooted_of_realNames (fun hreal => ?_) h
    cases hreal
    exact isRooted_routePath _
  | succ fuel ih => exact isRooted_of_realNames (fun hreal => ih hreal) h

theorem isRooted_realPath (d : Disk) (path : String) : Path.isRooted (d.realPath path) = true := by
  rw [realPath]
  refine Path.isRooted_normalize ?_
  split
  · exact isRooted_routePath _
  · rename_i stopped hreal
    exact isRooted_of_realLinks (Prod.ext rfl hreal)

/-! ## Real paths and opened paths -/

/-- The links that are seen lead a path where all links do. -/
def InSight (d : Disk) (path : String) : Prop :=
  ∃ n r, Leads d.linkSeen? n [] (names (Path.join d.cwd path)) r ∧
    Leads d.top.linkAt? n [] (names (Path.join d.cwd path)) r

variable {route : Route} {e : Entry}

theorem InSight.resolves (h : d.InSight path) : d.Resolves path := by
  obtain ⟨n, r, hseen, -⟩ := h
  exact ⟨n, r, hseen⟩

/-- What can be opened is in sight, if all links of the tree are. -/
theorem inSight_of_place
    (hlinks : ∀ here ∈ linkRoutes [] d.top, (routePath here.reverse).utf8ByteSize ≤ longestPath)
    (hpath : Path.isRooted path = true) (h : d.place true path = .ok (.found route e)) :
    d.InSight path := by
  have hleads := (leads_of_place hpath h).1
  rw [← Path.join_of_isRooted d.cwd hpath] at hleads
  exact ⟨linkLimit, route.reverse, linkSeen?_eq_linkAt? hlinks ▸ hleads, hleads⟩

/-- The path of the route that is opened is in sight: no link is left in it. -/
theorem inSight_routePath (hpath : Path.isRooted path = true)
    (h : d.place true path = .ok (.found route e)) : d.InSight (routePath route) := by
  have hsettled := settled_of_place hpath h
  have hseen := hsettled.seen.leads_routePath (n := 0)
  have hall := hsettled.leads_routePath (n := 0)
  rw [List.reverse_reverse] at hseen hall
  refine ⟨0, route.reverse, ?_⟩
  rw [Path.join_of_isRooted d.cwd (isRooted_routePath _)]
  exact ⟨hseen, hall⟩

/-- Along the links that are seen, a path that is in sight leads to where it is opened. -/
theorem InSight.leads (h : d.InSight path) (hpath : Path.isRooted path = true)
    (hplace : d.place true path = .ok (.found route e)) :
    ∃ n, Leads d.linkSeen? n [] (names path) route.reverse := by
  obtain ⟨n, r, hseen, hall⟩ := h
  rw [Path.join_of_isRooted d.cwd hpath] at hseen hall
  exact ⟨n, hall.unique (leads_of_place hpath hplace).1 ▸ hseen⟩

/-- The real path of what is in sight is where it is opened. -/
theorem realPath_of_place (hsight : d.InSight path) (hpath : Path.isRooted path = true)
    (h : d.place true path = .ok (.found route e)) : d.realPath path = routePath route := by
  obtain ⟨n, hleads⟩ := hsight.leads hpath h
  rw [← Path.join_of_isRooted d.cwd hpath] at hleads
  rw [realPath_of_leads hleads, List.reverse_reverse]

/-- What is opened by a real path is at the route that the path leads to. -/
theorem route_of_realPath (hleads : Leads d.linkSeen? n [] (names (Path.join d.cwd path)) r)
    (h : d.place true (d.realPath path) = .ok (.found route e)) : route = r.reverse := by
  rw [realPath_of_leads hleads] at h
  have hseen := hleads.settled (fun x hx => noSlash_of_mem_names hx) trivial
  have hsettled := hseen.of_short (usable_of_place h).2
  have hopened := (leads_of_place (isRooted_routePath _) h).1
  have hsame : r = route.reverse := (hsettled.leads_routePath (n := linkLimit)).unique hopened
  rw [hsame, List.reverse_reverse]

end CodeGraph.Disk
