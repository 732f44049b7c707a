import CodeGraph.FileTree
import CodeGraph.Proofs.Path.Components

/-!
# What a path leads to

`Leads` says, without a cache, a limit or a loop test, which route the names of a path come to
when every link on the way is followed. Where links are found is passed in, and with it `Leads` is
the measure for both ways of looking a path up: an opened path ends where all links lead
(`leads_of_place`), and a real path is compared in `CodeGraph.Proofs.Disk.RealPath` with where the
links lead that are seen.

Routes are given last name first, as the lookups keep them.
-/

namespace CodeGraph

/-! ## Entries of a tree -/

namespace Entry

theorem at?_concat (top : Entry) (route : Route) (name : String) :
    top.at? (route ++ [name]) = (top.at? route).bind (fun e => find? e.contents name) := by
  induction route generalizing top with
  | nil =>
    cases top with
    | directory entries =>
      rw [List.nil_append, at?]
      cases hfind : find? entries name <;> simp [at?, contents, hfind]
    | file | link => rfl
  | cons first rest ih =>
    cases top with
    | directory entries =>
      rw [List.cons_append, at?, at?]
      cases find? entries first with
      | none => rfl
      | some e => exact ih e
    | file | link => rfl

theorem linkAt?_eq_some {top : Entry} {back : Route} {target : String} :
    top.linkAt? back = some target ↔ top.at? back.reverse = some (link target) := by
  unfold linkAt?
  split <;> simp_all

theorem linkAt?_eq_none {top : Entry} {back : Route} :
    top.linkAt? back = none ↔ ∀ target, top.at? back.reverse ≠ some (link target) := by
  unfold linkAt?
  split <;> simp_all

end Entry

namespace Disk

/-! ## Names and what they lead to -/

/-- A name that stands for an entry of a directory. -/
structure Proper (name : String) : Prop where
  ne_empty : name ≠ ""
  ne_here : name ≠ "."
  ne_up : name ≠ ".."

/-- The route a link's target starts from: the top, or the link's directory. -/
def origin (back : Route) (target : String) : Route :=
  if Path.isRooted target then [] else back

/-- Names lead from one route to another along links that are found by `link?`. The number bounds
how deep links lead to links. -/
inductive Leads (link? : Route → Option String) : Nat → Route → List String → Route → Prop
  | done {n back} : Leads link? n back [] back
  | idle {n back name rest r} : name = "" ∨ name = "." → Leads link? n back rest r →
      Leads link? n back (name :: rest) r
  | up {n back rest r} : Leads link? n back.tail rest r → Leads link? n back (".." :: rest) r
  | step {n back name rest r} : Proper name → link? (name :: back) = none →
      Leads link? n (name :: back) rest r → Leads link? n back (name :: rest) r
  | link {n back name rest target mid r} : Proper name → link? (name :: back) = some target →
      Leads link? n (origin back target) (names target) mid → Leads link? (n + 1) mid rest r →
      Leads link? (n + 1) back (name :: rest) r

variable {link? : Route → Option String} {n m : Nat} {back mid r r' : Route}
  {name target : String} {rest xs ys : List String}

theorem Leads.mono (h : Leads link? n back xs r) (hle : n ≤ m) : Leads link? m back xs r := by
  induction h generalizing m with
  | done => exact .done
  | idle hname _ ih => exact .idle hname (ih hle)
  | up _ ih => exact .up (ih hle)
  | step hname hlink _ ih => exact .step hname hlink (ih hle)
  | link hname hlink _ _ ihtarget ihrest =>
    cases m with
    | zero => exact absurd hle (Nat.not_succ_le_zero _)
    | succ m => exact .link hname hlink (ihtarget (Nat.le_of_succ_le_succ hle)) (ihrest hle)

/-- What names lead to is determined, however deep one looks. -/
theorem Leads.unique (h : Leads link? n back xs r) (h' : Leads link? m back xs r') : r = r' := by
  induction h generalizing m r' with
  | done =>
    cases h'
    rfl
  | idle hname _ ih =>
    cases h' with
    | idle _ h' => exact ih h'
    | up => simp at hname
    | step hproper => exact absurd hname (not_or_intro hproper.ne_empty hproper.ne_here)
    | link hproper => exact absurd hname (not_or_intro hproper.ne_empty hproper.ne_here)
  | up _ ih =>
    cases h' with
    | idle hname => simp at hname
    | up h' => exact ih h'
    | step hproper => exact absurd rfl hproper.ne_up
    | link hproper => exact absurd rfl hproper.ne_up
  | step hproper hnone _ ih =>
    cases h' with
    | idle hname => exact absurd hname (not_or_intro hproper.ne_empty hproper.ne_here)
    | up => exact absurd rfl hproper.ne_up
    | step _ _ h' => exact ih h'
    | link _ hsome => simp [hnone] at hsome
  | link hproper hsome _ _ ihtarget ihrest =>
    cases h' with
    | idle hname => exact absurd hname (not_or_intro hproper.ne_empty hproper.ne_here)
    | up => exact absurd rfl hproper.ne_up
    | step _ hnone => simp [hnone] at hsome
    | link _ hsome' htarget hrest =>
      obtain rfl : _ = _ := Option.some.inj (hsome.symm.trans hsome')
      obtain rfl := ihtarget htarget
      exact ihrest hrest

theorem Leads.append (h : Leads link? n back xs mid) (hrest : Leads link? n mid ys r) :
    Leads link? n back (xs ++ ys) r := by
  induction h with
  | done => exact hrest
  | idle hname _ ih => exact .idle hname (ih hrest)
  | up _ ih => exact .up (ih hrest)
  | step hname hlink _ ih => exact .step hname hlink (ih hrest)
  | link hname hlink htarget _ _ ih => exact .link hname hlink htarget (ih hrest)

theorem Leads.split (h : Leads link? n back (xs ++ ys) r) :
    ∃ mid, Leads link? n back xs mid ∧ Leads link? n mid ys r := by
  induction xs generalizing back with
  | nil => exact ⟨back, .done, h⟩
  | cons name xs ih =>
    cases h with
    | idle hname h =>
      obtain ⟨mid, hxs, hys⟩ := ih h
      exact ⟨mid, .idle hname hxs, hys⟩
    | up h =>
      obtain ⟨mid, hxs, hys⟩ := ih h
      exact ⟨mid, .up hxs, hys⟩
    | step hname hlink h =>
      obtain ⟨mid, hxs, hys⟩ := ih h
      exact ⟨mid, .step hname hlink hxs, hys⟩
    | link hname hlink htarget h =>
      obtain ⟨mid, hxs, hys⟩ := ih h
      exact ⟨mid, .link hname hlink htarget hxs, hys⟩

/-! ## Routes without links -/

/-- A route of proper names, none of them a link. -/
def Settled (link? : Route → Option String) : Route → Prop
  | [] => True
  | name :: back => Path.Plain name.toList ∧ link? (name :: back) = none ∧ Settled link? back

theorem Settled.tail (h : Settled link? back) : Settled link? back.tail := by
  cases back with
  | nil => exact h
  | cons name back => exact h.2.2

theorem Settled.origin (h : Settled link? back) (target : String) :
    Settled link? (origin back target) := by
  unfold Disk.origin
  split
  · exact trivial
  · exact h

theorem Proper.plain (h : Proper name) (hslash : '/' ∉ name.toList) : Path.Plain name.toList where
  ne_nil hnil := h.ne_empty (String.toList_inj.mp hnil)
  ne_here hhere := h.ne_here (String.toList_inj.mp hhere)
  ne_up hup := h.ne_up (String.toList_inj.mp hup)
  noSlash := hslash

theorem proper_of_plain (h : Path.Plain name.toList) : Proper name where
  ne_empty hname := h.ne_nil (by rw [hname]; rfl)
  ne_here hname := h.ne_here (by rw [hname]; rfl)
  ne_up hname := h.ne_up (by rw [hname]; rfl)

theorem noSlash_of_mem_names {path : String} (h : name ∈ names path) : '/' ∉ name.toList := by
  obtain ⟨part, hpart, rfl⟩ := List.mem_map.mp h
  rw [String.toList_ofList]
  exact Path.noSlash_of_mem_splitSlash hpart

/-- Following links ends at a route without links. -/
theorem Leads.settled (h : Leads link? n back xs r) (hxs : ∀ name ∈ xs, '/' ∉ name.toList)
    (hback : Settled link? back) : Settled link? r := by
  induction h with
  | done => exact hback
  | idle _ _ ih => exact ih (fun x hx => hxs x (List.mem_cons_of_mem _ hx)) hback
  | up _ ih => exact ih (fun x hx => hxs x (List.mem_cons_of_mem _ hx)) hback.tail
  | step hname hlink _ ih =>
    have hplain := hname.plain (hxs _ List.mem_cons_self)
    exact ih (fun x hx => hxs x (List.mem_cons_of_mem _ hx)) ⟨hplain, hlink, hback⟩
  | link _ _ _ _ ihtarget ihrest =>
    have hmid := ihtarget (fun x hx => noSlash_of_mem_names hx) (hback.origin _)
    exact ihrest (fun x hx => hxs x (List.mem_cons_of_mem _ hx)) hmid

theorem Settled.leads (h : Settled link? r) : Leads link? n [] r.reverse r := by
  induction r with
  | nil => exact .done
  | cons name back ih =>
    rw [List.reverse_cons]
    exact (ih h.2.2).append (.step (proper_of_plain h.1) h.2.1 .done)

theorem Settled.plain (h : Settled link? r) : ∀ name ∈ r, Path.Plain name.toList := by
  induction r with
  | nil => simp
  | cons name back ih =>
    intro x hx
    rcases List.mem_cons.mp hx with rfl | hx
    · exact h.1
    · exact ih h.2.2 x hx

theorem Settled.plain_parts (h : Settled link? r) :
    ∀ part ∈ r.reverse.map String.toList, Path.Plain part := by
  intro part hpart
  obtain ⟨name, hname, rfl⟩ := List.mem_map.mp hpart
  exact h.plain name (List.mem_reverse.mp hname)

/-! ## The path of a route -/

theorem toList_intercalate_slash (xs : List String) :
    (String.intercalate "/" xs).toList = Path.joinSlash (xs.map String.toList) := by
  rw [String.toList_intercalate]
  induction xs with
  | nil => rfl
  | cons x xs ih =>
    cases xs with
    | nil => simp [Path.joinSlash]
    | cons y ys =>
      rw [List.map_cons, List.map_cons, Path.joinSlash_cons _ (by simp), ← List.map_cons, ← ih]
      simp [List.intercalate_cons_cons]

theorem routePath_eq (route : Route) :
    routePath route = String.ofList (Path.written (route.map String.toList)) := by
  rw [← String.toList_inj, String.toList_ofList, routePath, String.toList_append,
    toList_intercalate_slash]
  rfl

/-- The path of a route without links leads to the route. -/
theorem Settled.leads_routePath (h : Settled link? r) :
    Leads link? n [] (names (routePath r.reverse)) r := by
  rw [names, routePath_eq, String.toList_ofList, Path.written, Path.splitSlash_slash]
  refine .idle (Or.inl rfl) ?_
  by_cases hne : r = []
  · subst hne
    exact .idle (Or.inl rfl) .done
  · rw [Path.splitSlash_joinSlash (by simpa using hne) (fun p hp => (h.plain_parts p hp).noSlash)]
    simpa using h.leads

theorem Settled.leading_routePath (h : Settled link? r) :
    Path.leading (routePath r.reverse).toList = ['/'] := by
  rw [routePath_eq, String.toList_ofList]
  exact Path.leading_written h.plain_parts

theorem Settled.components_routePath (h : Settled link? r) :
    Path.components (routePath r.reverse) = r.reverse.map String.toList := by
  rw [routePath_eq]
  exact Path.components_written h.plain_parts

theorem Settled.normalize_routePath (h : Settled link? r) :
    Path.normalize (routePath r.reverse) = routePath r.reverse := by
  rw [Path.normalize_eq h.leading_routePath, h.components_routePath, ← routePath_eq]

/-- A route is below another if its path is within the other's. -/
theorem Settled.isWithin_routePath {link?' : Route → Option String} (cwd : String)
    (h : Settled link? r) (h' : Settled link?' r') :
    Path.isWithin cwd (routePath r.reverse) (routePath r'.reverse) = true ↔
      r.reverse <+: r'.reverse := by
  rw [Path.isWithin_iff cwd h.leading_routePath h'.leading_routePath, h.components_routePath,
    h'.components_routePath]
  constructor
  · intro hparts
    have hnames := hparts.map String.ofList
    simpa [List.map_map, Function.comp_def] using hnames
  · exact fun hnames => hnames.map String.toList

/-- A name takes its bytes and a slash in the path of a route. -/
theorem utf8ByteSize_routePath_cons {route : Route} (name : String) (hne : route ≠ []) :
    (routePath (name :: route)).utf8ByteSize =
      name.utf8ByteSize + 1 + (routePath route).utf8ByteSize := by
  obtain ⟨next, rest, rfl⟩ := List.exists_cons_of_ne_nil hne
  have hslash : "/".utf8ByteSize = 1 := rfl
  rw [routePath, routePath, String.intercalate_cons_cons]
  simp only [String.utf8ByteSize_append, hslash]
  omega

/-- A route below another has the longer path. -/
theorem utf8ByteSize_routePath_le (route : Route) (name : String) :
    (routePath route).utf8ByteSize ≤ (routePath (route ++ [name])).utf8ByteSize := by
  induction route with
  | nil =>
    rw [routePath, routePath, String.utf8ByteSize_append, String.utf8ByteSize_append]
    exact Nat.add_le_add_left (Nat.zero_le _) _
  | cons first rest ih =>
    rw [List.cons_append, utf8ByteSize_routePath_cons first (List.concat_ne_nil name rest)]
    by_cases hne : rest = []
    · subst hne
      have hslash : "/".utf8ByteSize = 1 := rfl
      rw [routePath, String.intercalate_singleton, String.utf8ByteSize_append, hslash]
      omega
    · rw [utf8ByteSize_routePath_cons first hne]
      omega

/-! ## Opening a path -/

variable {top e : Entry} {atLink : Route → String → List String → Except DiskError Place}
  {route : Route}

/-- The ways in which a lookup that finds something treats the next name. -/
theorem follow_cons_cases
    (h : follow top true atLink back (name :: rest) = .ok (.found route e)) :
    ((name = "" ∨ name = ".") ∧ follow top true atLink back rest = .ok (.found route e)) ∨
    (name = ".." ∧ follow top true atLink back.tail rest = .ok (.found route e)) ∨
    (Proper name ∧ top.linkAt? (name :: back) = none ∧
      follow top true atLink (name :: back) rest = .ok (.found route e)) ∨
    (∃ target, Proper name ∧ top.linkAt? (name :: back) = some target ∧
      atLink back target rest = .ok (.found route e)) := by
  rw [follow] at h
  split at h
  · rename_i entries hdir
    have hat : top.at? (name :: back).reverse = Entry.find? entries name := by
      rw [List.reverse_cons, Entry.at?_concat, hdir]
      rfl
    split at h
    · rename_i hidle
      exact Or.inl ⟨by simpa using hidle, h⟩
    · rename_i hidle
      have hne : name ≠ "" ∧ name ≠ "." := by simpa using hidle
      split at h
      · rename_i hup
        exact Or.inr (Or.inl ⟨by simpa using hup, h⟩)
      · rename_i hup
        have hproper : Proper name := ⟨hne.1, hne.2, by simpa using hup⟩
        split at h
        · cases h
        · split at h
          · split at h <;> cases h
          · rename_i target hfind
            have hlink := Entry.linkAt?_eq_some.mpr (hat.trans hfind)
            simp only [Bool.not_true, Bool.and_false, Bool.false_eq_true, if_false] at h
            exact Or.inr (Or.inr (Or.inr ⟨target, hproper, hlink, h⟩))
          · rename_i found hother hfind
            refine Or.inr (Or.inr (Or.inl ⟨hproper, Entry.linkAt?_eq_none.mpr ?_, h⟩))
            intro target hlink
            rw [hat, hfind] at hlink
            exact hother target (Option.some.inj hlink)
  · cases h
  · cases h

theorem at?_of_follow_nil (h : follow top true atLink back [] = .ok (.found route e)) :
    route = back.reverse ∧ top.at? route = some e := by
  rw [follow] at h
  split at h
  · rename_i found hfound
    cases h
    exact ⟨rfl, hfound⟩
  · cases h

/-- A lookup ends where its names lead, if it does so from every link. -/
theorem leads_of_follow
    (hatLink : ∀ {back name target rest}, Proper name → top.linkAt? (name :: back) = some target →
      atLink back target rest = .ok (.found route e) →
      Leads top.linkAt? n back (name :: rest) route.reverse ∧ top.at? route = some e)
    (h : follow top true atLink back xs = .ok (.found route e)) :
    Leads top.linkAt? n back xs route.reverse ∧ top.at? route = some e := by
  induction xs generalizing back with
  | nil =>
    obtain ⟨rfl, hat⟩ := at?_of_follow_nil h
    exact ⟨by rw [List.reverse_reverse]; exact .done, hat⟩
  | cons name rest ih =>
    rcases follow_cons_cases h with
      ⟨hname, hrest⟩ | ⟨rfl, hrest⟩ | ⟨hname, hlink, hrest⟩ | ⟨target, hname, hlink, hrest⟩
    · exact (ih hrest).imp_left (.idle hname)
    · exact (ih hrest).imp_left .up
    · exact (ih hrest).imp_left (.step hname hlink)
    · exact hatLink hname hlink hrest

theorem leads_of_followLinks (h : followLinks top true n back xs = .ok (.found route e)) :
    Leads top.linkAt? n back xs route.reverse ∧ top.at? route = some e := by
  induction n generalizing back xs with
  | zero =>
    refine leads_of_follow (fun _ _ herror => ?_) h
    cases herror
  | succ n ih =>
    refine leads_of_follow (fun hname hlink hrest => ?_) h
    -- the lookup goes on with the target's names in front: cut where they end
    obtain ⟨hleads, hat⟩ := ih hrest
    obtain ⟨mid, htarget, hafter⟩ := hleads.split
    exact ⟨.link hname hlink htarget (hafter.mono (Nat.le_succ n)), hat⟩

/-- A path that is looked up has no null character and is not too long. -/
theorem usable_of_place {d : Disk} {path : String} {found : Place} {followLast : Bool}
    (h : d.place followLast path = .ok found) :
    '\x00' ∉ path.toList ∧ path.utf8ByteSize ≤ longestPath := by
  rw [place] at h
  split_ifs at h with hnull hempty hlong
  exact ⟨by simpa using hnull, Nat.not_lt.mp hlong⟩

/-- An opened path ends at the entry of the route it leads to. -/
theorem leads_of_place {d : Disk} {path : String} (hpath : Path.isRooted path = true)
    (h : d.place true path = .ok (.found route e)) :
    Leads d.top.linkAt? linkLimit [] (names path) route.reverse ∧ d.top.at? route = some e := by
  unfold place at h
  split_ifs at h
  rw [startOf, if_pos hpath] at h
  exact leads_of_followLinks h

theorem settled_of_place {d : Disk} {path : String} (hpath : Path.isRooted path = true)
    (h : d.place true path = .ok (.found route e)) : Settled d.top.linkAt? route.reverse :=
  (leads_of_place hpath h).1.settled (fun _ hx => noSlash_of_mem_names hx) trivial

/-- Of two places that are opened, the path of one is within that of the other exactly if its route
is. -/
theorem isWithin_of_places {d : Disk} {path path' : String} {route' : Route} {e' : Entry}
    (hpath : Path.isRooted path = true) (h : d.place true path = .ok (.found route e))
    (hpath' : Path.isRooted path' = true) (h' : d.place true path' = .ok (.found route' e')) :
    Path.isWithin d.cwd (routePath route) (routePath route') = true ↔ route <+: route' := by
  have hroutes := (settled_of_place hpath h).isWithin_routePath d.cwd (settled_of_place hpath' h')
  rwa [List.reverse_reverse, List.reverse_reverse] at hroutes

end Disk

end CodeGraph
