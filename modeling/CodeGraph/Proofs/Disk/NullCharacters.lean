import CodeGraph.Proofs.Disk.RealPath
import Mathlib.Data.List.TakeWhile

/-!
# Null characters on the way of a path

No file has a null character in its name and no link has one in its target. So a real path has one
only if the path that was asked for does (`noNull_realPath`): its names come from the path, from
link targets and from links that were followed before. And following a path comes upon one if the
names in front of it lead somewhere (`meetsNull_of_leads`).
-/

namespace CodeGraph

namespace Path

/-! ## Characters of a normalised path -/

theorem mem_joinSlash {c : Char} {parts : List (List Char)} (h : c ∈ joinSlash parts) :
    c = '/' ∨ ∃ part ∈ parts, c ∈ part := by
  induction parts with
  | nil => cases h
  | cons part rest ih =>
    by_cases hrest : rest = []
    · subst hrest
      exact .inr ⟨part, List.mem_cons_self, h⟩
    · rw [joinSlash_cons part hrest, List.mem_append, List.mem_cons] at h
      rcases h with hpart | hslash | hmem
      · exact .inr ⟨part, List.mem_cons_self, hpart⟩
      · exact .inl hslash
      · rcases ih hmem with hslash | ⟨p, hp, hc⟩
        · exact .inl hslash
        · exact .inr ⟨p, List.mem_cons_of_mem _ hp, hc⟩

theorem mem_push {rooted : Bool} {kept : List (List Char)} {part p : List Char}
    (h : p ∈ push rooted kept part) : p ∈ kept ∨ p = part ∨ p = up := by
  unfold push at h
  split at h
  · exact .inl h
  · split at h
    · split at h
      · split at h
        · cases h
        · exact .inr (.inr (List.mem_singleton.mp h))
      · split at h
        · rcases List.mem_cons.mp h with hup | hkept
          · exact .inr (.inr hup)
          · exact .inl hkept
        · exact .inl (List.mem_cons_of_mem _ h)
    · rcases List.mem_cons.mp h with hpart | hkept
      · exact .inr (.inl hpart)
      · exact .inl hkept

theorem mem_foldl_push {rooted : Bool} {parts kept : List (List Char)} {p : List Char}
    (h : p ∈ parts.foldl (push rooted) kept) : p ∈ kept ∨ p ∈ parts ∨ p = up := by
  induction parts generalizing kept with
  | nil => exact .inl h
  | cons part rest ih =>
    rcases ih h with hpush | hrest | hup
    · rcases mem_push hpush with hkept | rfl | hup
      · exact .inl hkept
      · exact .inr (.inl List.mem_cons_self)
      · exact .inr (.inr hup)
    · exact .inr (.inl (List.mem_cons_of_mem _ hrest))
    · exact .inr (.inr hup)

theorem noNull_leading (cs : List Char) : '\x00' ∉ leading cs := by
  unfold leading
  split <;> decide

theorem noNull_normalize {p : String} (h : '\x00' ∉ p.toList) :
    '\x00' ∉ (normalize p).toList := by
  unfold normalize
  dsimp only
  split
  · decide
  · rw [String.toList_ofList]
    intro hmem
    rcases List.mem_append.mp hmem with hlead | hjoined
    · exact noNull_leading _ hlead
    · rcases mem_joinSlash hjoined with hslash | ⟨part, hpart, hnull⟩
      · exact absurd hslash (by decide)
      · rcases mem_foldl_push (List.mem_reverse.mp hpart) with hnone | hsplit | rfl
        · cases hnone
        · exact h (mem_of_mem_splitSlash hsplit hnull)
        · exact absurd hnull (by decide)

theorem noNull_join {dir path : String} (hdir : '\x00' ∉ dir.toList)
    (hpath : '\x00' ∉ path.toList) : '\x00' ∉ (join dir path).toList := by
  unfold join
  split_ifs
  · exact hpath
  · simp [hdir, hpath]
  · simp [hdir, hpath]

end Path

namespace Disk

variable {d : Disk} {back route : Route} {name : String} {xs : List String} {seen : Seen}

/-! ## Names without null characters -/

/-- None of the names has a null character. -/
def NullFree (names : List String) : Prop :=
  ∀ name ∈ names, '\x00' ∉ name.toList

/-- No link of a tree has a null character in its target. -/
def LinksNullFree (top : Entry) : Prop :=
  ∀ route target, top.at? route = some (.link target) → '\x00' ∉ target.toList

theorem nullFree_names {path : String} (h : '\x00' ∉ path.toList) : NullFree (names path) := by
  intro name hname
  obtain ⟨part, hpart, rfl⟩ := List.mem_map.mp hname
  rw [String.toList_ofList]
  exact fun hmem => h (Path.mem_of_mem_splitSlash hpart hmem)

theorem NullFree.tail (h : NullFree back) : NullFree back.tail :=
  fun name hname => h name (List.mem_of_mem_tail hname)

theorem NullFree.cons (hname : '\x00' ∉ name.toList) (h : NullFree back) :
    NullFree (name :: back) := by
  intro x hx
  rcases List.mem_cons.mp hx with rfl | hx
  · exact hname
  · exact h x hx

theorem NullFree.intercalate (h : NullFree xs) :
    '\x00' ∉ (String.intercalate "/" xs).toList := by
  rw [toList_intercalate_slash]
  intro hmem
  rcases Path.mem_joinSlash hmem with hslash | ⟨part, hpart, hnull⟩
  · exact absurd hslash (by decide)
  · obtain ⟨name, hname, rfl⟩ := List.mem_map.mp hpart
    exact h name hname hnull

theorem NullFree.routePath (h : NullFree back) : '\x00' ∉ (routePath back.reverse).toList := by
  have hnames : NullFree back.reverse := fun name hname => h name (List.mem_reverse.mp hname)
  rw [Disk.routePath, String.toList_append]
  intro hmem
  rcases List.mem_append.mp hmem with hslash | hmem
  · exact absurd hslash (by decide)
  · exact hnames.intercalate hmem

/-! ## Following links -/

/-- Where a path was found to lead has no null character. -/
def Real.NullFree : Real → Prop
  | .resolved back => Disk.NullFree back
  | .looping path => '\x00' ∉ path.toList

/-- Where the noted links lead has no null character. -/
def Seen.NullFree (seen : Seen) : Prop :=
  ∀ here known, (here, some known) ∈ seen → Disk.NullFree known

theorem Seen.NullFree.wait (h : Seen.NullFree seen) (here : Route) :
    Seen.NullFree ((here, none) :: seen) := by
  intro here' known hmem
  rcases List.mem_cons.mp hmem with heq | hmem
  · cases heq
  · exact h here' known hmem

theorem Seen.NullFree.settle (h : Seen.NullFree seen) {found : Route}
    (hfound : Disk.NullFree found) (here : Route) :
    Seen.NullFree ((here, some found) :: seen) := by
  intro here' known hmem
  rcases List.mem_cons.mp hmem with heq | hmem
  · cases heq
    exact hfound
  · exact h here' known hmem

theorem Seen.NullFree.lookup (h : Seen.NullFree seen) {here known : Route}
    (hlookup : seen.lookup here = some (some known)) : Disk.NullFree known := by
  obtain ⟨before, after, rfl, -⟩ := List.lookup_eq_some_iff.mp hlookup
  exact h here known (by simp)

theorem nullFree_stopAt {path : String} (hpath : '\x00' ∉ path.toList) (h : NullFree xs) :
    (stopAt path xs).NullFree :=
  Path.noNull_join hpath h.intercalate

/-- One level of following: if links at this level keep null characters out, so do all names. -/
theorem nullFree_realNames {atLink : Seen → Route → String → Seen × Real}
    (htop : LinksNullFree d.top)
    (hatLink : ∀ {seen back target}, Seen.NullFree seen → NullFree back →
      '\x00' ∉ target.toList →
      Seen.NullFree (atLink seen back target).1 ∧ (atLink seen back target).2.NullFree)
    (hseen : Seen.NullFree seen) (hback : NullFree back) (hxs : NullFree xs) :
    Seen.NullFree (d.realNames atLink seen back xs).1 ∧
      (d.realNames atLink seen back xs).2.NullFree := by
  induction xs generalizing seen back with
  | nil => exact ⟨hseen, hback⟩
  | cons name rest ih =>
    have hname := hxs name List.mem_cons_self
    have hrest : NullFree rest := fun x hx => hxs x (List.mem_cons_of_mem _ hx)
    by_cases hidle : name = "" ∨ name = "."
    · rw [realNames_idle hidle]
      exact ih hseen hback hrest
    by_cases hup : name = ".."
    · subst hup
      rw [realNames_up]
      exact ih hseen hback.tail hrest
    have hproper : Proper name := ⟨fun h => hidle (Or.inl h), fun h => hidle (Or.inr h), hup⟩
    have hhere : NullFree (name :: back) := hback.cons hname
    cases hlink : d.linkSeen? (name :: back) with
    | none =>
      rw [realNames_step hproper hlink]
      exact ih hseen hhere hrest
    | some target =>
      have htarget := htop _ target (Entry.linkAt?_eq_some.mp (linkSeen?_eq_some.mp hlink).2)
      obtain ⟨hseen', hreal⟩ := hatLink (hseen.wait (name :: back)) hback htarget
      rw [realNames_link hproper hlink]
      split
      · rename_i known hlookup
        exact ih hseen (hseen.lookup hlookup) hrest
      · exact ⟨hseen, nullFree_stopAt hhere.routePath hrest⟩
      · split
        · rename_i found hfollowed
          rw [hfollowed] at hseen' hreal
          exact ih (hseen'.settle hreal _) hreal hrest
        · rename_i path hfollowed
          rw [hfollowed] at hseen' hreal
          exact ⟨hseen', nullFree_stopAt hreal hrest⟩

theorem nullFree_realLinks (htop : LinksNullFree d.top) (fuel : Nat)
    (hseen : Seen.NullFree seen) (hback : NullFree back) (hxs : NullFree xs) :
    Seen.NullFree (d.realLinks fuel seen back xs).1 ∧
      (d.realLinks fuel seen back xs).2.NullFree := by
  induction fuel generalizing seen back xs with
  | zero =>
    exact nullFree_realNames htop (fun hseen hback _ => ⟨hseen, hback.routePath⟩) hseen hback hxs
  | succ fuel ih =>
    refine nullFree_realNames htop (fun hseen hback htarget => ?_) hseen hback hxs
    refine ih hseen ?_ (nullFree_names htarget)
    split
    · exact fun name hname => absurd hname List.not_mem_nil
    · exact hback

/-- A real path has a null character only if the path does. -/
theorem noNull_realPath {path : String} (htop : LinksNullFree d.top)
    (h : '\x00' ∉ (Path.join d.cwd path).toList) : '\x00' ∉ (d.realPath path).toList := by
  have hnone : Seen.NullFree [] := fun _ _ hmem => absurd hmem List.not_mem_nil
  have hstart : NullFree [] := fun _ hmem => absurd hmem List.not_mem_nil
  have hreal := (nullFree_realLinks htop (countLinks d.top + 1) hnone hstart
    (nullFree_names h)).2
  rw [realPath]
  refine Path.noNull_normalize ?_
  split
  · rename_i found hfound
    rw [hfound] at hreal
    exact NullFree.routePath hreal
  · rename_i stopped hstopped
    rw [hstopped] at hreal
    exact hreal

/-! ## Coming upon a null character -/

theorem meetsNull_of_noNull {path : String}
    (h : '\x00' ∉ (Path.join d.cwd path).toList) : d.meetsNull path = false := by
  have hall : (names (Path.join d.cwd path)).takeWhile
      (fun name => !name.toList.contains '\x00') = names (Path.join d.cwd path) :=
    List.takeWhile_eq_self_iff.mpr
      (fun name hname => by simpa using nullFree_names h name hname)
  rw [meetsNull, hall]
  split <;> simp

/-- If the names in front of a null character lead somewhere, the character is come upon. -/
theorem meetsNull_of_leads {path : String} {before after : List String} {n : Nat}
    {r : Route} (hnames : names (Path.join d.cwd path) = before ++ name :: after)
    (hbefore : NullFree before) (hname : '\x00' ∈ name.toList)
    (hleads : Leads d.linkSeen? n [] before r) : d.meetsNull path = true := by
  have hfront : (names (Path.join d.cwd path)).takeWhile
      (fun name => !name.toList.contains '\x00') = before := by
    rw [hnames, List.takeWhile_append_of_pos (fun x hx => by simpa using hbefore x hx),
      List.takeWhile_cons_of_neg (by simpa using hname), List.append_nil]
  have hpending : Pending d n [] := ⟨by simp, List.nodup_nil, by simp⟩
  obtain ⟨seen, hreal, -⟩ := realLinks_of_leads hleads hpending .nil (Nat.lt_succ_self _)
  rw [meetsNull, hfront, hreal, hnames]
  simp

end Disk

end CodeGraph
