import CodeGraph.Logging
import Mathlib.Data.List.Basic

/-!
# One console handler, and all the others

Setting up a log takes its console handlers away while going through a copy of the list, and adds a
new one at the end. The list that shrinks and the copy stay in step: what has been gone through is
left with its foreign handlers, what has not is as it was (`foldl_remove`). So a set-up log has the
foreign handlers, in their order, and one console handler after them (`handlers_setup`).

A log is set up again and again, and others add handlers in between (`LogChange`). No change takes a
foreign handler away (`foreigners_apply`), hence no sequence of them does (`foreigners_after`).
-/

namespace CodeGraph

/-! ## Names of levels -/

namespace Level

/-- The name is that of the level, letter case aside: both are the same in capitals. -/
def Names (name : String) (level : Level) : Prop :=
  ∃ key, (key, level) ∈ byName ∧ capitals name = capitals key

/-- The name stands for the level: it is its name, or no level's name and the level is the usual
one. -/
def Means (name : String) (level : Level) : Prop :=
  Names name level ∨ (∀ other, ¬ Names name other) ∧ level = info

theorem capitals_of_mem_byName {key : String} {level : Level} (h : (key, level) ∈ byName) :
    capitals key = key := by
  have hall : ∀ e ∈ byName, capitals e.1 = e.1 := by decide
  exact hall (key, level) h

theorem names_iff {name : String} {level : Level} :
    Names name level ↔ named? name = some level := by
  have hdistinct : byName.Pairwise (fun a b => a.1 ≠ b.1) := by decide
  constructor
  · rintro ⟨key, hmem, hcapitals⟩
    obtain ⟨before, after, hsplit⟩ := List.append_of_mem hmem
    rw [named?, hcapitals, capitals_of_mem_byName hmem, List.lookup_eq_some_iff]
    refine ⟨before, after, hsplit, ?_⟩
    intro e he
    rw [hsplit] at hdistinct
    have hne := (List.pairwise_append.mp hdistinct).2.2 e he _ List.mem_cons_self
    simpa using hne.symm
  · intro h
    obtain ⟨before, after, hsplit, -⟩ := List.lookup_eq_some_iff.mp h
    have hmem : (capitals name, level) ∈ byName := by
      rw [hsplit]
      exact List.mem_append_right _ List.mem_cons_self
    exact ⟨capitals name, hmem, (capitals_of_mem_byName hmem).symm⟩

theorem means_iff {name : String} {level : Level} : Means name level ↔ ofName name = level := by
  unfold Means ofName
  simp only [names_iff]
  cases named? name with
  | none => simp [eq_comm]
  | some found => simp

/-- A letter and its small form have the same capital. -/
theorem capital_toLower (c : Char) : capital c.toLower = capital c := by
  by_cases hupper : c.val ≥ 'A'.val ∧ c.val ≤ 'Z'.val
  · have hletters : ∀ i : Fin 26, capital (Char.ofNat (65 + i)).toLower =
        capital (Char.ofNat (65 + i)) := by decide
    have hrange : 65 ≤ c.toNat ∧ c.toNat ≤ 90 := by
      simpa [UInt32.le_iff_toNat_le] using hupper
    have hletter := hletters ⟨c.toNat - 65, by omega⟩
    have hsame : 65 + (c.toNat - 65) = c.toNat := by omega
    simpa only [hsame, Char.ofNat_toNat] using hletter
  · have hlower : c.toLower = c := dif_neg hupper
    rw [hlower]

theorem capitals_congr {name other : String}
    (h : name.toList.map Char.toLower = other.toList.map Char.toLower) :
    capitals name = capitals other := by
  have hsmall : ∀ cs : List Char, cs.flatMap capital = (cs.map Char.toLower).flatMap capital := by
    intro cs
    rw [List.flatMap_map]
    exact List.flatMap_congr (fun c _ => (capital_toLower c).symm)
  rw [capitals, capitals, hsmall, h, ← hsmall]

end Level

/-! ## Setting up -/

namespace Log

theorem isConsole_console (stream : Option String) (level : Level) :
    (Handler.console stream level).isConsole = true := by
  simp [Handler.isConsole, Handler.console]

theorem foldl_remove (level : Level) (done rest : List Handler)
    (hdone : ∀ h ∈ done, h.isConsole = false) :
    rest.foldl (fun log h => if h.isConsole then log.remove h else log)
        (⟨level, done ++ rest⟩ : Log) =
      ⟨level, done ++ rest.filter (fun h => !h.isConsole)⟩ := by
  induction rest generalizing done with
  | nil => rfl
  | cons h rest ih =>
    cases hconsole : h.isConsole with
    | true =>
      have hnew : h ∉ done := by
        intro hmem
        rw [hdone h hmem] at hconsole
        cases hconsole
      have hremove : (⟨level, done ++ h :: rest⟩ : Log).remove h = ⟨level, done ++ rest⟩ := by
        rw [remove, List.erase_append_right _ hnew, List.erase_cons_head]
      rw [List.foldl_cons, if_pos hconsole, hremove, ih done hdone,
        List.filter_cons_of_neg (by simp [hconsole])]
    | false =>
      have hmore : ∀ x ∈ done ++ [h], x.isConsole = false := by
        intro x hx
        rcases List.mem_append.mp hx with hold | hself
        · exact hdone x hold
        · rwa [List.mem_singleton.mp hself]
      have hnext := ih (done ++ [h]) hmore
      simp only [List.append_assoc, List.singleton_append] at hnext
      rw [List.foldl_cons, if_neg (by simp [hconsole]), hnext,
        List.filter_cons_of_pos (by simp [hconsole])]

theorem removeConsoles_eq (log : Log) : log.removeConsoles = ⟨log.level, log.foreigners⟩ :=
  foldl_remove log.level [] log.handlers (by simp)

theorem level_setup (log : Log) (stream : Option String) (level : Level) :
    (log.setup stream level).level = level := by
  rw [setup, removeConsoles_eq]
  rfl

theorem handlers_setup (log : Log) (stream : Option String) (level : Level) :
    (log.setup stream level).handlers = log.foreigners ++ [.console stream level] := by
  rw [setup, removeConsoles_eq]
  rfl

theorem consoles_setup (log : Log) (stream : Option String) (level : Level) :
    (log.setup stream level).consoles = [.console stream level] := by
  have hforeign : log.foreigners.filter (·.isConsole) = [] := by
    simp [foreigners, List.filter_filter]
  rw [consoles, handlers_setup, List.filter_append, hforeign, List.nil_append,
    List.filter_cons_of_pos (isConsole_console stream level), List.filter_nil]

theorem foreigners_setup (log : Log) (stream : Option String) (level : Level) :
    (log.setup stream level).foreigners = log.foreigners := by
  have hforeign : log.foreigners.filter (fun h => !h.isConsole) = log.foreigners := by
    simp [foreigners]
  rw [foreigners, handlers_setup, List.filter_append, hforeign,
    List.filter_cons_of_neg (by simp [isConsole_console]), List.filter_nil, List.append_nil]

theorem foreigners_add {h : Handler} (hforeign : h.isConsole = false) (log : Log) :
    (log.add h).foreigners = log.foreigners ++ [h] := by
  rw [foreigners, add, List.filter_append, List.filter_cons_of_pos (by simp [hforeign]),
    List.filter_nil]
  rfl

end Log

/-! ## One change after the other -/

/-- What happens to a log: it is set up, or someone adds a handler that is no console handler. -/
inductive LogChange where
  | configured (stream asked : Option String) (setting : String)
  | added (h : Handler) (foreign : h.isConsole = false)

namespace LogChange

/-- The log after a change. -/
def apply (log : Log) : LogChange → Log
  | configured stream asked setting => log.configure stream asked setting
  | added h _ => log.add h

/-- The handler that someone added. -/
def handler? : LogChange → Option Handler
  | configured .. => none
  | added h _ => some h

theorem foreigners_apply (log : Log) (change : LogChange) :
    (change.apply log).foreigners = log.foreigners ++ change.handler?.toList := by
  cases change with
  | configured stream asked setting =>
    rw [apply, Log.configure, Log.foreigners_setup]
    exact (List.append_nil _).symm
  | added h foreign => exact Log.foreigners_add foreign log

end LogChange

namespace Log

/-- The log after some changes. -/
def after (log : Log) (changes : List LogChange) : Log :=
  changes.foldl LogChange.apply log

theorem foreigners_after (log : Log) (changes : List LogChange) :
    (log.after changes).foreigners =
      log.foreigners ++ changes.filterMap LogChange.handler? := by
  induction changes generalizing log with
  | nil => simp [after]
  | cons change rest ih =>
    have hstep := ih (change.apply log)
    rw [LogChange.foreigners_apply, List.append_assoc] at hstep
    rw [after, List.foldl_cons, ← after, hstep]
    cases change <;> rfl

/-- **One console handler at the end, and no other handler lost.** However a log began and whatever
happened to it, right after it has been set up it has one console handler, which is the last. The
other handlers are those it began with and those that were added, in order. The level of the log and
of the console handler is the one that is asked for by name, or that of the setting if none is;
letter case does not matter, and a name that no level has stands for the usual level. -/
theorem one_console_last (log : Log) (changes : List LogChange) (stream asked : Option String)
    (setting : String) :
    (∃ console, (log.after (changes ++ [.configured stream asked setting])).consoles = [console] ∧
      (log.after (changes ++ [.configured stream asked setting])).handlers.getLast? =
        some console ∧
      (log.after (changes ++ [.configured stream asked setting])).foreigners =
        log.foreigners ++ changes.filterMap LogChange.handler? ∧
      (log.after (changes ++ [.configured stream asked setting])).level = console.level ∧
      (∀ name, asked = some name → name ≠ "" → Level.Means name console.level) ∧
      (asked.getD "" = "" → Level.Means setting console.level)) ∧
    ∀ (name other : String) (level : Level),
      name.toList.map Char.toLower = other.toList.map Char.toLower →
      (Level.Means name level ↔ Level.Means other level) := by
  have hlast : log.after (changes ++ [.configured stream asked setting]) =
      (log.after changes).configure stream asked setting := List.foldl_concat ..
  rw [hlast, configure]
  refine ⟨⟨_, consoles_setup _ stream _, ?_, ?_, level_setup _ stream _, ?_, ?_⟩, ?_⟩
  · rw [handlers_setup, List.getLast?_concat]
  · rw [foreigners_setup, foreigners_after]
  · rintro name rfl hne
    refine Level.means_iff.mpr ?_
    simp [Handler.console, levelName, hne]
  · intro hnone
    refine Level.means_iff.mpr ?_
    cases asked with
    | none => rfl
    | some name =>
      obtain rfl : name = "" := hnone
      rfl
  · intro name other level hletters
    have hsame : Level.ofName name = Level.ofName other := by
      rw [Level.ofName, Level.named?, Level.capitals_congr hletters]
      rfl
    rw [Level.means_iff, Level.means_iff, hsame]

/-- A handler of someone else. -/
def fileHandler (path : String) : Handler := ⟨none, 0, path⟩

/-- A log with two console handlers, and a foreign one between them. -/
def stacked : Log := ⟨0, [.console none 10, fileHandler "a.log", .console (some "out") 40]⟩

/-- It is set up at the level of a name in odd letters, after another handler was added; at that of
the setting; and at the usual one for a name that no level has. -/
theorem stacked_set_up :
    (∃ console,
      (stacked.after [.added (fileHandler "b.log") rfl,
        .configured none (some "waRning") "INFO"]).consoles = [console] ∧
      (stacked.after [.added (fileHandler "b.log") rfl,
        .configured none (some "waRning") "INFO"]).foreigners =
          [fileHandler "a.log", fileHandler "b.log"] ∧ console.level = 30) ∧
    (∃ console, (stacked.after [.configured none none "debug"]).consoles = [console] ∧
      console.level = 10) ∧
    (∃ console, (stacked.after [.configured none (some "loud") "debug"]).consoles = [console] ∧
      console.level = 20) ∧
    (Level.Means "waRning" 30 ↔ Level.Means "WARNING" 30) := by
  obtain ⟨⟨named, hnamed, -, hforeign, -, hname, -⟩, hcase⟩ :=
    one_console_last stacked [.added (fileHandler "b.log") rfl] none (some "waRning") "INFO"
  obtain ⟨⟨unnamed, hunnamed, -, -, -, -, hsetting⟩, -⟩ :=
    one_console_last stacked [] none none "debug"
  obtain ⟨⟨unknown, hunknown, -, -, -, hloud, -⟩, -⟩ :=
    one_console_last stacked [] none (some "loud") "debug"
  have hwarning : Level.ofName "waRning" = named.level :=
    Level.means_iff.mp (hname _ rfl (by decide))
  have hdebug : Level.ofName "debug" = unnamed.level := Level.means_iff.mp (hsetting rfl)
  have husual : Level.ofName "loud" = unknown.level :=
    Level.means_iff.mp (hloud _ rfl (by decide))
  refine ⟨⟨named, hnamed, hforeign, ?_⟩, ⟨unnamed, hunnamed, ?_⟩, ⟨unknown, hunknown, ?_⟩,
    hcase _ _ _ (by decide)⟩
  · rw [← hwarning]
    decide
  · rw [← hdebug]
    decide
  · rw [← husual]
    decide

end Log

end CodeGraph
