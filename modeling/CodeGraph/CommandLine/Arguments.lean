import CodeGraph.Record.Checked
import CodeGraph.Text.Words

/-!
# Arguments

How a list of arguments is read against a list of options. An option may be shortened as long as
it stays clear which one is meant, its value may be joined to it, and after `--` nothing is an
option. A number with a minus sign is no option either.
-/

namespace CodeGraph

/-- What an option sets. -/
inductive Flag where
  | help
  | logLevel
  | output
  | top
  | host
  | port
  | reload
  deriving DecidableEq, Repr

/-- An option: its spellings and whether a value follows. -/
structure OptionRule where
  flag : Flag
  names : List String
  takesValue : Bool
  deriving DecidableEq, Repr

/-- How a program is left before it has started: the exit code. -/
abbrev ExitCode := Nat

namespace Arguments

/-- Nothing is wrong, but there is nothing more to do. -/
def helped : ExitCode := 0

/-- The arguments cannot be understood. -/
def misused : ExitCode := 2

/-- An option found in an argument: its spelling and the value joined to it. -/
structure Hit where
  rule : OptionRule
  name : String
  joined : Option String
  deriving DecidableEq, Repr

/-- What an argument is. -/
inductive Mark where
  /-- The first `--`. -/
  | separator
  | plain
  /-- An option, perhaps an unknown one. -/
  | option (hit : Option Hit)
  deriving DecidableEq, Repr

namespace Mark

/-- Is the argument an option? -/
def isOption : Mark → Bool
  | option _ => true
  | _ => false

end Mark

/-! ## Recognising options -/

/-- The option with this spelling. -/
def spelled? (rules : List OptionRule) (name : String) : Option OptionRule :=
  rules.find? (fun r => r.names.contains name)

/-- An argument cut at its first equals sign. -/
def splitEquals (arg : List Char) : Option (List Char × List Char) :=
  match arg.dropWhile (· != '=') with
  | [] => none
  | _ :: value => some (arg.takeWhile (· != '='), value)

/-- All spellings with their options. -/
def spellings (rules : List OptionRule) : List (String × OptionRule) :=
  rules.flatMap (fun r => r.names.map (fun name => (name, r)))

/-- The long options that an argument may be short for. -/
def longHits (rules : List OptionRule) (arg : List Char) : List Hit :=
  let (start, joined) : List Char × Option String := match splitEquals arg with
    | some (start, value) => (start, some (String.ofList value))
    | none => (arg, none)
  (spellings rules).filterMap fun (name, rule) =>
    if start.isPrefixOf name.toList then some ⟨rule, name, joined⟩ else none

/-- The options that an argument with one dash may mean: a letter with its value, or a start of a
spelling. -/
def shortHits (rules : List OptionRule) (arg : List Char) : List Hit :=
  (spellings rules).filterMap fun (name, rule) =>
    if name.toList == arg.take 2 then some ⟨rule, name, some (String.ofList (arg.drop 2))⟩
    else if arg.isPrefixOf name.toList then some ⟨rule, name, none⟩
    else none

/-- Is the argument a number with a minus sign? -/
def isNegativeNumber (arg : List Char) : Bool :=
  match arg with
  | '-' :: rest =>
    let whole := rest.takeWhile Char.isDigit
    match rest.dropWhile Char.isDigit with
    | [] => !whole.isEmpty
    | '.' :: places => !places.isEmpty && places.all Char.isDigit
    | _ => false
  | _ => false

/-- The option in an argument that starts with a dash and is none as it stands. -/
def inexact (rules : List OptionRule) (arg : List Char) : Except ExitCode Mark :=
  let joined := (splitEquals arg).bind fun (start, value) =>
    (spelled? rules (String.ofList start)).map fun rule =>
      (⟨rule, String.ofList start, some (String.ofList value)⟩ : Hit)
  match joined with
  | some hit => .ok (.option (some hit))
  | none =>
    let hits := if arg.take 2 == ['-', '-'] then longHits rules arg else shortHits rules arg
    match hits with
    | [hit] => .ok (.option (some hit))
    | _ :: _ :: _ => .error misused
    | [] =>
      if isNegativeNumber arg || arg.contains ' ' then .ok .plain else .ok (.option none)

/-- What an argument is, before any `--`. -/
def mark (rules : List OptionRule) (arg : String) : Except ExitCode Mark :=
  if arg.toList.head? != some '-' then .ok .plain
  else
    match spelled? rules arg with
    | some rule => .ok (.option (some ⟨rule, arg, none⟩))
    | none => if arg.length == 1 then .ok .plain else inexact rules arg.toList

/-- What all arguments are. -/
def marks (rules : List OptionRule) : List String → Except ExitCode (List (String × Mark))
  | [] => .ok []
  | arg :: rest =>
    if arg == "--" then .ok ((arg, .separator) :: rest.map (fun a => (a, .plain)))
    else do
      let m ← mark rules arg
      let ms ← marks rules rest
      pure ((arg, m) :: ms)

/-! ## Taking options -/

/-- What has been read. -/
structure Given where
  /-- The options in order, each with its value. -/
  options : List (Flag × String)
  /-- What stands in the place of the positional argument, once it is known. -/
  positional : Option (List String)
  /-- What could not be used. -/
  extras : List String
  deriving Repr

/-- The integer that an argument spells. -/
def integer? (s : String) : Option Int :=
  let (sign, digits) := Check.sign (Words.strip s.toList)
  (Check.digits? 0 digits).map (sign * ·)

/-- May an option have this value? -/
def admits (flag : Flag) (value : String) : Bool :=
  match flag with
  | .top => (integer? value).isSome
  | .port => (integer? value).isSome
  | _ => true

/-- Note an option. Asking for help ends everything. -/
def note (r : Given) (flag : Flag) (value : String) : Except ExitCode Given :=
  if flag == .help then .error helped
  else if admits flag value then .ok { r with options := r.options ++ [(flag, value)] }
  else .error misused

/-- Note several options. -/
def noteAll (r : Given) : List (Flag × String) → Except ExitCode Given
  | [] => .ok r
  | (flag, value) :: rest => do
    let r ← note r flag value
    noteAll r rest

/-- The value that follows an option. -/
def following (items : List (String × Mark)) : Except ExitCode (String × List (String × Mark)) :=
  match items with
  | (arg, .plain) :: rest => .ok (arg, rest)
  | _ => .error misused

/-- The options in one argument: letters without a value may be joined to others. Found options are
in order; with them comes what is left of the arguments. -/
def joinedOptions (rules : List OptionRule) (items : List (String × Mark)) :
    List (Flag × String) → OptionRule → String → List Char →
      Except ExitCode (List (Flag × String) × List (String × Mark))
  | found, rule, name, c :: cs =>
    if rule.takesValue then
      .ok (found ++ [(rule.flag, String.ofList (c :: cs))], items)
    else if name.toList.take 2 == ['-', '-'] then .error misused
    else
      let next := String.ofList ['-', c]
      match spelled? rules next with
      | none => .error misused
      | some other =>
        match cs with
        | [] =>
          if other.takesValue then do
            let (value, items) ← following items
            pure (found ++ [(rule.flag, ""), (other.flag, value)], items)
          else .ok (found ++ [(rule.flag, ""), (other.flag, "")], items)
        | _ :: _ => joinedOptions rules items (found ++ [(rule.flag, "")]) other next cs
  | found, rule, _, [] =>
    if rule.takesValue then .ok (found ++ [(rule.flag, "")], items) else .error misused

/-- Take a known option from the arguments after it. -/
def takeOption (rules : List OptionRule) (r : Given) (hit : Hit)
    (items : List (String × Mark)) : Except ExitCode (Given × List (String × Mark)) := do
  let (found, items) ← match hit.joined with
    | some value => joinedOptions rules items [] hit.rule hit.name value.toList
    | none =>
      if hit.rule.takesValue then do
        let (value, items) ← following items
        pure ([(hit.rule.flag, value)], items)
      else pure ([(hit.rule.flag, "")], items)
  let r ← noteAll r found
  pure (r, items)

/-! ## Given all arguments -/

/-- What the positional argument takes. -/
inductive Slot where
  /-- At most one argument. -/
  | one
  /-- A command and everything after it. -/
  | command
  deriving DecidableEq, Repr

/-- Read what stands after the last option. -/
def finish (slot : Slot) (r : Given) (items : List (String × Mark)) : Given :=
  match r.positional, slot with
  | some _, _ => { r with extras := r.extras ++ items.map (·.1) }
  | none, .command =>
    if items.any (fun i => i.2 == .plain) then { r with positional := some (items.map (·.1)) }
    else { r with extras := r.extras ++ items.map (·.1) }
  | none, .one =>
    let rest := items.dropWhile (fun i => i.2 == .separator)
    let value := (rest.take 1).map (·.1)
    let rest := (rest.drop 1).dropWhile (fun i => i.2 == .separator)
    { r with positional := some value, extras := r.extras ++ rest.map (·.1) }

/-- Read marked arguments. The number bounds how many steps are taken. -/
def readMarked (rules : List OptionRule) (slot : Slot) :
    Nat → Given → List (String × Mark) → Except ExitCode Given
  | 0, r, _ => .ok r
  | steps + 1, r, items =>
    if items.any (fun i => i.2.isOption) then
      match items with
      | (_, .option (some hit)) :: rest => do
        let (r, rest) ← takeOption rules r hit rest
        readMarked rules slot steps r rest
      | (arg, .option none) :: rest =>
        readMarked rules slot steps { r with extras := r.extras ++ [arg] } rest
      | (arg, _) :: rest =>
        match r.positional, slot with
        | some _, _ => readMarked rules slot steps { r with extras := r.extras ++ [arg] } rest
        | none, .one => readMarked rules slot steps { r with positional := some [arg] } rest
        | none, .command => .ok { r with positional := some (items.map (·.1)) }
      | [] => .ok r
    else .ok (finish slot r items)

/-- Read arguments. -/
def read (rules : List OptionRule) (slot : Slot) (args : List String) :
    Except ExitCode Given := do
  let items ← marks rules args
  readMarked rules slot (items.length + 1) ⟨[], none, []⟩ items

/-- The value of an option; the last one counts. -/
def Given.value? (r : Given) (flag : Flag) : Option String :=
  ((r.options.filter (fun o => o.1 == flag)).getLast?).map (·.2)

/-- Is an option given? -/
def Given.has (r : Given) (flag : Flag) : Bool :=
  r.options.any (fun o => o.1 == flag)

end Arguments

end CodeGraph
