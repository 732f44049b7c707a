import CodeGraph.Json

/-!
# Reading JSON

One value, with blanks around it and nothing else. Of members with the same name the last one
counts. The words for what is no finite number are read too.
-/

namespace CodeGraph.Json

/-- Blanks between tokens. -/
def isBlank (c : Char) : Bool :=
  c == ' ' || c == '\t' || c == '\n' || c == '\r'

/-- Drop blanks. -/
def skip (cs : List Char) : List Char :=
  cs.dropWhile isBlank

/-- The rest after this word. -/
def word? : List Char → List Char → Option (List Char)
  | [], cs => some cs
  | _ :: _, [] => none
  | w :: ws, c :: cs => if w == c then word? ws cs else none

/-! ## Numbers -/

/-- The number that decimal digits spell. -/
def ofDigits (ds : List Char) : Nat :=
  ds.foldl (fun n d => 10 * n + (d.toNat - 48)) 0

/-- The digits after a point, if there are any. -/
def fraction (cs : List Char) : List Char × List Char :=
  match cs with
  | '.' :: rest =>
    let ds := rest.takeWhile Char.isDigit
    if ds.isEmpty then ([], cs) else (ds, rest.dropWhile Char.isDigit)
  | _ => ([], cs)

/-- The exponent, if there is one. -/
def exponent? (cs : List Char) : Option Int × List Char :=
  match cs with
  | e :: rest =>
    if e == 'e' || e == 'E' then
      let (sign, rest) : Int × List Char := match rest with
        | '+' :: r => (1, r)
        | '-' :: r => (-1, r)
        | r => (1, r)
      let ds := rest.takeWhile Char.isDigit
      if ds.isEmpty then (none, cs) else (some (sign * ofDigits ds), rest.dropWhile Char.isDigit)
    else (none, cs)
  | [] => (none, cs)

/-- The digits before the point: a zero alone, or no zero at the start. -/
def whole? (cs : List Char) : Option (List Char × List Char) :=
  match cs with
  | '0' :: rest => some (['0'], rest)
  | _ =>
    let ds := cs.takeWhile Char.isDigit
    if ds.isEmpty then none else some (ds, cs.dropWhile Char.isDigit)

/-- A number. -/
def number? (cs : List Char) : Option (Json × List Char) :=
  let (sign, cs) : Int × List Char := match cs with
    | '-' :: rest => (-1, rest)
    | _ => (1, cs)
  match whole? cs with
  | none => none
  | some (whole, rest) =>
    let (parts, rest) := fraction rest
    let (exponent, rest) := exponent? rest
    if parts.isEmpty && exponent.isNone then some (int (sign * ofDigits whole), rest)
    else
      some (decimal (sign * ofDigits (whole ++ parts)) (exponent.getD 0 - parts.length), rest)

/-! ## Texts -/

/-- The value of a hexadecimal digit. -/
def hexValue? (c : Char) : Option Nat :=
  if c.isDigit then some (c.toNat - 48)
  else if 'a' ≤ c && c ≤ 'f' then some (c.toNat - 87)
  else if 'A' ≤ c && c ≤ 'F' then some (c.toNat - 55)
  else none

/-- Four hexadecimal digits. -/
def unit? : List Char → Option (Nat × List Char)
  | a :: b :: c :: d :: rest => do
    let a ← hexValue? a
    let b ← hexValue? b
    let c ← hexValue? c
    let d ← hexValue? d
    some (((a * 16 + b) * 16 + c) * 16 + d, rest)
  | _ => none

/-- The character of a single code unit; half of a pair becomes the replacement character. -/
def unitChar (n : Nat) : Char :=
  if n < 0xD800 || (0xDFFF < n && n < 0x110000) then Char.ofNat n else '�'

/-- The character after a backslash and `u`. -/
def codePoint? (cs : List Char) : Option (Char × List Char) :=
  match unit? cs with
  | none => none
  | some (high, rest) =>
    match rest with
    | '\\' :: 'u' :: more =>
      match unit? more with
      | some (low, rest2) =>
        if 0xD800 ≤ high && high < 0xDC00 && 0xDC00 ≤ low && low < 0xE000 then
          some (Char.ofNat (0x10000 + (high - 0xD800) * 1024 + (low - 0xDC00)), rest2)
        else some (unitChar high, rest)
      | none => some (unitChar high, rest)
    | _ => some (unitChar high, rest)

/-- The character that an escape stands for. -/
def unescape? (c : Char) : Option Char :=
  [('"', '"'), ('\\', '\\'), ('/', '/'), ('b', '\x08'), ('f', '\x0c'), ('n', '\n'), ('r', '\r'),
   ('t', '\t')].lookup c

/-- The rest of a text after its opening quote. -/
def text? : Nat → List Char → List Char → Option (List Char × List Char)
  | 0, _, _ => none
  | fuel + 1, done, cs =>
    match cs with
    | '"' :: rest => some (done.reverse, rest)
    | '\\' :: 'u' :: rest =>
      match codePoint? rest with
      | some (c, rest) => text? fuel (c :: done) rest
      | none => none
    | '\\' :: e :: rest =>
      match unescape? e with
      | some c => text? fuel (c :: done) rest
      | none => none
    | c :: rest => if c.toNat < 0x20 then none else text? fuel (c :: done) rest
    | [] => none

/-! ## Values -/

/-- The words that are values. -/
def words : List (String × Json) :=
  [("null", null), ("true", bool true), ("false", bool false), ("NaN", infinite "NaN"),
   ("Infinity", infinite "Infinity"), ("-Infinity", infinite "-Infinity")]

/-- A word that is a value. -/
def wordValue? (cs : List Char) : Option (Json × List Char) :=
  words.findSome? (fun (w, j) => (word? w.toList cs).map (fun rest => (j, rest)))

mutual

/-- A value. -/
def value? : Nat → List Char → Option (Json × List Char)
  | 0, _ => none
  | fuel + 1, cs =>
    match cs with
    | '"' :: rest =>
      (text? (rest.length + 1) [] rest).map (fun (s, rest) => (string (String.ofList s), rest))
    | '[' :: rest =>
      match skip rest with
      | ']' :: rest => some (array [], rest)
      | rest => items? fuel [] rest
    | '\x7b' :: rest =>
      match skip rest with
      | '\x7d' :: rest => some (object [], rest)
      | rest => members? fuel [] rest
    | _ =>
      match wordValue? cs with
      | some found => some found
      | none => number? cs

/-- The items of an array, after those read already. -/
def items? : Nat → List Json → List Char → Option (Json × List Char)
  | 0, _, _ => none
  | fuel + 1, done, cs =>
    match value? fuel cs with
    | none => none
    | some (item, rest) =>
      match skip rest with
      | ',' :: rest => items? fuel (item :: done) (skip rest)
      | ']' :: rest => some (array (item :: done).reverse, rest)
      | _ => none

/-- The members of an object, after those read already. -/
def members? : Nat → List (String × Json) → List Char → Option (Json × List Char)
  | 0, _, _ => none
  | fuel + 1, done, cs =>
    match cs with
    | '"' :: rest =>
      match text? (rest.length + 1) [] rest with
      | none => none
      | some (name, rest) =>
        match skip rest with
        | ':' :: rest =>
          match value? fuel (skip rest) with
          | none => none
          | some (value, rest) =>
            let done := Table.set done (String.ofList name) value
            match skip rest with
            | ',' :: rest => members? fuel done (skip rest)
            | '\x7d' :: rest => some (object done, rest)
            | _ => none
        | _ => none
    | _ => none

end

/-- The value that a text spells. -/
def parse (s : String) : Option Json :=
  let cs := s.toList
  match value? (2 * cs.length + 2) (skip cs) with
  | some (j, rest) => if (skip rest).isEmpty then some j else none
  | none => none

end CodeGraph.Json
