/-!
# Lexemes

The words, numbers, strings, comments and blanks of JavaScript and TypeScript sources. A scanner
reads a lexeme off the front of a character list and gives the characters taken and the rest.
-/

namespace CodeGraph.Lexeme

/-- What a scanner gives: the characters taken and the rest. -/
abbrev Scan := Option (List Char × List Char)

/-! ## Character classes -/

/-- Is the character's code in one of these ranges, ends included? -/
def inRanges (ranges : List (Nat × Nat)) (c : Char) : Bool :=
  ranges.any (fun r => r.1 ≤ c.toNat && c.toNat ≤ r.2)

/-- Space separators of the Unicode standard. -/
def isSpaceSeparator : Char → Bool :=
  inRanges [(0x20, 0x20), (0xA0, 0xA0), (0x1680, 0x1680), (0x2000, 0x200A), (0x202F, 0x202F),
    (0x205F, 0x205F), (0x3000, 0x3000)]

/-- Blanks between tokens: besides space separators, the line and page breaks and the invisible
joiners. -/
def isBlank (c : Char) : Bool :=
  isSpaceSeparator c ||
    inRanges [(0x09, 0x0D), (0x200B, 0x200B), (0x2028, 0x2029), (0x2060, 0x2060),
      (0xFEFF, 0xFEFF)] c

/-- Characters that end a line for the purpose of inserting semicolons. -/
def isNewline : Char → Bool :=
  inRanges [(0x0A, 0x0A), (0x2028, 0x2029)]

/-- Blanks that may be crossed while looking for a line end: no-break spaces are not among
them. -/
def isBreakingSpace : Char → Bool :=
  inRanges [(0x09, 0x0D), (0x20, 0x20), (0x1680, 0x1680), (0x2000, 0x2006), (0x2008, 0x200A),
    (0x2028, 0x2029), (0x205F, 0x205F), (0x3000, 0x3000)]

/-- Letters as far as the semicolon rules look at them. -/
def isLetter (c : Char) : Bool :=
  c.isAlpha || (0xAA ≤ c.toNat && !isSpaceSeparator c && !isNewline c)

/-- Punctuation that cannot stand in a word. -/
def isPunctuation (c : Char) : Bool :=
  ":;`\"'@#.,|^&<=>+-*/\\%?!~()[]\x7b\x7d".toList.contains c

/-- Characters that may continue a word. -/
def isWordPart (c : Char) : Bool :=
  '\x1F' < c && !isBlank c && !isPunctuation c

/-- Characters that may start a word. -/
def isWordStart (c : Char) : Bool :=
  isWordPart c && !c.isDigit

/-- Hexadecimal digits. -/
def isHex (c : Char) : Bool :=
  c.isDigit || ('a' ≤ c && c ≤ 'f') || ('A' ≤ c && c ≤ 'F')

/-- Octal digits. -/
def isOctal (c : Char) : Bool :=
  '0' ≤ c && c ≤ '7'

/-- Binary digits. -/
def isBinary (c : Char) : Bool :=
  c == '0' || c == '1'

/-! ## Small scanners -/

/-- The characters as long as they belong to a class. -/
def spanClass (p : Char → Bool) (cs : List Char) : List Char × List Char :=
  (cs.takeWhile p, cs.dropWhile p)

/-- At least one character of a class. -/
def some1 (p : Char → Bool) (cs : List Char) : Scan :=
  match cs with
  | c :: _ => if p c then some (spanClass p cs) else none
  | [] => none

/-- Exactly this text. -/
def literal : List Char → List Char → Scan
  | [], cs => some ([], cs)
  | _ :: _, [] => none
  | t :: ts, c :: cs =>
    if t == c then (literal ts cs).map (fun r => (c :: r.1, r.2)) else none

/-- One scanner after another. -/
def andThen (a b : List Char → Scan) (cs : List Char) : Scan :=
  match a cs with
  | none => none
  | some (x, r) =>
    match b r with
    | none => none
    | some (y, r') => some (x ++ y, r')

/-- A scanner that may be left out. -/
def optional (a : List Char → Scan) (cs : List Char) : Scan :=
  match a cs with
  | none => some ([], cs)
  | some r => some r

/-- The longer of two scans, the first when they are equally long. -/
def longer (a b : Scan) : Scan :=
  match a, b with
  | none, b => b
  | a, none => a
  | some x, some y => if x.1.length < y.1.length then some y else some x

/-- The longest result of several scanners. -/
def longest (scanners : List (List Char → Scan)) (cs : List Char) : Scan :=
  scanners.foldl (fun best f => longer best (f cs)) none

/-- One character of a class. -/
def one (p : Char → Bool) : List Char → Scan
  | c :: cs => if p c then some ([c], cs) else none
  | [] => none

/-! ## Words -/

/-- An escaped character in a word: four hexadecimal digits, or any number in braces. -/
def wordEscape (cs : List Char) : Scan :=
  match cs with
  | '\\' :: 'u' :: '\x7b' :: r =>
    match some1 isHex r with
    | some (ds, '\x7d' :: r') => some ('\\' :: 'u' :: '\x7b' :: ds ++ ['\x7d'], r')
    | _ => none
  | '\\' :: 'u' :: a :: b :: c :: d :: r =>
    if isHex a && isHex b && isHex c && isHex d then some (['\\', 'u', a, b, c, d], r) else none
  | _ => none

theorem length_dropWhile_le (p : Char → Bool) (cs : List Char) :
    (cs.dropWhile p).length ≤ cs.length :=
  (List.dropWhile_suffix p).length_le

theorem wordEscape_length {cs e r : List Char} (h : wordEscape cs = some (e, r)) :
    r.length < cs.length := by
  unfold wordEscape at h
  split at h
  case h_1 r0 =>
    split at h
    case h_1 ds r1 hs =>
      simp only [Option.some.injEq, Prod.mk.injEq] at h
      obtain ⟨_, rfl⟩ := h
      unfold some1 at hs
      split at hs
      case h_2 => simp at hs
      case h_1 c tail =>
        split at hs
        case isFalse => simp at hs
        case isTrue =>
          simp only [spanClass, Option.some.injEq, Prod.mk.injEq] at hs
          have := length_dropWhile_le isHex (c :: tail)
          rw [hs.2] at this
          simp only [List.length_cons] at this ⊢
          omega
    case h_2 => simp at h
  case h_2 =>
    split at h
    · simp only [Option.some.injEq, Prod.mk.injEq] at h
      obtain ⟨_, rfl⟩ := h
      simp only [List.length_cons]
      omega
    · simp at h
  case h_3 => simp at h

/-- The rest of a word. -/
def wordTail (cs : List Char) : List Char × List Char :=
  match cs with
  | [] => ([], [])
  | c :: r =>
    if isWordPart c then
      let t := wordTail r
      (c :: t.1, t.2)
    else
      match _h : wordEscape (c :: r) with
      | some (e, r') =>
        let t := wordTail r'
        (e ++ t.1, t.2)
      | none => ([], c :: r)
termination_by cs.length
decreasing_by
  · simp
  · exact wordEscape_length (by assumption)

/-- A word: a name or a keyword. -/
def word (cs : List Char) : Scan :=
  match cs with
  | [] => none
  | c :: r =>
    if isWordStart c then
      let t := wordTail r
      some (c :: t.1, t.2)
    else
      match wordEscape cs with
      | some (e, r') =>
        let t := wordTail r'
        some (e ++ t.1, t.2)
      | none => none

/-- A private name: a word after a number sign. -/
def privateWord (cs : List Char) : Scan :=
  andThen (literal ['#']) word cs

/-- A hyphenated element or attribute name. -/
def hyphenated (cs : List Char) : Scan :=
  let start := fun c : Char => c.isAlpha || c == '_' || c == '$'
  let part := fun c : Char => c.isAlphanum || c == '_' || c == '$'
  andThen (one start) (andThen (fun r => some (spanClass part r))
    (andThen (literal ['-']) (fun r => some (spanClass (fun c => part c || c == '-') r)))) cs

/-! ## Numbers -/

/-- Digits with single underscores between them, after the first one. -/
def moreDigits (p : Char → Bool) : List Char → List Char × List Char
  | '_' :: c :: cs =>
    if p c then
      let t := moreDigits p cs
      ('_' :: c :: t.1, t.2)
    else ([], '_' :: c :: cs)
  | c :: cs =>
    if p c then
      let t := moreDigits p cs
      (c :: t.1, t.2)
    else ([], c :: cs)
  | [] => ([], [])

/-- Digits with single underscores between them. -/
def digits (p : Char → Bool) (cs : List Char) : Scan :=
  match cs with
  | c :: r =>
    if p c then
      let t := moreDigits p r
      some (c :: t.1, t.2)
    else none
  | [] => none

/-- Decimal digits. -/
def decimalDigits : List Char → Scan :=
  digits Char.isDigit

/-- A number with a radix mark. -/
def radix (lower upper : Char) (p : Char → Bool) : List Char → Scan :=
  andThen (literal ['0']) (andThen (one (fun c => c == lower || c == upper)) (digits p))

/-- An exponent. -/
def exponent : List Char → Scan :=
  andThen (one (fun c => c == 'e' || c == 'E'))
    (andThen (optional (one (fun c => c == '+' || c == '-'))) decimalDigits)

/-- The integer part of a decimal number: zero, or digits of which at most the first is zero. -/
def integerPart : List Char → Scan :=
  longest [literal ['0'],
    andThen (optional (literal ['0']))
      (andThen (one (fun c => c.isDigit && c != '0'))
        (optional (andThen (optional (literal ['_'])) decimalDigits)))]

/-- A number literal. -/
def number : List Char → Scan :=
  longest
    [radix 'x' 'X' isHex, radix 'b' 'B' isBinary, radix 'o' 'O' isOctal,
     andThen integerPart (andThen (literal ['.'])
       (andThen (optional decimalDigits) (optional exponent))),
     andThen (literal ['.']) (andThen decimalDigits (optional exponent)),
     andThen integerPart exponent,
     decimalDigits,
     andThen (longest [radix 'x' 'X' isHex, radix 'b' 'B' isBinary, radix 'o' 'O' isOctal,
       decimalDigits]) (literal ['n'])]

/-! ## Strings, templates and regular expressions -/

/-- The plain part of a quoted string. -/
def stringFragment (quote : Char) : List Char → Scan :=
  some1 (fun c => c != quote && c != '\\' && c != '\r' && c != '\n')

/-- The octal digits of an escape, at most three. -/
def octalEscape (cs : List Char) : Scan :=
  match cs with
  | a :: b :: c :: r =>
    if !isOctal a then none
    else if !isOctal b then some ([a], b :: c :: r)
    else if !isOctal c then some ([a, b], c :: r)
    else some ([a, b, c], r)
  | [a, b] =>
    if !isOctal a then none else if !isOctal b then some ([a], [b]) else some ([a, b], [])
  | [a] => if isOctal a then some ([a], []) else none
  | [] => none

/-- An escape sequence in a string or template. -/
def escape : List Char → Scan :=
  andThen (literal ['\\']) (longest
    [one (fun c => c != 'x' && c != 'u' && !isOctal c),
     octalEscape,
     andThen (literal ['x']) (andThen (one isHex) (one isHex)),
     andThen (literal ['u']) (andThen (one isHex) (andThen (one isHex)
       (andThen (one isHex) (one isHex)))),
     andThen (literal ['u', '\x7b']) (andThen (some1 isHex) (literal ['\x7d'])),
     andThen (one (fun c => c == '\r' || c == '?')) (one isNewline)])

/-- The plain part of a template, up to a back quote, a backslash or a substitution. -/
def templateTail : List Char → List Char × List Char
  | [] => ([], [])
  | '$' :: '\x7b' :: r => ([], '$' :: '\x7b' :: r)
  | c :: r =>
    if c == '\x60' || c == '\\' then ([], c :: r)
    else
      let t := templateTail r
      (c :: t.1, t.2)

/-- A non-empty plain part of a template. -/
def templateChars (cs : List Char) : Scan :=
  match templateTail cs with
  | ([], _) => none
  | r => some r

/-- The inside of a character class of a regular expression, closing bracket included. -/
def regexClass : List Char → Scan
  | [] => none
  | ']' :: r => some ([']'], r)
  | '\n' :: _ => none
  | '\\' :: c :: r =>
    if c == '\n' then none else (regexClass r).map (fun t => ('\\' :: c :: t.1, t.2))
  | ['\\'] => none
  | c :: r => (regexClass r).map (fun t => (c :: t.1, t.2))

theorem regexClass_length {cs x r : List Char} (h : regexClass cs = some (x, r)) :
    r.length < cs.length := by
  fun_induction regexClass cs generalizing x with
  | case1 => simp at h
  | case2 r0 =>
    simp only [Option.some.injEq, Prod.mk.injEq] at h
    simp [h.2]
  | case3 => simp at h
  | case4 => simp at h
  | case5 c r0 _ ih =>
    simp only [Option.map_eq_some_iff] at h
    obtain ⟨t, ht, he⟩ := h
    simp only [Prod.mk.injEq] at he
    have := ih (x := t.1) (by rw [ht, ← he.2])
    simp only [List.length_cons]
    omega
  | case6 => simp at h
  | case7 c r0 _ _ _ _ ih =>
    simp only [Option.map_eq_some_iff] at h
    obtain ⟨t, ht, he⟩ := h
    simp only [Prod.mk.injEq] at he
    have := ih (x := t.1) (by rw [ht, ← he.2])
    simp only [List.length_cons]
    omega

/-- The pattern of a regular expression. -/
def regexTail (cs : List Char) : List Char × List Char :=
  match cs with
  | [] => ([], [])
  | '/' :: r => ([], '/' :: r)
  | '\n' :: r => ([], '\n' :: r)
  | '\\' :: c :: r =>
    if c == '\n' then ([], '\\' :: c :: r)
    else
      let t := regexTail r
      ('\\' :: c :: t.1, t.2)
  | ['\\'] => ([], ['\\'])
  | '[' :: r =>
    match _h : regexClass r with
    | none => ([], '[' :: r)
    | some (x, r') =>
      let t := regexTail r'
      ('[' :: x ++ t.1, t.2)
  | c :: r =>
    let t := regexTail r
    (c :: t.1, t.2)
termination_by cs.length
decreasing_by
  · simp only [List.length_cons]
    omega
  · have := regexClass_length (by assumption)
    simp only [List.length_cons]
    omega
  · simp

/-- A non-empty pattern of a regular expression. -/
def regexPattern (cs : List Char) : Scan :=
  match regexTail cs with
  | ([], _) => none
  | r => some r

/-- The flags of a regular expression. -/
def regexFlags : List Char → Scan :=
  some1 (fun c => 'a' ≤ c && c ≤ 'z')

/-! ## Markup -/

/-- Does a stretch of markup text count as text? It does when it has a character that is neither
a newline nor a blank of the blanks that follow a newline. -/
def hasMarkupText : Bool → List Char → Bool
  | _, [] => false
  | atNewline, c :: cs =>
    if c == '\n' then hasMarkupText true cs
    else if atNewline && isBreakingSpace c then hasMarkupText true cs
    else true

/-- Text between tags. -/
def markupText (cs : List Char) : Scan :=
  let r := spanClass (fun c => c != '<' && c != '>' && c != '\x7b' && c != '\x7d' && c != '&') cs
  if hasMarkupText false r.1 then some r else none

/-- A named or numbered character reference. -/
def characterReference (cs : List Char) : Scan :=
  let upTo := fun (n : Nat) (p : Char → Bool) (r : List Char) =>
    match some1 p r with
    | some (ds, r') => if ds.length ≤ n then some (ds, r') else none
    | none => none
  andThen (literal ['&']) (andThen (longest
    [andThen (literal ['#']) (andThen (one (fun c => c == 'x' || c == 'X')) (upTo 6 isHex)),
     andThen (literal ['#']) (upTo 5 Char.isDigit),
     upTo 30 Char.isAlpha]) (literal [';'])) cs

/-- The plain part of a quoted attribute value, where an ampersand may only stand if it cannot
start a character reference. -/
def attributeTail (quote : Char) : List Char → List Char × List Char
  | '&' :: c :: r =>
    if c == '#' || c.isAlpha then ([], '&' :: c :: r)
    else
      let t := attributeTail quote r
      ('&' :: c :: t.1, t.2)
  | ['&'] => ([], ['&'])
  | c :: r =>
    if c == quote then ([], c :: r)
    else
      let t := attributeTail quote r
      (c :: t.1, t.2)
  | [] => ([], [])

/-- A non-empty plain part of a quoted attribute value. -/
def attributeFragment (quote : Char) (cs : List Char) : Scan :=
  match attributeTail quote cs with
  | ([], _) => none
  | r => some r

/-! ## Comments -/

/-- The rest of a block comment, closing mark included. -/
def blockTail : List Char → Scan
  | '*' :: '/' :: r => some (['*', '/'], r)
  | c :: r => (blockTail r).map (fun t => (c :: t.1, t.2))
  | [] => none

/-- A line comment or a closed block comment. -/
def comment (cs : List Char) : Scan :=
  match cs with
  | '/' :: '/' :: r =>
    let t := spanClass (fun c => c != '\r' && !isNewline c) r
    some ('/' :: '/' :: t.1, t.2)
  | '/' :: '*' :: r => (blockTail r).map (fun t => ('/' :: '*' :: t.1, t.2))
  | _ => none

theorem blockTail_length {cs x r : List Char} (h : blockTail cs = some (x, r)) :
    r.length < cs.length := by
  fun_induction blockTail cs generalizing x with
  | case1 r0 =>
    simp only [Option.some.injEq, Prod.mk.injEq] at h
    simp only [← h.2, List.length_cons]
    omega
  | case2 c r0 _ ih =>
    simp only [Option.map_eq_some_iff] at h
    obtain ⟨t, ht, he⟩ := h
    simp only [Prod.mk.injEq] at he
    have := ih (x := t.1) (by rw [ht, ← he.2])
    simp only [List.length_cons]
    omega
  | case3 => simp at h

theorem comment_length {cs x r : List Char} (h : comment cs = some (x, r)) :
    r.length < cs.length := by
  unfold comment at h
  split at h
  case h_1 r0 =>
    simp only [spanClass, Option.some.injEq, Prod.mk.injEq] at h
    have := length_dropWhile_le (fun c => c != '\r' && !isNewline c) r0
    rw [h.2] at this
    simp only [List.length_cons]
    omega
  case h_2 r0 =>
    simp only [Option.map_eq_some_iff] at h
    obtain ⟨t, ht, he⟩ := h
    simp only [Prod.mk.injEq] at he
    have := blockTail_length (x := t.1) (r := r) (by rw [ht, ← he.2])
    simp only [List.length_cons]
    omega
  case h_3 => simp at h

/-- An old-style markup comment, which runs to the end of its line. -/
def markupComment (cs : List Char) : Scan :=
  andThen (longest [literal "<!--".toList, literal "-->".toList])
    (fun r => some (spanClass (fun c => !isNewline c) r)) cs

/-- The interpreter line of a script. -/
def hashBang (cs : List Char) : Scan :=
  andThen (literal "#!".toList) (fun r => some (spanClass (fun c => c != '\n') r)) cs

/-! ## Operators -/

/-- The operators that can follow or precede an operand; where several match, the longest one
stands. -/
def operators : List String :=
  ["=", "==", "===", "=>", "!", "!=", "!==", "+", "++", "+=", "-", "--", "-=", "*", "*=", "**",
   "**=", "/", "/=", "%", "%=", "<", "<=", "<<", "<<=", ">", ">=", ">>", ">>=", ">>>", ">>>=",
   "&", "&&", "&=", "&&=", "|", "||", "|=", "||=", "^", "^=", "?", "??", "??=", "?.", "~", "."]

/-- The operators by spelling, longest first. -/
def operatorsByLength : List (List Char) :=
  (operators.map String.toList).mergeSort (fun a b => decide (b.length ≤ a.length))

/-- The longest operator at the front. -/
def operator (cs : List Char) : Scan :=
  operatorsByLength.findSome? (fun o => literal o cs)

/-- The question mark of a conditional expression: not doubled, and before a point only if a
digit follows. -/
def questionMark (cs : List Char) : Scan :=
  match cs with
  | '?' :: '?' :: _ => none
  | '?' :: '.' :: d :: r => if d.isDigit then some (['?'], '.' :: d :: r) else none
  | '?' :: '.' :: [] => none
  | '?' :: r => some (['?'], r)
  | _ => none

end CodeGraph.Lexeme
