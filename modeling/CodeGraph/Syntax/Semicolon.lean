import CodeGraph.Syntax.Lexeme

/-!
# Inserted semicolons

A statement may end without a semicolon before a closing brace, at the end of the source, or at a
line end after which nothing continues it. Whether a semicolon is inserted is decided from the
characters ahead alone; only two things depend on what came before: the dialect, and whether an
operand has just ended (so that an operator could follow).
-/

namespace CodeGraph

/-- The grammars a source can be read with. -/
inductive Dialect where
  | javascript
  | typescript
  | tsx
  deriving DecidableEq, Repr

namespace Dialect

/-- Does the dialect have type syntax? -/
def typed : Dialect → Bool
  | .javascript => false
  | _ => true

/-- Does the dialect have element syntax? -/
def markup : Dialect → Bool
  | .typescript => false
  | _ => true

end Dialect

namespace Semicolon

open Lexeme

/-- What lies beyond blanks and comments. -/
inductive Crossing where
  /-- A slash that starts no comment. -/
  | stuck
  /-- A block comment without a line end has been crossed, and nothing else. -/
  | sameLine (rest : List Char)
  /-- Everything up to the next token has been crossed. -/
  | crossed (rest : List Char)

/-- The rest after a block comment's end, or at the end of the source when it is not closed, and
whether a line end was met. -/
def skipBlock : Bool → List Char → Bool × List Char
  | sawNewline, '*' :: '/' :: r => (sawNewline, r)
  | sawNewline, c :: r => skipBlock (sawNewline || isNewline c) r
  | sawNewline, [] => (sawNewline, [])

theorem skipBlock_length (saw : Bool) (cs : List Char) :
    (skipBlock saw cs).2.length ≤ cs.length := by
  fun_induction skipBlock saw cs with
  | case1 _ r =>
    simp only [List.length_cons]
    omega
  | case2 _ c r _ ih =>
    simp only [List.length_cons]
    omega
  | case3 => simp

/-- Cross blanks and comments. Unless everything is to be crossed, stop after the first block
comment. -/
def cross (everything : Bool) (sawNewline : Bool) (cs : List Char) : Crossing :=
  match _h : cs.dropWhile isBreakingSpace with
  | '/' :: '/' :: r => cross everything sawNewline (r.dropWhile (fun c => !isNewline c))
  | '/' :: '*' :: r =>
    match _hb : skipBlock sawNewline r with
    | (saw, after) =>
      if after.head? == some '/' || everything then cross everything saw after
      else if saw then .crossed after else .sameLine after
  | '/' :: _ => .stuck
  | r => .crossed r
termination_by cs.length
decreasing_by
  · have h1 := length_dropWhile_le isBreakingSpace cs
    have h2 := length_dropWhile_le (fun c => !isNewline c) r
    rw [_h] at h1
    simp only [List.length_cons] at h1
    omega
  · have h1 := length_dropWhile_le isBreakingSpace cs
    have h2 := skipBlock_length sawNewline r
    rw [_h] at h1
    rw [_hb] at h2
    simp only [List.length_cons] at h1 h2
    omega

/-- What is left after a crossing. -/
def Crossing.rest : Crossing → List Char
  | .stuck => []
  | .sameLine r => r
  | .crossed r => r

theorem cross_length (everything saw : Bool) (cs : List Char) :
    (cross everything saw cs).rest.length ≤ cs.length := by
  fun_induction cross everything saw cs with
  | case1 saw cs r h ih =>
    have h1 := length_dropWhile_le isBreakingSpace cs
    have h2 := length_dropWhile_le (fun c => !isNewline c) r
    rw [h] at h1
    simp only [List.length_cons] at h1
    omega
  | case2 saw cs r h saw' after hb _ ih =>
    have h1 := length_dropWhile_le isBreakingSpace cs
    have h2 := skipBlock_length saw r
    rw [h] at h1
    rw [hb] at h2
    simp only [List.length_cons] at h1 h2
    omega
  | case3 saw cs r h after _ hb =>
    have h1 := length_dropWhile_le isBreakingSpace cs
    have h2 := skipBlock_length saw r
    rw [h] at h1
    rw [hb] at h2
    simp only [List.length_cons] at h1 h2
    simp only [Crossing.rest]
    omega
  | case4 saw cs r h saw' after hb _ _ =>
    have h1 := length_dropWhile_le isBreakingSpace cs
    have h2 := skipBlock_length saw r
    rw [h] at h1
    rw [hb] at h2
    simp only [List.length_cons] at h1 h2
    simp only [Crossing.rest]
    omega
  | case5 => simp [Crossing.rest]
  | case6 saw cs =>
    simpa [Crossing.rest] using length_dropWhile_le isBreakingSpace cs

/-- After the letter i: a semicolon is not inserted before the operators `in` and
`instanceof`. -/
def afterLetterI (cs : List Char) : Bool :=
  let wordGoesOn := fun r : List Char =>
    match r with
    | c :: _ => isLetter c
    | [] => false
  match cs with
  | 'n' :: r =>
    if !wordGoesOn r then false
    else
      match literal "stanceof".toList r with
      | some (_, r') => wordGoesOn r'
      | none => true
  | _ => true

/-- Is a semicolon inserted before this token, which starts a line? -/
def beforeLine (d : Dialect) (afterOperand : Bool) (cs : List Char) : Bool :=
  match cs with
  | [] => true
  | c :: r =>
    if "`,:;*%><=?^|&/".toList.contains c then false
    else
      match c with
      | '(' => d.typed && !afterOperand
      | '[' => d.typed && !afterOperand
      | '.' => !d.typed && (match r with | x :: _ => x.isDigit | [] => false)
      | '+' => r.head? == some '+'
      | '-' => r.head? == some '-'
      | '!' => r.head? != some '='
      | 'i' => afterLetterI r
      | _ => true

/-- Where the decision falls once a comment at hand has been crossed; some sources decide it at
once. -/
def landing (afterOperand : Bool) (cs : List Char) : Bool ⊕ List Char :=
  match cs with
  | [] => .inl true
  | '/' :: r =>
    match cross false false ('/' :: r) with
    | .stuck => .inl false
    | .sameLine rest => .inr rest
    | .crossed rest =>
      if !afterOperand && rest.head? != some ',' && rest.head? != some '=' then .inl true
      else .inr rest
  | c :: r => .inr (c :: r)

theorem landing_length {afterOperand : Bool} {cs rest : List Char}
    (h : landing afterOperand cs = .inr rest) : rest.length ≤ cs.length := by
  unfold landing at h
  split at h
  · simp at h
  · rename_i r
    have hc := cross_length false false ('/' :: r)
    split at h
    · simp at h
    · rename_i r' he
      rw [he] at hc
      simp only [Sum.inr.injEq] at h
      simpa [Crossing.rest, h] using hc
    · rename_i r' he
      rw [he] at hc
      split at h
      · simp at h
      · simp only [Sum.inr.injEq] at h
        simpa [Crossing.rest, h] using hc
  · simp only [Sum.inr.injEq] at h
    simp [h]

/-- Is a semicolon inserted before the token after a line end? -/
def afterLineEnd (d : Dialect) (afterOperand : Bool) (cs : List Char) : Bool :=
  match cross true false cs with
  | .crossed rest => beforeLine d afterOperand rest
  | .sameLine rest => beforeLine d afterOperand rest
  | .stuck => false

/-- Is a semicolon inserted here? -/
def inserted (d : Dialect) (afterOperand : Bool) (cs : List Char) : Bool :=
  match _h : landing afterOperand cs with
  | .inl answer => answer
  | .inr [] => false
  | .inr (c :: rest) =>
    if c == '\x7d' then
      if d.typed && (rest.dropWhile isBreakingSpace).head? == some ':' then afterOperand else true
    else if isNewline c then afterLineEnd d afterOperand rest
    else if isBreakingSpace c then inserted d afterOperand rest
    else false
termination_by cs.length
decreasing_by
  have := landing_length (by assumption)
  simp only [List.length_cons] at this
  omega

end Semicolon

end CodeGraph
