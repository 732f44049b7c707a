/-!
# Text as bytes

UTF-8 decoding, strict and with replacement. Both read the same list of *pieces*: a byte string
is cut into characters and maximal bad stretches, a bad stretch being the longest start of a
well-formed sequence that cannot be continued.
-/

namespace CodeGraph

/-- A byte string. -/
abbrev Bytes := List UInt8

namespace Utf8

/-- Why a stretch of bytes is not text. -/
inductive Fault where
  /-- The first byte starts no sequence. -/
  | start
  /-- A sequence is interrupted by a byte that does not continue it. -/
  | continuation
  /-- The bytes end inside a sequence. -/
  | truncated
  deriving DecidableEq, Repr

/-- The wording of a fault. -/
def Fault.reason : Fault → String
  | .start => "invalid start byte"
  | .continuation => "invalid continuation byte"
  | .truncated => "unexpected end of data"

/-- One step of decoding: a character, or a bad stretch of bytes. -/
inductive Piece where
  | char (c : Char) (width : Nat)
  | bad (fault : Fault) (bytes : Bytes)
  deriving DecidableEq, Repr

/-- The number of bytes a piece covers. -/
def Piece.width : Piece → Nat
  | .char _ w => w
  | .bad _ bytes => bytes.length

/-- Bytes that continue a sequence. -/
def isTail (b : UInt8) : Bool :=
  0x80 ≤ b && b ≤ 0xBF

/-- The second byte of a sequence may be restricted by the first: no overlong forms, no
surrogates, nothing above U+10FFFF. -/
def isSecond (lead b : UInt8) : Bool :=
  isTail b && (lead != 0xE0 || 0xA0 ≤ b) && (lead != 0xED || b ≤ 0x9F) &&
    (lead != 0xF0 || 0x90 ≤ b) && (lead != 0xF4 || b ≤ 0x8F)

/-- The six low bits of a continuation byte. -/
def low (b : UInt8) : Nat :=
  b.toNat % 64

/-- Cut a byte string into characters and bad stretches. -/
def pieces : Bytes → List Piece
  | [] => []
  | b0 :: r =>
    if b0 < 0x80 then
      .char (Char.ofNat b0.toNat) 1 :: pieces r
    else if b0 < 0xC2 || 0xF4 < b0 then
      .bad .start [b0] :: pieces r
    else if b0 < 0xE0 then
      match r with
      | [] => [.bad .truncated [b0]]
      | b1 :: r1 =>
        if isTail b1 then .char (Char.ofNat (b0.toNat % 32 * 64 + low b1)) 2 :: pieces r1
        else .bad .continuation [b0] :: pieces (b1 :: r1)
    else if b0 < 0xF0 then
      match r with
      | [] => [.bad .truncated [b0]]
      | b1 :: r1 =>
        if isSecond b0 b1 then
          match r1 with
          | [] => [.bad .truncated [b0, b1]]
          | b2 :: r2 =>
            if isTail b2 then
              .char (Char.ofNat ((b0.toNat % 16 * 64 + low b1) * 64 + low b2)) 3 :: pieces r2
            else .bad .continuation [b0, b1] :: pieces (b2 :: r2)
        else .bad .continuation [b0] :: pieces (b1 :: r1)
    else
      match r with
      | [] => [.bad .truncated [b0]]
      | b1 :: r1 =>
        if isSecond b0 b1 then
          match r1 with
          | [] => [.bad .truncated [b0, b1]]
          | b2 :: r2 =>
            if isTail b2 then
              match r2 with
              | [] => [.bad .truncated [b0, b1, b2]]
              | b3 :: r3 =>
                if isTail b3 then
                  .char (Char.ofNat (((b0.toNat % 8 * 64 + low b1) * 64 + low b2) * 64 + low b3)) 4
                    :: pieces r3
                else .bad .continuation [b0, b1, b2] :: pieces (b3 :: r3)
            else .bad .continuation [b0, b1] :: pieces (b2 :: r2)
        else .bad .continuation [b0] :: pieces (b1 :: r1)

/-- The mark that stands for a bad stretch. -/
def replacement : Char := '\uFFFD'

/-- A piece as a character, bad stretches replaced by one mark. -/
def Piece.toChar : Piece → Char
  | .char c _ => c
  | .bad _ _ => replacement

/-- Decode with one replacement mark per bad stretch. -/
def decodeLossy (data : Bytes) : String :=
  String.ofList ((pieces data).map Piece.toChar)

/-- The first bad stretch of a byte string. -/
structure DecodeError where
  offset : Nat
  bytes : Bytes
  fault : Fault
  deriving DecidableEq, Repr

/-- Read pieces from the given offset on, up to the first bad stretch. -/
def readPieces (offset : Nat) : List Piece → Except DecodeError (List Char)
  | [] => .ok []
  | .bad fault bytes :: _ => .error ⟨offset, bytes, fault⟩
  | .char c w :: rest => (readPieces (offset + w) rest).map (c :: ·)

/-- Decode, refusing any bad stretch. -/
def decode (data : Bytes) : Except DecodeError String :=
  (readPieces 0 (pieces data)).map String.ofList

/-- Two lower-case hexadecimal digits. -/
def hexByte (b : UInt8) : String :=
  String.ofList [Nat.digitChar (b.toNat / 16), Nat.digitChar (b.toNat % 16)]

/-- The wording of a decoding failure: one byte is shown, several are given by position. -/
def DecodeError.message (e : DecodeError) : String :=
  match e.bytes with
  | [b] =>
    "'utf-8' codec can't decode byte 0x" ++ hexByte b ++ " in position " ++
      toString e.offset ++ ": " ++ e.fault.reason
  | _ =>
    "'utf-8' codec can't decode bytes in position " ++ toString e.offset ++ "-" ++
      toString (e.offset + e.bytes.length - 1) ++ ": " ++ e.fault.reason

/-- The bytes of a text. -/
def encode (s : String) : Bytes :=
  s.toList.flatMap String.utf8EncodeChar

end Utf8

end CodeGraph
