import CrateAudit.Bytes.Basic

/-!
# Reading byte strings as UTF-8

A byte string is read from the left as a sequence of `Piece`s: a character, where a well-formed UTF-8
encoding of one starts, or else a single stray byte. No byte is lost, so the pieces determine the byte
string (`Piece.bytes`), and the reading is total on byte strings that are not UTF-8.
-/

namespace CrateAudit.Utf8

/-- One step of reading: a character, or a byte that starts no well-formed encoding. -/
inductive Piece where
  | char (c : Char)
  | stray (b : UInt8)
  deriving DecidableEq

/-- The bytes that a piece was read from. -/
def Piece.bytes : Piece → Bytes
  | .char c => String.utf8EncodeChar c
  | .stray b => [b]

/-- A continuation byte. -/
def isContinuation (b : UInt8) : Bool := 0x80 ≤ b && b ≤ 0xbf

/-- The payload of a continuation byte. -/
def payload (b : UInt8) : Nat := b.toNat % 64

/-- The character whose well-formed encoding starts `bs`, with the length of that encoding: neither
overlong forms nor surrogates nor numbers above `0x10ffff`. -/
def leading? : Bytes → Option (Char × Nat)
  | [] => none
  | a :: rest =>
    if a < 0x80 then some (Char.ofNat a.toNat, 1)
    else if a < 0xc2 then none
    else if a < 0xe0 then
      match rest with
      | b :: _ =>
        if isContinuation b then some (Char.ofNat (a.toNat % 32 * 64 + payload b), 2) else none
      | _ => none
    else if a < 0xf0 then
      match rest with
      | b :: c :: _ =>
        if isContinuation b && isContinuation c && !(a = 0xe0 && b < 0xa0) && !(a = 0xed && 0x9f < b)
        then some (Char.ofNat (a.toNat % 16 * 4096 + payload b * 64 + payload c), 3) else none
      | _ => none
    else if a < 0xf5 then
      match rest with
      | b :: c :: d :: _ =>
        if isContinuation b && isContinuation c && isContinuation d && !(a = 0xf0 && b < 0x90) &&
            !(a = 0xf4 && 0x8f < b)
        then some (Char.ofNat (a.toNat % 8 * 262144 + payload b * 4096 + payload c * 64 + payload d), 4)
        else none
      | _ => none
    else none

/-- The pieces of `bs` behind `skip` bytes of a character that was already read, put behind the
reversed list `done`. -/
def piecesGo : Nat → Bytes → List Piece → List Piece
  | _, [], done => done.reverse
  | skip + 1, _ :: rest, done => piecesGo skip rest done
  | 0, b :: rest, done =>
    match leading? (b :: rest) with
    | some (c, size) => piecesGo (size - 1) rest (.char c :: done)
    | none => piecesGo 0 rest (.stray b :: done)

/-- The pieces of a byte string, from left to right. -/
def pieces (bs : Bytes) : List Piece := piecesGo 0 bs []

/-- Whether the whole byte string is well-formed UTF-8. -/
def isValid (bs : Bytes) : Bool :=
  (pieces bs).all fun
    | .char _ => true
    | .stray _ => false

end CrateAudit.Utf8
