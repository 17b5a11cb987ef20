/-
  Connect.Url — Python's `urllib.parse.unquote_plus`.

  S3 writes an object key URL-encoded. A `+` is a space, `%XX` is a byte, and the bytes of
  a run of ASCII characters are read as UTF-8, where every byte sequence that is none is
  U+FFFD; characters outside ASCII are kept.
-/

import Connect.Py

namespace Connect

inductive Piece where
  | byte (b : Nat)
  | char (c : Char)
  deriving DecidableEq, Repr

/-- `unquote_to_bytes`, on the ASCII runs of a string. -/
def pieces : List Char → List Piece
  | '%' :: a :: b :: cs =>
    match hexDigit a, hexDigit b with
    | some x, some y => .byte (x * 16 + y) :: pieces cs
    | _, _ => .byte 0x25 :: pieces (a :: b :: cs)
  | c :: cs => (if c.toNat < 0x80 then .byte c.toNat else .char c) :: pieces cs
  | [] => []

/-- A UTF-8 sequence that wants `left` more bytes, the next of `lower .. upper`. -/
structure Partial where
  left : Nat
  lower : Nat
  upper : Nat
  value : Nat
  deriving DecidableEq, Repr

def firstByte (b : Nat) : List Char × Option Partial :=
  if b < 0x80 then ([Char.ofNat b], none)
  else if 0xC2 ≤ b ∧ b ≤ 0xDF then ([], some ⟨1, 0x80, 0xBF, b - 0xC0⟩)
  else if 0xE0 ≤ b ∧ b ≤ 0xEF then
    ([], some ⟨2, if b = 0xE0 then 0xA0 else 0x80, if b = 0xED then 0x9F else 0xBF, b - 0xE0⟩)
  else if 0xF0 ≤ b ∧ b ≤ 0xF4 then
    ([], some ⟨3, if b = 0xF0 then 0x90 else 0x80, if b = 0xF4 then 0x8F else 0xBF, b - 0xF0⟩)
  else ([replacement], none)

def nextByte (p : Partial) (b : Nat) : List Char × Option Partial :=
  if p.lower ≤ b ∧ b ≤ p.upper then
    let value := p.value * 64 + (b - 0x80)
    if p.left = 1 then ([Char.ofNat value], none) else ([], some ⟨p.left - 1, 0x80, 0xBF, value⟩)
  else (replacement :: (firstByte b).1, (firstByte b).2)

def cutShort (p : Option Partial) : List Char := if p.isSome then [replacement] else []

def decodePieces : Option Partial → List Piece → List Char
  | p, [] => cutShort p
  | p, .char c :: ps => cutShort p ++ c :: decodePieces none ps
  | none, .byte b :: ps => (firstByte b).1 ++ decodePieces (firstByte b).2 ps
  | some p, .byte b :: ps => (nextByte p b).1 ++ decodePieces (nextByte p b).2 ps

/-- `unquote_plus(s)`. -/
def unquotePlus (s : String) : String :=
  String.ofList (decodePieces none (pieces (s.toList.map fun c => if c = '+' then ' ' else c)))

example : unquotePlus "a+b%2Fc%C3%A9%E2%82%" = "a b/cé�%" := by decide

end Connect
