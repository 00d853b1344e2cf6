/-!
# Bytes as text

`decodeLossy` reads bytes as UTF-8 and puts the replacement character in place of each longest
run that begins like a character and is not one.
-/

namespace ClientGen.Text

/-- The bytes that may follow a lead byte, as the bounds of the second byte and the number of
bytes that follow in all; `none` for a byte that leads nothing. -/
def leadShape (b : Nat) : Option (Nat × Nat × Nat) :=
  if 0xc2 ≤ b && b ≤ 0xdf then some (0x80, 0xbf, 1)
  else if b == 0xe0 then some (0xa0, 0xbf, 2)
  else if b == 0xed then some (0x80, 0x9f, 2)
  else if 0xe1 ≤ b && b ≤ 0xef then some (0x80, 0xbf, 2)
  else if b == 0xf0 then some (0x90, 0xbf, 3)
  else if 0xf1 ≤ b && b ≤ 0xf3 then some (0x80, 0xbf, 3)
  else if b == 0xf4 then some (0x80, 0x8f, 3)
  else none

/-- The payload of a lead byte that `follow` bytes come after. -/
def leadBits (b follow : Nat) : Nat :=
  match follow with
  | 1 => b % 0x20
  | 2 => b % 0x10
  | _ => b % 0x08

/-- A character being read: the bits so far, how many bytes are still due, and the bounds of the
next one. -/
structure Pending where
  bits : Nat
  due : Nat
  low : Nat
  high : Nat

/-- Reads the bytes one by one. -/
def decodeBytes : Option Pending → List UInt8 → List Char
  | none, [] => []
  | some _, [] => ['�']
  | none, b :: rest =>
    let n := b.toNat
    if n < 0x80 then Char.ofNat n :: decodeBytes none rest
    else match leadShape n with
      | some (low, high, due) => decodeBytes (some ⟨leadBits n due, due, low, high⟩) rest
      | none => '�' :: decodeBytes none rest
  | some p, b :: rest =>
    let n := b.toNat
    if p.low ≤ n && n ≤ p.high then
      let bits := p.bits * 0x40 + n % 0x40
      if p.due ≤ 1 then Char.ofNat bits :: decodeBytes none rest
      else decodeBytes (some ⟨bits, p.due - 1, 0x80, 0xbf⟩) rest
    else if n < 0x80 then '�' :: Char.ofNat n :: decodeBytes none rest
    else match leadShape n with
      | some (low, high, due) =>
        '�' :: decodeBytes (some ⟨leadBits n due, due, low, high⟩) rest
      | none => '�' :: '�' :: decodeBytes none rest

/-- The bytes as text, with the replacement character for what is not UTF-8. -/
def decodeLossy (bytes : ByteArray) : String :=
  match String.fromUTF8? bytes with
  | some s => s
  | none => String.ofList (decodeBytes none bytes.toList)

end ClientGen.Text
