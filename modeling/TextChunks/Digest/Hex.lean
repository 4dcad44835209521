import TextChunks.Text.Utf8

namespace TextChunks.Hex

def digit (n : Nat) : Char := Nat.digitChar n

def padded : Nat → Nat → Text
  | 0, _ => []
  | width + 1, n => padded width (n / 16) ++ [digit (n % 16)]

def ofBytes (bs : Bytes) : Text := bs.flatMap fun b => padded 2 b.toNat

def value? (c : Char) : Option Nat :=
  if '0' ≤ c ∧ c ≤ '9' then some (c.toNat - '0'.toNat)
  else if 'a' ≤ c ∧ c ≤ 'f' then some (c.toNat - 'a'.toNat + 10)
  else if 'A' ≤ c ∧ c ≤ 'F' then some (c.toNat - 'A'.toNat + 10)
  else none

end TextChunks.Hex
