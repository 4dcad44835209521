import TextChunks.Text.Basic

namespace TextChunks

abbrev Bytes := List UInt8

namespace Text

def charBytes (c : Char) : Bytes :=
  let n := c.toNat
  if n < 0x80 then [n.toUInt8]
  else if n < 0x800 then [(0xC0 + n / 0x40).toUInt8, (0x80 + n % 0x40).toUInt8]
  else if n < 0x10000 then
    [(0xE0 + n / 0x1000).toUInt8, (0x80 + n / 0x40 % 0x40).toUInt8, (0x80 + n % 0x40).toUInt8]
  else
    [(0xF0 + n / 0x40000).toUInt8, (0x80 + n / 0x1000 % 0x40).toUInt8,
      (0x80 + n / 0x40 % 0x40).toUInt8, (0x80 + n % 0x40).toUInt8]

def toBytes (s : Text) : Bytes := s.flatMap charBytes

end Text

namespace Bytes

/-- What a lead byte announces: the number of bytes that follow, the bounds of the first of them,
and the bits of the lead byte itself. -/
structure Lead where
  following : Nat
  low : Nat
  high : Nat
  bits : Nat

/-- The lead bytes of two to four byte forms; the bounds leave out the overlong forms, the
surrogates and all above U+10FFFF. -/
def lead? (b : UInt8) : Option Lead :=
  let n := b.toNat
  if 0xC2 ≤ n ∧ n ≤ 0xDF then some ⟨1, 0x80, 0xBF, n - 0xC0⟩
  else if n = 0xE0 then some ⟨2, 0xA0, 0xBF, 0⟩
  else if n = 0xED then some ⟨2, 0x80, 0x9F, 0xD⟩
  else if 0xE1 ≤ n ∧ n ≤ 0xEF then some ⟨2, 0x80, 0xBF, n - 0xE0⟩
  else if n = 0xF0 then some ⟨3, 0x90, 0xBF, 0⟩
  else if 0xF1 ≤ n ∧ n ≤ 0xF3 then some ⟨3, 0x80, 0xBF, n - 0xF0⟩
  else if n = 0xF4 then some ⟨3, 0x80, 0x8F, 4⟩
  else none

def replacement : Char := '\uFFFD'

/-- What the decoder has read of the form it is in: the bytes still to come, the bounds of the next
one, and the bits so far. -/
structure Pending where
  left : Nat
  low : Nat
  high : Nat
  bits : Nat

def openForm (b : UInt8) : Text × Option Pending :=
  if b.toNat < 0x80 then ([Char.ofNat b.toNat], none)
  else match lead? b with
    | some l => ([], some ⟨l.following, l.low, l.high, l.bits⟩)
    | none => ([replacement], none)

/-- One byte; a form that the byte does not continue is replaced as a whole, and the byte is read
again as the first of the next form. -/
def step (p : Option Pending) (b : UInt8) : Text × Option Pending :=
  match p with
  | none => openForm b
  | some q =>
    if q.low ≤ b.toNat ∧ b.toNat ≤ q.high then
      let bits := q.bits * 0x40 + (b.toNat - 0x80)
      if q.left ≤ 1 then ([Char.ofNat bits], none)
      else ([], some ⟨q.left - 1, 0x80, 0xBF, bits⟩)
    else
      let (s, p') := openForm b
      (replacement :: s, p')

def decodeFrom : Option Pending → Bytes → Text
  | none, [] => []
  | some _, [] => [replacement]
  | p, b :: bs => (step p b).1 ++ decodeFrom (step p b).2 bs

/-- The text of a byte sequence; each longest piece that starts a form without ending it, and each
byte that starts none, becomes one U+FFFD. -/
def toText (bs : Bytes) : Text := decodeFrom none bs

end Bytes

end TextChunks
