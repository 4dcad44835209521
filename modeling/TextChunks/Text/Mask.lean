import TextChunks.Text.CodePoint

namespace TextChunks

structure Mask where
  start : Nat
  deriving DecidableEq

namespace Mask

def size : Nat := 0x800

def contains (m : Mask) (c : Char) : Bool := m.start ≤ c.toNat && c.toNat < m.start + size

/-- Masks side by side from U+10F800 down to U+10000, none of which holds a blank, a mark or a letter. -/
def all : List Mask := (List.range 0x200).map fun i => ⟨0x10F800 - size * i⟩

/-- A mask of which the text holds no character, as any text has that is short of one from each. -/
def free (points : List CodePoint) : Mask :=
  (all.find? fun m => points.all fun p => !p.char?.any m.contains).getD ⟨0x10F800⟩

def hide (m : Mask) : CodePoint → Char
  | .scalar c => c
  | .surrogate n => Char.ofNat (m.start + (n - 0xD800))

def reveal (m : Mask) (c : Char) : CodePoint :=
  if m.contains c then .surrogate (0xD800 + (c.toNat - m.start)) else .scalar c

end Mask

structure Masked where
  text : Text
  mask : Option Mask

namespace Masked

instance : Coe Text Masked := ⟨fun s => ⟨s, none⟩⟩

def ofLiteral : Literal → Masked
  | .text s => ⟨s, none⟩
  | .stray points => let m := Mask.free points; ⟨points.map m.hide, some m⟩

def reveal (t : Masked) (piece : Text) : Literal :=
  match t.mask with
  | none => .text piece
  | some m => .ofCodePoints (piece.map m.reveal)

def isClear (t : Masked) (piece : Text) : Bool :=
  match t.mask with
  | none => true
  | some m => !piece.any m.contains

end Masked

end TextChunks
