import TextChunks.Text.Utf8

namespace TextChunks

inductive CodePoint where
  | scalar (c : Char)
  | surrogate (n : Nat)
  deriving DecidableEq, Inhabited

namespace CodePoint

def isHigh (n : Nat) : Bool := 0xD800 ≤ n && n ≤ 0xDBFF

def isLow (n : Nat) : Bool := 0xDC00 ≤ n && n ≤ 0xDFFF

def ofNat (n : Nat) : CodePoint :=
  if isHigh n || isLow n then .surrogate n else .scalar (Char.ofNat n)

def char? : CodePoint → Option Char
  | .scalar c => some c
  | .surrogate _ => none

def isSurrogate : CodePoint → Bool
  | .scalar _ => false
  | .surrogate _ => true

def joinPairs : List CodePoint → List CodePoint
  | .surrogate h :: .surrogate l :: rest =>
    if isHigh h && isLow l then
      .scalar (Char.ofNat (0x10000 + (h - 0xD800) * 0x400 + (l - 0xDC00))) :: joinPairs rest
    else .surrogate h :: joinPairs (.surrogate l :: rest)
  | p :: rest => p :: joinPairs rest
  | [] => []

def toText (points : List CodePoint) : Text :=
  (joinPairs points).map fun p => p.char?.getD Bytes.replacement

end CodePoint

/-- Why a string has no UTF-8 form: the surrogates side by side from index `start` on, the first ones that
stand alone. -/
structure Utf8Fault where
  start : Nat
  run : List CodePoint
  deriving DecidableEq

def Utf8Fault.of (points : List CodePoint) : Utf8Fault :=
  ⟨(points.takeWhile (!·.isSurrogate)).length,
    (points.dropWhile (!·.isSurrogate)).takeWhile CodePoint.isSurrogate⟩

/-- The content of a string: a text, or code points with a surrogate that stands alone. -/
inductive Literal where
  | text (s : Text)
  | stray (points : List CodePoint)
  deriving DecidableEq, Inhabited

namespace Literal

def ofCodePoints (points : List CodePoint) : Literal :=
  match points.mapM CodePoint.char? with
  | some s => .text s
  | none => .stray points

def codePoints : Literal → List CodePoint
  | .text s => s.map .scalar
  | .stray points => points

def replaced : Literal → Text
  | .text s => s
  | .stray points => CodePoint.toText points

def isStray : Literal → Bool
  | .text _ => false
  | .stray _ => true

def utf8 : Literal → Except Utf8Fault Text
  | .text s => .ok s
  | .stray points => .error (.of points)

def length (l : Literal) : Nat := l.codePoints.length

def ofString (s : String) : Literal := .text s.toList

instance : Coe String Literal := ⟨ofString⟩

instance : Coe Text Literal := ⟨.text⟩

end Literal

end TextChunks
