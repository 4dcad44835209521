import TextChunks.Text.Basic

namespace TextChunks.Text

def digits (s : Text) : Text × Text := (s.takeWhile Char.isDigit, s.dropWhile Char.isDigit)

/-- The most digits of a whole number that is read from a text, or written to one. -/
def maxDigits : Nat := 4300

def isShort (n : Nat) : Bool := (ofNat n).length ≤ maxDigits

def digitsValue (ds : Text) : Nat := ds.foldl (fun n d => n * 10 + (d.toNat - '0'.toNat)) 0

/-- A whole number at the start of the text: one zero, or digits that do not start with one. -/
def whole? : Text → Option (Text × Text)
  | '0' :: rest => some (['0'], rest)
  | c :: rest => if c.isDigit then some (digits (c :: rest)) else none
  | [] => none

def sign : Text → Bool × Text
  | '-' :: rest => (true, rest)
  | s => (false, s)

def signedValue (negative : Bool) (ds : Text) : Int :=
  if negative then -(digitsValue ds : Int) else digitsValue ds

end TextChunks.Text
