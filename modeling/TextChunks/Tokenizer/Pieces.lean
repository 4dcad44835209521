import TextChunks.Tokenizer.Basic

namespace TextChunks

namespace Text

/-- The text cut from the left into pieces, each as long as `next` says of what is left, and one
character at least. -/
def pieces (next : Text → Nat) : Text → List Text
  | [] => []
  | c :: rest =>
    let n := next (c :: rest) - 1
    (c :: rest.take n) :: pieces next (rest.drop n)
termination_by s => s.length
decreasing_by simp only [List.length_drop, List.length_cons]; omega

def isLetter (c : Char) : Bool := ('a' ≤ c && c ≤ 'z') || ('A' ≤ c && c ≤ 'Z')

def isWordChar (c : Char) : Bool := isLetter c || c.isDigit || c == '_'

def runLength (p : Char → Bool) (s : Text) : Nat := (s.takeWhile p).length

def words (s : Text) : List Text := s.pieces (runLength isWordChar)

def slices (n : Nat) (s : Text) : List Text := s.pieces fun _ => n

end Text

/-- The pieces seen so far; a piece's number is its place. -/
abbrev PieceTable := List Text

namespace PieceTable

def number (t : PieceTable) (piece : Text) : Nat × PieceTable :=
  match t.idxOf? piece with
  | some i => (i, t)
  | none => (t.length, t ++ [piece])

def numbers : PieceTable → List Text → List Nat × PieceTable
  | t, [] => ([], t)
  | t, piece :: rest =>
    let (i, t) := t.number piece
    let (is, t) := numbers t rest
    (i :: is, t)

/-- The place that a whole number stands for; below zero it counts back from the end. -/
def place (t : PieceTable) (i : Int) : Except Failure Nat :=
  let n := if i < 0 then t.length + i else i
  if 0 ≤ n ∧ n < t.length then .ok n.toNat else .error (.noPiece i)

def join (t : PieceTable) : List Nat → Except Failure Text
  | [] => .ok []
  | i :: rest =>
    match t[i]? with
    | some piece => (join t rest).map (piece ++ ·)
    | none => .error (.noPiece i)

def tokenizer (cut : Text → List Text) : Tokenizer PieceTable where
  encode s := ExceptT.mk fun t => let (is, t) := t.numbers (cut s); (.ok is, t)
  decode is := ExceptT.mk fun t => (t.join is, t)

end PieceTable

end TextChunks
