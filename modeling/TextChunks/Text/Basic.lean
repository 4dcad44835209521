namespace TextChunks

/-- A text is its sequence of characters; every length and index counts characters. No character is a
surrogate, so that what holds of every text is said of strings that have a UTF-8 form; strings with
surrogates are cut up as texts in which these are masked. -/
abbrev Text := List Char

namespace Text

def isWhite (c : Char) : Bool :=
  let n := c.toNat
  (9 ≤ n && n ≤ 13) || n == 0x20 || n == 0x85 || n == 0xA0 || n == 0x1680 ||
    (0x2000 ≤ n && n ≤ 0x200A) || n == 0x2028 || n == 0x2029 || n == 0x202F || n == 0x205F ||
    n == 0x3000

/-- White space, and the four information separators U+001C to U+001F. -/
def isBlank (c : Char) : Bool :=
  isWhite c || (0x1C ≤ c.toNat && c.toNat ≤ 0x1F)

def blank (s : Text) : Bool := s.all isBlank

def trim (p : Char → Bool) (s : Text) : Text :=
  ((s.dropWhile p).reverse.dropWhile p).reverse

def strip (s : Text) : Text := s.trim isBlank

/-- Every line separator, `\r\n`, `\r` or `\n`, becomes one space. -/
def collapse : Text → Text
  | [] => []
  | '\r' :: '\n' :: rest => ' ' :: collapse rest
  | '\r' :: rest => ' ' :: collapse rest
  | '\n' :: rest => ' ' :: collapse rest
  | c :: rest => c :: collapse rest

def unifyLines : Text → Text
  | [] => []
  | '\r' :: '\n' :: rest => '\n' :: unifyLines rest
  | '\r' :: rest => '\n' :: unifyLines rest
  | c :: rest => c :: unifyLines rest

def isMark (c : Char) : Bool := c == '.' || c == '?' || c == '!' || c == '\n'

def lastMark? : Text → Option Nat
  | [] => none
  | c :: rest =>
    match lastMark? rest with
    | some i => some (i + 1)
    | none => if isMark c then some 0 else none

/-- Index of the last character of class `p`, searched for from the end; `-1` if there is none. -/
def lastPlace (p : Char → Bool) (s : Text) : Int :=
  go s.reverse
where
  go : Text → Int
    | [] => -1
    | c :: before => if p c then before.length else go before

def marks : Text := ['.', '?', '!', '\n']

/-- The greatest of the indices that are found for each mark by itself; `-1` if there is no mark. -/
def lastBoundary (s : Text) : Int :=
  (marks.map fun m => s.lastPlace (· == m)).max (by simp [marks])

/-- The text up to its last mark, if that mark stands at an index above `least`; else all of it. -/
def cut (least : Nat) (s : Text) : Text :=
  match s.lastMark? with
  | some i => if least < i then s.take (i + 1) else s
  | none => s

def ofNat (n : Nat) : Text := Nat.toDigits 10 n

def ofInt : Int → Text
  | .ofNat n => ofNat n
  | .negSucc n => '-' :: ofNat (n + 1)

/-- The parts between the occurrences of `mark`, which must not be empty, found from the left. -/
def separate [BEq α] (mark : List α) (s : List α) : List (List α) :=
  go s.length [] s
where
  go : Nat → List α → List α → List (List α)
    | 0, part, rest => [part.reverse ++ rest]
    | _ + 1, part, [] => [part.reverse]
    | fuel + 1, part, c :: rest =>
      if mark.isPrefixOf (c :: rest) then
        part.reverse :: go fuel [] ((c :: rest).drop mark.length)
      else go fuel (c :: part) rest

end Text

end TextChunks
