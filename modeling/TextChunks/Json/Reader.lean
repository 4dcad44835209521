import TextChunks.Digest.Hex
import TextChunks.Json.Basic
import TextChunks.Text.Digits

namespace TextChunks.Json

inductive Fault where
  | value
  | propertyName
  | colon
  | comma
  | unterminated
  | escape
  | unicodeEscape
  | control
  | extraData
  | byteOrderMark
  deriving DecidableEq

def Fault.message : Fault → String
  | .value => "Expecting value"
  | .propertyName => "Expecting property name enclosed in double quotes"
  | .colon => "Expecting ':' delimiter"
  | .comma => "Expecting ',' delimiter"
  | .unterminated => "Unterminated string starting at"
  | .escape => "Invalid \\escape"
  | .unicodeEscape => "Invalid \\uXXXX escape"
  | .control => "Invalid control character at"
  | .extraData => "Extra data"
  | .byteOrderMark => "Unexpected UTF-8 BOM (decode using utf-8-sig)"

inductive Collection where
  | array
  | object
  deriving DecidableEq

def Collection.name : Collection → String
  | .array => "array"
  | .object => "object"

/-- Why reading stopped: a fault, with the text from its place on, a whole number of more digits than
are read, or a collection inside too many others. -/
inductive Stop where
  | fault (f : Fault) (rest : Text)
  | digits (n : Nat)
  | depth (c : Collection)

abbrev Reading (α : Type) := Except Stop (α × Text)

def isSpace (c : Char) : Bool := c == ' ' || c == '\t' || c == '\n' || c == '\r'

def skip (s : Text) : Text := s.dropWhile isSpace

def hex4? (a b c d : Char) : Option Nat := do
  let a ← Hex.value? a
  let b ← Hex.value? b
  let c ← Hex.value? c
  let d ← Hex.value? d
  return ((a * 16 + b) * 16 + c) * 16 + d

def escaped? : Char → Option Char
  | '"' => some '"'
  | '\\' => some '\\'
  | '/' => some '/'
  | 'b' => some '\x08'
  | 'f' => some '\x0c'
  | 'n' => some '\n'
  | 'r' => some '\r'
  | 't' => some '\t'
  | _ => none

def prepend (p : CodePoint) : Reading (List CodePoint) → Reading (List CodePoint)
  | .ok (ps, rest) => .ok (p :: ps, rest)
  | .error e => .error e

/-- The code points of a string up to its closing quote; `opening` is the text from the opening one. -/
def codePoints (opening : Text) : Text → Reading (List CodePoint)
  | [] => .error (.fault .unterminated opening)
  | '"' :: rest => .ok ([], rest)
  | ['\\'] => .error (.fault .unterminated opening)
  | '\\' :: 'u' :: a :: b :: c :: d :: e :: rest =>
    match hex4? a b c d with
    | some n => prepend (.ofNat n) (codePoints opening (e :: rest))
    | none => .error (.fault .unicodeEscape ('u' :: a :: b :: c :: d :: e :: rest))
  | '\\' :: 'u' :: rest => .error (.fault .unicodeEscape ('u' :: rest))
  | '\\' :: c :: rest =>
    match escaped? c with
    | some x => prepend (.scalar x) (codePoints opening rest)
    | none => .error (.fault .escape ('\\' :: c :: rest))
  | c :: rest =>
    if c.toNat < 0x20 then .error (.fault .control (c :: rest))
    else prepend (.scalar c) (codePoints opening rest)

def literal (opening rest : Text) : Reading Literal :=
  match codePoints opening rest with
  | .ok (points, rest) => .ok (.ofCodePoints (CodePoint.joinPairs points), rest)
  | .error e => .error e

def fractionPart : Text → Text × Text
  | '.' :: rest => if (Text.digits rest).1.isEmpty then ([], '.' :: rest) else Text.digits rest
  | s => ([], s)

def exponentPart? (s : Text) : Option (Int × Text) :=
  match s with
  | c :: rest =>
    if c = 'e' ∨ c = 'E' then
      let (negative, rest) := match rest with
        | '+' :: r => (false, r)
        | r => Text.sign r
      let (ds, rest) := Text.digits rest
      if ds.isEmpty then none else some (Text.signedValue negative ds, rest)
    else none
  | [] => none

def number (s : Text) : Reading Json :=
  let (negative, unsigned) := s.sign
  match unsigned.whole? with
  | none => .error (.fault .value s)
  | some (whole, rest) =>
    let (fraction, rest) := fractionPart rest
    let digits := Text.digitsValue (whole ++ fraction)
    match exponentPart? rest with
    | some (e, rest) => .ok (ofDecimal ⟨negative, digits, e - fraction.length⟩, rest)
    | none =>
      if fraction.isEmpty then
        if Text.maxDigits < whole.length then .error (.digits whole.length)
        else .ok (.int (Text.signedValue negative whole), rest)
      else .ok (ofDecimal ⟨negative, digits, -fraction.length⟩, rest)

mutual

def value (depth : Nat) : Nat → Text → Reading Json
  | 0, s => .error (.fault .value s)
  | fuel + 1, s =>
    match s with
    | '"' :: rest =>
      match literal s rest with
      | .ok (l, rest) => .ok (.str l, rest)
      | .error e => .error e
    | '{' :: rest =>
      match depth with
      | 0 => .error (.depth .object)
      | depth + 1 =>
        match skip rest with
        | '}' :: rest => .ok (.object [], rest)
        | rest => members depth fuel [] rest
    | '[' :: rest =>
      match depth with
      | 0 => .error (.depth .array)
      | depth + 1 =>
        match skip rest with
        | ']' :: rest => .ok (.array [], rest)
        | rest => elements depth fuel [] rest
    | 'n' :: 'u' :: 'l' :: 'l' :: rest => .ok (.null, rest)
    | 't' :: 'r' :: 'u' :: 'e' :: rest => .ok (.bool true, rest)
    | 'f' :: 'a' :: 'l' :: 's' :: 'e' :: rest => .ok (.bool false, rest)
    | 'N' :: 'a' :: 'N' :: rest => .ok (.nan, rest)
    | 'I' :: 'n' :: 'f' :: 'i' :: 'n' :: 'i' :: 't' :: 'y' :: rest => .ok (.infinity false, rest)
    | '-' :: 'I' :: 'n' :: 'f' :: 'i' :: 'n' :: 'i' :: 't' :: 'y' :: rest =>
      .ok (.infinity true, rest)
    | s => number s

/-- The fields of an object from a key on; `fields` came before it. -/
def members (depth : Nat) : Nat → Fields → Text → Reading Json
  | 0, _, s => .error (.fault .value s)
  | fuel + 1, fields, s =>
    match s with
    | '"' :: rest =>
      match literal s rest with
      | .error e => .error e
      | .ok (key, rest) =>
        match skip rest with
        | ':' :: rest =>
          match value depth fuel (skip rest) with
          | .error e => .error e
          | .ok (v, rest) =>
            match skip rest with
            | '}' :: rest => .ok (.object (fields.put key v), rest)
            | ',' :: rest => members depth fuel (fields.put key v) (skip rest)
            | rest => .error (.fault .comma rest)
        | rest => .error (.fault .colon rest)
    | s => .error (.fault .propertyName s)

/-- The items of an array from one on; `items` came before it, the latest first. -/
def elements (depth : Nat) : Nat → List Json → Text → Reading Json
  | 0, _, s => .error (.fault .value s)
  | fuel + 1, items, s =>
    match value depth fuel s with
    | .error e => .error e
    | .ok (v, rest) =>
      match skip rest with
      | ']' :: rest => .ok (.array (v :: items).reverse, rest)
      | ',' :: rest => elements depth fuel (v :: items) (skip rest)
      | rest => .error (.fault .comma rest)

end

inductive ReadError where
  | malformed (fault : Fault) (position line column : Nat)
  | digits (n : Nat)
  | depth (c : Collection)
  deriving DecidableEq

namespace ReadError

def located (s : Text) (f : Fault) (position : Nat) : ReadError :=
  let before := s.take position
  .malformed f position (before.count '\n' + 1)
    ((before.reverse.takeWhile (· != '\n')).length + 1)

def ofStop (s : Text) : Stop → ReadError
  | .fault f rest => .located s f (s.length - rest.length)
  | .digits n => .digits n
  | .depth c => .depth c

def message : ReadError → String
  | .malformed f position line column =>
    s!"{f.message}: line {line} column {column} (char {position})"
  | .digits n =>
    s!"Exceeds the limit ({Text.maxDigits} digits) for integer string conversion: value has {n} digits; " ++
      "use sys.set_int_max_str_digits() to increase the limit"
  | .depth c =>
    s!"maximum recursion depth exceeded while decoding a JSON {c.name} from a unicode string"

end ReadError

def readWithin (depth : Nat) (s : Text) : Except ReadError Json :=
  match value depth (2 * s.length + 2) (skip s) with
  | .error e => .error (.ofStop s e)
  | .ok (v, rest) =>
    match skip rest with
    | [] => .ok v
    | rest => .error (.located s .extraData (s.length - rest.length))

/-- The most collections inside each other that a file can have. It stands for what is left of an
interpreter's stack where a file is read; another interpreter, or another caller, leaves more or less. -/
def maxDepth : Nat := 987

def read (s : Text) : Except ReadError Json := readWithin maxDepth s

end TextChunks.Json
