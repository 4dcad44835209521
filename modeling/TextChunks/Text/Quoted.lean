import TextChunks.Digest.Hex
import TextChunks.Json.Basic
import TextChunks.Number.Shortest
import TextChunks.Text.Printable
import TextChunks.Text.Utf8

namespace TextChunks.Text

/-- The quote of a shown text: double only where the text has single ones and no double one. -/
def quoteFor (points : List CodePoint) : Char :=
  if points.contains (.scalar '\'') && !points.contains (.scalar '"') then '"' else '\''

def showHidden (n : Nat) : Text :=
  if n < 0x100 then '\\' :: 'x' :: Hex.padded 2 n
  else if n < 0x10000 then '\\' :: 'u' :: Hex.padded 4 n
  else '\\' :: 'U' :: Hex.padded 8 n

def showPoint (quote : Char) : CodePoint → Text
  | .surrogate n => showHidden n
  | .scalar c =>
    if c = quote ∨ c = '\\' then ['\\', c]
    else if c = '\n' then ['\\', 'n']
    else if c = '\r' then ['\\', 'r']
    else if c = '\t' then ['\\', 't']
    else if isPrintable c.toNat then [c]
    else showHidden c.toNat

def showPoints (points : List CodePoint) : Text :=
  let quote := quoteFor points
  quote :: (points.flatMap (showPoint quote) ++ [quote])

def shown (s : Text) : Text := showPoints (s.map .scalar)

def fitting (bytes : Nat) : Text → Text
  | [] => []
  | c :: rest =>
    let size := (charBytes c).length
    if size ≤ bytes then c :: fitting (bytes - size) rest else []

/-- A text of more than 50 bytes gives way to its two ends and three points. -/
def abridged (s : Text) : Text :=
  if s.toBytes.length ≤ 50 then s
  else fitting 25 s ++ "...".toList ++ (fitting 24 s.reverse).reverse

end TextChunks.Text

namespace TextChunks

def Utf8Fault.message (f : Utf8Fault) : Text :=
  "'utf-8' codec can't encode character".toList ++
    (match f.run with
    | [p] => ' ' :: Text.showPoints [p] ++ " in position ".toList ++ Text.ofNat f.start
    | run => "s in position ".toList ++ Text.ofNat f.start ++ '-' ::
        Text.ofNat (f.start + run.length - 1)) ++
    ": surrogates not allowed".toList

def Decimal.shown (x : Decimal) : Text :=
  (if x.negative then ['-'] else []) ++
    match x.toDouble? with
    | some d => d.written
    | none => "inf".toList

namespace Json

def typeName : Json → String
  | .null => "NoneType"
  | .bool _ => "bool"
  | .int _ => "int"
  | .float _ => "float"
  | .nan => "float"
  | .infinity _ => "float"
  | .str _ => "str"
  | .array _ => "list"
  | .object _ => "dict"

mutual

def shown : Json → Text
  | .null => "None".toList
  | .bool true => "True".toList
  | .bool false => "False".toList
  | .int n => Text.ofInt n
  | .float x => x.shown
  | .nan => "nan".toList
  | .infinity false => "inf".toList
  | .infinity true => "-inf".toList
  | .str s => Text.showPoints s.codePoints
  | .array items => '[' :: (shownItems items ++ [']'])
  | .object fields => '{' :: (shownFields fields ++ ['}'])

def shownItems : List Json → Text
  | [] => []
  | [v] => shown v
  | v :: rest => shown v ++ ',' :: ' ' :: shownItems rest

def shownFields : List (Literal × Json) → Text
  | [] => []
  | [(k, v)] => Text.showPoints k.codePoints ++ ':' :: ' ' :: shown v
  | (k, v) :: rest =>
    Text.showPoints k.codePoints ++ ':' :: ' ' :: shown v ++ ',' :: ' ' :: shownFields rest

end

end Json

end TextChunks
