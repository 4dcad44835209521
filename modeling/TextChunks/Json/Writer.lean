import TextChunks.Digest.Hex
import TextChunks.Json.Basic

namespace TextChunks.Json

def unicodeEscape (n : Nat) : Text := '\\' :: 'u' :: Hex.padded 4 n

def writeChar (c : Char) : Text :=
  if c = '"' then ['\\', '"']
  else if c = '\\' then ['\\', '\\']
  else if c = '\n' then ['\\', 'n']
  else if c = '\r' then ['\\', 'r']
  else if c = '\t' then ['\\', 't']
  else if c = '\x08' then ['\\', 'b']
  else if c = '\x0c' then ['\\', 'f']
  else if 0x20 ≤ c.toNat ∧ c.toNat ≤ 0x7E then [c]
  else if c.toNat < 0x10000 then unicodeEscape c.toNat
  else
    let n := c.toNat - 0x10000
    unicodeEscape (0xD800 + n / 0x400) ++ unicodeEscape (0xDC00 + n % 0x400)

def writeCodePoint : CodePoint → Text
  | .scalar c => writeChar c
  | .surrogate n => unicodeEscape n

def quoteText (s : Text) : Text := '"' :: (s.flatMap writeChar ++ ['"'])

def quote : Literal → Text
  | .text s => quoteText s
  | .stray points => '"' :: (points.flatMap writeCodePoint ++ ['"'])

def writeDecimal (x : Decimal) : Text :=
  (if x.negative then ['-'] else []) ++ Text.ofNat x.digits ++ 'e' :: Text.ofInt x.exponent

mutual

def write : Json → Text
  | .null => "null".toList
  | .bool true => "true".toList
  | .bool false => "false".toList
  | .int n => Text.ofInt n
  | .float x => writeDecimal x
  | .nan => "NaN".toList
  | .infinity false => "Infinity".toList
  | .infinity true => "-Infinity".toList
  | .str s => quote s
  | .array items => '[' :: (writeItems items ++ [']'])
  | .object fields => '{' :: (writeFields fields ++ ['}'])

def writeItems : List Json → Text
  | [] => []
  | [v] => write v
  | v :: rest => write v ++ ',' :: ' ' :: writeItems rest

def writeFields : List (Literal × Json) → Text
  | [] => []
  | [(k, v)] => quote k ++ ':' :: ' ' :: write v
  | (k, v) :: rest => quote k ++ ':' :: ' ' :: write v ++ ',' :: ' ' :: writeFields rest

end

end TextChunks.Json
