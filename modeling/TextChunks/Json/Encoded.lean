import TextChunks.Json.Reader
import TextChunks.Text.Mask
import TextChunks.Text.Wide

namespace TextChunks.Json

mutual

def mapLiterals (f : Literal → Literal) : Json → Json
  | .str s => .str (f s)
  | .array items => .array (mapItems f items)
  | .object fields => .object (Dictionary.putAll [] (mapFields f fields))
  | v => v

def mapItems (f : Literal → Literal) : List Json → List Json
  | [] => []
  | v :: rest => mapLiterals f v :: mapItems f rest

def mapFields (f : Literal → Literal) : List (Literal × Json) → List (Literal × Json)
  | [] => []
  | (k, v) :: rest => (f k, mapLiterals f v) :: mapFields f rest

end

def unmasked (m : Mask) (l : Literal) : Literal :=
  .ofCodePoints (l.codePoints.map fun p =>
    match p with
    | .scalar c => m.reveal c
    | .surrogate n => .surrogate n)

/-- The most collections inside each other that bytes from a client can have. Like `maxDepth` it stands for
what is left of a stack, here below the handlers of a request. -/
def maxBodyDepth : Nat := 968

/-- The value that the code points hold. A surrogate counts as any other character, and is no part of a
pair. -/
def readPoints (points : List CodePoint) : Except ReadError Json :=
  let masked := Masked.ofLiteral (.ofCodePoints points)
  match masked.mask with
  | none => readWithin maxBodyDepth masked.text
  | some m => (readWithin maxBodyDepth masked.text).map (mapLiterals (unmasked m))

inductive Encoding where
  | utf8
  | utf16 (order : ByteOrder)
  | utf32 (order : ByteOrder)
  deriving DecidableEq

/-- The encoding of a JSON text that starts with these bytes, of which four are enough: a text starts with
one ASCII character at least, so that the zeros around it tell. -/
def Encoding.ofStart : Bytes → Encoding
  | 0 :: b :: _ :: _ :: _ => if b = 0 then .utf32 .big else .utf16 .big
  | _ :: 0 :: c :: d :: _ => if c = 0 ∧ d = 0 then .utf32 .little else .utf16 .little
  | [0, _] => .utf16 .big
  | [_, 0] => .utf16 .little
  | _ => .utf8

/-- The value in a sequence of bytes, which is given as the text that it has as UTF-8; `none` if the bytes
are not in the encoding that their start tells. A byte order mark in front is skipped. -/
def readEncoded (body : Text) : Option (Except ReadError Json) :=
  match Encoding.ofStart (Text.toBytes (body.take 4)) with
  | .utf8 =>
    match body with
    | '\uFEFF' :: rest => some (readWithin maxBodyDepth rest)
    | s => some (readWithin maxBodyDepth s)
  | .utf16 order => (Bytes.ofUtf16? order body.toBytes).map readPoints
  | .utf32 order => (Bytes.ofUtf32? order body.toBytes).map readPoints

end TextChunks.Json
