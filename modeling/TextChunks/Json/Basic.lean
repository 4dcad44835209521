import TextChunks.Dictionary
import TextChunks.Number.Decimal
import TextChunks.Text.CodePoint

namespace TextChunks

inductive Json where
  | null
  | bool (b : Bool)
  | int (n : Int)
  | float (x : Decimal)
  | nan
  | infinity (negative : Bool)
  | str (s : Literal)
  | array (items : List Json)
  | object (fields : List (Literal × Json))
  deriving Inhabited

namespace Json

abbrev Fields := Dictionary Literal Json

def ofText (s : Text) : Json := .str (.text s)

def ofString (s : String) : Json := ofText s.toList

def ofOption (f : α → Json) : Option α → Json
  | some a => f a
  | none => .null

def record (fields : List (String × Json)) : Json :=
  .object (fields.map fun kv => (Literal.ofString kv.1, kv.2))

/-- A number with a point; past the largest double it is an infinity. -/
def ofDecimal (x : Decimal) : Json :=
  if x.toDouble?.isSome then .float x else .infinity x.negative

def isFalsy : Json → Bool
  | .null => true
  | .bool b => !b
  | .int n => n == 0
  | .float x => x.toDouble? == some ⟨0, 0⟩ || x.digits == 0
  | .nan => false
  | .infinity _ => false
  | .str s => s.length == 0
  | .array items => items.isEmpty
  | .object fields => fields.isEmpty

mutual

/-- Whether the value can be sent: its numbers are finite and its strings have a UTF-8 form. -/
def sendable : Json → Bool
  | .nan => false
  | .infinity _ => false
  | .str (.stray _) => false
  | .array items => sendableItems items
  | .object fields => sendableFields fields
  | _ => true

def sendableItems : List Json → Bool
  | [] => true
  | v :: rest => sendable v && sendableItems rest

def sendableFields : List (Literal × Json) → Bool
  | [] => true
  | (.stray _, _) :: _ => false
  | (.text _, v) :: rest => sendable v && sendableFields rest

end

end Json

end TextChunks
