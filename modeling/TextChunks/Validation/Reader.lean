import TextChunks.Text.Case
import TextChunks.Validation.Numeral

namespace TextChunks

abbrev Reader (α : Type) := Json → Except Complaint α

namespace Reader

/-- Numbers with a point count as whole only below this. -/
def wholeLimit : Nat := Nat.pow 2 63

def wholeFloat (x : Decimal) : Except Complaint Int :=
  match x.toDouble?.bind Double.toNat? with
  | some n =>
    if n < wholeLimit then .ok (if x.negative then -(n : Int) else n) else .error .tooManyDigits
  | none => .error .fractional

def integer : Reader Int
  | .int n => .ok n
  | .bool b => .ok (if b then 1 else 0)
  | .float x => wholeFloat x
  | .nan => .error .notFinite
  | .infinity _ => .error .notFinite
  | .str (.text s) => Numeral.read s
  | .str (.stray _) => .error .strayString
  | _ => .error .notInteger

def atLeast (least : Nat) : Reader { n : Nat // least ≤ n } := fun v => do
  let n ← integer v
  if h : least ≤ n.toNat ∧ 0 ≤ n then .ok ⟨n.toNat, h.1⟩ else .error (.below least)

def trueWords : List String := ["1", "true", "t", "yes", "y", "on"]

def falseWords : List String := ["0", "false", "f", "no", "n", "off"]

def truthOf (n : Int) : Except Complaint Bool :=
  if n = 0 then .ok false else if n = 1 then .ok true else .error .unreadableBoolean

/-- The words for true and false count in any case, but not with white space around them; of numbers,
those that are out of range or have a fraction are not even looked at. -/
def boolean : Reader Bool
  | .bool b => .ok b
  | .int n =>
    if -(wholeLimit : Int) ≤ n ∧ n < wholeLimit then truthOf n else .error .notBoolean
  | .float x =>
    match wholeFloat x with
    | .ok n => truthOf n
    | .error _ => .error .notBoolean
  | .str (.text s) =>
    if trueWords.any (·.toList = Text.asciiLower s) then .ok true
    else if falseWords.any (·.toList = Text.asciiLower s) then .ok false
    else .error .unreadableBoolean
  | .str (.stray _) => .error .strayString
  | _ => .error .notBoolean

def string : Reader Literal
  | .str s => .ok s
  | _ => .error .notString

def text : Reader Text := fun v => do
  match ← string v with
  | .text s => .ok s
  | .stray _ => .error .strayString

def nonEmpty : Reader { s : Text // s ≠ [] } := fun v => do
  let s ← text v
  if h : s ≠ [] then .ok ⟨s, h⟩ else .error .emptyString

def dictionary : Reader Json.Fields
  | .object fields => .ok fields
  | _ => .error .notDictionary

def nullable (read : Reader α) : Reader (Option α)
  | .null => .ok none
  | v => (read v).map some

end Reader

namespace Json.Fields

def optional (fields : Fields) (name : String) (default : α) (read : Reader α) : Checked α :=
  match fields.get? (Literal.ofString name) with
  | none => .ok default
  | some v =>
    match read v with
    | .ok a => .ok a
    | .error c => .problem (some (Literal.ofString name)) v c

/-- A field that must be there; if it is not, the whole object is complained about. -/
def required (fields : Fields) (name : String) (read : Reader α) : Checked α :=
  match fields.get? (Literal.ofString name) with
  | none => .problem (some (Literal.ofString name)) (.object fields) .missing
  | some v =>
    match read v with
    | .ok a => .ok a
    | .error c => .problem (some (Literal.ofString name)) v c

def only (fields : Fields) (names : List String) : Checked Unit :=
  match fields.filter fun kv => !names.any fun n => Literal.ofString n = kv.1 with
  | [] => .ok ()
  | others => .problems (others.map fun kv => ⟨some kv.1, .unknownField, kv.2⟩)

end Json.Fields

end TextChunks
