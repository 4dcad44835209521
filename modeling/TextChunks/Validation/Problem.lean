import TextChunks.Text.Quoted

namespace TextChunks

inductive Complaint where
  | missing
  | notInteger
  | fractional
  | unreadableInteger
  | tooManyDigits
  | notFinite
  | notBoolean
  | unreadableBoolean
  | notString
  | strayString
  | emptyString
  | notDictionary
  | notModel (name : String)
  | noFields
  | notListed (choices : String)
  | unknownField
  | frozen
  | below (least : Int)
  | above (most : Int)
  deriving DecidableEq

namespace Complaint

def code : Complaint → String
  | .missing => "missing"
  | .notInteger => "int_type"
  | .fractional => "int_from_float"
  | .unreadableInteger => "int_parsing"
  | .tooManyDigits => "int_parsing_size"
  | .notFinite => "finite_number"
  | .notBoolean => "bool_type"
  | .unreadableBoolean => "bool_parsing"
  | .notString => "string_type"
  | .strayString => "string_unicode"
  | .emptyString => "string_too_short"
  | .notDictionary => "dict_type"
  | .notModel _ => "model_type"
  | .noFields => "model_attributes_type"
  | .notListed _ => "literal_error"
  | .unknownField => "extra_forbidden"
  | .frozen => "frozen_instance"
  | .below _ => "greater_than_equal"
  | .above _ => "less_than_equal"

def message : Complaint → String
  | .missing => "Field required"
  | .notInteger => "Input should be a valid integer"
  | .fractional => "Input should be a valid integer, got a number with a fractional part"
  | .unreadableInteger => "Input should be a valid integer, unable to parse string as an integer"
  | .tooManyDigits => "Unable to parse input string as an integer, exceeded maximum size"
  | .notFinite => "Input should be a finite number"
  | .notBoolean => "Input should be a valid boolean"
  | .unreadableBoolean => "Input should be a valid boolean, unable to interpret input"
  | .notString => "Input should be a valid string"
  | .strayString => "Input should be a valid string, unable to parse raw data as a unicode string"
  | .emptyString => "String should have at least 1 character"
  | .notDictionary => "Input should be a valid dictionary"
  | .notModel name => s!"Input should be a valid dictionary or instance of {name}"
  | .noFields => "Input should be a valid dictionary or object to extract fields from"
  | .notListed choices => s!"Input should be {choices}"
  | .unknownField => "Extra inputs are not permitted"
  | .frozen => "Instance is frozen"
  | .below least => s!"Input should be greater than or equal to {least}"
  | .above most => s!"Input should be less than or equal to {most}"

end Complaint

/-- A complaint about a field, or about a value as a whole, and the value complained about. -/
structure Problem where
  field : Option Literal
  complaint : Complaint
  input : Json

namespace Problem

def explanations : String := "https://errors.pydantic.dev/2.14/v/"

/-- The field on a line of its own; a name that holds a point is marked off. -/
def place (p : Problem) : Text :=
  match p.field with
  | none => []
  | some l =>
    let name := l.codePoints.filterMap CodePoint.char?
    '\n' :: if name.contains '.' then "`".toList ++ name ++ "`".toList else name

def report (p : Problem) : Text :=
  p.place ++ s!"\n  {p.complaint.message} [type={p.complaint.code}, input_value=".toList ++
    p.input.shown.abridged ++ s!", input_type={p.input.typeName}]".toList ++
    s!"\n    For further information visit {explanations}{p.complaint.code}".toList

def summary (model : String) (ps : List Problem) : Text :=
  let noun := if ps.length = 1 then "error" else "errors"
  s!"{ps.length} validation {noun} for {model}".toList ++ ps.flatMap report

end Problem

inductive Checked (α : Type) where
  | ok (a : α)
  | problems (ps : List Problem)

namespace Checked

def apply : Checked (α → β) → Checked α → Checked β
  | .ok f, .ok a => .ok (f a)
  | .ok _, .problems ps => .problems ps
  | .problems ps, .ok _ => .problems ps
  | .problems ps, .problems qs => .problems (ps ++ qs)

instance : Applicative Checked where
  pure := .ok
  seq f a := f.apply (a ())

def toExcept : Checked α → Except (List Problem) α
  | .ok a => .ok a
  | .problems ps => .error ps

def problem (field : Option Literal) (input : Json) (c : Complaint) : Checked α :=
  .problems [⟨field, c, input⟩]

end Checked

end TextChunks
