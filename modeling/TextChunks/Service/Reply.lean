import TextChunks.Record
import TextChunks.Service.Request

namespace TextChunks

inductive Health where
  | healthy
  | mismatch
  | unknownEncoding
  | loadFailed
  deriving DecidableEq

namespace Health

def code? : Health → Option String
  | .healthy => none
  | .mismatch => some "round_trip_mismatch"
  | .unknownEncoding => some "unknown_encoding"
  | .loadFailed => some "load_failed"

def isHealthy (h : Health) : Bool := h == .healthy

def toJson (h : Health) : Json :=
  .record (("ok", .bool h.isHealthy) ::
    match h.code? with
    | some code => [("error", .ofString code)]
    | none => [])

end Health

inductive ContentProblem where
  | malformed (f : Json.Fault) (position : Nat)
  | value (p : Problem)

namespace ContentProblem

def item (code : String) (place : List Json) (message : String) (input : Json)
    (context : List (String × Json)) : Json :=
  .record ([("type", .ofString code), ("loc", .array (.ofString "body" :: place)),
    ("msg", .ofString message), ("input", input)] ++
    if context.isEmpty then [] else [("ctx", .record context)])

def context : Complaint → List (String × Json)
  | .below least => [("ge", .int least)]
  | .above most => [("le", .int most)]
  | .emptyString => [("min_length", .int 1)]
  | _ => []

def toJson : ContentProblem → Json
  | .malformed f position =>
    item "json_invalid" [.int position] "JSON decode error" (.object [])
      [("error", .ofString f.message)]
  | .value p =>
    item p.complaint.code (p.field.toList.map .str) p.complaint.message p.input
      (context p.complaint)

end ContentProblem

inductive Reply where
  | split (document : Text) (profile : Literal) (records : List ChunkRecord)
  | alive
  | unknownProfile
  | probed (encoding : Text) (h : Health)
  | refused (message : Text)
  | unreadable
  | tooLong (most : Nat)
  | invalid (ps : List ContentProblem)
  | notFound
  | notAllowed
  | failed

namespace Reply

def status : Reply → Nat
  | .split .. => 200
  | .alive => 200
  | .unknownProfile => 503
  | .probed _ h => if h.isHealthy then 200 else 503
  | .refused _ => 400
  | .unreadable => 400
  | .tooLong _ => 413
  | .invalid _ => 422
  | .notFound => 404
  | .notAllowed => 405
  | .failed => 500

def detail (s : Text) : Json := .record [("detail", .ofText s)]

def readiness (ok : Bool) (encoding : Json) (error : Option String) : Json :=
  .record
    [("status", .ofString (if ok then "ok" else "degraded")),
      ("tokenizer", .record
        [("ok", .bool ok), ("encoding", encoding), ("error", .ofOption .ofString error)])]

def body : Reply → Json
  | .split document profile records =>
    .record
      [("document_id", .ofText document), ("profile", .str profile),
        ("total_chunks", .int records.length), ("chunks", .array (records.map ChunkRecord.toJson))]
  | .alive => .record [("status", .ofString "ok")]
  | .unknownProfile => readiness false .null (some "unknown_profile")
  | .probed encoding h => readiness h.isHealthy (.ofText encoding) h.code?
  | .refused message => detail message
  | .unreadable => detail "There was an error parsing the body".toList
  | .tooLong most => detail s!"Text exceeds {most} characters".toList
  | .invalid ps => .record [("detail", .array (ps.map ContentProblem.toJson))]
  | .notFound => detail "Not Found".toList
  | .notAllowed => detail "Method Not Allowed".toList
  | .failed => detail "An internal error occurred.".toList

def line (r : Reply) : Text := Text.ofNat r.status ++ ' ' :: r.body.write

end Reply

end TextChunks
