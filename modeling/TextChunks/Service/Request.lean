import TextChunks.Config.Basic
import TextChunks.Json.Encoded

namespace TextChunks

structure Request where
  method : Text := "POST".toList
  target : Text := "/split".toList
  contentType : Option Text := none
  body : Text := []

namespace Request

/-- A request on one line: the method, the target and the body, with a space between them. -/
def ofLine (line : Text) : Request :=
  let method := line.takeWhile (· != ' ')
  let rest := line.drop (method.length + 1)
  let target := rest.takeWhile (· != ' ')
  { method := method, target := target, body := rest.drop (target.length + 1) }

def mediaType (contentType : Text) : Text :=
  Text.asciiLower (Text.strip (contentType.takeWhile (· != ';')))

def isJsonType (contentType : Text) : Bool :=
  let t := mediaType contentType
  let parts := Text.separate ['/'] t
  match parts with
  | [main, sub] =>
    main == "application".toList && (sub == "json".toList || "+json".toList.isSuffixOf sub)
  | _ => false

/-- What a request carries: nothing, a value, a body that is no JSON, or one that is not even a text. -/
inductive Content where
  | none
  | value (v : Json)
  | unreadable (e : Json.ReadError)
  | undecodable

/-- The content of a request. A body that comes without a content type is read as JSON, one of another
type is a text. -/
def content (r : Request) : Content :=
  if r.body.isEmpty then .none
  else if r.contentType.all isJsonType then
    match Json.readEncoded r.body with
    | some (.ok v) => .value v
    | some (.error e) => .unreadable e
    | none => .undecodable
  else .value (.ofText r.body)

end Request

structure SplitRequest where
  text : Literal
  document : Option { s : Text // s ≠ [] }
  profile : Option { s : Text // s ≠ [] }
  windowSize : Option { n : Nat // 1 ≤ n }
  minCut : Option { n : Nat // 0 ≤ n }
  minLength : Option { n : Nat // 0 ≤ n }
  maxWindows : Option { n : Nat // 1 ≤ n }
  keepLines : Option Bool

namespace SplitRequest

def ofFields (f : Json.Fields) : Checked SplitRequest :=
  SplitRequest.mk
  <$> f.required "text" Reader.string
  <*> f.optional "document_id" none (Reader.nullable Reader.nonEmpty)
  <*> f.optional "profile" none (Reader.nullable Reader.nonEmpty)
  <*> f.optional "chunk_size" none (Reader.nullable (Reader.atLeast 1))
  <*> f.optional "min_chunk_size_chars" none (Reader.nullable (Reader.atLeast 0))
  <*> f.optional "min_chunk_length_to_embed" none (Reader.nullable (Reader.atLeast 0))
  <*> f.optional "max_num_chunks" none (Reader.nullable (Reader.atLeast 1))
  <*> f.optional "keep_separator" none (Reader.nullable Reader.boolean)

def ofJson : Json → Except (List Problem) SplitRequest
  | .object f => (ofFields f).toExcept
  | v => .error [⟨none, .noFields, v⟩]

def ofBody : Option Json → Except (List Problem) SplitRequest
  | some v => ofJson v
  | none => .error [⟨none, .missing, .null⟩]

def profileOr (r : SplitRequest) (configured : Text) : Text :=
  match r.profile with
  | some p => p.1
  | none => configured

def overrides (r : SplitRequest) : Json.Fields :=
  [("chunk_size", r.windowSize.map fun n => Json.int n.1),
    ("min_chunk_size_chars", r.minCut.map fun n => .int n.1),
    ("min_chunk_length_to_embed", r.minLength.map fun n => .int n.1),
    ("max_num_chunks", r.maxWindows.map fun n => .int n.1),
    ("keep_separator", r.keepLines.map .bool)].filterMap fun kv =>
      kv.2.map fun v => (Literal.ofString kv.1, v)

/-- The fields of a configuration with the request's in their place; null if the request sets none. -/
def inlined (r : SplitRequest) (base : Config) : Json :=
  if r.overrides.isEmpty then .null
  else .object (Dictionary.putAll
    (base.fields.map fun kv => (Literal.ofString kv.1, kv.2)) r.overrides)

end SplitRequest

end TextChunks
