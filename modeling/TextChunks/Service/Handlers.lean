import TextChunks.Service.Basic
import TextChunks.Service.Target

namespace TextChunks

def probeText : Text := "Readiness probe. Is the encoding loaded?".toList

def Tokenizer.probe (t : Tokenizer σ) : Call σ Bool := do
  return (← t.decode (← t.encode probeText)) = probeText

namespace Service

def probe (encoding : Text) : StateM Service (Except Failure Bool) := do
  match ← tokenizerFor (some encoding) with
  | .ok source => call source AnyTokenizer.tokenizer.probe
  | .error f => return .error f

/-- The outcome of a probe. Failures that the encoding may be blamed for are reported and answered; any
other one goes to the caller. -/
def healthOf : Except Failure Bool → StateM Service (Except Failure Health)
  | .ok true => return .ok .healthy
  | .ok false => return .ok .mismatch
  | .error f =>
    match f.kind with
    | .value | .key => do report .unknownEncoding; return .ok .unknownEncoding
    | .system => do report .loadFailed; return .ok .loadFailed
    | .other => return .error f

def ping (encoding : Text) : StateM Service (Except Failure Health) := do
  healthOf (← probe encoding)

def ready : Handler Reply := do
  match ← currentSettings with
  | .error _ => fail
  | .ok settings =>
    match ← onProfiles (Profiles.resolve (.ofText settings.profile) .null) with
    | .ok c =>
      match ← ping c.encoding with
      | .ok h => return .probed c.encoding h
      | .error _ => fail
    | .error e =>
      if e.isValueError then
        report .profileMissing
        return .unknownProfile
      else fail

def bodyOf (r : Request) : Except Reply (Option Json) :=
  match r.content with
  | .none => .ok none
  | .value v => .ok (some v)
  | .undecodable => .error .unreadable
  | .unreadable (.malformed f position _ _) => .error (.invalid [.malformed f position])
  | .unreadable _ => .error .unreadable

def readSplitRequest (r : Request) : Handler (SplitRequest × Settings) := do
  match bodyOf r with
  | .error reply => throw reply
  | .ok v =>
    match ← currentSettings with
    | .error _ => fail
    | .ok settings =>
      match SplitRequest.ofBody v with
      | .ok request => return (request, settings)
      | .error ps => throw (.invalid (ps.map .value))

/-- The name of the profile to use; the active name gives way to what the file marks as active. -/
def profileName (asked : Text) : Handler Json := do
  if Literal.text asked = Profiles.activeName then
    match ← onProfiles Profiles.active with
    | .ok v => return v
    | .error _ => fail
  else return .ofText asked

/-- The configuration of the profile with the request's values in it. A client is told about errors in
the profile's name and in the file, but not about those that come later. -/
def requestConfig (request : SplitRequest) (name : Json) : Handler Config := do
  match ← onProfiles (Profiles.resolve name .null) with
  | .error e => if e.isValueError then throw (.refused e.message) else fail
  | .ok base =>
    match ← onProfiles (Profiles.resolve name (request.inlined base)) with
    | .ok c => return c
    | .error _ => fail

/-- The records of a text, with reports of what was done; `none` if there is a failure. -/
def chunkRecords (source : Source) (c : Config) (document : Text) (text : Literal) :
    StateM Service (Option (List ChunkRecord)) := do
  let t := AnyTokenizer.tokenizer
  let masked := ((← get).current source).masked text
  match ← call source (t.segmentsOf c c.windowSize c.windowSize_pos masked.text) with
  | .error _ => return none
  | .ok segments =>
    reportIf (segments.any Segment.isTail) .capReached
    reportIf (!masked.text.blank) .textSplit
    match ← call source (t.recordsFrom c document masked 0 (c.chunks segments)) with
    | .error _ => return none
    | .ok records =>
      report .documentChunked
      return some records

def documentOf (request : SplitRequest) : StateM Service Text :=
  match request.document with
  | some d => return d.1
  | none => drawDocumentId

def splitReply (request : SplitRequest) (name : Json) (c : Config) : Handler Reply := do
  let document ← documentOf request
  match ← tokenizerFor (some c.encoding), name with
  | .ok source, .str profile =>
    match ← chunkRecords source c document request.text with
    | some records => return .split document profile records
    | none => fail
  | _, _ => fail

def split (r : Request) : Handler Reply := do
  let (request, settings) ← readSplitRequest r
  if settings.maxTextChars.1 < request.text.length then throw (.tooLong settings.maxTextChars.1)
  let name ← profileName (request.profileOr settings.profile)
  let c ← requestConfig request name
  splitReply request name c

inductive Route where
  | split
  | health
  | ready
  deriving DecidableEq

namespace Route

def all : List Route := [.split, .health, .ready]

def path : Route → String
  | .split => "/split"
  | .health => "/health"
  | .ready => "/ready"

def method : Route → String
  | .split => "POST"
  | .health => "GET"
  | .ready => "GET"

/-- The route of a path; slashes at its end do not count. -/
def ofPath? (path : Text) : Option Route :=
  let p := (path.reverse.dropWhile (· == '/')).reverse
  all.find? (·.path.toList = p)

def find? (target : Text) : Option Route := (Target.path target).toOption.bind ofPath?

end Route

def handle (r : Request) : Handler Reply := do
  match Route.find? r.target with
  | none => return .notFound
  | some route =>
    if route.method.toList ≠ r.method.upper then return .notAllowed
    match route with
    | .split => split r
    | .health => return .alive
    | .ready => ready

def replyOf : Except Reply Reply → Reply
  | .ok reply => reply
  | .error reply => reply

/-- A reply whose body cannot be sent is an error that no one expects. -/
def send (reply : Reply) : StateM Service Reply := do
  if reply.body.sendable then return reply
  report .unhandled
  return .failed

def answer (r : Request) : StateM Service Reply := do
  send (replyOf (← (handle r).run))

end Service

end TextChunks
