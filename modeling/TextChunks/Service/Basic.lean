import TextChunks.Log.Event
import TextChunks.Profiles
import TextChunks.Service.Reply
import TextChunks.Settings.Basic

namespace TextChunks

/-- `standIn` takes the place of every encoding; `drawn` document identifiers have been drawn, the first
ones of the sequence `ids` from place 1 on; `events` have been reported, the oldest first. -/
structure Service where
  settings : Settings.Cache
  profiles : Profiles
  encodings : EncodingCache := {}
  standIn : Option AnyTokenizer := none
  ids : Nat → Text := documentId
  drawn : Nat := 0
  log : Log.Setup := {}
  events : List Log.Event := []

namespace Service

abbrev Handler := ExceptT Reply (StateM Service)

def report (e : Log.Event) : StateM Service Unit :=
  modify fun s => { s with events := s.events ++ [e] }

def reportIf (condition : Bool) (e : Log.Event) : StateM Service Unit :=
  if condition then report e else pure ()

/-- An error that no one expects ends in a reply that does not say what it was. -/
def fail : Handler α := do
  report .unhandled
  throw .failed

def currentSettings : StateM Service (Except (List Problem) Settings) := do
  let (result, cache) := (← get).settings.get
  modify fun s => { s with settings := cache }
  return result

def onProfiles (access : Profiles.Access α) : StateM Service (Except ProfileError α) := do
  let (result, profiles) := access.runIn (← get).profiles
  modify fun s => { s with profiles := profiles }
  return result

def drawDocumentId : StateM Service Text := do
  modify fun s => { s with drawn := s.drawn + 1 }
  return (← get).ids (← get).drawn

inductive Source where
  | standIn
  | loaded (l : LoadedEncoding)

def current (s : Service) : Source → AnyTokenizer
  | .standIn => s.standIn.getD .chars
  | .loaded l => .loaded l

/-- The service after a call that left the tokenizer as it is here; encodings have no state. -/
def keep (s : Service) : Source → AnyTokenizer → Service
  | .standIn, t => { s with standIn := s.standIn.map fun _ => t }
  | .loaded _, _ => s

def call (source : Source) (c : Call AnyTokenizer α) : StateM Service (Except Failure α) := do
  let (result, t) := c.runIn ((← get).current source)
  modify (·.keep source t)
  return result

/-- The tokenizer for an encoding: the stand-in if there is one; every look at an encoding that is not
loaded is reported. -/
def tokenizerFor (request : Option Text) : StateM Service (Except Failure Source) := do
  let s ← get
  if s.standIn.isSome then
    return (← call .standIn (AnyTokenizer.provide request)).map fun _ => .standIn
  reportIf (s.encodings.loaded.get? request).isNone .loadingEncoding
  let (result, cache) := s.encodings.get request
  modify fun s => { s with encodings := cache }
  return result.map .loaded

inductive StartError where
  | settings (ps : List Problem)
  | log (e : Log.SetupError)

def StartError.message : StartError → Text
  | .settings ps => Problem.summary "Settings" ps
  | .log e => e.message

def configure (s : Service) : Except StartError Service :=
  let (result, s) := currentSettings.run s
  match result with
  | .error ps => .error (.settings ps)
  | .ok settings =>
    match s.log.configure settings.logLevel with
    | .error e => .error (.log e)
    | .ok log => .ok { s with log := log }

def start (s : Service) : Except StartError Service := do
  let s ← s.configure
  return ((report .starting).run s).2

def stop (s : Service) : Service := ((report .stopped).run s).2

def lines (s : Service) : List Text := s.log.lines s.events

end Service

end TextChunks
