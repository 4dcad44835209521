import TextChunks.Config.Basic
import TextChunks.Json.Reader

namespace TextChunks

inductive ProfileError where
  | unreadable (e : Json.ReadError)
  | notObject (v : Json)
  | profilesNotObject (v : Json)
  | invalid (ps : List Problem)
  | unknown (name : Text)
  | unusableName (v : Json)

namespace ProfileError

/-- Whether the error lies in the value that was given or read, and not in its type. -/
def isValueError : ProfileError → Bool
  | .unreadable (.depth _) => false
  | .unreadable _ => true
  | .invalid _ => true
  | .unknown _ => true
  | .notObject _ => false
  | .profilesNotObject _ => false
  | .unusableName _ => false

def message : ProfileError → Text
  | .unreadable e => e.message.toList
  | .notObject v => s!"'{v.typeName}' object has no attribute 'get'".toList
  | .profilesNotObject v => s!"'{v.typeName}' object has no attribute 'items'".toList
  | .invalid ps => Problem.summary "ChunkingConfig" ps
  | .unknown name => "Unknown chunking profile: ".toList ++ name
  | .unusableName v => s!"unhashable type: '{v.typeName}'".toList

end ProfileError

structure Profiles where
  file : Text
  raw : Option Json := none
  loaded : Option (Dictionary Literal Config) := none

namespace Profiles

abbrev Access := ExceptT ProfileError (StateM Profiles)

def Access.runIn (a : Access α) (p : Profiles) : Except ProfileError α × Profiles :=
  (StateT.run (ExceptT.run a) p).run

def standard : Json :=
  .record
    [("active", .ofString "default"),
      ("profiles", .record
        [("default", Config.toJson default), ("compact", Config.compact.toJson),
          ("large", Config.large.toJson)])]

def new : Profiles := { file := Json.write standard }

def write (p : Profiles) (file : Text) : Profiles := { p with file := file }

def reload (p : Profiles) : Profiles := { file := p.file }

def activeName : Literal := "active"

def readFile (file : Text) : Except Json.ReadError Json :=
  match Text.unifyLines file with
  | '\uFEFF' :: _ => .error (.malformed .byteOrderMark 0 1 1)
  | s => Json.read s

/-- The content of the file, as it was when it was first read. -/
def content : Access Json := do
  match (← get).raw with
  | some v => return v
  | none =>
    match readFile (← get).file with
    | .ok v => modify fun p => { p with raw := some v }; return v
    | .error e => throw (.unreadable e)

def contentFields : Access Json.Fields := do
  match ← content with
  | .object fields => return fields
  | v => throw (.notObject v)

def validate : Json.Fields → Except ProfileError (Dictionary Literal Config)
  | [] => .ok []
  | (name, v) :: rest =>
    match Config.ofJson v with
    | .error ps => .error (.invalid ps)
    | .ok c =>
      match validate rest with
      | .error e => .error e
      | .ok d => .ok ((name, c) :: d)

def ofContent (fields : Json.Fields) : Except ProfileError (Dictionary Literal Config) :=
  match (fields.get? "profiles").getD (.object []) with
  | .object profiles => validate profiles
  | v => .error (.profilesNotObject v)

def load : Access (Dictionary Literal Config) := do
  match (← get).loaded with
  | some d => return d
  | none =>
    match ofContent (← contentFields) with
    | .ok d => modify fun p => { p with loaded := some d }; return d
    | .error e => throw e

/-- The value that marks the active profile; any value can stand there. -/
def active : Access Json := do
  return ((← contentFields).get? activeName).getD (.ofString "default")

/-- The profile of a name. Values other than strings name no profile, and collections cannot even be
looked up. -/
def find (name : Json) : Access (Option Config) := do
  let d ← load
  match name with
  | .str l => return d.get? l
  | .array _ => throw (.unusableName name)
  | .object _ => throw (.unusableName name)
  | _ => return none

def resolveName (name : Json) : Access Config := do
  let name ← match name with
    | .str l => if l = activeName then active else pure name
    | _ => pure name
  match ← find name with
  | some c => return c
  | none => throw (.unknown name.shown)

/-- The configuration given inline, if there is anything in it; else that of the named profile. -/
def resolve (name : Json) (inlined : Json) : Access Config :=
  if inlined.isFalsy then resolveName name
  else match Config.ofJson inlined with
    | .ok c => return c
    | .error ps => throw (.invalid ps)

end Profiles

end TextChunks
