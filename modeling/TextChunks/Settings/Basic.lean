import TextChunks.Settings.DotEnv
import TextChunks.Validation.Reader

namespace TextChunks

inductive Stage where
  | development
  | staging
  | production
  deriving DecidableEq

namespace Stage

def name : Stage → String
  | .development => "development"
  | .staging => "staging"
  | .production => "production"

def all : List Stage := [.development, .staging, .production]

def reader : Reader Stage := fun v =>
  let found := match v with
    | .str (.text s) => all.find? (·.name.toList = s)
    | _ => none
  match found with
  | some stage => .ok stage
  | none => .error (.notListed "'development', 'staging' or 'production'")

end Stage

abbrev Port := { n : Nat // 1 ≤ n ∧ n ≤ 65535 }

def Port.reader : Reader Port := fun v => do
  let n ← Reader.atLeast 1 v
  if h : n.1 ≤ 65535 then .ok ⟨n.1, n.2, h⟩ else .error (.above 65535)

structure Settings where
  appName : Text
  stage : Stage
  debug : Bool
  logLevel : Text
  host : Text
  port : Port
  profile : Text
  maxTextChars : { n : Nat // 1 ≤ n }
  deriving DecidableEq

namespace Settings

def toJson (s : Settings) : Json :=
  .record
    [("app_name", .ofText s.appName), ("environment", .ofString s.stage.name),
      ("debug", .bool s.debug), ("log_level", .ofText s.logLevel), ("host", .ofText s.host),
      ("port", .int s.port.1), ("chunking_profile", .ofText s.profile),
      ("max_text_chars", .int s.maxTextChars.1)]

def standard : Settings where
  appName := "token-splitter".toList
  stage := .development
  debug := false
  logLevel := "INFO".toList
  host := "0.0.0.0".toList
  port := ⟨8000, by decide⟩
  profile := "active".toList
  maxTextChars := ⟨2000000, by decide⟩

def ofFields (f : Json.Fields) : Checked Settings :=
  Settings.mk
  <$> f.optional "app_name" standard.appName Reader.text
  <*> f.optional "environment" standard.stage Stage.reader
  <*> f.optional "debug" standard.debug Reader.boolean
  <*> f.optional "log_level" standard.logLevel Reader.text
  <*> f.optional "host" standard.host Reader.text
  <*> f.optional "port" standard.port Port.reader
  <*> f.optional "chunking_profile" standard.profile Reader.text
  <*> f.optional "max_text_chars" standard.maxTextChars (Reader.atLeast 1)

structure Sources where
  vars : Dictionary Text Text := []
  file : Option Text := none

namespace Sources

/-- The variables under their lower case names; of those that then agree the last counts. -/
def environment (s : Sources) : Dictionary Text Text :=
  Dictionary.putAll [] (s.vars.map fun kv => (Text.lower kv.1, kv.2))

def fileVariables (s : Sources) : Dictionary Text (Option Text) :=
  Dictionary.putAll [] ((DotEnv.read s.vars (s.file.getD [])).map fun kv => (Text.lower kv.1, kv.2))

def lookup (s : Sources) (name : Text) : Option Text :=
  match s.environment.get? name with
  | some v => some v
  | none => (s.fileVariables.get? name).join

def names : List String :=
  ["app_name", "environment", "debug", "log_level", "host", "port", "chunking_profile",
    "max_text_chars"]

def fields (s : Sources) : Json.Fields :=
  names.filterMap fun name =>
    (s.lookup name.toList).map fun v => (Literal.ofString name, Json.ofText v)

def load (s : Sources) : Except (List Problem) Settings := (ofFields s.fields).toExcept

end Sources

/-- The sources and the settings that were first loaded from them; a failure is not kept. -/
structure Cache where
  sources : Sources
  loaded : Option Settings := none

namespace Cache

def get (c : Cache) : Except (List Problem) Settings × Cache :=
  match c.loaded with
  | some s => (.ok s, c)
  | none =>
    match c.sources.load with
    | .ok s => (.ok s, { c with loaded := some s })
    | .error ps => (.error ps, c)

def clear (c : Cache) : Cache := { c with loaded := none }

end Cache

structure Launch where
  application : String
  host : Text
  port : Port
  reload : Bool

def launch (s : Settings) : Launch := ⟨"token_splitter.main:app", s.host, s.port, s.debug⟩

def version : String := "1.0.0"

end Settings

end TextChunks
