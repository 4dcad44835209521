import TextChunks.Dictionary
import TextChunks.Log.Level
import TextChunks.Log.Timestamp

namespace TextChunks.Log

structure Record where
  logger : Text
  level : Int
  message : Text

namespace Record

def line (r : Record) : Text :=
  nameOf r.level ++ " | ".toList ++ r.logger ++ " | ".toList ++ r.message

def stamped? (seconds : Option Int) (r : Record) : Option Text := do
  return (← timestamp? (← seconds)) ++ " | ".toList ++ r.line ++ ['\n']

end Record

structure Handler where
  level : Int
  writes : Bool
  deriving DecidableEq

namespace Handler

/-- The handler that is there before any set-up. -/
def silent : Handler := ⟨0, false⟩

def covers (h : Handler) (level : Int) : Bool := h.writes && h.level ≤ level

end Handler

/-- The level of the root logger, its handlers, the levels of loggers that have one of their own, and what
each logger that was asked has answered for a level. -/
structure Setup where
  root : Int := warning
  handlers : List Handler := [.silent]
  own : Dictionary Text Int := []
  asked : Dictionary Text (Dictionary Int Bool) := []
  deriving DecidableEq

def accessLogger : Text := "uvicorn.access".toList

namespace Setup

/-- One handler, of the level that the name asks for, takes the place of all others. -/
def configure (s : Setup) (levelName : Text) : Except SetupError Setup :=
  match levelOf levelName with
  | .ok level =>
    .ok { root := level, handlers := [⟨level, true⟩], own := s.own.put accessLogger warning,
          asked := s.asked.map fun kv => (kv.1, []) }
  | .error e => .error e

def isRoot (logger : Text) : Bool := logger.isEmpty || logger == "root".toList

def isKnown (s : Setup) (logger : Text) : Bool :=
  (s.own.get? logger).isSome || (s.asked.get? logger).isSome

/-- The level that a logger takes from its ancestors, from its name in reverse. Its parent is the nearest
known one of the names that end before a point; the character in front of a point is passed over in the
search for the next one. -/
def inherited (s : Setup) : Text → Int
  | '.' :: c :: rest =>
    let parent := (c :: rest).reverse
    if s.isKnown parent then (s.own.get? parent).getD (inherited s (c :: rest))
    else inherited s rest
  | _ :: rest => inherited s rest
  | [] => s.root

def effective (s : Setup) (logger : Text) : Int :=
  if isRoot logger then s.root
  else (s.own.get? logger).getD (s.inherited logger.reverse)

def enabled (s : Setup) (logger : Text) (level : Int) : Bool :=
  0 < level && s.effective logger ≤ level

/-- Asks a logger whether records of a level get through. It keeps to what it said before, even where it
has a nearer parent since. -/
def ask (s : Setup) (logger : Text) (level : Int) : Bool × Setup :=
  let said : Dictionary Int Bool := (s.asked.get? logger).getD []
  let answer := (said.get? level).getD (s.enabled logger level)
  (answer, { s with asked := s.asked.put logger (said.put level answer) })

def output (s : Setup) (seconds : Option Int) (r : Record) : Text × Setup :=
  let (enabled, s) := s.ask r.logger r.level
  let written :=
    if enabled then
      (s.handlers.filter (·.covers r.level)).flatMap fun _ => (r.stamped? seconds).getD []
    else []
  (written, s)

end Setup

end TextChunks.Log
