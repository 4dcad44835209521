import TextChunks.Text.Case
import TextChunks.Text.Quoted

namespace TextChunks.Log

def debug : Int := 10

def info : Int := 20

def warning : Int := 30

def error : Int := 40

def critical : Int := 50

def levelNames : List (String × Int) :=
  [("DEBUG", debug), ("INFO", info), ("WARNING", warning), ("WARN", warning), ("ERROR", error),
    ("CRITICAL", critical), ("FATAL", critical), ("NOTSET", 0)]

def nameOf (level : Int) : Text :=
  if level = 0 then "NOTSET".toList
  else if level = debug then "DEBUG".toList
  else if level = info then "INFO".toList
  else if level = warning then "WARNING".toList
  else if level = error then "ERROR".toList
  else if level = critical then "CRITICAL".toList
  else "Level ".toList ++ Text.ofInt level

/-- Why a name asks for no level: what it stands for is a text, or not even that. -/
inductive SetupError where
  | notALevel (value : Text)
  | notAName (shown : Text)
  deriving DecidableEq

def SetupError.message : SetupError → Text
  | .notALevel value => "Unknown level: ".toList ++ value.shown
  | .notAName shown => "Level not an integer or a valid string: ".toList ++ shown

/-- The names that are taken, but not by a level: they stand for the form of a line that has no time, and
for the ways in which such a form can be written. -/
def reserved : List (String × SetupError) :=
  [("BASIC_FORMAT", .notALevel "%(levelname)s:%(name)s:%(message)s".toList),
    ("_STYLES", .notAName (
      "\x7b'%': (<class 'logging.PercentStyle'>, '%(levelname)s:%(name)s:%(message)s'), ".toList ++
      "'\x7b': (<class 'logging.StrFormatStyle'>, ".toList ++
      "'\x7blevelname\x7d:\x7bname\x7d:\x7bmessage\x7d'), ".toList ++
      "'$': (<class 'logging.StringTemplateStyle'>, ".toList ++
      "'$\x7blevelname\x7d:$\x7bname\x7d:$\x7bmessage\x7d')\x7d".toList))]

/-- The level of a name in any case; names that mean nothing ask for `INFO`. -/
def levelOf (name : Text) : Except SetupError Int :=
  let name := name.upper
  match reserved.find? (·.1.toList = name) with
  | some (_, e) => .error e
  | none =>
    match levelNames.find? (·.1.toList = name) with
    | some (_, level) => .ok level
    | none => .ok info

end TextChunks.Log
