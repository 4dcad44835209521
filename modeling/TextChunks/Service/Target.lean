import TextChunks.Digest.Hex
import TextChunks.Service.Address
import TextChunks.Text.Case
import TextChunks.Text.Quoted

namespace TextChunks.Target

inductive Fault where
  | tooLong
  | unprintable (c : Char) (place : Nat)
  | port (text : Text)
  | slashesFirst
  | colonFirst
  | scheme (name : Text)
  | portOfBrackets (text : Text)
  deriving DecidableEq

def Fault.message : Fault → Text
  | .tooLong => "URL too long".toList
  | .unprintable c place =>
    "Invalid non-printable ASCII character in URL, ".toList ++ Text.shown [c] ++
      " at position ".toList ++ Text.ofInt place ++ ['.']
  | .port text => "Invalid port: ".toList ++ text.shown
  | .slashesFirst => "Relative URLs cannot have a path starting with '//'".toList
  | .colonFirst => "Relative URLs cannot have a path starting with ':'".toList
  | .scheme name => name.shown
  | .portOfBrackets text => "invalid literal for int() with base 10: ".toList ++ text.shown

def maxLength : Nat := 65536

def isUnprintable (c : Char) : Bool := c.toNat < 0x20 || c.toNat == 0x7F

/-- Ports are numbers: digits, also with a sign, with single underscores between them and with blanks
around them. -/
def isPort (s : Text) : Bool :=
  let digits := match s.strip with
    | '+' :: rest => rest
    | '-' :: rest => rest
    | rest => rest
  (Text.separate ['_'] digits).all fun part => !part.isEmpty && part.all Char.isDigit

def schemes : List String := ["http", "https", "ws", "wss"]

def textFault? (s : Text) : Option Fault :=
  if maxLength < s.length then some .tooLong
  else (s.find? isUnprintable).map fun c => .unprintable c (s.idxOf c)

/-- What is wrong with the parts of an address. A bare path cannot start in a way that would make something
else of it. -/
def addressFault? (a : Address) : Option Fault :=
  if !a.port.isEmpty && !isPort a.port then some (.port a.port)
  else
    match a.isBare, a.path with
    | true, '/' :: '/' :: _ => some .slashesFirst
    | true, ':' :: _ => some .colonFirst
    | _, _ => none

/-- What is wrong with an absolute address: its scheme, or a host in brackets, in which a colon is taken for
the one before the port. -/
def absoluteFault? (a : Address) : Option Fault :=
  let scheme := Text.asciiLower a.scheme
  if !a.isAbsolute then none
  else if !schemes.any (·.toList = scheme) then some (.scheme scheme)
  else
    match a.host.dropWhile (· != ':') with
    | _ :: rest => some (.portOfBrackets rest)
    | [] => none

def fault? (target : Text) : Option Fault :=
  let a := Address.ofText target
  (textFault? target).or ((addressFault? a).or (absoluteFault? a))

/-- The parts of a path once `.` and `..` are carried out, the last one first; nothing is above the root. -/
def step (parts : List Text) (part : Text) : List Text :=
  if part = ['.'] then parts
  else if part = ['.', '.'] then if parts = [[]] then parts else parts.drop 1
  else part :: parts

def resolveDots (path : Text) : Text :=
  ['/'].intercalate ((Text.separate ['/'] path).foldl step []).reverse

def escapedBytes : Text → Bytes
  | [] => []
  | '%' :: a :: b :: rest =>
    match Hex.value? a, Hex.value? b with
    | some x, some y => (x * 16 + y).toUInt8 :: escapedBytes rest
    | _, _ => Text.charBytes '%' ++ escapedBytes (a :: b :: rest)
  | c :: rest => Text.charBytes c ++ escapedBytes rest

def unescape (s : Text) : Text := (escapedBytes s).toText

/-- The path of an address, without escapes replaced. Beside a scheme or an authority it is resolved for
itself; one that is not absolute is then resolved below the root, whatever slashes it starts with. -/
def resolved (a : Address) : Text :=
  let own := if a.isBare then a.path else resolveDots a.path
  if a.isAbsolute then own else resolveDots ('/' :: own.dropWhile (· == '/'))

/-- The path of a target. Escapes are replaced twice: a client that passes a path on replaces them once,
and the service once more. -/
def path (target : Text) : Except Fault Text :=
  match fault? target with
  | some f => .error f
  | none => .ok (unescape (unescape (resolved (.ofText target))))

end TextChunks.Target
