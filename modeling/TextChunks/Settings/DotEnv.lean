import TextChunks.Settings.Reference

namespace TextChunks.DotEnv

def isLineEnd (c : Char) : Bool := c == '\n' || c == '\r'

def isGap (c : Char) : Bool := Text.isBlank c && !isLineEnd c

def skipGap (s : Text) : Text := s.dropWhile isGap

def skipExport (s : Text) : Text :=
  let word := "export".toList
  if word.isPrefixOf s && ((s.drop word.length).head?.any isGap) then skipGap (s.drop word.length)
  else s

/-- A name in single quotes, or one up to a blank, `=` or `#`; a comment has none. -/
def name? : Text → Option (Option Text × Text)
  | '#' :: rest => some (none, '#' :: rest)
  | '\'' :: rest =>
    let name := rest.takeWhile (· != '\'')
    match rest.drop name.length with
    | _ :: after => if name.isEmpty then none else some (some name, after)
    | [] => none
  | s =>
    let name := s.takeWhile fun c => c != '=' && c != '#' && !Text.isBlank c
    if name.isEmpty then none else some (some name, s.drop name.length)

def singleEscape? : Char → Option Char
  | '\\' => some '\\'
  | '\'' => some '\''
  | _ => none

def doubleEscape? : Char → Option Char
  | '\\' => some '\\'
  | '\'' => some '\''
  | '"' => some '"'
  | 'a' => some '\x07'
  | 'b' => some '\x08'
  | 'f' => some '\x0c'
  | 'n' => some '\n'
  | 'r' => some '\r'
  | 't' => some '\t'
  | 'v' => some '\x0b'
  | _ => none

/-- The text up to the quote, and what follows it. A backslash takes the character after it along. -/
def quoted? (quote : Char) : Text → Option (Text × Text)
  | [] => none
  | '\\' :: c :: rest => (quoted? quote rest).map fun r => ('\\' :: c :: r.1, r.2)
  | c :: rest =>
    if c = quote then some ([], rest) else (quoted? quote rest).map fun r => (c :: r.1, r.2)

def unescape (escape? : Char → Option Char) : Text → Text
  | '\\' :: c :: rest =>
    match escape? c with
    | some x => x :: unescape escape? rest
    | none => '\\' :: unescape escape? (c :: rest)
  | c :: rest => c :: unescape escape? rest
  | [] => []

def dropComment : Text → Text
  | [] => []
  | c :: rest =>
    if Text.isBlank c && (rest.dropWhile Text.isBlank).head? == some '#' then []
    else c :: dropComment rest

/-- The value after `=`, and what follows it; a quote that is not closed spoils the line. -/
def value? (s : Text) : Option (Text × Text) :=
  match skipGap s with
  | '\'' :: rest => (quoted? '\'' rest).map fun r => (unescape singleEscape? r.1, r.2)
  | '"' :: rest => (quoted? '"' rest).map fun r => (unescape doubleEscape? r.1, r.2)
  | _ =>
    let line := s.takeWhile (!isLineEnd ·)
    some (Text.strip (dropComment line), s.drop line.length)

def lineEnd? (s : Text) : Option Text :=
  let s := skipGap s
  let s := match s with
    | '#' :: _ => s.dropWhile (!isLineEnd ·)
    | _ => s
  match skipGap s with
  | [] => some []
  | '\r' :: '\n' :: rest => some rest
  | c :: rest => if isLineEnd c then some rest else none

/-- One binding: a name, if the line is no comment, with a value, if there is a `=`; or else the text
from where it cannot be one. -/
def binding (s : Text) : Except Text ((Option Text × Option Text) × Text) := do
  let start := skipExport s
  let (name, s) ← (name? start).getDM (.error start)
  let s := skipGap s
  let (value, s) ← match s with
    | '=' :: rest => ((value? rest).map fun r => (some r.1, r.2)).getDM (.error s)
    | _ => .ok (none, s)
  let s ← (lineEnd? s).getDM (.error s)
  return ((name, value), s)

/-- The bindings of the text; `fuel` bounds their number. -/
def bindings : Nat → Text → List (Text × Option Text)
  | 0, _ => []
  | fuel + 1, s =>
    match s.dropWhile Text.isBlank with
    | [] => []
    | s =>
      match binding s with
      | .ok ((some name, value), rest) => (name, value) :: bindings fuel rest
      | .ok ((none, _), rest) => bindings fuel rest
      | .error rest => bindings fuel (rest.dropWhile (!isLineEnd ·))

def skipMark : Text → Text
  | '\uFEFF' :: rest => rest
  | s => s

/-- The variables of a file, whose values can refer to those of the environment; a name without `=` has
no value, and the last binding of a name counts. -/
def read (environment : Dictionary Text Text) (file : Text) : Dictionary Text (Option Text) :=
  let s := Text.unifyLines (skipMark file)
  Reference.resolve environment (bindings (s.length + 1) s)

end TextChunks.DotEnv
