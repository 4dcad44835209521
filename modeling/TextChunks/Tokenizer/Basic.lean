import TextChunks.Text.Digits
import TextChunks.Text.Quoted

namespace TextChunks

inductive FailureKind where
  | value
  | key
  | system
  | other
  deriving DecidableEq, Inhabited

inductive LoadCause where
  | missingFile
  | unreachable
  | missingKey
  | crashed
  | unknownName
  deriving DecidableEq

/-- Why a call fails, or what is made of calls: a tokenizer fails, or a number or a string cannot be
written where its chunk is hashed. -/
inductive Failure where
  | load (cause : LoadCause) (name : Text)
  | unknownToken (id : Int)
  | noTokenId (id : Int)
  | noCharacter (code : Int)
  | noPiece (place : Int)
  | emptySlices
  | raised (kind : FailureKind) (label message : Text)
  | longNumber
  | noUtf8 (fault : Utf8Fault)
  deriving DecidableEq

namespace Failure

/-- Numbers of 32 bits, all that a character's code is looked up with. -/
def isCode (n : Int) : Bool := -0x80000000 ≤ n && n < 0x80000000

/-- Numbers of 64 bits, all that a place in a table and a token's id are looked up with. -/
def isIndex (n : Int) : Bool := -0x8000000000000000 ≤ n && n < 0x8000000000000000

def kind : Failure → FailureKind
  | .load .missingFile _ => .system
  | .load .unreachable _ => .system
  | .load .missingKey _ => .key
  | .load .crashed _ => .other
  | .load .unknownName _ => .value
  | .unknownToken _ => .key
  | .noTokenId _ => .other
  | .noCharacter code => if isCode code then .value else .other
  | .noPiece _ => .other
  | .emptySlices => .value
  | .raised kind _ _ => kind
  | .longNumber => .value
  | .noUtf8 _ => .value

def report : Failure → Text
  | .load .unknownName name => "Unknown encoding ".toList ++ name
  | .load _ name => "cannot load ".toList ++ name
  | .unknownToken id => "Invalid token for decoding: ".toList ++ Text.ofInt id
  | .noTokenId id =>
    if isIndex id then "out of range integral type conversion attempted".toList
    else "Python int too large to convert to C long".toList
  | .noCharacter code =>
    if isCode code then "chr() arg not in range(0x110000)".toList
    else "Python int too large to convert to C int".toList
  | .noPiece place =>
    if isIndex place then "list index out of range".toList
    else "cannot fit 'int' into an index-sized integer".toList
  | .emptySlices => "range() arg 3 must not be zero".toList
  | .raised _ _ message => message
  | .longNumber =>
    (s!"Exceeds the limit ({Text.maxDigits} digits) for integer string conversion; " ++
      "use sys.set_int_max_str_digits() to increase the limit").toList
  | .noUtf8 fault => fault.message

/-- A failure of the key family quotes its report. -/
def message (f : Failure) : Text :=
  if f.kind = .key then f.report.shown else f.report

end Failure

/-- A computation over the state of a tokenizer; a failure keeps the state that it leaves. -/
abbrev Call (σ : Type) := ExceptT Failure (StateM σ)

namespace Call

def ofExcept (e : Except Failure α) : Call σ α := ExceptT.mk (pure e)

def runIn (call : Call σ α) (s : σ) : Except Failure α × σ := (StateT.run (ExceptT.run call) s).run

def within (wrap : σ → τ) (s : σ) (call : Call σ α) : Call τ α :=
  ExceptT.mk fun _ => let (result, s') := call.runIn s; (result, wrap s')

end Call

structure Tokenizer (σ : Type) where
  encode : Text → Call σ (List Nat)
  decode : List Nat → Call σ Text

namespace Tokenizer

def ofFunctions (encode : Text → List Nat) (decode : List Nat → Text) : Tokenizer σ where
  encode s := pure (encode s)
  decode ts := pure (decode ts)

def count (t : Tokenizer σ) (s : Text) : Call σ Nat :=
  if s.isEmpty then pure 0 else return (← t.encode s).length

end Tokenizer

end TextChunks
