import TextChunks.Text.Mask
import TextChunks.Tokenizer.Encodings

namespace TextChunks

def Text.charOf? (n : Nat) : Option Char := if n.isValidChar then some (Char.ofNat n) else none

namespace Tokenizer

def codes (s : Text) : List Nat := s.map Char.toNat

def ofCodes : List Nat → Except Failure Text
  | [] => .ok []
  | n :: rest =>
    match Text.charOf? n with
    | some c => (ofCodes rest).map (c :: ·)
    | none => .error (.noCharacter n)

def chars : Tokenizer σ where
  encode s := pure (codes s)
  decode ts := Call.ofExcept (ofCodes ts)

/-- Every character gives its token `n` times, and every token gives its character. -/
def stutter (n : Nat) : Tokenizer σ where
  encode s := pure (s.flatMap fun c => List.replicate n c.toNat)
  decode ts := Call.ofExcept (ofCodes ts)

/-- Drops every `#` of a text, and gives a `#` for every `@`. -/
def vanish : Tokenizer σ where
  encode s := pure (codes (s.filter (· != '#')))
  decode ts := Call.ofExcept ((ofCodes ts).map fun s => s.map fun c => if c = '@' then '#' else c)

end Tokenizer

inductive Method where
  | encode
  | decode
  deriving DecidableEq

/-- A tokenizer of single characters that fails: the call number `start` of `method`, counted from 1,
and all later ones. -/
structure Breaking where
  method : Method
  start : Nat
  failure : Failure
  calls : Nat := 0
  deriving DecidableEq

namespace Breaking

def count (m : Method) : Call Breaking Unit := do
  if (← get).method = m then
    modify fun b => { b with calls := b.calls + 1 }
    if (← get).start ≤ (← get).calls then throw (← get).failure

def tokenizer : Tokenizer Breaking where
  encode s := do count .encode; Tokenizer.chars.encode s
  decode ts := do count .decode; Tokenizer.chars.decode ts

end Breaking

/-- What a source of tokenizers can be asked: for the tokenizer of an encoding, and then for what that
tokenizer makes of a text or of tokens. -/
inductive Question where
  | provide (request : Option Text)
  | encode (s : Text)
  | decode (ts : List Nat)

/-- A source of tokenizers of which no more is known than its answers. Each may depend on all questions
before it. -/
structure Oracle where
  provide : List Question → Option Text → Except Failure Unit
  encode : List Question → Text → Except Failure (List Nat)
  decode : List Question → List Nat → Except Failure Text

namespace Oracle

def answer (q : Question) (reply : List Question → Except Failure α) : Call (List Question) α :=
  ExceptT.mk fun asked => (reply asked, asked ++ [q])

def tokenizer (o : Oracle) : Tokenizer (List Question) where
  encode s := answer (.encode s) (o.encode · s)
  decode ts := answer (.decode ts) (o.decode · ts)

end Oracle

/-- A tokenizer of any kind, in the state that its calls have left it. -/
inductive AnyTokenizer where
  | chars
  | words (seen : PieceTable)
  | slices (n : Int) (seen : PieceTable)
  | stutter (n : Nat)
  | vanish
  | breaking (b : Breaking)
  | loaded (l : LoadedEncoding)
  | oracle (o : Oracle) (asked : List Question)

namespace AnyTokenizer

def slicesTokenizer (n : Int) : Tokenizer PieceTable :=
  let t := PieceTable.tokenizer fun s => if 0 < n then Text.slices n.toNat s else []
  { t with encode := fun s => if n = 0 then throw .emptySlices else t.encode s }

def encode (s : Text) : Call AnyTokenizer (List Nat) := do
  match ← get with
  | .chars => Tokenizer.chars.encode s
  | .words seen => Call.within .words seen ((PieceTable.tokenizer Text.words).encode s)
  | .slices n seen => Call.within (.slices n) seen ((slicesTokenizer n).encode s)
  | .stutter n => (Tokenizer.stutter n).encode s
  | .vanish => Tokenizer.vanish.encode s
  | .breaking b => Call.within .breaking b (Breaking.tokenizer.encode s)
  | .loaded l => l.encoding.tokenizer.encode s
  | .oracle o asked => Call.within (.oracle o) asked (o.tokenizer.encode s)

def decode (ts : List Nat) : Call AnyTokenizer Text := do
  match ← get with
  | .chars => Tokenizer.chars.decode ts
  | .words seen => Call.within .words seen ((PieceTable.tokenizer Text.words).decode ts)
  | .slices n seen => Call.within (.slices n) seen ((slicesTokenizer n).decode ts)
  | .stutter n => (Tokenizer.stutter n).decode ts
  | .vanish => Tokenizer.vanish.decode ts
  | .breaking b => Call.within .breaking b (Breaking.tokenizer.decode ts)
  | .loaded l => l.encoding.tokenizer.decode ts
  | .oracle o asked => Call.within (.oracle o) asked (o.tokenizer.decode ts)

/-- Asks for the tokenizer of an encoding. An oracle is told which one; the other kinds take the place of
every encoding. -/
def provide (request : Option Text) : Call AnyTokenizer Unit := do
  match ← get with
  | .oracle o asked =>
    Call.within (.oracle o) asked (Oracle.answer (.provide request) (o.provide · request))
  | _ => pure ()

/-- The token that a whole number stands for: a place in a table of pieces, an id of 32 bits that an
encoding may know, any number that is not below zero for an oracle, or else the code of a character. -/
def tokenOf (t : AnyTokenizer) (id : Int) : Except Failure Nat :=
  match t with
  | .words seen => seen.place id
  | .slices _ seen => seen.place id
  | .loaded _ => if 0 ≤ id ∧ id < 0x100000000 then .ok id.toNat else .error (.noTokenId id)
  | .oracle .. => if 0 ≤ id then .ok id.toNat else .error (.noTokenId id)
  | _ => if 0 ≤ id ∧ id < 0x110000 then .ok id.toNat else .error (.noCharacter id)

/-- Decodes whole numbers, of which the first that stands for no token fails the call. A call that has to
fail does so before its numbers are looked at, as one without any numbers does. -/
def decodeIds (ids : List Int) : Call AnyTokenizer Text := do
  match ids.mapM (← get).tokenOf with
  | .ok ts => decode ts
  | .error f =>
    let _ ← decode []
    throw f

def tokenizer : Tokenizer AnyTokenizer := ⟨encode, decode⟩

/-- A string as a tokenizer takes it: an encoding replaces its surrogates, other tokenizers keep them. -/
def masked : AnyTokenizer → Literal → Masked
  | .loaded _, s => ⟨s.replaced, none⟩
  | _, s => .ofLiteral s

end AnyTokenizer

end TextChunks
