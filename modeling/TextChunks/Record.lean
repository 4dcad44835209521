import TextChunks.Identifier
import TextChunks.Splitter

namespace TextChunks

structure ChunkRecord where
  id : Text
  index : Nat
  text : Text
  tokenCount : Nat
  hash : Text
  deriving DecidableEq

def ChunkRecord.toJson (r : ChunkRecord) : Json :=
  .record [("chunk_id", .ofText r.id), ("chunk_index", .int r.index), ("chunk_text", .ofText r.text),
    ("chunk_token_count", .int r.tokenCount), ("chunk_hash", .ofText r.hash)]

namespace Tokenizer

/-- The records of chunks of a text that may be masked; the chunks are numbered from `index` on. Each is
hashed and named before its tokens are counted. -/
def recordsFrom (t : Tokenizer σ) (c : Config) (document : Literal) (masked : Masked) (index : Nat) :
    List Text → Call σ (List ChunkRecord)
  | [] => return []
  | chunk :: rest => do
    let name ← Call.ofExcept (nameOf c document index (masked.reveal chunk))
    let count ← t.count chunk
    return ⟨name.id, index, chunk, count, name.hash⟩ ::
      (← t.recordsFrom c document masked (index + 1) rest)

def records (t : Tokenizer σ) (c : Config) (document : Literal) (text : Option Masked) :
    Call σ (List ChunkRecord) := do
  match text with
  | none => return []
  | some masked => t.recordsFrom c document masked 0 (← t.chunks c masked.text)

end Tokenizer

end TextChunks
