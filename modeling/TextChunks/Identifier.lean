import TextChunks.Config.Basic
import TextChunks.Digest.Sha256
import TextChunks.Tokenizer.Basic

namespace TextChunks

def strategy : String := "token"

def hashPayload (c : Config) (chunk : Text) : Text :=
  chunk ++ ('|' :: strategy.toList ++ ['|']) ++ c.canonical

def chunkHash (c : Config) (chunk : Text) : Text := Sha256.hexOfText (hashPayload c chunk)

/-- The written form of a configuration, which one with too long a number does not have. -/
def Config.written (c : Config) : Except Failure Text :=
  if c.numbers.all Text.isShort then .ok c.canonical else .error .longNumber

/-- The hash of a chunk: the configuration is written first, and then the chunk needs a UTF-8 form. -/
def hashOf (c : Config) (chunk : Literal) : Except Failure Text := do
  let form ← c.written
  let text ← chunk.utf8.mapError .noUtf8
  return Sha256.hexOfText (text ++ ('|' :: strategy.toList ++ ['|']) ++ form)

def idPayload (document : Text) (index : Int) (hash : Text) : Text :=
  document ++ ':' :: Text.ofInt index ++ ':' :: hash

def idDigits : Nat := 24

def chunkId (document : Text) (index : Int) (hash : Text) : Text :=
  "chunk_".toList ++ (Sha256.hexOfText (idPayload document index hash)).take idDigits

def idOf (document : Literal) (index : Int) (hash : Text) : Except Failure Text := do
  return chunkId (← document.utf8.mapError .noUtf8) index hash

structure ChunkName where
  hash : Text
  id : Text

def nameOf (c : Config) (document : Literal) (index : Int) (chunk : Literal) :
    Except Failure ChunkName := do
  let hash ← hashOf c chunk
  return ⟨hash, ← idOf document index hash⟩

/-- Document identifiers by number, where nothing else is drawn. -/
def documentId (k : Nat) : Text :=
  "doc_".toList ++ Hex.padded 8 k ++ List.replicate 16 '0'

end TextChunks
