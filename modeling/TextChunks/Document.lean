import TextChunks.Identifier
import TextChunks.Splitter

namespace TextChunks

structure Document where
  id : Text
  content : Literal
  metadata : Json.Fields

namespace Document

def toJson (d : Document) : Json :=
  .record [("id", .ofText d.id), ("content", .str d.content), ("metadata", .object d.metadata)]

def ofFields (newId : Text) (f : Json.Fields) : Checked Document :=
  Document.mk
  <$> f.optional "id" newId (fun v => (Reader.nonEmpty v).map Subtype.val)
  <*> f.optional "content" (.text []) Reader.string
  <*> f.optional "metadata" [] Reader.dictionary

/-- The document that a JSON value describes. One without an identifier draws the next of the sequence
`ids`, of which `drawn` have been drawn before. -/
def ofJson (ids : Nat → Text) (v : Json) (drawn : Nat) : Except (List Problem) Document × Nat :=
  match v with
  | .object f =>
    let draws := (Dictionary.get? f (Literal.ofString "id")).isNone
    ((ofFields (ids (drawn + 1)) f).toExcept, if draws then drawn + 1 else drawn)
  | v => (.error [⟨none, .notModel "Document", v⟩], drawn)

def ofJsons (ids : Nat → Text) (drawn : Nat) : List Json → Except (List Problem) (List Document)
  | [] => .ok []
  | v :: rest =>
    match ofJson ids v drawn with
    | (.ok d, drawn) => (ofJsons ids drawn rest).map (d :: ·)
    | (.error ps, _) => .error ps

def parentKey : Literal := "parent_document_id"

def indexKey : Literal := "chunk_index"

/-- The document of a chunk: the parent's metadata, with the parent's identifier and the chunk's index
in it. -/
def chunk (d : Document) (index : Nat) (text : Text) : Document where
  id := chunkId d.id index (Sha256.hexOfText text)
  content := .text text
  metadata := (d.metadata.put parentKey (.ofText d.id)).put indexKey (.int index)

def chunks (d : Document) (strings : List Literal) : Except Utf8Fault (List Document) :=
  (strings.mapM Literal.utf8).map fun texts => texts.mapIdx d.chunk

end Document

inductive DocumentError (ε : Type) where
  | splitter (e : ε)
  | noUtf8 (fault : Utf8Fault)
  deriving DecidableEq

def Document.splitAll {ε : Type} [Monad m] [MonadExcept (DocumentError ε) m]
    (split : Literal → m (List Literal)) : List Document → m (List Document)
  | [] => return []
  | d :: rest => do
    let strings ← split d.content
    let first ← MonadExcept.ofExcept ((d.chunks strings).mapError (DocumentError.noUtf8 (ε := ε)))
    return first ++ (← splitAll split rest)

inductive SeparatorError where
  | empty
  deriving DecidableEq

def SeparatorError.message : SeparatorError → String
  | .empty => "empty separator"

def splitAtSeparator (separator s : Literal) : Except SeparatorError (List Literal) :=
  if separator.codePoints.isEmpty then .error .empty
  else .ok (((Text.separate separator.codePoints s.codePoints).filter (!·.isEmpty)).map
    Literal.ofCodePoints)

end TextChunks
