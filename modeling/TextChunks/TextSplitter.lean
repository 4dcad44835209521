import TextChunks.Document

namespace TextChunks

abbrev Store := List Json.Fields

namespace Store

def read (store : Store) (address : Nat) : Json.Fields := store[address]?.getD []

def copy (address : Nat) : StateM Store Nat :=
  modifyGet fun store => (store.length, store ++ [read store address])

def put (address : Nat) (key : Literal) (value : Json) : StateM Store Unit :=
  modify fun store => store.modify address (·.put key value)

end Store

/-- A document whose metadata are the dictionary at an address. -/
structure StoredDocument where
  id : Text
  content : Literal
  metadata : Nat

namespace StoredDocument

def read (store : Store) (d : StoredDocument) : Document := ⟨d.id, d.content, Store.read store d.metadata⟩

def atAddresses (base : Nat) (ds : List Document) : List StoredDocument :=
  ds.mapIdx fun i d => ⟨d.id, d.content, base + i⟩

/-- The document of a chunk. A chunk without a UTF-8 form has its dictionary by the time it is refused. -/
def chunk (d : StoredDocument) (index : Nat) (s : Literal) :
    ExceptT Utf8Fault (StateM Store) StoredDocument := do
  let metadata ← Store.copy d.metadata
  Store.put metadata Document.parentKey (.ofText d.id)
  Store.put metadata Document.indexKey (.int index)
  let text ← ExceptT.mk (pure s.utf8)
  return ⟨chunkId d.id index (Sha256.hexOfText text), .text text, metadata⟩

def chunksFrom (d : StoredDocument) (index : Nat) :
    List Literal → ExceptT Utf8Fault (StateM Store) (List StoredDocument)
  | [] => return []
  | s :: rest => do
    let first ← d.chunk index s
    return first :: (← d.chunksFrom (index + 1) rest)

end StoredDocument

structure TextSplitter (σ ε : Type) where
  splitText : Literal → ExceptT ε (StateM σ) (List Literal)

namespace TextSplitter

def besideStore (x : ExceptT ε (StateM σ) α) : ExceptT (DocumentError ε) (StateM (σ × Store)) α :=
  ExceptT.mk fun (u, store) => let (result, v) := x.run u; (result.mapError .splitter, (v, store))

def onStore (x : ExceptT Utf8Fault (StateM Store) α) :
    ExceptT (DocumentError ε) (StateM (σ × Store)) α :=
  ExceptT.mk fun (u, store) => let (result, left) := x.run store; (result.mapError .noUtf8, (u, left))

variable (S : TextSplitter σ ε)

/-- The documents of the chunks of each document, in order. A failure keeps the store that it leaves. -/
def splitDocuments :
    List StoredDocument → ExceptT (DocumentError ε) (StateM (σ × Store)) (List StoredDocument)
  | [] => return []
  | d :: rest => do
    let chunks ← besideStore (S.splitText d.content)
    let first ← onStore (d.chunksFrom 0 chunks)
    return first ++ (← splitDocuments rest)

def call (ds : List StoredDocument) :
    ExceptT (DocumentError ε) (StateM (σ × Store)) (List StoredDocument) :=
  S.splitDocuments ds

def atSeparator (separator : Literal) : TextSplitter Unit SeparatorError where
  splitText s := ExceptT.mk (pure (splitAtSeparator separator s))

/-- The splitter by windows of tokens. The surrogates of a string are masked while it is cut. -/
def ofTokens (splitter : Splitter AnyTokenizer) : TextSplitter AnyTokenizer SplitError where
  splitText s := do
    let masked := (← get).masked s
    return (← splitter.splitText (some masked.text)).map masked.reveal

end TextSplitter

end TextChunks
