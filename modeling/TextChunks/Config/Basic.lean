import TextChunks.Json.Writer
import TextChunks.Validation.Reader

namespace TextChunks

/-- Windows of `windowSize` tokens, at most `maxWindows` of them; a window is cut after its last mark if
that stands past index `minCut`; chunks of at most `minLength` characters are dropped; line separators
stay if `keepLines`; `encoding` names the tokenizer. -/
structure Config where
  windowSize : Nat := 800
  minCut : Nat := 350
  minLength : Nat := 5
  maxWindows : Nat := 10000
  keepLines : Bool := true
  encoding : Text := "cl100k_base".toList
  windowSize_pos : 0 < windowSize := by decide
  maxWindows_pos : 0 < maxWindows := by decide
  encoding_ne_nil : encoding ≠ [] := by decide
  deriving DecidableEq

namespace Config

instance : Inhabited Config := ⟨{}⟩

def compact : Config := { windowSize := 256, minCut := 120, keepLines := false }

def large : Config := { windowSize := 2000, minCut := 800, encoding := "o200k_base".toList }

def fieldNames : List String :=
  ["chunk_size", "min_chunk_size_chars", "min_chunk_length_to_embed", "max_num_chunks",
    "keep_separator", "encoding"]

def fields (c : Config) : List (String × Json) :=
  [("chunk_size", .int c.windowSize), ("min_chunk_size_chars", .int c.minCut),
    ("min_chunk_length_to_embed", .int c.minLength), ("max_num_chunks", .int c.maxWindows),
    ("keep_separator", .bool c.keepLines), ("encoding", .ofText c.encoding)]

def toJson (c : Config) : Json := .record c.fields

def numbers (c : Config) : List Nat := [c.windowSize, c.maxWindows, c.minLength, c.minCut]

/-- The written form with the fields in the order of their names, as it is where the numbers can be
written. -/
def canonical (c : Config) : Text :=
  Json.write (.record
    [("chunk_size", .int c.windowSize), ("encoding", .ofText c.encoding),
      ("keep_separator", .bool c.keepLines), ("max_num_chunks", .int c.maxWindows),
      ("min_chunk_length_to_embed", .int c.minLength), ("min_chunk_size_chars", .int c.minCut)])

def ofFields (f : Json.Fields) : Checked Config :=
  (fun (size : { n : Nat // 1 ≤ n }) (minCut minLength : { n : Nat // 0 ≤ n })
      (most : { n : Nat // 1 ≤ n }) (keep : Bool) (encoding : { s : Text // s ≠ [] }) _ =>
    { windowSize := size.1, minCut := minCut.1, minLength := minLength.1, maxWindows := most.1,
      keepLines := keep, encoding := encoding.1, windowSize_pos := size.2,
      maxWindows_pos := most.2, encoding_ne_nil := encoding.2 })
  <$> f.optional "chunk_size" ⟨800, by decide⟩ (Reader.atLeast 1)
  <*> f.optional "min_chunk_size_chars" ⟨350, by decide⟩ (Reader.atLeast 0)
  <*> f.optional "min_chunk_length_to_embed" ⟨5, by decide⟩ (Reader.atLeast 0)
  <*> f.optional "max_num_chunks" ⟨10000, by decide⟩ (Reader.atLeast 1)
  <*> f.optional "keep_separator" true Reader.boolean
  <*> f.optional "encoding" ⟨"cl100k_base".toList, by decide⟩ Reader.nonEmpty
  <*> f.only fieldNames

/-- The configuration that a JSON value describes; fields that are left out have their defaults. Where
the name of a field is no text, that is the only complaint. -/
def ofJson : Json → Except (List Problem) Config
  | .object f =>
    match f.find? fun kv => kv.1.isStray with
    | some (name, _) => .error [⟨none, .strayString, .str name⟩]
    | none => (ofFields f).toExcept
  | v => .error [⟨none, .notModel "ChunkingConfig", v⟩]

def assign (_ : Config) (field : Text) (v : Json) : Except (List Problem) Config :=
  .error [⟨some (.text field), .frozen, v⟩]

end Config

end TextChunks
