import TextChunks.Tokenizer.BytePair

namespace TextChunks.Encoding

def endMarker : Text := "<|endoftext|>".toList

/-- A run of letters with the space before it, up to three digits, `\r\n`, or one other character. -/
def wordLength : Text → Nat
  | ' ' :: rest => Text.runLength Text.isLetter rest + 1
  | '\r' :: '\n' :: _ => 2
  | c :: rest =>
    if Text.isLetter c then Text.runLength Text.isLetter (c :: rest)
    else if c.isDigit then min 3 (Text.runLength Char.isDigit (c :: rest))
    else 1
  | [] => 0

def runOf (p : Char → Bool) : Text → Nat
  | c :: rest => Text.runLength (fun d => p d == p c) (c :: rest)
  | [] => 0

def bytesOf (s : String) : Bytes := s.toUTF8.toList

def cl100k : Encoding where
  name := "cl100k_base".toList
  pieces := Text.pieces wordLength
  merges :=
    [" t", "th", "he", " th", " the", "the", "in", "ing", "er", "an", "and", "re", "on", "ll", "ello",
      "ell", "\r\n"].map bytesOf ++
    [[0xC3, 0xA9], [0xE4, 0xB8], [0xE4, 0xB8, 0xAD], [0xF0, 0x9F], [0xF0, 0x9F, 0x98],
      [0xF0, 0x9F, 0x98, 0x80]] ++
    ["10", "100"].map bytesOf
  special := endMarker

def o200k : Encoding where
  name := "o200k_base".toList
  pieces := Text.pieces (runOf fun c => c == ' ' || c == '\t' || c == '\r' || c == '\n')
  merges :=
    ["  ", "    ", "\n\n", "..", "...", "!!", "?!", "ab", "abc", "abcd", "e.", "s.", "\r\n",
      "\r\n\r\n"].map bytesOf ++
    [[0xC3, 0xA9], [0x80, 0xE2], [0xE2, 0x80]]
  special := endMarker

def singleBytes : Encoding where
  name := "bytes".toList
  pieces := Text.pieces (runOf (· == '\n'))
  merges := []
  special := endMarker

def known : List Encoding := [cl100k, o200k, singleBytes]

def failing : List (String × LoadCause) :=
  [("no_file", .missingFile), ("no_net", .unreachable), ("no_key", .missingKey), ("crash", .crashed)]

def load (name : Text) : Except Failure Encoding :=
  match known.find? (·.name = name) with
  | some e => .ok e
  | none =>
    match failing.find? (·.1.toList = name) with
    | some (_, cause) => .error (.load cause name)
    | none => .error (.load .unknownName name)

def defaultName : Text := cl100k.name

end TextChunks.Encoding

namespace TextChunks

/-- A loaded encoding; two loads of one name are told apart by their serial numbers. -/
structure LoadedEncoding where
  serial : Nat
  encoding : Encoding

namespace LoadedEncoding

def shown (l : LoadedEncoding) : Text :=
  "TiktokenTokenizer(".toList ++ l.encoding.name.shown ++ [')']

end LoadedEncoding

/-- What is loaded, by the argument of the request: a name, or none for the default. -/
structure EncodingCache where
  loaded : Dictionary (Option Text) LoadedEncoding := []
  loads : Nat := 0

namespace EncodingCache

/-- The encoding that an earlier request with the same argument loaded, or else a new load; a failed
load leaves the cache as it is. -/
def get (cache : EncodingCache) (request : Option Text) :
    Except Failure LoadedEncoding × EncodingCache :=
  match cache.loaded.get? request with
  | some l => (.ok l, cache)
  | none =>
    match Encoding.load (request.getD Encoding.defaultName) with
    | .ok e =>
      let l : LoadedEncoding := ⟨cache.loads, e⟩
      (.ok l, ⟨cache.loaded.put request l, cache.loads + 1⟩)
    | .error f => (.error f, cache)

end EncodingCache

end TextChunks
