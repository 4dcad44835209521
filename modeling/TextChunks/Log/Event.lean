import TextChunks.Log.Setup

namespace TextChunks.Log

inductive Event where
  | starting
  | stopped
  | unhandled
  | profileMissing
  | loadingEncoding
  | unknownEncoding
  | loadFailed
  | capReached
  | textSplit
  | documentChunked
  deriving DecidableEq

namespace Event

def application : String := "token_splitter.main"

def health : String := "token_splitter.resources.tokenizer.health"

def splitter : String := "token_splitter.services.chunking.token_text_splitter"

def record : Event → Record
  | .starting => ⟨application.toList, info, "Application starting".toList⟩
  | .stopped => ⟨application.toList, info, "Shutdown complete".toList⟩
  | .unhandled => ⟨application.toList, error, "Unhandled error".toList⟩
  | .profileMissing => ⟨application.toList, warning, "Configured chunking profile not found".toList⟩
  | .loadingEncoding =>
    ⟨"token_splitter.services.chunking.tokenizer".toList, info, "Loading tokenizer encoding".toList⟩
  | .unknownEncoding => ⟨health.toList, warning, "Unknown tokenizer encoding".toList⟩
  | .loadFailed => ⟨health.toList, warning, "Tokenizer load failed".toList⟩
  | .capReached => ⟨splitter.toList, debug, "Chunk cap reached, flushed remaining tokens".toList⟩
  | .textSplit => ⟨splitter.toList, debug, "Split text into chunks".toList⟩
  | .documentChunked =>
    ⟨"token_splitter.services.chunking.chunker".toList, info, "Chunked document".toList⟩

end Event

def Setup.lines (s : Setup) (events : List Event) : List Text :=
  (events.map Event.record).filterMap fun r =>
    if s.enabled r.logger r.level && s.handlers.any (·.covers r.level) then some r.line else none

end TextChunks.Log
