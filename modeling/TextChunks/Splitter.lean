import TextChunks.Config.Basic
import TextChunks.Tokenizer.Kinds

namespace TextChunks

/-- A piece of the text that the loop takes: a window of blank characters, a window up to its cut, or
all that is left once the windows are used up. -/
inductive Segment where
  | blank (s : Text)
  | window (s : Text)
  | tail (s : Text)
  deriving DecidableEq

namespace Segment

def text : Segment → Text
  | .blank s => s
  | .window s => s
  | .tail s => s

/-- The segment's text as a chunk: line separators give way to spaces unless they are kept, which a
tail never does, and the ends are stripped. -/
def normalised (keepLines : Bool) : Segment → Text
  | .blank _ => []
  | .window s => if keepLines then s.strip else s.collapse.strip
  | .tail s => s.collapse.strip

def chunk? (c : Config) (g : Segment) : Option Text :=
  let s := g.normalised c.keepLines
  if c.minLength < s.length then some s else none

def isTail : Segment → Bool
  | .tail _ => true
  | _ => false

end Segment

def Config.chunks (c : Config) (segments : List Segment) : List Text :=
  segments.filterMap (·.chunk? c)

namespace Tokenizer

/-- The segments of the tokens that are left, with at most `budget` windows that are not blank. -/
def segments (t : Tokenizer σ) (size : Nat) (size_pos : 0 < size) (minCut budget : Nat)
    (tokens : List Nat) : Call σ (List Segment) := do
  match budget, tokens with
  | _, [] => return []
  | 0, token :: rest => return [.tail (← t.decode (token :: rest))]
  | budget + 1, token :: rest =>
    let window ← t.decode ((token :: rest).take size)
    if window.blank then
      return .blank window ::
        (← t.segments size size_pos minCut (budget + 1) ((token :: rest).drop size))
    else
      let kept := window.cut minCut
      let used ← t.encode kept
      return .window kept ::
        (← t.segments size size_pos minCut budget ((token :: rest).drop used.length))
termination_by budget + tokens.length
decreasing_by all_goals simp only [List.length_drop, List.length_cons]; omega

def segmentsOf (t : Tokenizer σ) (c : Config) (size : Nat) (size_pos : 0 < size) (text : Text) :
    Call σ (List Segment) := do
  if text.blank then return []
  t.segments size size_pos c.minCut c.maxWindows (← t.encode text)

def chunksOf (t : Tokenizer σ) (c : Config) (size : Nat) (size_pos : 0 < size) (text : Text) :
    Call σ (List Text) :=
  return c.chunks (← t.segmentsOf c size size_pos text)

def chunks (t : Tokenizer σ) (c : Config) (text : Text) : Call σ (List Text) :=
  t.chunksOf c c.windowSize c.windowSize_pos text

end Tokenizer

inductive SplitError where
  | windowSize (n : Int)
  | tokenizer (f : Failure)
  deriving DecidableEq

def SplitError.windowSizeMessage (n : Int) : Text :=
  if Text.isShort n.natAbs then s!"chunk_size must be a positive integer, got {n}".toList
  else Failure.longNumber.report

structure Splitter (σ : Type) where
  config : Config
  tokenizer : Tokenizer σ

namespace Splitter

/-- The chunks of a text by windows of `size` tokens; no text has no chunks, but the size is looked at
first. -/
def split (s : Splitter σ) (text : Option Text) (size : Int) :
    ExceptT SplitError (StateM σ) (List Text) :=
  if h : 0 < size.toNat then
    match text with
    | none => pure []
    | some text => ExceptT.adapt .tokenizer (s.tokenizer.chunksOf s.config size.toNat h text)
  else throw (.windowSize size)

def splitText (s : Splitter σ) (text : Option Text) : ExceptT SplitError (StateM σ) (List Text) :=
  s.split text s.config.windowSize

end Splitter

end TextChunks
