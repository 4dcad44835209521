import TextChunks.Proofs.Blanks
import TextChunks.Proofs.PieceTables

namespace TextChunks

namespace Segment

def isWindow : Segment → Bool
  | .window _ => true
  | _ => false

/-- The segment that a window gives: a blank window as a whole, any other up to its cut. -/
def TakenFrom (minCut : Nat) (window : Text) (g : Segment) : Prop :=
  (window.blank = true ∧ g = .blank window) ∨
    (window.blank = false ∧ ∃ kept, g = .window kept ∧ Text.IsCut minCut window kept)

theorem TakenFrom.isPrefix {minCut : Nat} {window : Text} {g : Segment}
    (h : g.TakenFrom minCut window) : g.text <+: window := by
  rcases h with ⟨-, rfl⟩ | ⟨-, kept, rfl, hcut⟩
  · exact List.prefix_rfl
  · exact hcut.isPrefix

end Segment

/-- The segments of a text that is made up of `pieces`, one token each. -/
structure Segmentation (pieces : List Text) (size minCut budget : Nat) (segs : List Segment) :
    Prop where
  covers : segs.flatMap Segment.text = pieces.flatten
  /-- Each segment but a tail is taken from the next `size` tokens after those of the segments
    before. -/
  taken : ∀ before g after, segs = before ++ g :: after → g.isTail = false →
    ∃ n < pieces.length, before.flatMap Segment.text = (pieces.take n).flatten ∧
      g.TakenFrom minCut ((pieces.drop n).take size).flatten
  windows_le : segs.countP Segment.isWindow ≤ budget
  /-- A tail is the last segment, has text, and comes after `budget` windows that are not blank. -/
  tail : ∀ before g after, segs = before ++ g :: after → g.isTail = true →
    after = [] ∧ g.text ≠ [] ∧ segs.countP Segment.isWindow = budget

namespace Segmentation

variable {pieces : List Text} {size minCut budget : Nat} {segs : List Segment}

theorem nil : Segmentation [] size minCut budget [] where
  covers := rfl
  taken before g after h := by simp at h
  windows_le := Nat.zero_le _
  tail before g after h := by simp at h

theorem of_tail (h : pieces.flatten ≠ []) :
    Segmentation pieces size minCut 0 [.tail pieces.flatten] where
  covers := by simp [Segment.text]
  taken := forall_place_cons.2 ⟨fun htail => absurd htail (by simp [Segment.isTail]), by simp⟩
  windows_le := by simp [Segment.isWindow]
  tail := forall_place_cons.2 ⟨fun _ => ⟨rfl, h, by simp [Segment.isWindow]⟩, by simp⟩

/-- A segment of the first `n` tokens, before the segments of the tokens that are left. -/
theorem cons {n : Nat} {g : Segment} (hrest : Segmentation (pieces.drop n) size minCut budget segs)
    (hne : pieces ≠ []) (htext : g.text = (pieces.take n).flatten) (htail : g.isTail = false)
    (hg : g.TakenFrom minCut (pieces.take size).flatten) :
    Segmentation pieces size minCut (budget + if g.isWindow then 1 else 0) (g :: segs) where
  covers := by
    rw [List.flatMap_cons, htext, hrest.covers, ← List.flatten_append, List.take_append_drop]
  taken := by
    refine forall_place_cons.2 ⟨fun _ => ⟨0, List.length_pos_iff.2 hne, rfl, by simpa using hg⟩, ?_⟩
    intro before f after h hf
    obtain ⟨k, hk, hbefore, htaken⟩ := hrest.taken before f after h hf
    refine ⟨n + k, by rw [List.length_drop] at hk; omega, ?_, ?_⟩
    · rw [List.flatMap_cons, htext, hbefore, List.take_add, List.flatten_append]
    · rwa [← List.drop_drop]
  windows_le := by
    have := hrest.windows_le
    rw [List.countP_cons]
    omega
  tail := by
    refine forall_place_cons.2 ⟨fun h => absurd h (by simp [htail]), fun before f after h hf => ?_⟩
    obtain ⟨hafter, htext', hcount⟩ := hrest.tail before f after h hf
    exact ⟨hafter, htext', by rw [List.countP_cons, hcount]⟩

/-- Either the segments are windows, or all windows were used up and a tail with text comes last. -/
theorem tail_cases (h : Segmentation pieces size minCut budget segs) :
    (∀ g ∈ segs, g.isTail = false) ∨ ∃ before text, segs = before ++ [.tail text] ∧ text ≠ [] ∧
      (∀ g ∈ before, g.isTail = false) ∧ before.countP Segment.isWindow = budget := by
  by_cases htail : ∀ g ∈ segs, g.isTail = false
  · exact .inl htail
  · right
    obtain ⟨g, hg, hgtail⟩ : ∃ g ∈ segs, g.isTail = true := by simpa using htail
    obtain ⟨before, after, rfl⟩ := List.append_of_mem hg
    obtain ⟨rfl, htext, hcount⟩ := h.tail before g after rfl hgtail
    obtain ⟨text, rfl⟩ : ∃ text, g = .tail text := by
      cases g <;> simp [Segment.isTail] at hgtail ⊢
    refine ⟨before, text, rfl, htext, fun f hf => ?_, by simpa [Segment.isWindow] using hcount⟩
    -- A tail before the last segment would be the last one itself.
    by_contra hftail
    obtain ⟨x, y, rfl⟩ := List.append_of_mem hf
    have hafter := (h.tail x f (y ++ [.tail text]) (by simp) (by simpa using hftail)).1
    simp at hafter

/-- What the loop takes from the pieces that are left of a text is a segmentation of them. -/
theorem segmentsBy {s : Text} (hc : Text.Aligned cutter s) {size : Nat} (size_pos : 0 < size)
    (minCut budget : Nat) (pieces : List Text) :
    ∀ {a : List Text}, cutter s = a ++ pieces → Segmentation pieces size minCut budget
      (segmentsBy cutter List.flatten size size_pos minCut budget pieces) := by
  -- The pieces that are left always come after a block `a` of pieces of the whole text.
  fun_induction TextChunks.segmentsBy cutter List.flatten size size_pos minCut budget pieces
  case case1 budget => exact fun _ => nil
  case case2 p rest =>
    intro a ha
    have hp : p ≠ [] := hc.ne_nil (by rw [ha]; simp)
    exact of_tail (by simp [hp])
  case case3 budget p rest window hb ih =>
    intro a ha
    have hrest : cutter s = (a ++ (p :: rest).take size) ++ (p :: rest).drop size := by
      rw [List.append_assoc, List.take_append_drop, ha]
    exact (ih hrest).cons (by simp) rfl rfl (.inl ⟨hb, rfl⟩)
  case case4 budget p rest window hb kept ih =>
    intro a ha
    have hblock : cutter s = a ++ (p :: rest).take size ++ (p :: rest).drop size := by
      rw [List.append_assoc, List.take_append_drop, ha]
    obtain ⟨n, hn⟩ := hc.cut_flatten hblock minCut
    -- The kept text is that of the first `min n size` tokens, and it is encoded as these.
    have hkept : kept = ((p :: rest).take (min n size)).flatten := by
      rw [← List.take_take]
      exact hn
    have hcut : cutter kept = (p :: rest).take (min n size) := by
      rw [hkept]
      exact hc.block (a := a) (c := (p :: rest).drop (min n size))
        (by rw [List.append_assoc, List.take_append_drop, ha])
    have hdrop : (p :: rest).drop (cutter kept).length = (p :: rest).drop (min n size) := by
      rw [hcut, List.length_take, ← List.drop_eq_drop_min]
    rw [hdrop] at ih ⊢
    have hrest :
        cutter s = (a ++ (p :: rest).take (min n size)) ++ (p :: rest).drop (min n size) := by
      rw [List.append_assoc, List.take_append_drop, ha]
    refine (ih hrest).cons (g := .window kept) (by simp) hkept rfl
      (.inr ⟨by simpa using hb, kept, rfl, ?_⟩)
    exact Text.isCut_cut minCut window

end Segmentation

theorem Segment.normalised_eq (keepLines : Bool) {g : Segment}
    (h : ∀ s, g = .blank s → s.blank = true) : g.normalised keepLines =
      if keepLines && !g.isTail then g.text.strip else g.text.collapse.strip := by
  cases g with
  | blank s =>
    have hs := h s rfl
    have hstrip : s.strip = [] := Text.strip_eq_nil.2 hs
    have hcollapse : s.collapse.strip = [] := by rw [Text.strip_eq_nil, Text.blank_collapse, hs]
    simp [normalised, text, hstrip, hcollapse]
  | window s => simp [normalised, text, isTail]
  | tail s => simp [normalised, text, isTail]

/-- The chunks of segments are the stripped segments that are long enough; line separators go first
where they are not kept, and always in a tail. -/
theorem Config.chunks_eq (c : Config) {segs : List Segment}
    (h : ∀ s, Segment.blank s ∈ segs → s.blank = true) :
    c.chunks segs = (segs.map fun g =>
      if c.keepLines && !g.isTail then g.text.strip else g.text.collapse.strip).filter
        fun s => c.minLength < s.length := by
  induction segs with
  | nil => rfl
  | cons g segs ih =>
    have ih := ih fun s hs => h s (List.mem_cons_of_mem g hs)
    have hg := Segment.normalised_eq c.keepLines (g := g) fun s hs => h s (hs ▸ List.mem_cons_self)
    simp only [Config.chunks, List.filterMap_cons, Segment.chunk?, List.map_cons, ← hg] at ih ⊢
    rw [ih]
    by_cases hlen : c.minLength < (g.normalised c.keepLines).length
    · rw [if_pos hlen, List.filter_cons_of_pos (by simpa using hlen)]
    · rw [if_neg hlen, List.filter_cons_of_neg (by simpa using hlen)]

/-- The tokenizers of single characters and of words, the latter with any pieces seen before. -/
inductive AlignedTokenizer where
  | chars
  | words (seen : PieceTable)

namespace AlignedTokenizer

def toAny : AlignedTokenizer → AnyTokenizer
  | .chars => .chars
  | .words seen => .words seen

def pieces : AlignedTokenizer → Text → List Text
  | .chars => Text.singletons
  | .words _ => Text.words

theorem aligned_pieces (t : AlignedTokenizer) (s : Text) : Text.Aligned t.pieces s := by
  cases t
  · exact Text.aligned_singletons s
  · exact Text.aligned_words s

def IsState : AlignedTokenizer → AnyTokenizer → Prop
  | .chars => (· = .chars)
  | .words _ => fun s => ∃ seen, s = .words seen

theorem isState_toAny (t : AlignedTokenizer) : t.IsState t.toAny := by
  cases t with
  | chars => rfl
  | words seen => exact ⟨seen, rfl⟩

theorem represents (t : AlignedTokenizer) :
    Represents AnyTokenizer.tokenizer t.IsState AnyTokenizer.piece? t.pieces List.flatten := by
  cases t with
  | chars => exact AnyTokenizer.represents_chars
  | words seen => exact AnyTokenizer.represents_words

end AlignedTokenizer

/-- Splitting a text that is not blank by characters or words gives the chunks of a segmentation of
the whole text. -/
theorem split_eq_chunks_of_segmentation (t : AlignedTokenizer) (c : Config) {size : Int}
    {text : Text} (hsize : 0 < size) (htext : text.blank = false) :
    ∃ segs t', segs.flatMap Segment.text = text ∧
      Segmentation (t.pieces text) size.toNat c.minCut c.maxWindows segs ∧
      (((⟨c, AnyTokenizer.tokenizer⟩ : Splitter AnyTokenizer).split (some text) size).run).run
        t.toAny = (.ok ((segs.map fun g =>
          if c.keepLines && !g.isTail then g.text.strip else g.text.collapse.strip).filter
            fun s => c.minLength < s.length), t') := by
  have size_pos : 0 < size.toNat := by omega
  obtain ⟨t', hrun, -⟩ := t.represents.split_run c size_pos text t.isState_toAny
  have hseg : Segmentation (t.pieces text) size.toNat c.minCut c.maxWindows
      (segmentsOfBy t.pieces List.flatten c size.toNat size_pos text) := by
    rw [segmentsOfBy, htext, if_neg (by simp)]
    exact Segmentation.segmentsBy (t.aligned_pieces text) (a := []) size_pos _ _ _ rfl
  refine ⟨_, t', ?_, hseg, ?_⟩
  · rw [hseg.covers, (t.aligned_pieces text).flatten]
  · rw [hrun, c.chunks_eq blank_of_mem_segmentsOfBy]

theorem split_eq_chunks_of_segmentation_two_sentences :
    (0 : Int) < 3 ∧ Text.blank "One. Two".toList = false ∧ ∃ segs t',
      segs.flatMap Segment.text = "One. Two".toList ∧
        Segmentation (Text.words "One. Two".toList) 3 350 10000 segs ∧
        (((⟨{}, AnyTokenizer.tokenizer⟩ : Splitter AnyTokenizer).split
          (some "One. Two".toList) 3).run).run (.words []) = (.ok ((segs.map fun g =>
            if !g.isTail then g.text.strip else g.text.collapse.strip).filter
              fun s => 5 < s.length), t') := by
  have hsize : (0 : Int) < 3 := by decide
  have htext : Text.blank "One. Two".toList = false := by decide
  exact ⟨hsize, htext, split_eq_chunks_of_segmentation (.words []) {} hsize htext⟩

end TextChunks
