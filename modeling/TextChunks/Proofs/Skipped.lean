import Mathlib.Data.List.Infix
import TextChunks.Proofs.Segmentation

namespace TextChunks

/-- What is kept of the next `size` slices uses up whole slices of the text, and so less than one
slice of what was not kept. -/
theorem Text.exists_skipped {n : Nat} (hn : 0 < n) {size : Nat} {s kept : Text}
    (h : kept <+: s.take (n * size)) : ∃ skipped,
      kept ++ skipped = s.take (n * (slices n kept).length) ∧
        skipped <+: (s.take (n * size)).drop kept.length ∧ skipped.length < n := by
  have hused : (slices n kept).length ≤ size :=
    (length_slices_le_iff hn).2 (h.length_le.trans (List.length_take_le ..))
  have hle := length_le_mul_length_slices hn kept
  have hlt := mul_length_slices_lt hn kept
  generalize (slices n kept).length = used at hused hle hlt ⊢
  have hkept : kept <+: s.take (n * used) :=
    List.prefix_take_iff.2 ⟨h.trans (List.take_prefix ..), hle⟩
  refine ⟨(s.take (n * used)).drop kept.length, (List.prefix_append_drop hkept).symm, ?_, ?_⟩
  · exact (List.take_prefix_take_left (Nat.mul_le_mul_left n hused)).drop _
  · rw [List.length_drop, List.length_take]
    omega

/-- A segment, and the characters after it that the loop skips. -/
structure Part where
  segment : Segment
  skipped : Text := []

namespace Part

def text (p : Part) : Text := p.segment.text ++ p.skipped

/-- The segment that a window of slices gives, with less than a slice skipped of what the cut took
away. -/
structure TakenFrom (n minCut : Nat) (window : Text) (p : Part) : Prop where
  segment : p.segment.TakenFrom minCut window
  skipped : p.skipped <+: window.drop p.segment.text.length
  skipped_lt : p.skipped.length < n

/-- The segment is a window that ends with a mark past index `minCut`, and no mark is skipped. -/
def EndsAtMark (minCut : Nat) (p : Part) : Prop :=
  ∃ u m, p.segment = .window (u ++ [m]) ∧ minCut < u.length ∧ Text.isMark m = true ∧
    ∀ c ∈ p.skipped, Text.isMark c = false

variable {n minCut : Nat} {window : Text} {p : Part}

theorem TakenFrom.endsAtMark (h : p.TakenFrom n minCut window) (hne : p.skipped ≠ []) :
    p.EndsAtMark minCut := by
  have hwhole : p.segment.text ≠ window := by
    intro heq
    have hskipped := h.skipped
    rw [heq, List.drop_length] at hskipped
    exact hne (List.prefix_nil.1 hskipped)
  rcases h.segment with ⟨-, hp⟩ | ⟨-, kept, hp, hcut⟩
  · rw [hp] at hwhole
    exact absurd rfl hwhole
  · have hskipped := h.skipped
    rw [hp] at hwhole hskipped
    rcases hcut with ⟨rfl, -⟩ | ⟨u, m, v, rfl, rfl, hlt, hm, hv⟩
    · exact absurd rfl hwhole
    · refine ⟨u, m, hp, hlt, hm, fun c hc => hv c ?_⟩
      rw [Segment.text, List.append_cons u m v, List.drop_left] at hskipped
      exact hskipped.subset hc

end Part

structure Slicing (n size minCut budget : Nat) (text : Text) (parts : List Part) : Prop where
  covers : parts.flatMap Part.text = text
  /-- Each part starts at a slice; unless it is a tail, it is taken from the next `size` of them. -/
  taken : ∀ before p after, parts = before ++ p :: after →
    ∃ k, n * k < text.length ∧ before.flatMap Part.text = text.take (n * k) ∧
      (p.segment.isTail = false → p.TakenFrom n minCut ((text.drop (n * k)).take (n * size)))
  windows_le : parts.countP (·.segment.isWindow) ≤ budget
  /-- A tail is the last part, with nothing skipped, after `budget` windows that are not blank. -/
  tail : ∀ before p after, parts = before ++ p :: after → p.segment.isTail = true →
    after = [] ∧ p.skipped = [] ∧ parts.countP (·.segment.isWindow) = budget

namespace Slicing

variable {n size minCut budget : Nat} {text : Text} {parts : List Part} {p : Part}

theorem nil : Slicing n size minCut budget [] [] where
  covers := rfl
  taken before p after h := by simp at h
  windows_le := Nat.zero_le _
  tail before p after h := by simp at h

theorem of_tail (h : text ≠ []) : Slicing n size minCut 0 text [{ segment := .tail text }] where
  covers := by simp [Part.text, Segment.text]
  taken := forall_place_cons.2
    ⟨⟨0, List.length_pos_iff.2 h, rfl, by simp [Segment.isTail]⟩, by simp⟩
  windows_le := by simp [Segment.isWindow]
  tail := forall_place_cons.2 ⟨fun _ => ⟨rfl, rfl, by simp [Segment.isWindow]⟩, by simp⟩

/-- A part that ends after `k` slices, before the parts of the slices that are left. -/
theorem cons {k : Nat} (hrest : Slicing n size minCut budget (text.drop (n * k)) parts)
    (hne : text ≠ []) (htext : p.text = text.take (n * k)) (htail : p.segment.isTail = false)
    (hp : p.TakenFrom n minCut (text.take (n * size))) :
    Slicing n size minCut (budget + if p.segment.isWindow then 1 else 0) text (p :: parts) where
  covers := by rw [List.flatMap_cons, htext, hrest.covers, List.take_append_drop]
  taken := by
    refine forall_place_cons.2 ⟨⟨0, List.length_pos_iff.2 hne, rfl, fun _ => hp⟩, ?_⟩
    intro before q after h
    obtain ⟨j, hj, hbefore, hq⟩ := hrest.taken before q after h
    refine ⟨k + j, ?_, ?_, ?_⟩
    · rw [List.length_drop] at hj
      rw [Nat.mul_add]
      omega
    · rw [List.flatMap_cons, htext, hbefore, Nat.mul_add, List.take_add]
    · rwa [Nat.mul_add, ← List.drop_drop]
  windows_le := by
    have := hrest.windows_le
    rw [List.countP_cons]
    omega
  tail := by
    refine forall_place_cons.2 ⟨fun h => absurd h (by simp [htail]), fun before q after h hq => ?_⟩
    obtain ⟨hafter, hskipped, hcount⟩ := hrest.tail before q after h hq
    exact ⟨hafter, hskipped, by rw [List.countP_cons, hcount]⟩

/-- Less than a slice is skipped after a segment, and nothing unless that ends at a cut. -/
theorem skipped_lt (h : Slicing n size minCut budget text parts) (hn : 0 < n) (hp : p ∈ parts) :
    p.skipped.length < n ∧ (p.skipped ≠ [] → p.EndsAtMark minCut) := by
  obtain ⟨before, after, hparts⟩ := List.append_of_mem hp
  by_cases htail : p.segment.isTail = true
  · obtain ⟨-, hskipped, -⟩ := h.tail before p after hparts htail
    rw [hskipped]
    exact ⟨hn, fun hne => absurd rfl hne⟩
  · obtain ⟨k, -, -, htaken⟩ := h.taken before p after hparts
    have hp := htaken (by simpa using htail)
    exact ⟨hp.skipped_lt, hp.endsAtMark⟩

/-- What the loop takes from the slices that are left of a text is a slicing of them. -/
theorem exists_segmentsBy (hn : 0 < n) (size_pos : 0 < size) (minCut budget : Nat)
    (pieces : List Text) :
    ∀ {text : Text}, Text.slices n text = pieces → ∃ parts,
      parts.map Part.segment =
        segmentsBy (Text.slices n) List.flatten size size_pos minCut budget pieces ∧
      Slicing n size minCut budget text parts := by
  -- The pieces that are left are always the slices of the text that is left.
  fun_induction segmentsBy (Text.slices n) List.flatten size size_pos minCut budget pieces
  case case1 budget =>
    intro text htext
    obtain rfl := Text.slices_eq_nil.1 htext
    exact ⟨[], rfl, nil⟩
  case case2 p rest =>
    intro text htext
    have hne : text ≠ [] := mt (Text.slices_eq_nil (n := n)).2 (by simp [htext])
    exact ⟨[{ segment := .tail text }], by rw [← htext, Text.flatten_slices]; rfl, of_tail hne⟩
  case case3 budget p rest window hb ih =>
    intro text htext
    have hne : text ≠ [] := mt (Text.slices_eq_nil (n := n)).2 (by simp [htext])
    have hwindow : window = text.take (n * size) := by
      rw [← Text.flatten_take_slices hn, htext]
    obtain ⟨parts, hparts, hrest⟩ := ih (by rw [← htext, Text.drop_slices hn])
    refine ⟨{ segment := .blank window } :: parts, by rw [List.map_cons, hparts], ?_⟩
    have htaken : Part.TakenFrom n minCut (text.take (n * size)) { segment := .blank window } :=
      ⟨hwindow ▸ .inl ⟨hb, rfl⟩, List.nil_prefix, hn⟩
    exact hrest.cons hne (by rw [← hwindow]; exact List.append_nil _) rfl htaken
  case case4 budget p rest window hb kept ih =>
    intro text htext
    have hne : text ≠ [] := mt (Text.slices_eq_nil (n := n)).2 (by simp [htext])
    have hwindow : window = text.take (n * size) := by
      rw [← Text.flatten_take_slices hn, htext]
    have hcut : Text.IsCut minCut (text.take (n * size)) kept :=
      hwindow ▸ Text.isCut_cut minCut window
    obtain ⟨skipped, hskipped, hprefix, hlt⟩ := Text.exists_skipped hn hcut.isPrefix
    obtain ⟨parts, hparts, hrest⟩ := ih (by rw [← htext, Text.drop_slices hn])
    refine ⟨⟨.window kept, skipped⟩ :: parts, by rw [List.map_cons, hparts], ?_⟩
    have htaken : Part.TakenFrom n minCut (text.take (n * size)) ⟨.window kept, skipped⟩ :=
      ⟨.inr ⟨by rw [← hwindow]; simpa using hb, kept, rfl, hcut⟩,
        by simpa [Segment.text] using hprefix, hlt⟩
    exact hrest.cons (p := ⟨.window kept, skipped⟩) hne hskipped rfl htaken

end Slicing

/-- Splitting a text that is not blank by slices of `n` characters gives the chunks of segments that
make up the text but for less than `n` characters after each cut. -/
theorem split_slices_skips {n : Nat} (seen : PieceTable) (c : Config) {size : Int} {text : Text}
    (hn : 0 < n) (hsize : 0 < size) (htext : text.blank = false) :
    ∃ parts t', parts.flatMap Part.text = text ∧
      (∀ p ∈ parts, p.skipped.length < n ∧ (p.skipped ≠ [] → p.EndsAtMark c.minCut)) ∧
      Slicing n size.toNat c.minCut c.maxWindows text parts ∧
      (((⟨c, AnyTokenizer.tokenizer⟩ : Splitter AnyTokenizer).split (some text) size).run).run
        (.slices n seen) = (.ok ((parts.map fun p =>
          if c.keepLines && !p.segment.isTail then p.segment.text.strip
          else p.segment.text.collapse.strip).filter fun s => c.minLength < s.length), t') := by
  have size_pos : 0 < size.toNat := by omega
  obtain ⟨t', hrun, -⟩ := (AnyTokenizer.represents_slices (Int.natCast_pos.2 hn)).split_run c
    size_pos text ⟨seen, rfl⟩
  rw [Int.toNat_natCast] at hrun
  obtain ⟨parts, hparts, hslicing⟩ :=
    Slicing.exists_segmentsBy hn size_pos c.minCut c.maxWindows (Text.slices n text) rfl
  have hsegments : segmentsOfBy (Text.slices n) List.flatten c size.toNat size_pos text =
      parts.map Part.segment := by
    rw [segmentsOfBy, htext, if_neg (by simp), hparts]
  refine ⟨parts, t', hslicing.covers, fun p hp => hslicing.skipped_lt hn hp, hslicing, ?_⟩
  rw [hrun, c.chunks_eq blank_of_mem_segmentsOfBy, hsegments, List.map_map]
  rfl

/-- The cut after the first mark leaves two characters of the slice before the next window. -/
theorem split_slices_skips_two_characters :
    0 < 8 ∧ (0 : Int) < 2 ∧ Text.blank "Hello. World".toList = false ∧ ∃ parts,
      parts.flatMap Part.text = "Hello. World".toList ∧
      (∀ p ∈ parts, p.skipped.length < 8 ∧ (p.skipped ≠ [] → p.EndsAtMark 0)) ∧
      Slicing 8 2 0 10000 "Hello. World".toList parts ∧
      ((parts.map fun p =>
        if !p.segment.isTail then p.segment.text.strip else p.segment.text.collapse.strip).filter
          fun s => 0 < s.length) = ["Hello.".toList, "orld".toList] := by
  have hn : 0 < 8 := by decide
  have hsize : (0 : Int) < 2 := by decide
  have htext : Text.blank "Hello. World".toList = false := by decide
  have hchunks : ((((⟨{ minCut := 0, minLength := 0 }, AnyTokenizer.tokenizer⟩ :
      Splitter AnyTokenizer).split (some "Hello. World".toList) 2).run).run (.slices 8 [])).1 =
        .ok ["Hello.".toList, "orld".toList] := by decide +kernel
  obtain ⟨parts, t', hcovers, hskipped, hslicing, hrun⟩ :=
    split_slices_skips [] { minCut := 0, minLength := 0 } hn hsize htext
  refine ⟨hn, hsize, htext, parts, hcovers, hskipped, hslicing, ?_⟩
  exact Except.ok.inj ((congrArg Prod.fst hrun).symm.trans hchunks)

end TextChunks
