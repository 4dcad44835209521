import TextChunks.Proofs.Lines
import TextChunks.Proofs.Loop

namespace TextChunks

namespace Config

/-- The same windows, of which every chunk with characters is kept as it is. -/
def raw (c : Config) : Config := { c with keepLines := true, minLength := 0 }

def refine (c : Config) (chunks : List Text) : List Text :=
  (if c.keepLines then chunks else chunks.map Text.collapse).filter fun s => c.minLength < s.length

end Config

/-- Separators may be given up after a segment is stripped as well as before. -/
theorem Segment.normalised_eq_raw (g : Segment) (keepLines : Bool) :
    g.normalised keepLines =
      if keepLines then g.normalised true else (g.normalised true).collapse := by
  cases keepLines with
  | true => rfl
  | false =>
    cases g with
    | blank text => rfl
    | window text => exact (Text.collapse_strip text).symm
    | tail text =>
      change text.collapse.strip = text.collapse.strip.collapse
      rw [Text.collapse_strip, Text.collapse_collapse]

namespace Config

variable (c : Config)

theorem chunks_eq_filter (gs : List Segment) : c.chunks gs =
    (gs.map fun g => g.normalised c.keepLines).filter fun s => c.minLength < s.length := by
  unfold chunks
  rw [← List.filterMap_eq_filter, List.filterMap_map]
  congr 1
  funext g
  by_cases h : c.minLength < (g.normalised c.keepLines).length <;>
    simp [Segment.chunk?, Option.guard, h]

/-- The filter of a configuration drops what is empty as well, before separators are given up or
after. -/
theorem refine_filter (chunks : List Text) :
    c.refine (chunks.filter fun s => 0 < s.length) = c.refine chunks := by
  have hempty : ∀ s : Text, c.minLength < s.collapse.length → s ≠ [] := by
    rintro s hlen rfl
    exact absurd hlen (Nat.not_lt_zero _)
  unfold refine
  split
  · rw [List.filter_filter]
    apply List.filter_congr
    intro s _
    rw [← Bool.decide_and, decide_eq_decide]
    omega
  · rw [List.filter_map, List.filter_map, List.filter_filter]
    congr 1
    apply List.filter_congr
    intro s _
    rw [Function.comp_apply, ← Bool.decide_and, decide_eq_decide, List.length_pos_iff]
    exact ⟨And.left, fun hlen => ⟨hlen, hempty s hlen⟩⟩

theorem chunks_eq_refine (gs : List Segment) : c.chunks gs = c.refine (c.raw.chunks gs) := by
  have hraw : c.raw.chunks gs =
      (gs.map fun g => g.normalised true).filter fun s => 0 < s.length := c.raw.chunks_eq_filter gs
  have hmap : (gs.map fun g => g.normalised c.keepLines) =
      if c.keepLines then gs.map fun g => g.normalised true
      else (gs.map fun g => g.normalised true).map Text.collapse := by
    cases hkeep : c.keepLines with
    | true => rfl
    | false =>
      rw [if_neg (by simp), List.map_map]
      exact List.map_congr_left fun g _ => g.normalised_eq_raw false
  rw [hraw, refine_filter, chunks_eq_filter, hmap]
  rfl

/-- A greater least length drops further chunks, and leaves the others as they are. -/
theorem refine_minLength {n : Nat} (h : c.minLength ≤ n) (chunks : List Text) :
    refine { c with minLength := n } chunks = (c.refine chunks).filter fun s => n < s.length := by
  unfold refine
  rw [List.filter_filter]
  apply List.filter_congr
  intro s _
  rw [← Bool.decide_and, decide_eq_decide]
  change n < s.length ↔ n < s.length ∧ c.minLength < s.length
  omega

end Config

/-- A split under any configuration is what that makes of a split that keeps chunks as they are; the
calls of the tokenizer are the same. -/
theorem Splitter.run_eq_refine (S : Splitter σ) (text : Text) {size : Int} (s : σ)
    (hsize : 0 < size) : S.run text size s =
      Prod.map (Except.map S.config.refine) id
        (Splitter.run ⟨S.config.raw, S.tokenizer⟩ text size s) := by
  have hsize' : 0 < size.toNat := by omega
  -- The loop reads only the least cut and the number of windows, which are the same.
  have hsegments : S.tokenizer.segmentsOf S.config.raw size.toNat hsize' text =
      S.tokenizer.segmentsOf S.config size.toNat hsize' text := rfl
  rw [S.run_eq text s hsize', Splitter.run_eq _ text s hsize']
  change _ = Prod.map _ _ (Prod.map _ _
    ((S.tokenizer.segmentsOf S.config.raw size.toNat hsize' text).runIn s))
  rw [hsegments]
  rcases (S.tokenizer.segmentsOf S.config size.toNat hsize' text).runIn s with ⟨f | gs, u⟩
  · rfl
  · change (Except.ok (S.config.chunks gs), u) = _
    rw [S.config.chunks_eq_refine gs]
    rfl

/-- Two functions make a tokenizer whose numbers stand for themselves. -/
theorem Tokenizer.represents_ofFunctions (encode : Text → List Nat) (decode : List Nat → Text) :
    Represents (Tokenizer.ofFunctions (σ := σ) encode decode) (fun _ => True) (fun _ i => some i)
      encode decode where
  encode_runIn s _ text := ⟨encode text, s, rfl, trivial, rfl, fun _ _ h => h⟩
  decode_runIn s _ ts as h := by
    rw [List.map_inj_right (fun _ _ => Option.some.inj)] at h
    rw [h]
    rfl

/-- The least length and the treatment of line separators work on the chunks of a split without
them, and a greater least length drops further chunks only. -/
theorem split_eq_refine (encode : Text → List Nat) (decode : List Nat → Text) (c : Config)
    (text : Text) {size : Int} (s : σ) (hsize : 0 < size) :
    ∃ chunks u,
      Splitter.run ⟨c.raw, .ofFunctions encode decode⟩ text size s = (.ok chunks, u) ∧
      Splitter.run ⟨c, .ofFunctions encode decode⟩ text size s = (.ok (c.refine chunks), u) ∧
      ∀ n, c.minLength ≤ n →
        Splitter.run ⟨{ c with minLength := n }, .ofFunctions encode decode⟩ text size s =
          (.ok ((c.refine chunks).filter fun chunk => n < chunk.length), u) := by
  have hsize' : 0 < size.toNat := by omega
  obtain ⟨u, hrun, -⟩ := (Tokenizer.represents_ofFunctions encode decode).split_run c.raw hsize'
    text (s := s) trivial
  have hraw : Splitter.run ⟨c.raw, .ofFunctions encode decode⟩ text size s = _ := hrun
  refine ⟨_, u, hraw, ?_, fun n hn => ?_⟩
  · rw [Splitter.run_eq_refine _ text s hsize, hraw]
    rfl
  · rw [Splitter.run_eq_refine _ text s hsize, ← c.refine_minLength hn]
    change Prod.map _ _ (Splitter.run ⟨c.raw, .ofFunctions encode decode⟩ text size s) = _
    rw [hraw]
    rfl

/-- The separator is divided between two windows, and a tail is left. -/
theorem split_eq_refine_divided_separator :
    (0 : Int) < 2 ∧ ∃ chunks u,
      Splitter.run ⟨Config.raw { minLength := 1, maxWindows := 2, keepLines := false },
        .ofFunctions Tokenizer.codes (List.map Char.ofNat)⟩ "a\r\nbcd".toList 2 () =
          (.ok chunks, u) ∧
      Splitter.run ⟨{ minLength := 1, maxWindows := 2, keepLines := false },
        .ofFunctions Tokenizer.codes (List.map Char.ofNat)⟩ "a\r\nbcd".toList 2 () =
          (.ok ((chunks.map Text.collapse).filter fun chunk => 1 < chunk.length), u) := by
  have hsize : (0 : Int) < 2 := by decide
  obtain ⟨chunks, u, hraw, hrun, -⟩ := split_eq_refine Tokenizer.codes (List.map Char.ofNat)
    { minLength := 1, maxWindows := 2, keepLines := false } "a\r\nbcd".toList () hsize
  exact ⟨hsize, chunks, u, hraw, hrun⟩

end TextChunks
