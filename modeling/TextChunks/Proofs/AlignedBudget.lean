import TextChunks.Proofs.Separators
import TextChunks.Proofs.Shape

namespace TextChunks

namespace Text

theorem words_nil : words [] = [] := pieces_nil

theorem words_cons_of_isWordChar {c : Char} (h : isWordChar c = true) (s : Text) :
    words (c :: s) =
      (c :: s.take (runLength isWordChar s)) :: words (s.drop (runLength isWordChar s)) := by
  have hrun : runLength isWordChar (c :: s) = runLength isWordChar s + 1 := by simp [runLength, h]
  rw [words, pieces_cons, hrun]
  rfl

/-- One more character is one more word, but for a word character before another. -/
theorem length_words_cons (c : Char) (s : Text) : (words (c :: s)).length =
    (words s).length + if isWordChar c && s.head?.any isWordChar then 0 else 1 := by
  by_cases hc : isWordChar c = true
  · rw [words_cons_of_isWordChar hc, hc, Bool.true_and, List.length_cons]
    cases s with
    | nil => rfl
    | cons d s =>
      rw [List.head?_cons, Option.any_some]
      by_cases hd : isWordChar d = true
      · have hrun : runLength isWordChar (d :: s) = runLength isWordChar s + 1 := by
          simp [runLength, hd]
        rw [hrun, List.drop_succ_cons, words_cons_of_isWordChar hd, List.length_cons, if_pos hd]
      · have hrun : runLength isWordChar (d :: s) = 0 := by simp [runLength, hd]
        rw [hrun, List.drop_zero, if_neg hd]
  · rw [Bool.not_eq_true] at hc
    rw [words_cons hc, hc, Bool.false_and, if_neg Bool.false_ne_true, List.length_cons]

theorem length_words_le_append_left (s t : Text) : (words t).length ≤ (words (s ++ t)).length := by
  induction s with
  | nil => exact Nat.le_refl _
  | cons c s ih =>
    rw [List.cons_append, length_words_cons]
    exact Nat.le_add_right_of_le ih

theorem length_words_le_append_right (s t : Text) :
    (words s).length ≤ (words (s ++ t)).length := by
  induction s with
  | nil => exact words_nil ▸ Nat.zero_le _
  | cons c s ih =>
    cases s with
    | nil =>
      rw [List.singleton_append, length_words_cons c [], words_nil, words, pieces_cons]
      simp
    | cons d s =>
      rw [List.cons_append, length_words_cons, length_words_cons c]
      exact Nat.add_le_add_right ih _

theorem length_words_collapse_le (s : Text) : (words s.collapse).length ≤ (words s).length := by
  have hspace : isWordChar ' ' = false := by decide
  have hcr : isWordChar '\r' = false := by decide
  have hlf : isWordChar '\n' = false := by decide
  fun_induction collapse s with
  | case1 => exact Nat.le_refl _
  | case2 rest ih =>
    rw [words_cons hspace, words_cons hcr, words_cons hlf]
    simp only [List.length_cons]
    omega
  | case3 rest _ ih =>
    rw [words_cons hspace, words_cons hcr]
    exact Nat.succ_le_succ ih
  | case4 rest ih =>
    rw [words_cons hspace, words_cons hlf]
    exact Nat.succ_le_succ ih
  | case5 c rest _ _ _ ih =>
    -- The character after `c` is a word character whether or not separators are given up.
    have hhead : (Text.collapse rest).head?.any isWordChar = rest.head?.any isWordChar := by
      rw [head?_collapse]
      cases rest.head? with
      | none => rfl
      | some d =>
        rw [Option.map_some, Option.any_some, Option.any_some]
        split
        · next h => rcases h with rfl | rfl <;> decide
        · rfl
    rw [length_words_cons, length_words_cons, hhead]
    exact Nat.add_le_add_right ih _

theorem length_collapse_le (s : Text) : s.collapse.length ≤ s.length :=
  Nat.le.intro (length_collapse s)

end Text

namespace AlignedTokenizer

variable (t : AlignedTokenizer)

theorem pieces_nil : t.pieces [] = [] := by
  cases t with
  | chars => rfl
  | words seen => exact Text.words_nil

/-- A part of a text has no more tokens than all of it. -/
theorem length_pieces_le_of_isInfix {s u : Text} (h : s <:+: u) :
    (t.pieces s).length ≤ (t.pieces u).length := by
  cases t with
  | chars => simpa [pieces, Text.singletons] using h.length_le
  | words seen =>
    obtain ⟨x, y, rfl⟩ := h
    exact (Text.length_words_le_append_left x s).trans
      (Text.length_words_le_append_right (x ++ s) y)

theorem length_pieces_collapse_le (s : Text) :
    (t.pieces s.collapse).length ≤ (t.pieces s).length := by
  cases t with
  | chars => simpa [pieces, Text.singletons] using Text.length_collapse_le s
  | words seen => exact Text.length_words_collapse_le s

/-- A segment as a chunk has no more tokens than before. -/
theorem length_pieces_normalised_le (g : Segment) (keepLines : Bool) :
    (t.pieces (g.normalised keepLines)).length ≤ (t.pieces g.text).length := by
  have hcollapse : ∀ s : Text, (t.pieces s.collapse.strip).length ≤ (t.pieces s).length := fun s =>
    (t.length_pieces_le_of_isInfix (Text.strip_isInfix _)).trans (t.length_pieces_collapse_le s)
  cases g with
  | blank s =>
    rw [Segment.normalised, t.pieces_nil]
    exact Nat.zero_le _
  | window s =>
    cases keepLines with
    | true => exact t.length_pieces_le_of_isInfix (Text.strip_isInfix s)
    | false => exact hcollapse s
  | tail s => exact hcollapse s

variable {t} {text : Text} {size minCut budget : Nat} {segs : List Segment}

/-- Each segment but a tail has no more tokens than a window. -/
theorem length_pieces_text_le (h : Segmentation (t.pieces text) size minCut budget segs)
    {g : Segment} (hg : g ∈ segs) (htail : g.isTail = false) :
    (t.pieces g.text).length ≤ size := by
  obtain ⟨before, after, rfl⟩ := List.append_of_mem hg
  obtain ⟨n, -, -, htaken⟩ := h.taken before g after rfl htail
  have hwindow : t.pieces (((t.pieces text).drop n).take size).flatten =
      ((t.pieces text).drop n).take size :=
    (t.aligned_pieces text).block (a := (t.pieces text).take n)
      (c := ((t.pieces text).drop n).drop size)
      (by rw [List.append_assoc, List.take_append_drop, List.take_append_drop])
  refine (t.length_pieces_le_of_isInfix htaken.isPrefix.isInfix).trans ?_
  rw [hwindow]
  exact List.length_take_le ..

theorem length_pieces_chunk_le {c : Config} {n : Nat}
    (h : ∀ g ∈ segs, (t.pieces g.text).length ≤ n) :
    ∀ chunk ∈ c.chunks segs, (t.pieces chunk).length ≤ n := by
  intro chunk hchunk
  obtain ⟨g, hg, hchunk⟩ := Config.exists_of_mem_chunks hchunk
  obtain ⟨rfl, -⟩ := Segment.of_chunk? hchunk
  exact (t.length_pieces_normalised_le g c.keepLines).trans (h g hg)

end AlignedTokenizer

namespace Text

/-- Each window that is not blank takes at least `min size (minCut + 2)` characters, or all that are
left. -/
theorem isTail_of_mem_segmentsBy_singletons {size : Nat} (size_pos : 0 < size)
    (minCut budget : Nat) (ps : List Text) :
    ∀ {s : Text}, singletons s = ps → s.length ≤ budget * min size (minCut + 2) →
      ∀ g ∈ segmentsBy singletons List.flatten size size_pos minCut budget ps,
        g.isTail = false := by
  have htext : ∀ s : Text, (singletons s).flatten = s := fun s => (aligned_singletons s).flatten
  have hdrop : ∀ (s : Text) (n : Nat), (singletons s).drop n = singletons (s.drop n) :=
    fun s n => List.map_drop.symm
  have htake : ∀ (s : Text) (n : Nat), (singletons s).take n = singletons (s.take n) :=
    fun s n => List.map_take.symm
  fun_induction segmentsBy singletons List.flatten size size_pos minCut budget ps
  case case1 => simp
  case case2 p rest =>
    intro s hs hlen
    obtain rfl : s = [] := List.length_eq_zero_iff.1 (by omega)
    simp [singletons] at hs
  case case3 budget p rest window hb ih =>
    intro s hs hlen
    have hleft : (s.drop size).length ≤ (budget + 1) * min size (minCut + 2) := by
      rw [List.length_drop]
      exact (Nat.sub_le ..).trans hlen
    have hrest := ih (s := s.drop size) (by rw [← hs, hdrop]) hleft
    intro g hg
    rcases List.mem_cons.1 hg with rfl | hg
    · rfl
    · exact hrest g hg
  case case4 budget p rest window hb kept ih =>
    intro s hs hlen
    have hwindow : window = s.take size := by
      change ((p :: rest).take size).flatten = _
      rw [← hs, htake, htext]
    have hused : (singletons kept).length = kept.length := List.length_map ..
    have hkept : kept = s.take size ∨ minCut + 1 < kept.length :=
      hwindow ▸ (isCut_cut minCut window).eq_or_lt_length
    have hleft : (s.drop kept.length).length ≤ budget * min size (minCut + 2) := by
      rw [Nat.succ_mul] at hlen
      rw [List.length_drop]
      rcases hkept with heq | hlt
      · have hlength := congrArg List.length heq
        rw [List.length_take] at hlength
        omega
      · omega
    rw [hused] at ih ⊢
    have hrest := ih (s := s.drop kept.length) (by rw [← hs, hdrop]) hleft
    intro g hg
    rcases List.mem_cons.1 hg with rfl | hg
    · rfl
    · exact hrest g hg

end Text

theorem Text.isTail_of_mem_segmentsOfBy_singletons {c : Config} {size : Nat} (size_pos : 0 < size)
    {text : Text} (h : text.length ≤ c.maxWindows * min size (c.minCut + 2)) :
    ∀ g ∈ segmentsOfBy singletons List.flatten c size size_pos text, g.isTail = false := by
  unfold segmentsOfBy
  split
  · simp
  · exact isTail_of_mem_segmentsBy_singletons size_pos c.minCut c.maxWindows _ rfl h

/-- All windows were used up, and a tail with text comes after them. -/
def Config.UsedUp (c : Config) (segs : List Segment) : Prop :=
  ∃ before left, segs = before ++ [.tail left] ∧ left ≠ [] ∧
    before.countP Segment.isWindow = c.maxWindows

/-- The segments of a text have no more tokens than windows, but for a tail at the end. -/
theorem AlignedTokenizer.segmentsOfBy_cases (t : AlignedTokenizer) (c : Config) {size : Nat}
    (size_pos : 0 < size) {text : Text} {segs : List Segment}
    (h : segmentsOfBy t.pieces List.flatten c size size_pos text = segs) :
    (∀ g ∈ segs, g.isTail = false ∧ (t.pieces g.text).length ≤ size) ∨
      ∃ before left, segs = before ++ [.tail left] ∧ c.UsedUp segs ∧
        ∀ g ∈ before, (t.pieces g.text).length ≤ size := by
  unfold segmentsOfBy at h
  split at h
  · simp [← h]
  · have hseg : Segmentation (t.pieces text) size c.minCut c.maxWindows segs :=
      h ▸ Segmentation.segmentsBy (t.aligned_pieces text) (a := []) size_pos _ _ _ rfl
    rcases hseg.tail_cases with hnone | ⟨before, left, rfl, hleft, hbefore, hcount⟩
    · exact .inl fun g hg => ⟨hnone g hg, length_pieces_text_le hseg hg (hnone g hg)⟩
    · exact .inr ⟨before, left, rfl, ⟨before, left, rfl, hleft, hcount⟩, fun g hg =>
        length_pieces_text_le hseg (List.mem_append_left _ hg) (hbefore g hg)⟩

/-- The records of a text by characters or words count no more tokens than windows have, but for the
last one, where all windows were used up and text is left. A text of so few characters that the
windows cannot be used up leaves none. There are records under every configuration that can be
written. -/
theorem records_tokenCount_le_but_last (t : AlignedTokenizer) (c : Config) (text : Text) :
    (c.Short → ∀ document : Text, ∃ records v,
      (AnyTokenizer.tokenizer.records c document (some text)).runIn t.toAny = (.ok records, v)) ∧
    ∃ segs u,
      (AnyTokenizer.tokenizer.segmentsOf c c.windowSize c.windowSize_pos text).runIn t.toAny =
        (.ok segs, u) ∧
      (t = .chars → text.length ≤ c.maxWindows * min c.windowSize (c.minCut + 2) →
        ∀ g ∈ segs, g.isTail = false) ∧
      ∀ (document : Literal) records v,
        (AnyTokenizer.tokenizer.records c document (some text)).runIn t.toAny = (.ok records, v) →
        records.map ChunkRecord.text = c.chunks segs ∧
        (∀ r ∈ records.dropLast, r.tokenCount ≤ c.windowSize) ∧
        (∀ r ∈ records, c.windowSize < r.tokenCount → c.UsedUp segs) ∧
        (t = .chars → text.length ≤ c.maxWindows * min c.windowSize (c.minCut + 2) →
          ∀ r ∈ records, r.tokenCount ≤ c.windowSize) := by
  refine ⟨fun hc document =>
    t.represents.exists_records_of_short hc document text t.isState_toAny, ?_⟩
  obtain ⟨u, hsegs, -⟩ := t.represents.segmentsOf_runIn c c.windowSize_pos text t.isState_toAny
  generalize hall : segmentsOfBy t.pieces List.flatten c c.windowSize c.windowSize_pos text = segs
    at hsegs
  refine ⟨segs, u, hsegs, ?_⟩
  rcases t.segmentsOfBy_cases c c.windowSize_pos hall with hnone | ⟨before, left, rfl, hused, hle⟩
  · have hchunks := AlignedTokenizer.length_pieces_chunk_le (c := c) fun g hg => (hnone g hg).2
    refine ⟨fun _ _ g hg => (hnone g hg).1, fun document records v hrecords => ?_⟩
    obtain ⟨htexts, hcounts⟩ :=
      t.represents.counted_of_records t.pieces_nil t.isState_toAny hrecords
    rw [hall] at htexts
    have hle : ∀ r ∈ records, r.tokenCount ≤ c.windowSize := fun r hr =>
      hcounts r hr ▸ hchunks r.text (htexts ▸ List.mem_map_of_mem hr)
    exact ⟨htexts, fun r hr => hle r (List.dropLast_subset _ hr),
      fun r hr hlt => absurd (hle r hr) (Nat.not_le.2 hlt), fun _ _ => hle⟩
  · have hchunks := AlignedTokenizer.length_pieces_chunk_le (c := c) hle
    have hmany : t = .chars → ¬text.length ≤ c.maxWindows * min c.windowSize (c.minCut + 2) := by
      rintro rfl hlen
      have hfew := Text.isTail_of_mem_segmentsOfBy_singletons c.windowSize_pos hlen
      have htail := hfew (.tail left) (hall ▸ List.mem_append_right _ List.mem_cons_self)
      simp [Segment.isTail] at htail
    refine ⟨fun ht hlen => absurd hlen (hmany ht), fun document records v hrecords => ?_⟩
    obtain ⟨htexts, hcounts⟩ :=
      t.represents.counted_of_records t.pieces_nil t.isState_toAny hrecords
    rw [hall] at htexts
    refine ⟨htexts, fun r hr => ?_, fun _ _ _ => hused, fun ht hlen => absurd hlen (hmany ht)⟩
    -- All records but the last are of chunks before the tail.
    have hmem : r.text ∈ (c.chunks (before ++ [.tail left])).dropLast := by
      rw [← htexts, ← List.map_dropLast]
      exact List.mem_map_of_mem hr
    rw [hcounts r (List.dropLast_subset _ hr)]
    exact hchunks r.text ((c.dropLast_chunks_tail before left).subset hmem)

/-- Two windows are cut to the least that a cut may leave, and take all four characters. -/
theorem records_tokenCount_le_but_last_four_characters :
    "a.b.".toList.length ≤ 2 * min 3 (0 + 2) ∧ ∃ segs records u v,
      (AnyTokenizer.tokenizer.segmentsOf { windowSize := 3, minCut := 0, maxWindows := 2 } 3
        (by decide) "a.b.".toList).runIn .chars = (.ok segs, u) ∧
      (AnyTokenizer.tokenizer.records { windowSize := 3, minCut := 0, maxWindows := 2 }
        (.text "doc-1".toList) (some "a.b.".toList)).runIn .chars = (.ok records, v) ∧
      (∀ g ∈ segs, g.isTail = false) ∧ ∀ r ∈ records, r.tokenCount ≤ 3 := by
  have hlen : "a.b.".toList.length ≤ 2 * min 3 (0 + 2) := by decide
  obtain ⟨hexists, segs, u, hsegs, hfew, hall⟩ := records_tokenCount_le_but_last .chars
    { windowSize := 3, minCut := 0, maxWindows := 2 } "a.b.".toList
  obtain ⟨records, v, hrecords⟩ := hexists (Config.short_of_lt (by decide)) "doc-1".toList
  obtain ⟨-, -, -, hle⟩ := hall _ records v hrecords
  exact ⟨hlen, segs, records, u, v, hsegs, hrecords, hfew rfl hlen, hle rfl hlen⟩

end TextChunks
