import TextChunks.Proofs.Lines
import TextChunks.Proofs.Loop

namespace TextChunks

namespace Segment

variable {c : Config} {g : Segment} {s : Text}

theorem strip_of_chunk? (h : g.chunk? c = some s) : s.strip = s := by
  rw [(of_chunk? h).1]
  cases g with
  | blank text => rfl
  | window text =>
    simp only [normalised]
    split <;> exact Text.strip_strip _
  | tail text => exact Text.strip_strip _

theorem oneLine_of_chunk? (h : g.chunk? c = some s) (hg : c.keepLines = false ∨ g.isTail = true) :
    s.OneLine := by
  rw [(of_chunk? h).1]
  cases g with
  | blank text => exact fun c hc => absurd hc List.not_mem_nil
  | window text =>
    have hkeep : c.keepLines = false := by simpa [isTail] using hg
    rw [normalised, hkeep]
    exact (Text.oneLine_collapse text).strip
  | tail text => exact (Text.oneLine_collapse text).strip

theorem isWindow_of_chunk? (h : g.chunk? c = some s) (htail : g.isTail = false) :
    g.isWindow = true := by
  cases g with
  | blank text => exact absurd (of_chunk? h).2 (by rw [(of_chunk? h).1]; simp [normalised])
  | window text => rfl
  | tail text => simp [isTail] at htail

end Segment

theorem Config.length_chunks_le (c : Config) {gs : List Segment} (h : ∀ g ∈ gs, g.isTail = false) :
    (c.chunks gs).length ≤ gs.countP Segment.isWindow := by
  induction gs with
  | nil => exact Nat.le_refl _
  | cons g gs ih =>
    have hrest := ih fun g' hg' => h g' (List.mem_cons_of_mem g hg')
    unfold Config.chunks at hrest ⊢
    rcases hg : g.chunk? c with - | s
    · rw [List.filterMap_cons_none hg]
      exact hrest.trans (List.countP_cons ▸ Nat.le_add_right ..)
    · have hwindow := Segment.isWindow_of_chunk? hg (h g List.mem_cons_self)
      rw [List.filterMap_cons_some hg, List.countP_cons_of_pos hwindow]
      exact Nat.succ_le_succ hrest

theorem Config.chunks_prefix (c : Config) (gs hs : List Segment) :
    c.chunks gs <+: c.chunks (gs ++ hs) := ⟨c.chunks hs, (c.chunks_append gs hs).symm⟩

/-- A tail gives the last chunk, or none. -/
theorem Config.dropLast_chunks_tail (c : Config) (gs : List Segment) (text : Text) :
    (c.chunks (gs ++ [.tail text])).dropLast <+: c.chunks gs := by
  rw [c.chunks_append]
  rcases h : (Segment.tail text).chunk? c with - | s
  · rw [show c.chunks [.tail text] = [] from List.filterMap_cons_none h, List.append_nil]
    exact List.dropLast_prefix _
  · refine ⟨[], ?_⟩
    rw [show c.chunks [.tail text] = [s] from List.filterMap_cons_some h, List.dropLast_concat,
      List.append_nil]

structure Config.Shaped (c : Config) (chunks : List Text) : Prop where
  strip_eq : ∀ s ∈ chunks, s.strip = s
  minLength_lt : ∀ s ∈ chunks, c.minLength < s.length
  ne_nil : ∀ s ∈ chunks, s ≠ []
  oneLine : c.keepLines = false → ∀ s ∈ chunks, s.OneLine
  length_le : chunks.length ≤ c.maxWindows + 1
  oneLine_last :
    chunks.length = c.maxWindows + 1 → ∃ s, chunks.getLast? = some s ∧ s.OneLine

/-- The chunks of windows, and of a tail if there is one, are shaped. -/
theorem Config.shaped_chunks (c : Config) {gs hs : List Segment}
    (hgs : ∀ g ∈ gs, g.isTail = false) (hcount : gs.countP Segment.isWindow ≤ c.maxWindows)
    (hhs : hs = [] ∨ ∃ text, hs = [.tail text]) : c.Shaped (c.chunks (gs ++ hs)) where
  strip_eq s hs := by
    obtain ⟨g, -, hg⟩ := exists_of_mem_chunks hs
    exact Segment.strip_of_chunk? hg
  minLength_lt s hs := by
    obtain ⟨g, -, hg⟩ := exists_of_mem_chunks hs
    exact (Segment.of_chunk? hg).2
  ne_nil s hs := by
    obtain ⟨g, -, hg⟩ := exists_of_mem_chunks hs
    exact List.ne_nil_of_length_pos (Nat.zero_lt_of_lt (Segment.of_chunk? hg).2)
  oneLine hkeep s hs := by
    obtain ⟨g, -, hg⟩ := exists_of_mem_chunks hs
    exact Segment.oneLine_of_chunk? hg (.inl hkeep)
  length_le := by
    have hwindows := (c.length_chunks_le hgs).trans hcount
    have htail : (c.chunks hs).length ≤ 1 := by
      rcases hhs with rfl | ⟨text, rfl⟩
      · exact Nat.zero_le _
      · exact List.length_filterMap_le ..
    rw [c.chunks_append, List.length_append]
    omega
  oneLine_last hlen := by
    have hwindows := (c.length_chunks_le hgs).trans hcount
    rw [c.chunks_append, List.length_append] at hlen
    rcases hhs with rfl | ⟨text, rfl⟩
    · simp only [Config.chunks, List.filterMap_nil, List.length_nil] at hlen hwindows
      omega
    · -- The windows give no more chunks than there may be of them, so the last chunk is the tail's.
      rcases htail : (Segment.tail text).chunk? c with - | s
      · simp only [Config.chunks, List.filterMap_cons_none htail, List.filterMap_nil,
          List.length_nil] at hlen hwindows
        omega
      · refine ⟨s, ?_, Segment.oneLine_of_chunk? htail (.inr rfl)⟩
        simp [Config.chunks, List.filterMap_cons_some htail]

def Tokenizer.Raises (t : Tokenizer σ) (f : Failure) : Prop :=
  (∃ text s u, (t.encode text).runIn s = (.error f, u)) ∨
    ∃ ids s u, (t.decode ids).runIn s = (.error f, u)

namespace Loop

variable {l : Loop σ} {p : Place} {s u : σ} {f : Failure}

theorem raises_of_window (h : (l.window p).runIn s = (.error f, u)) : l.tokenizer.Raises f := by
  rcases Call.exists_of_runIn_bind_error h with hdecode | ⟨text, v, -, h⟩
  · exact .inr ⟨_, s, u, hdecode⟩
  · split at h
    · simp at h
    · rcases Call.exists_of_runIn_bind_error h with hencode | ⟨used, w, -, h⟩
      · exact .inl ⟨_, v, u, hencode⟩
      · simp at h

theorem raises_of_rest (h : (l.rest p).runIn s = (.error f, u)) : l.tokenizer.Raises f := by
  unfold rest at h
  split at h
  · rcases Call.exists_of_runIn_bind_error h with hdecode | ⟨text, v, -, h⟩
    · exact .inr ⟨_, s, u, hdecode⟩
    · simp at h
  · simp at h

namespace Ends

theorem raises (h : l.Ends p s (.error f, u)) : l.tokenizer.Raises f := by
  cases h with
  | done hopen hrest => exact raises_of_rest hrest
  | fails hopen hwindow => exact raises_of_window hwindow

theorem eq_nil_or_tail {hs : List Segment} (h : l.Ends p s (.ok hs, u)) :
    hs = [] ∨ ∃ text, hs = [.tail text] := by
  cases h with
  | done hopen hrest =>
    unfold rest at hrest
    split at hrest
    · obtain ⟨text, v, -, hrest⟩ := Call.exists_of_runIn_bind hrest
      exact .inr ⟨text, (Except.ok.inj (Prod.mk.inj hrest).1).symm⟩
    · exact .inl (Except.ok.inj (Prod.mk.inj hrest).1).symm

end Ends

end Loop

/-- A split of any text gives chunks of this shape, or else a call of the tokenizer fails. -/
theorem split_shaped (S : Splitter σ) (text : Text) {size : Int} (s : σ) (hsize : 0 < size) :
    (∃ chunks u, S.run text size s = (.ok chunks, u) ∧ S.config.Shaped chunks) ∨
      ∃ f u, S.run text size s = (.error (.tokenizer f), u) ∧ S.tokenizer.Raises f := by
  rcases S.exists_loop text s hsize with ⟨-, hrun⟩ | ⟨-, f, u, hencode, hrun⟩ |
    ⟨-, l, u, rfl, -, -, gs, p, v, ⟨f | hs, w⟩, hwindows, hends, hrun⟩
  · have hnone : S.config.Shaped (S.config.chunks ([] ++ [])) :=
      S.config.shaped_chunks (by simp) (Nat.zero_le _) (.inl rfl)
    exact .inl ⟨[], s, hrun, hnone⟩
  · exact .inr ⟨f, u, hrun, .inl ⟨text, s, u, hencode⟩⟩
  · exact .inr ⟨f, w, hrun, hends.raises⟩
  · exact .inl ⟨_, w, hrun, l.config.shaped_chunks hwindows.isTail_eq_false
      hwindows.bounded.windows_le hends.eq_nil_or_tail⟩

/-- Two windows and a tail, of a tokenizer that never fails. -/
theorem split_shaped_two_windows : (0 : Int) < 2 ∧ ∃ chunks u,
    Splitter.run ⟨{ minLength := 0, maxWindows := 2 }, .ofFunctions Tokenizer.codes
      (List.map Char.ofNat)⟩ "one\ntwo".toList 2 () = (.ok chunks, u) ∧
      Config.Shaped { minLength := 0, maxWindows := 2 } chunks := by
  have hsize : (0 : Int) < 2 := by decide
  refine ⟨hsize, ?_⟩
  rcases split_shaped ⟨{ minLength := 0, maxWindows := 2 }, .ofFunctions Tokenizer.codes
      (List.map Char.ofNat)⟩ "one\ntwo".toList () hsize with h | ⟨f, u, -, hraises⟩
  · exact h
  · rcases hraises with ⟨text, s, u, h⟩ | ⟨ids, s, u, h⟩ <;> simp [Tokenizer.ofFunctions] at h

end TextChunks
