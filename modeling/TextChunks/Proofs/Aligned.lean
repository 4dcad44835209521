import Mathlib.Data.List.TakeWhile
import TextChunks.Proofs.Marks
import TextChunks.Proofs.Pieces
import TextChunks.Proofs.Represented
import TextChunks.Proofs.Rows

namespace TextChunks

namespace Text

def singletons (s : Text) : List Text := s.map fun c => [c]

/-- A way to cut texts under which every block of pieces of `s` is cut as it was, and no piece of
`s` goes on after a mark. -/
structure Aligned (cutter : Text → List Text) (s : Text) : Prop where
  flatten : (cutter s).flatten = s
  ne_nil : ∀ {p : Text}, p ∈ cutter s → p ≠ []
  block : ∀ {a b c : List Text}, cutter s = a ++ b ++ c → cutter b.flatten = b
  ends_at_mark :
    ∀ {u : Text} {m : Char} {v : Text}, u ++ m :: v ∈ cutter s → isMark m = true → v = []

theorem eq_nil_of_singleton {u : Text} {m : Char} {v : Text} {d : Char} (h : [d] = u ++ m :: v) :
    v = [] := by
  have hlen := congrArg List.length h
  simp only [List.length_cons, List.length_nil, List.length_append] at hlen
  exact List.eq_nil_of_length_eq_zero (by omega)

theorem aligned_singletons (s : Text) : Aligned singletons s where
  flatten := by simp [singletons, ← List.flatMap_def]
  ne_nil hp := by
    obtain ⟨d, -, rfl⟩ := List.mem_map.1 hp
    simp
  block {a b c} h := by
    have hb : ∀ p ∈ b, ∃ d, p = [d] := by
      intro p hp
      have : p ∈ singletons s := by rw [h]; simp [hp]
      obtain ⟨d, -, rfl⟩ := List.mem_map.1 this
      exact ⟨d, rfl⟩
    clear h
    induction b with
    | nil => rfl
    | cons p b ih =>
      obtain ⟨d, rfl⟩ := hb p (by simp)
      simpa [singletons] using ih fun q hq => hb q (by simp [hq])
  ends_at_mark hp _ := by
    obtain ⟨d, -, h⟩ := List.mem_map.1 hp
    exact eq_nil_of_singleton h

theorem isWordChar_of_isMark {m : Char} (h : isMark m = true) : isWordChar m = false := by
  simp only [isMark, Bool.or_eq_true, beq_iff_eq] at h
  rcases h with ((rfl | rfl) | rfl) | rfl <;> decide

/-- A piece is a run of word characters or one other character. -/
theorem word_of_mem {s p : Text} (h : p ∈ words s) :
    (∀ c ∈ p, isWordChar c = true) ∨ ∃ c, p = [c] := by
  obtain ⟨c, rest, -, rfl⟩ := exists_of_mem_pieces h
  by_cases hc : isWordChar c = true
  · left
    have hrun : c :: rest.take (runLength isWordChar (c :: rest) - 1) =
        (c :: rest).takeWhile isWordChar := by
      have hpre : rest.takeWhile isWordChar <+: rest := List.takeWhile_prefix _
      simp only [runLength, List.takeWhile_cons_of_pos hc, List.length_cons, Nat.add_sub_cancel]
      rw [← List.prefix_iff_eq_take.1 hpre]
    rw [hrun]
    exact fun d hd => List.mem_takeWhile_imp hd
  · right
    simp [runLength, List.takeWhile_cons_of_neg hc]

/-- A character that is no word character is a piece of its own. -/
theorem words_cons {c : Char} (h : isWordChar c = false) (s : Text) :
    words (c :: s) = [c] :: words s := by
  have hrun : runLength isWordChar (c :: s) = 0 := by simp [runLength, h]
  rw [words, pieces_cons, hrun]
  rfl

theorem aligned_words (s : Text) : Aligned words s where
  flatten := flatten_pieces s
  ne_nil := ne_nil_of_mem_pieces
  block := (settled_runLength isWordChar).pieces_flatten_middle
  ends_at_mark {u m v} hp hm := by
    rcases word_of_mem hp with hw | ⟨c, hc⟩
    · have := hw m (by simp)
      rw [isWordChar_of_isMark hm] at this
      simp at this
    · exact eq_nil_of_singleton hc.symm

/-- Slices are aligned where there is no mark to cut at. -/
theorem aligned_slices {n : Nat} {s : Text} (h : ∀ c ∈ s, isMark c = false) :
    Aligned (slices n) s where
  flatten := flatten_pieces s
  ne_nil := ne_nil_of_mem_pieces
  block := (settled_const n).pieces_flatten_middle
  ends_at_mark {u m v} hp hm := by
    have hmem : m ∈ (slices n s).flatten := List.mem_flatten.2 ⟨_, hp, by simp⟩
    rw [slices, flatten_pieces] at hmem
    simp [h m hmem] at hm

theorem slices_one (s : Text) : slices 1 s = singletons s := by
  induction s with
  | nil => exact pieces_nil
  | cons c s ih =>
    rw [slices, pieces_cons]
    simpa [slices, singletons] using ih

/-- What a cut leaves of a block of pieces is the text of the first few of them. -/
theorem Aligned.cut_flatten {s : Text} (h : Aligned cutter s) {a b c : List Text}
    (hs : cutter s = a ++ b ++ c) (least : Nat) :
    ∃ n, Text.cut least b.flatten = (b.take n).flatten := by
  rcases cut_eq_self_or least b.flatten with hk | ⟨u, m, v, hb, hk, hm, hv⟩
  · exact ⟨b.length, by rw [hk, List.take_length]⟩
  · obtain ⟨B, C, rfl, hB⟩ := exists_append_of_last hm hv (fun p hp hany => by
      obtain ⟨d, hd, hmark⟩ := List.any_eq_true.1 hany
      obtain ⟨x, y, rfl⟩ := List.append_of_mem hd
      have hmem : x ++ d :: y ∈ cutter s := by rw [hs]; simp [hp]
      obtain rfl := h.ends_at_mark hmem hmark
      simpa using hmark) hb
    exact ⟨B.length, by rw [hk, List.take_left, hB]⟩

end Text

end TextChunks
