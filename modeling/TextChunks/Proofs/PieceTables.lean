import TextChunks.Proofs.Aligned

namespace TextChunks

namespace PieceTable

theorem getElem?_number (t : PieceTable) (p : Text) :
    (t.number p).2[(t.number p).1]? = some p ∧ t <+: (t.number p).2 := by
  unfold number
  split
  · next i hi =>
    obtain ⟨hlt, hget, -⟩ := List.idxOf?_eq_some_iff.1 hi
    exact ⟨by rw [List.getElem?_eq_getElem hlt, hget], List.prefix_rfl⟩
  · exact ⟨by simp, List.prefix_append _ _⟩

theorem getElem?_mono {t t' : PieceTable} (h : t <+: t') (i : Nat) (p : Text)
    (hp : t[i]? = some p) : t'[i]? = some p := by
  obtain ⟨r, rfl⟩ := h
  rw [List.getElem?_append_left (List.getElem?_eq_some_iff.1 hp).1, hp]

/-- Numbering pieces only adds to the table, in which the numbers then stand for the pieces. -/
theorem numbers_spec (t : PieceTable) (ps : List Text) :
    (t.numbers ps).1.map (fun i => (t.numbers ps).2[i]?) = ps.map some ∧
      t <+: (t.numbers ps).2 := by
  induction ps generalizing t with
  | nil => exact ⟨rfl, List.prefix_rfl⟩
  | cons p ps ih =>
    obtain ⟨hrest, hpre⟩ := ih (t.number p).2
    obtain ⟨hp, hpre'⟩ := getElem?_number t p
    refine ⟨?_, hpre'.trans hpre⟩
    simp only [numbers, List.map_cons, hrest, List.cons.injEq, and_true]
    exact getElem?_mono hpre _ _ hp

theorem join_eq_flatten {t : PieceTable} {is : List Nat} {ps : List Text}
    (h : is.map (fun i => t[i]?) = ps.map some) : t.join is = .ok ps.flatten := by
  induction is generalizing ps with
  | nil => simp_all [join]
  | cons i is ih =>
    cases ps with
    | nil => simp at h
    | cons p ps =>
      simp only [List.map_cons, List.cons.injEq] at h
      simp [join, h.1, ih h.2, Except.map]

theorem represents (cutter : Text → List Text) :
    Represents (tokenizer cutter) (fun _ => True) (fun t i => t[i]?) cutter List.flatten where
  encode_runIn t _ text := by
    obtain ⟨hmap, hpre⟩ := numbers_spec t (cutter text)
    exact ⟨_, _, rfl, trivial, hmap, getElem?_mono hpre⟩
  decode_runIn t _ is ps h := by
    change (t.join is, t) = _
    rw [join_eq_flatten h]

end PieceTable

namespace Tokenizer

theorem charOf?_toNat (c : Char) : Text.charOf? c.toNat = some c := by
  have : c.toNat.isValidChar := c.valid
  simp only [Text.charOf?, if_pos this, Char.ofNat_toNat]

theorem ofCodes_eq_flatten {is : List Nat} {ps : List Text}
    (h : is.map (fun i => (Text.charOf? i).map fun c => [c]) = ps.map some) :
    ofCodes is = .ok ps.flatten := by
  induction is generalizing ps with
  | nil => simp_all [ofCodes]
  | cons i is ih =>
    cases ps with
    | nil => simp at h
    | cons p ps =>
      simp only [List.map_cons, List.cons.injEq, Option.map_eq_some_iff] at h
      obtain ⟨⟨c, hc, rfl⟩, hrest⟩ := h
      simp [ofCodes, hc, ih hrest, Except.map]

theorem represents_chars : Represents (chars : Tokenizer Unit) (fun _ => True)
    (fun _ i => (Text.charOf? i).map fun c => [c]) Text.singletons List.flatten where
  encode_runIn _ _ text := by
    refine ⟨_, _, rfl, trivial, ?_, fun _ _ h => h⟩
    simp [codes, Text.singletons, charOf?_toNat]
  decode_runIn _ _ is ps h := by
    change (ofCodes is, ()) = _
    rw [ofCodes_eq_flatten h]

end Tokenizer

namespace AnyTokenizer

def piece? : AnyTokenizer → Nat → Option Text
  | .words seen, i => seen[i]?
  | .slices _ seen, i => seen[i]?
  | .chars, i => (Text.charOf? i).map fun c => [c]
  | _, _ => none

theorem represents_chars : Represents tokenizer (· = .chars) piece? Text.singletons
    List.flatten := by
  simpa using Tokenizer.represents_chars.wrap tokenizer (fun _ => .chars) piece? (fun _ => rfl)
    (fun _ _ => rfl) (fun _ _ => rfl)

theorem represents_words : Represents tokenizer (fun t => ∃ seen, t = .words seen) piece?
    Text.words List.flatten := by
  simpa using (PieceTable.represents Text.words).wrap tokenizer .words piece? (fun _ => rfl)
    (fun _ _ => rfl) (fun _ _ => rfl)

theorem slicesTokenizer_eq {n : Int} (hn : n ≠ 0) :
    slicesTokenizer n = PieceTable.tokenizer fun s => if 0 < n then Text.slices n.toNat s else [] := by
  simp only [slicesTokenizer, if_neg hn]

theorem represents_slices_of_ne_zero {n : Int} (hn : n ≠ 0) :
    Represents tokenizer (fun t => ∃ seen, t = .slices n seen) piece?
      (fun s => if 0 < n then Text.slices n.toNat s else []) List.flatten := by
  simpa using (PieceTable.represents fun s => if 0 < n then Text.slices n.toNat s else []).wrap
    tokenizer (.slices n) piece? (fun _ => rfl)
    (fun s text => by rw [← slicesTokenizer_eq hn]; rfl)
    (fun s ts => by rw [← slicesTokenizer_eq hn]; rfl)

theorem represents_slices {n : Int} (hn : 0 < n) :
    Represents tokenizer (fun t => ∃ seen, t = .slices n seen)
    piece? (Text.slices n.toNat) List.flatten := by
  simpa only [if_pos hn] using represents_slices_of_ne_zero (Int.ne_of_gt hn)

end AnyTokenizer

end TextChunks
