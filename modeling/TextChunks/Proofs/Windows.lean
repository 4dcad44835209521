import TextChunks.Proofs.Blanks
import TextChunks.Proofs.KnownEncodings
import TextChunks.Proofs.Marks

namespace TextChunks

namespace Encoding

variable {e : Encoding}

theorem flatten_tokens (he : e ∈ known) (s : Text) : (e.tokens s).flatten = s.toBytes := by
  rw [tokens, flatten_flatMap_parts]
  rcases mem_known.1 he with rfl | rfl | rfl <;> exact congrArg _ (Text.flatten_pieces s)

/-- The tokens of a text give it back. -/
theorem read_tokens (he : e ∈ known) (s : Text) : read (e.tokens s) = s := by
  rw [read, flatten_tokens he, Text.toText_toBytes]

theorem ne_nil_of_mem_tokens (he : e ∈ known) {s : Text} {p : Bytes} (h : p ∈ e.tokens s) :
    p ≠ [] := by
  obtain ⟨q, -, hp⟩ := List.mem_flatMap.1 h
  exact ne_nil_of_mem_parts (nil_notMem_merges e he) hp

theorem tokens_eq_nil (he : e ∈ known) {s : Text} : e.tokens s = [] ↔ s = [] := by
  constructor
  · intro h
    rw [← Text.toBytes_eq_nil, ← flatten_tokens he, h]
    rfl
  · rintro rfl
    have hlen := length_le_length_flatten fun p hp => ne_nil_of_mem_tokens he (s := []) hp
    rw [flatten_tokens he] at hlen
    exact List.eq_nil_of_length_eq_zero (Nat.le_zero.1 hlen)

theorem length_tokens_of_ascii (he : e ∈ known) {c : Char} (hc : c.toNat < 0x80) :
    (e.tokens [c]).length = 1 := by
  have hle := length_le_length_flatten fun p hp => ne_nil_of_mem_tokens he (s := [c]) hp
  have hpos := List.length_pos_iff.2 (mt (tokens_eq_nil he (s := [c])).1 (by simp))
  rw [flatten_tokens he, Text.toBytes_cons, Text.charBytes, if_pos hc] at hle
  simp at hle
  omega

theorem length_ids_of_ascii (he : e ∈ known) {c : Char} (hc : c.toNat < 0x80) :
    (e.ids [c]).length = 1 := by
  rw [length_ids (parts_merge e he), length_tokens_of_ascii he hc]

theorem length_ids_le (he : e ∈ known) (s : Text) : (e.ids s).length ≤ s.toBytes.length := by
  rw [length_ids (parts_merge e he), ← flatten_tokens he]
  exact length_le_length_flatten fun p hp => ne_nil_of_mem_tokens he hp

/-- A place between two tokens that falls between two characters splits the text there. -/
theorem tokens_of_append (he : e ∈ known) {s t : Text} (hd : e.DigitsApart (s ++ t))
    {B C : List Bytes} (hBC : e.tokens (s ++ t) = B ++ C) (hB : B.flatten = s.toBytes) :
    e.tokens s = B ∧ e.tokens t = C := by
  obtain ⟨next, hnext, htok⟩ := exists_divisible he
  rw [htok _ hd] at hBC
  rw [htok _ (hd.of_isInfix ⟨[], t, by simp⟩), htok _ (hd.of_isInfix ⟨s, [], by simp⟩)]
  exact tokensBy_of_append (nil_notMem_merges e he) hnext hBC hB

theorem tokens_append_of_apart (he : e ∈ known) {s t : Text} (hd : e.DigitsApart (s ++ t))
    {x y : Bytes} {u v : UInt8} (huv : e.Apart u v) (hs : s.toBytes = x ++ [u])
    (ht : t.toBytes = v :: y) :
    e.tokens (s ++ t) = e.tokens s ++ e.tokens t := by
  obtain ⟨next, hnext, htok⟩ := exists_divisible he
  rw [htok _ hd, htok _ (hd.of_isInfix ⟨[], t, by simp⟩), htok _ (hd.of_isInfix ⟨s, [], by simp⟩)]
  exact tokensBy_append_of_apart hnext huv hs ht

/-- Two characters whose bytes at the place between them are neighbours in no merge split the text
there. -/
theorem tokens_append_of_pairs (he : e ∈ known) {s t : Text} {a c : Char}
    (hd : e.DigitsApart (s ++ [a] ++ c :: t))
    (h : ∀ p ∈ e.neighbours, (Text.charBytes a).getLast? = some p.1 →
    (Text.charBytes c).head? ≠ some p.2) :
    e.tokens (s ++ [a] ++ c :: t) = e.tokens (s ++ [a]) ++ e.tokens (c :: t) := by
  obtain ⟨x, u, ha, -⟩ := Text.charBytes_last a
  obtain ⟨v, y, hc, -⟩ := Text.charBytes_head c
  have huv : e.Apart u v := fun hmem => h (u, v) hmem (by simp [ha]) (by simp [hc])
  refine tokens_append_of_apart he hd huv (x := s.toBytes ++ x) (y := y ++ t.toBytes) ?_ ?_
  · rw [Text.toBytes_append, Text.toBytes_cons, ha]
    simp
  · rw [Text.toBytes_cons, hc]
    rfl

/-- Neighbours in a merge are both below 0x80, or the second continues a form, or they are the end
of one form and the start of the next in the one merge that goes over such a place. -/
theorem pair_of_merge : ∀ e ∈ known, ∀ p ∈ e.neighbours,
    (p.1.toNat < 0x80 ∧ p.2.toNat < 0x80) ∨ (0x80 ≤ p.2.toNat ∧ p.2.toNat < 0xC0) ∨
      (e.name = o200k.name ∧ p.1 = 0x80 ∧ p.2 = 0xE2) :=
  forall_known (forall_of_all (by rw [neighbours, merges_cl100k]; decide))
    (forall_of_all (by rw [neighbours, merges_o200k]; decide)) (forall_of_all (by decide))

/-- Between two characters that are not both ASCII, no merge but that one goes over the place. -/
theorem apart_or_o200k (he : e ∈ known) {a c : Char} (hac : 0x80 ≤ a.toNat ∨ 0x80 ≤ c.toNat) :
    ∃ x u v y, Text.charBytes a = x ++ [u] ∧ Text.charBytes c = v :: y ∧
      (e.Apart u v ∨ (e = o200k ∧ u = 0x80 ∧ v = 0xE2)) := by
  obtain ⟨x, u, hx, hu⟩ := Text.charBytes_last a
  obtain ⟨v, y, hy, hv⟩ := Text.charBytes_head c
  refine ⟨x, u, v, y, hx, hy, ?_⟩
  by_cases hmerge : e.name = o200k.name ∧ u = 0x80 ∧ v = 0xE2
  · right
    exact ⟨eq_of_name he mem_known_o200k hmerge.1, hmerge.2⟩
  · left
    intro huv
    rcases pair_of_merge e he _ huv with h | h | h
    · have hv' : c.toNat < 0x80 → v.toNat = c.toNat := by
        intro hc
        rcases hv with hv | hv
        · rw [hv.2.1, Text.toNat_toUInt8 (by omega)]
        · omega
      rcases hu with hu | hu <;> rcases hv with hv | hv <;> simp only at h <;> omega
    · rcases hv with ⟨hc, rfl, -⟩ | hv
      · rw [Text.toNat_toUInt8 (by omega)] at h
        omega
      · simp only at h
        omega
    · exact hmerge h

/-- The texts of which every character takes one token, or three tokens for its three bytes, and of
which no two digits and no two characters of three tokens are joined. -/
structure Steady (e : Encoding) (s : Text) : Prop where
  digits : e.DigitsApart s
  char : ∀ c ∈ s, (e.tokens [c]).length = 1 ∨
    ((e.tokens [c]).length = 3 ∧ (Text.charBytes c).length = 3)
  pair : ∀ a b, [a, b] <:+: s → (e.tokens [a]).length = 3 → (e.tokens [b]).length = 3 →
    (e.tokens [a, b]).length = 6

theorem Steady.of_isInfix {s t : Text} (h : e.Steady s) (ht : t <:+: s) : e.Steady t where
  digits := h.digits.of_isInfix ht
  char c hc := h.char c (ht.subset hc)
  pair a b hab := h.pair a b (hab.trans ht)

/-- A character of one token has it in the vocabulary. -/
theorem tokens_of_length_one (he : e ∈ known) {c : Char} (h : (e.tokens [c]).length = 1) :
    e.tokens [c] = [Text.charBytes c] := by
  obtain ⟨p, hp⟩ := List.length_eq_one_iff.1 h
  have hflat := flatten_tokens he [c]
  rw [hp] at hflat ⊢
  simpa using hflat

theorem mem_merges_of_length_one (he : e ∈ known) {c : Char} (hc : 0x80 ≤ c.toNat)
    (h : (e.tokens [c]).length = 1) : Text.charBytes c ∈ e.merges := by
  have hmem : Text.charBytes c ∈ e.tokens [c] := by rw [tokens_of_length_one he h]; simp
  obtain ⟨p, -, hp⟩ := List.mem_flatMap.1 hmem
  obtain ⟨i, hi⟩ := exists_id?_of_mem_parts hp
  rcases mem_merges hi with ⟨b, hb⟩ | hm
  · obtain ⟨v, y, hy, hv⟩ := Text.charBytes_head c
    rw [hb] at hy
    obtain ⟨rfl, rfl⟩ : b = v ∧ [] = y := by simpa using hy
    simp at hv
    omega
  · exact hm

theorem o200k_merges_of_end : ∀ m ∈ o200k.merges, m.getLast? = some 0x80 ∨ m.head? = some 0xE2 →
    m = [0xE2, 0x80] := by
  rw [merges_o200k]
  decide

/-- No character has the two bytes of that merge alone. -/
theorem charBytes_ne_merge (c : Char) : Text.charBytes c ≠ [0xE2, 0x80] := by
  intro hc
  have htext := Bytes.toText_charBytes c []
  rw [hc] at htext
  obtain rfl : Bytes.replacement = c := by
    simpa [show Bytes.toText [0xE2, 0x80] = [Bytes.replacement] by decide]
      using congrArg List.head? htext
  exact absurd hc (by decide)

/-- In a steady text, a character that starts or ends with a byte of that merge has three tokens. -/
theorem Steady.length_of_end {s : Text} (h : o200k.Steady s) {c : Char} (hc : c ∈ s)
    (hascii : 0x80 ≤ c.toNat)
    (hend : (Text.charBytes c).getLast? = some 0x80 ∨ (Text.charBytes c).head? = some 0xE2) :
    (o200k.tokens [c]).length = 3 ∧ (Text.charBytes c).length = 3 := by
  refine (h.char c hc).resolve_left fun hone => charBytes_ne_merge c ?_
  exact o200k_merges_of_end _ (mem_merges_of_length_one mem_known_o200k hascii hone) hend

theorem pieces_o200k_two {a c : Char} (ha : 0x80 ≤ a.toNat) (hc : 0x80 ≤ c.toNat) :
    o200k.pieces [a, c] = [[a, c]] := by
  have hspace : ∀ d : Char, 0x80 ≤ d.toNat →
      (d == ' ' || d == '\t' || d == '\r' || d == '\n') = false := by
    intro d hd
    simp only [Bool.or_eq_false_iff, beq_eq_false_iff_ne, ne_eq]
    refine ⟨⟨⟨?_, ?_⟩, ?_⟩, ?_⟩ <;> rintro rfl <;> simp at hd
  exact Text.pieces_runOf_two (hspace a ha) (hspace c hc)

/-- The merge of `o200k` that goes over a place between two characters joins two of three tokens
each. -/
theorem Steady.not_joined_of_o200k {s : Text} (h : o200k.Steady s) {a c : Char}
    (hac : [a, c] <:+: s) {x y : Bytes} (ha : Text.charBytes a = x ++ [0x80])
    (hc : Text.charBytes c = 0xE2 :: y) : False := by
  have halast : (Text.charBytes a).getLast? = some 0x80 := by rw [ha]; simp
  have hchead : (Text.charBytes c).head? = some 0xE2 := by rw [hc]; rfl
  have ha' : 0x80 ≤ a.toNat := Text.toNat_of_last halast (by decide)
  have hc' : 0x80 ≤ c.toNat := Text.toNat_of_head hchead (by decide)
  obtain ⟨ha3, hab⟩ := h.length_of_end (hac.subset (by simp)) ha' (.inl halast)
  obtain ⟨hc3, hcb⟩ := h.length_of_end (hac.subset (by simp)) hc' (.inr hchead)
  -- The six tokens are the six bytes, so none of them are joined any further.
  have hflat := flatten_tokens mem_known_o200k [a, c]
  have hsingle := eq_map_singleton_of_length (L := o200k.tokens [a, c])
    (fun p hp => ne_nil_of_mem_tokens mem_known_o200k hp)
    (by rw [hflat, h.pair a c hac ha3 hc3]; simp [hab, hcb])
  have hdone : o200k.Done (o200k.tokens [a, c]) := by
    rw [tokens, pieces_o200k_two ha' hc', List.flatMap_singleton]
    exact done_join _
  rw [hsingle, hflat] at hdone
  have hnone := hdone [0x80] [0xE2] (by
    rw [Text.toBytes_cons, Text.toBytes_cons, ha, hc]
    exact ⟨x.map fun b => [b], (y ++ Text.toBytes []).map fun b => [b], by simp⟩)
  change (o200k.merges.idxOf? [0x80, 0xE2]).map (256 + ·) = none at hnone
  rw [merges_o200k] at hnone
  exact absurd hnone (by decide)

/-- The place before or after a character that is not ASCII splits a steady text. -/
theorem Steady.tokens_append (he : e ∈ known) {s t : Text} {a c : Char}
    (h : e.Steady (s ++ [a] ++ c :: t)) (hac : 0x80 ≤ a.toNat ∨ 0x80 ≤ c.toNat) :
    e.tokens (s ++ [a] ++ c :: t) = e.tokens (s ++ [a]) ++ e.tokens (c :: t) := by
  obtain ⟨x, u, v, y, ha, hc, hapart⟩ := apart_or_o200k he hac
  have huv : e.Apart u v := by
    rcases hapart with huv | ⟨rfl, rfl, rfl⟩
    · exact huv
    · exact (h.not_joined_of_o200k ⟨s, t, by simp⟩ ha hc).elim
  refine tokens_append_of_apart he h.digits huv (x := s.toBytes ++ x) (y := y ++ t.toBytes) ?_ ?_
  · rw [Text.toBytes_append, Text.toBytes_cons, ha]
    simp
  · rw [Text.toBytes_cons, hc]
    rfl

/-- A character that is not ASCII is encoded apart from the rest of a steady text. -/
theorem Steady.tokens_around (he : e ∈ known) {s t : Text} {c : Char} (h : e.Steady (s ++ c :: t))
    (hc : 0x80 ≤ c.toNat) : e.tokens (s ++ c :: t) = e.tokens s ++ e.tokens [c] ++ e.tokens t := by
  have hnil : e.tokens [] = [] := (tokens_eq_nil he).2 rfl
  have hleft : e.tokens (s ++ c :: t) = e.tokens s ++ e.tokens (c :: t) := by
    cases s using List.reverseRecOn with
    | nil => rw [hnil]; rfl
    | append_singleton s a => exact h.tokens_append he (.inr hc)
  have hright : e.tokens (c :: t) = e.tokens [c] ++ e.tokens t := by
    cases t with
    | nil => rw [hnil, List.append_nil]
    | cons d t =>
      have hsteady : e.Steady ([] ++ [c] ++ d :: t) := h.of_isInfix ⟨s, [], by simp⟩
      simpa using hsteady.tokens_append he (.inl hc)
  rw [hleft, hright, List.append_assoc]

/-- The tokens of U+FFFD are its three bytes, and no merge goes over its first one. -/
theorem length_tokens_replacement : ∀ e ∈ known, (e.tokens [Bytes.replacement]).length = 3 := by
  decide +kernel

theorem DigitsApart.append_replacement {s : Text} (h : e.DigitsApart s) :
    e.DigitsApart (s ++ [Bytes.replacement]) := by
  rintro a b ⟨x, y, hxy⟩ ha hb
  cases y using List.reverseRecOn with
  | nil =>
    have heq : (x ++ [a]) ++ [b] = s ++ [Bytes.replacement] := by simpa using hxy
    obtain ⟨-, hlast⟩ := List.append_inj' heq rfl
    obtain rfl : b = Bytes.replacement := by simpa using hlast
    exact absurd hb (by decide)
  | append_singleton y d =>
    have heq : (x ++ [a, b] ++ y) ++ [d] = s ++ [Bytes.replacement] := by simpa using hxy
    obtain ⟨rfl, -⟩ := List.append_inj' heq rfl
    exact h a b ⟨x, y, rfl⟩ ha hb

theorem length_tokens_append_replacement (he : e ∈ known) {s : Text} (h : e.DigitsApart s) :
    (e.tokens (s ++ [Bytes.replacement])).length = (e.tokens s).length + 3 := by
  cases s using List.reverseRecOn with
  | nil => simp [(tokens_eq_nil he).2 rfl, length_tokens_replacement e he]
  | append_singleton s a =>
    obtain ⟨x, u, v, y, ha, hc, hapart⟩ :=
      apart_or_o200k he (a := a) (c := Bytes.replacement) (.inr (by decide))
    obtain rfl : 0xEF = v := by
      have hbytes : Text.charBytes Bytes.replacement = [0xEF, 0xBF, 0xBD] := by decide
      rw [hbytes] at hc
      exact (List.cons.inj hc).1
    have huv : e.Apart u 0xEF := hapart.resolve_right fun hcross => absurd hcross.2.2 (by decide)
    rw [tokens_append_of_apart he h.append_replacement huv (x := Text.toBytes s ++ x) (y := y)
      (by rw [Text.toBytes_append, Text.toBytes_cons, ha]; simp)
        (by rw [Text.toBytes_cons, hc]; simp),
      List.length_append, length_tokens_replacement e he]

/-- The first tokens of a steady text are those of a part of it, or they break off in a character of
three tokens. -/
theorem Steady.take_tokens (he : e ∈ known) {s : Text} (h : e.Steady s) (n : Nat) :
    (∃ y z, s = y ++ z ∧ (e.tokens s).take n = e.tokens y ∧ (e.tokens s).drop n = e.tokens z) ∨
      ∃ y c z, s = y ++ c :: z ∧ (e.tokens [c]).length = 3 ∧ (e.tokens y).length ≤ n ∧
        e.tokens s = e.tokens y ++ e.tokens [c] ++ e.tokens z ∧
        read ((e.tokens s).take n) = y ++ [Bytes.replacement] := by
  have hsplit : s.toBytes = ((e.tokens s).take n).flatten ++ ((e.tokens s).drop n).flatten := by
    rw [← List.flatten_append, List.take_append_drop, flatten_tokens he]
  -- The place after `n` tokens falls between two characters, or inside the bytes of one.
  rcases Text.toBytes_split hsplit with ⟨y, z, rfl, hy, -⟩ | ⟨y, c, z, p, q, rfl, hc, hp, hq, hy, -⟩
  · obtain ⟨hty, htz⟩ := tokens_of_append he h.digits (List.take_append_drop n _).symm hy
    exact .inl ⟨y, z, rfl, hty.symm, htz.symm⟩
  · have hascii : 0x80 ≤ c.toNat := by
      obtain ⟨b, ts, hb, hhead⟩ := Text.charBytes_head c
      rcases hhead with ⟨-, -, rfl⟩ | hhead
      · have hlen := congrArg List.length (hc.symm.trans hb)
        have hp' := List.length_pos_iff.2 hp
        have hq' := List.length_pos_iff.2 hq
        rw [List.length_append, List.length_singleton] at hlen
        omega
      · exact hhead.1
    have haround := h.tokens_around he hascii
    obtain ⟨B, htake, hB, hflat⟩ :=
      exists_append_of_flatten (fun p hp => ne_nil_of_mem_tokens he hp)
      ((List.append_assoc ..).symm.trans (haround.symm.trans (List.take_append_drop n _).symm))
      (by rw [hy, flatten_tokens he])
    have hthree : (e.tokens [c]).length = 3 := by
      refine ((h.char c (by simp)).resolve_left fun hone => ?_).1
      -- A single token of the character would have to lie on one side of the place.
      rw [tokens_of_length_one he hone] at hB
      cases B with
      | nil => exact hp (by simpa using hflat.symm)
      | cons b B =>
        obtain ⟨rfl, -⟩ := List.cons.inj hB
        rw [List.flatten_cons] at hflat
        have hlen := congrArg List.length hflat
        have hq' := List.length_pos_iff.2 hq
        rw [hc, List.length_append, List.length_append] at hlen
        omega
    have hle : (e.tokens y).length ≤ n := by
      have hlen := congrArg List.length htake
      rw [List.length_take, List.length_append] at hlen
      omega
    refine .inr ⟨y, c, z, rfl, hthree, hle, haround, ?_⟩
    rw [read, hy, Text.toText_toBytes_append, Bytes.toText_broken hc hp hq]

def isMarkByte (b : UInt8) : Bool := b == 0x2E || b == 0x3F || b == 0x21 || b == 0x0A

theorem isMarkByte_iff {b : UInt8} :
    isMarkByte b = true ↔ b.toNat = 46 ∨ b.toNat = 63 ∨ b.toNat = 33 ∨ b.toNat = 10 := by
  simp [isMarkByte, ← UInt8.toNat_inj, or_assoc]

theorem isMark_iff {c : Char} :
    Text.isMark c = true ↔ c.toNat = 46 ∨ c.toNat = 63 ∨ c.toNat = 33 ∨ c.toNat = 10 := by
  simp [Text.isMark, ← Char.toNat_inj, or_assoc]

theorem any_isMarkByte_charBytes (c : Char) :
    (Text.charBytes c).any isMarkByte = Text.isMark c := by
  rcases Text.charBytes_cases c with ⟨hc, h⟩ | ⟨b, ts, l, h, hb, hlead, hts⟩
  · rw [h, List.any_cons, List.any_nil, Bool.or_false, Bool.eq_iff_iff, isMarkByte_iff, isMark_iff,
      Text.toNat_toUInt8 (by omega)]
  · obtain ⟨hlow, hhigh⟩ := Bytes.lead?_bounds hlead
    have hmark : Text.isMark c = false := by
      rw [Bool.eq_false_iff, ne_eq, isMark_iff]
      intro hc
      rw [Text.charBytes, if_pos (by omega)] at h
      obtain ⟨-, rfl⟩ := List.cons.inj h
      exact hts
    rw [hmark, h, List.any_eq_false]
    intro d hd
    rw [isMarkByte_iff]
    rcases List.mem_cons.1 hd with rfl | hd
    · omega
    · have := hts.mem hlow hhigh d hd
      omega

theorem merge_ends_at_mark : ∀ e ∈ known, ∀ m ∈ e.merges,
    m.any isMarkByte = true → m.getLast?.any isMarkByte = true :=
  forall_known (by rw [merges_cl100k]; decide) (by rw [merges_o200k]; decide) (by decide)

theorem token_ends_at_mark (he : e ∈ known) {s : Text} {p : Bytes} (hp : p ∈ e.tokens s)
    (hany : p.any isMarkByte = true) : p.getLast?.any isMarkByte = true := by
  obtain ⟨q, -, hp⟩ := List.mem_flatMap.1 hp
  obtain ⟨i, hi⟩ := exists_id?_of_mem_parts hp
  rcases mem_merges hi with ⟨b, rfl⟩ | hm
  · simpa using hany
  · exact merge_ends_at_mark e he p hm hany

/-- A mark after which there is none ends a token. -/
theorem tokens_append_of_mark (he : e ∈ known) {u v : Text} {m : Char}
    (h : e.DigitsApart (u ++ m :: v)) (hm : Text.isMark m = true)
    (hv : ∀ c ∈ v, Text.isMark c = false) :
    e.tokens (u ++ m :: v) = e.tokens (u ++ [m]) ++ e.tokens v := by
  obtain ⟨b, hb⟩ : ∃ b, Text.charBytes m = [b] := by
    rcases isMark_iff.1 hm with h | h | h | h <;>
      exact ⟨m.toNat.toUInt8, by rw [Text.charBytes, if_pos (by omega)]⟩
  have hbm : isMarkByte b = true := by
    have := any_isMarkByte_charBytes m
    rwa [hb, hm, List.any_cons, List.any_nil, Bool.or_false] at this
  have hvb : ∀ d ∈ v.toBytes, isMarkByte d = false := by
    intro d hd
    obtain ⟨c, hc, hd⟩ := List.mem_flatMap.1 hd
    have := any_isMarkByte_charBytes c
    rw [hv c hc, List.any_eq_false] at this
    simpa using this d hd
  obtain ⟨B, C, hBC, hB⟩ :=
    exists_append_of_last (L := e.tokens (u ++ m :: v)) (x := u.toBytes) hbm hvb
    (fun p hp => token_ends_at_mark he hp) (by
      rw [flatten_tokens he, Text.toBytes_append, Text.toBytes_cons, hb]
      rfl)
  have hum : u ++ m :: v = (u ++ [m]) ++ v := by simp
  rw [hum] at h hBC ⊢
  obtain ⟨hu, hv⟩ :=
    tokens_of_append he h hBC (by rw [hB, Text.toBytes_append, Text.toBytes_cons, hb]; rfl)
  rw [hBC, hu, hv]

/-- What a cut leaves of a text is encoded apart from what it takes away. -/
theorem tokens_cut (he : e ∈ known) {s : Text} (h : e.DigitsApart s) (least : Nat) :
    ∃ t, s = s.cut least ++ t ∧ e.tokens s = e.tokens (s.cut least) ++ e.tokens t := by
  rcases Text.cut_eq_self_or least s with hk | ⟨u, m, v, rfl, hk, hm, hv⟩
  · exact ⟨[], by simp [hk], by simp [hk, (tokens_eq_nil he).2 rfl]⟩
  · exact ⟨v, by rw [hk]; simp, by rw [hk, tokens_append_of_mark he h hm hv]⟩

/-- What a cut leaves of a text and U+FFFD is both, or a part of the text that is encoded apart. -/
theorem tokens_cut_replacement (he : e ∈ known) {s : Text} (h : e.DigitsApart s) (least : Nat) :
    Text.cut least (s ++ [Bytes.replacement]) = s ++ [Bytes.replacement] ∨
      ∃ t, s = Text.cut least (s ++ [Bytes.replacement]) ++ t ∧
        e.tokens s = e.tokens (Text.cut least (s ++ [Bytes.replacement])) ++ e.tokens t := by
  rcases Text.cut_eq_self_or least (s ++ [Bytes.replacement]) with hk | ⟨u, m, v, hs, hk, hm, hv⟩
  · exact .inl hk
  · right
    rw [hk]
    cases v using List.reverseRecOn with
    | nil =>
      obtain ⟨-, hlast⟩ := List.append_inj' hs rfl
      obtain rfl : Bytes.replacement = m := by simpa using hlast
      exact absurd hm (by decide)
    | append_singleton v d =>
      have hs' : s ++ [Bytes.replacement] = (u ++ m :: v) ++ [d] := by simpa using hs
      obtain ⟨rfl, -⟩ := List.append_inj' hs' rfl
      exact ⟨v, by simp, tokens_append_of_mark he h hm fun c hc => hv c (by simp [hc])⟩

/-- The segments that windows of at most `size` tokens take from a text. -/
inductive Follows (e : Encoding) (size : Nat) : Text → List Segment → Prop where
  | nil : Follows e size [] []
  | blank {y z : Text} {segs : List Segment} : y.blank = true → Follows e size z segs →
      Follows e size (y ++ z) (.blank y :: segs)
  | window {y z : Text} {segs : List Segment} : (e.tokens y).length ≤ size → Follows e size z segs →
      Follows e size (y ++ z) (.window y :: segs)
  /-- The window breaks off in the character `c`. -/
  | torn {y z : Text} {c : Char} {segs : List Segment} :
      (e.tokens [c]).length = 3 → Follows e size z segs →
      Follows e size (y ++ c :: z) (.window (y ++ [Bytes.replacement]) :: segs)
  | tail {y : Text} : Follows e size y [.tail y]

/-- What is left of a text after a part that is encoded apart has the tokens that are left. -/
theorem drop_tokens (he : e ∈ known) {y z : Text} (h : e.DigitsApart (y ++ z)) {ts : List Bytes}
    (hts : e.tokens (y ++ z) = e.tokens y ++ ts) :
    (e.tokens (y ++ z)).drop (e.tokens y).length = e.tokens z := by
  rw [(tokens_of_append he h hts (flatten_tokens he y)).2, hts, List.drop_left]

/-- What a window leaves of a steady text: the window is a part of the text, or it breaks off in a
character of three tokens; the loop goes on with the tokens of the rest. -/
theorem Steady.exists_kept (he : e ∈ known) {s : Text} (h : e.Steady s) (size minCut : Nat) :
    (∃ z, s = Text.cut minCut (read ((e.tokens s).take size)) ++ z ∧
      (e.tokens (Text.cut minCut (read ((e.tokens s).take size)))).length ≤ size ∧
      (e.tokens s).drop (e.tokens (Text.cut minCut (read ((e.tokens s).take size)))).length =
        e.tokens z) ∨
    ∃ y c z, s = y ++ c :: z ∧ (e.tokens [c]).length = 3 ∧
      Text.cut minCut (read ((e.tokens s).take size)) = y ++ [Bytes.replacement] ∧
      (e.tokens s).drop (e.tokens (y ++ [Bytes.replacement])).length = e.tokens z := by
  rcases h.take_tokens he size with ⟨y, z, rfl, hy, hz⟩ | ⟨y, c, z, rfl, hc, hle, htok, htext⟩
  · -- The window is a part of the text, and its cut splits it into two that are encoded apart.
    left
    have hlen : (e.tokens y).length ≤ size := by
      rw [← hy, List.length_take]
      omega
    have happend : e.tokens (y ++ z) = e.tokens y ++ e.tokens z := by
      rw [← hy, ← hz, List.take_append_drop]
    obtain ⟨t, ht, htok⟩ := tokens_cut he (h.digits.of_isInfix (t := y) ⟨[], z, by simp⟩) minCut
    have hcut : y.cut minCut ++ (t ++ z) = y ++ z := by rw [← List.append_assoc, ← ht]
    rw [hy, read_tokens he]
    refine ⟨t ++ z, hcut.symm, ?_, ?_⟩
    · rw [htok, List.length_append] at hlen
      omega
    · have hts : e.tokens (y.cut minCut ++ (t ++ z)) =
          e.tokens (y.cut minCut) ++ (e.tokens t ++ e.tokens z) := by
        rw [hcut, happend, htok, List.append_assoc]
      rw [← hcut]
      exact drop_tokens he (hcut.symm ▸ h.digits) hts
  · rw [htext]
    have hd : e.DigitsApart y := h.digits.of_isInfix ⟨[], c :: z, by simp⟩
    rcases tokens_cut_replacement he hd minCut with hcut | ⟨t, ht, hcut⟩
    · -- Nothing is cut, and U+FFFD takes as many tokens along as the character that it stands for.
      right
      refine ⟨y, c, z, rfl, hc, hcut, ?_⟩
      rw [length_tokens_append_replacement he hd, htok, ← hc, ← List.length_append, List.drop_left]
    · -- The cut falls before the character that the window breaks off in.
      left
      have hyz : Text.cut minCut (y ++ [Bytes.replacement]) ++ (t ++ c :: z) = y ++ c :: z := by
        rw [← List.append_assoc, ← ht]
      refine ⟨t ++ c :: z, hyz.symm, ?_, ?_⟩
      · rw [hcut, List.length_append] at hle
        omega
      · have hts : e.tokens (Text.cut minCut (y ++ [Bytes.replacement]) ++ (t ++ c :: z)) =
            e.tokens (Text.cut minCut (y ++ [Bytes.replacement])) ++
              (e.tokens t ++ (e.tokens [c] ++ e.tokens z)) := by
          rw [hyz, htok, hcut]
          simp only [List.append_assoc]
        rw [← hyz]
        exact drop_tokens he (hyz.symm ▸ h.digits) hts

/-- The segments that the loop takes from a steady text follow it. -/
theorem follows_segmentsBy (he : e ∈ known) {size : Nat} (size_pos : 0 < size) (minCut budget : Nat)
    (ts : List Bytes) : ∀ {s : Text}, e.Steady s → e.tokens s = ts →
      Follows e size s (segmentsBy e.tokens read size size_pos minCut budget ts) := by
  -- The tokens that are left are those of the rest of the text, which is steady as well.
  fun_induction segmentsBy e.tokens read size size_pos minCut budget ts
  case case1 budget =>
    intro s hs hts
    obtain rfl := (tokens_eq_nil he).1 hts
    exact .nil
  case case2 p rest =>
    intro s hs hts
    rw [← hts, read_tokens he]
    exact .tail
  case case3 budget p rest window hb ih =>
    intro s hs hts
    rcases hs.take_tokens he size with ⟨y, z, rfl, hy, hz⟩ | ⟨y, c, z, rfl, -, -, -, htext⟩
    · rw [hts] at hy hz
      have hwin : window = y := by
        change read _ = y
        rw [hy, read_tokens he]
      rw [hwin] at hb ⊢
      exact .blank hb (ih (hs.of_isInfix ⟨y, [], by simp⟩) hz.symm)
    · -- A window that breaks off ends with U+FFFD, so it is not blank.
      rw [hts] at htext
      have hwin : window = y ++ [Bytes.replacement] := htext
      rw [hwin, Text.blank_append] at hb
      simp [show Text.blank [Bytes.replacement] = false by decide] at hb
  case case4 budget p rest window hb kept ih =>
    intro s hs hts
    have hkept : kept = Text.cut minCut (read ((e.tokens s).take size)) := by rw [hts]
    rcases hs.exists_kept he size minCut with ⟨z, hz, hlen, hdrop⟩ | ⟨y, c, z, rfl, hc, hy, hdrop⟩
    · rw [← hkept] at hz hlen hdrop
      rw [hts] at hdrop
      subst hz
      exact .window hlen (ih (hs.of_isInfix ⟨kept, [], by simp⟩) hdrop.symm)
    · rw [← hkept] at hy
      rw [hts, ← hy] at hdrop
      have hrest := ih (hs.of_isInfix ⟨y ++ [c], [], by simp⟩) hdrop.symm
      rw [hy] at hrest ⊢
      exact .torn hc hrest

end Encoding

end TextChunks
