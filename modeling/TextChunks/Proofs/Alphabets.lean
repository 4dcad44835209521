import Mathlib.Data.Set.Defs
import TextChunks.Proofs.Windows

namespace TextChunks

/-- The text holds letters and characters of `A` only. -/
def Text.Over (A : Set Char) (s : Text) : Prop := ∀ c ∈ s, isLetter c = true ∨ c ∈ A

theorem Text.over_letter_after {A : Set Char} {a : Char} (ha : a ∈ A) : Text.Over A [a, 'x'] := by
  intro c hc
  rcases List.mem_cons.1 hc with rfl | hc
  · exact .inr ha
  · exact .inl (by rw [List.mem_singleton.1 hc]; decide)

theorem Text.over_digits {A : Set Char} (hone : '1' ∈ A) (hzero : '0' ∈ A) {s : Text}
    (hs : ∀ c ∈ s, c = '1' ∨ c = '0') : s.Over A := by
  intro c hc
  rcases hs c hc with rfl | rfl
  · exact .inr hone
  · exact .inr hzero

/-- One token a window, as many windows as there are tokens, and chunks of any length. -/
def Config.finest (tokens : Nat) : Config :=
  { (default : Config) with
    windowSize := 1
    windowSize_pos := Nat.one_pos
    minCut := 0
    minLength := 0
    maxWindows := tokens + 1
    maxWindows_pos := Nat.succ_pos tokens }

theorem Config.chunks_window (c : Config) (hc : c.keepLines = true) (y : Text)
    (segs : List Segment) : c.chunks (.window y :: segs) =
      if c.minLength < y.strip.length then y.strip :: c.chunks segs else c.chunks segs := by
  have hchunk : Segment.chunk? c (.window y) =
      if c.minLength < y.strip.length then some y.strip else none := by
    simp [Segment.chunk?, Segment.normalised, hc]
  by_cases hlen : c.minLength < y.strip.length
  · rw [if_pos hlen] at hchunk ⊢
    rw [Config.chunks, List.filterMap_cons_some hchunk, Config.chunks]
  · rw [if_neg hlen] at hchunk ⊢
    rw [Config.chunks, List.filterMap_cons_none hchunk, Config.chunks]

namespace Encoding

variable {e : Encoding}

theorem toNat_lt_of_isLetter {c : Char} (hc : Text.isLetter c = true) : c.toNat < 0x80 := by
  rw [isLetter_iff] at hc
  omega

theorem toNat_lt_of_isDigit {c : Char} (hc : c.isDigit = true) : c.toNat < 0x80 := by
  rw [isDigit_iff] at hc
  omega

theorem length_tokens_pos (he : e ∈ known) (c : Char) : 0 < (e.tokens [c]).length :=
  List.length_pos_iff.2 (mt (tokens_eq_nil he).1 (by simp))

/-- The only merge of two digits. -/
theorem merge_digits : ∀ e ∈ known, ∀ m ∈ e.merges, m.length = 2 →
    (m.all fun b => 48 ≤ b.toNat && b.toNat ≤ 57) = true →
      e.name = cl100k.name ∧ m = [0x31, 0x30] :=
  forall_known (by rw [merges_cl100k]; decide) (by rw [merges_o200k]; decide) (by decide)

theorem eq_of_digits_joined (he : e ∈ known) {a b : Char} (ha : a.isDigit = true)
    (hb : b.isDigit = true) (h : (e.ids [a, b]).length ≠ 2) : e = cl100k ∧ a = '1' ∧ b = '0' := by
  obtain ⟨i, hi⟩ := Option.ne_none_iff_exists'.1 (mt (length_ids_digits he ha hb).2 h)
  rw [Text.toBytes_cons, Text.toBytes_cons, charBytes_of_isDigit ha, charBytes_of_isDigit hb] at hi
  have hbyte : ∀ d : Char, d.isDigit = true → d.toNat.toUInt8.toNat = d.toNat := by
    intro d hd
    rw [isDigit_iff] at hd
    exact Text.toNat_toUInt8 (by omega)
  have ha' := hbyte a ha
  have hb' := hbyte b hb
  rcases mem_merges hi with ⟨c, hc⟩ | hm
  · simp at hc
  · obtain ⟨hname, hdigits⟩ :=
      merge_digits e he _ hm rfl (by simpa [ha', hb'] using ⟨isDigit_iff.1 ha, isDigit_iff.1 hb⟩)
    obtain ⟨hone, hzero⟩ : a.toNat.toUInt8 = 0x31 ∧ b.toNat.toUInt8 = 0x30 := by simpa using hdigits
    rw [hone] at ha'
    rw [hzero] at hb'
    exact ⟨eq_of_name he mem_known_cl100k hname, Char.toNat_inj.1 ha'.symm,
      Char.toNat_inj.1 hb'.symm⟩

theorem toNat_of_length_ne_one (he : e ∈ known) {a : Char} (h : (e.tokens [a]).length ≠ 1) :
    0x80 ≤ a.toNat := by
  by_contra hlt
  exact h (length_tokens_of_ascii he (by omega))

/-- A character that is not ASCII is encoded apart from the one after it, unless the merge that goes
over such a place may join them. -/
theorem tokens_pair (he : e ∈ known) {a b : Char} (ha : 0x80 ≤ a.toNat)
    (hb : e ≠ o200k ∨ (Text.charBytes b).head? ≠ some 0xE2) :
    e.tokens [a, b] = e.tokens [a] ++ e.tokens [b] := by
  have hdigits : e.DigitsApart ([a] ++ [b]) := by
    intro c d hcd hc _
    obtain ⟨rfl, rfl⟩ : c = a ∧ d = b := by simpa using hcd.eq_of_length rfl
    have := toNat_lt_of_isDigit hc
    omega
  obtain ⟨x, u, v, y, hx, hy, huv⟩ := apart_or_o200k he (a := a) (c := b) (.inl ha)
  have hapart : e.Apart u v := by
    apply huv.resolve_right
    rintro ⟨rfl, -, rfl⟩
    rcases hb with hb | hb
    · exact hb rfl
    · exact hb (by rw [hy]; rfl)
  exact tokens_append_of_apart he hdigits hapart (x := x) (y := y) (by simpa using hx)
    (by simpa using hy)

theorem tokens_letter_after (he : e ∈ known) {a : Char} (ha : 0x80 ≤ a.toNat) :
    e.tokens [a, 'x'] = e.tokens [a] ++ [[0x78]] := by
  have hx : e.tokens ['x'] = [[0x78]] :=
    tokens_of_length_one he (length_tokens_of_ascii he (by decide))
  rw [tokens_pair he ha (.inr (by decide)), hx]

/-- The first of several tokens of a character is no text. -/
theorem toText_first_token (he : e ∈ known) {a : Char} {p q : Bytes} {ps : List Bytes}
    (h : e.tokens [a] = p :: q :: ps) : Bytes.toText p = [Bytes.replacement] := by
  have hflat := flatten_tokens he [a]
  have hne : ∀ r ∈ e.tokens [a], r ≠ [] := fun r hr => ne_nil_of_mem_tokens he hr
  rw [h] at hflat hne
  refine Bytes.toText_broken (c := a) (x := p) (y := q ++ ps.flatten) ?_ (hne p (by simp)) ?_
  · simpa using hflat.symm
  · simp [hne q (by simp)]

/-- A window of one token that is no text is U+FFFD, which is encoded as three tokens. -/
theorem segmentsBy_broken (he : e ∈ known) {p : Bytes} (hp : Bytes.toText p = [Bytes.replacement])
    (minCut budget : Nat) (ps : List Bytes) :
    segmentsBy e.tokens read 1 (by decide) minCut (budget + 1) (p :: ps) =
      .window [Bytes.replacement] :: segmentsBy e.tokens read 1 (by decide) minCut budget
        (ps.drop 2) := by
  have hread : read (List.take 1 (p :: ps)) = [Bytes.replacement] := by simpa [read] using hp
  have hcut : Text.cut minCut [Bytes.replacement] = [Bytes.replacement] := by
    simp [Text.cut, Text.lastMark?, show Text.isMark Bytes.replacement = false by decide]
  rw [segmentsBy]
  simp only [hread, show Text.blank [Bytes.replacement] = false by decide, hcut,
    length_tokens_replacement e he]
  rfl

/-- In the text of a character of several tokens and a letter, the first window of one token is
U+FFFD. -/
theorem segmentsOfBy_torn (he : e ∈ known) (c : Config) {a : Char} (h : (e.tokens [a]).length ≠ 1) :
    segmentsOfBy e.tokens read c 1 (by decide) [a, 'x'] = .window [Bytes.replacement] ::
      segmentsBy e.tokens read 1 (by decide) c.minCut (c.maxWindows - 1)
        ((e.tokens [a] ++ [[0x78]]).drop 3) := by
  have hblank : Text.blank [a, 'x'] = false := by
    simp [Text.blank, show Text.isBlank 'x' = false by decide]
  obtain ⟨k, hk⟩ : ∃ k, c.maxWindows = k + 1 :=
    ⟨c.maxWindows - 1, by have := c.maxWindows_pos; omega⟩
  obtain ⟨p, q, ps, hps⟩ : ∃ p q ps, e.tokens [a] = p :: q :: ps := by
    have hpos := length_tokens_pos he a
    cases hps : e.tokens [a] with
    | nil => simp [hps] at hpos
    | cons p ps =>
      cases ps with
      | nil => simp [hps] at h
      | cons q ps => exact ⟨p, q, ps, rfl⟩
  rw [segmentsOfBy, hblank, if_neg (by decide),
    tokens_letter_after he (toNat_of_length_ne_one he h), hk, Nat.add_sub_cancel, hps,
    List.cons_append, segmentsBy_broken he (toText_first_token he hps)]
  rfl

theorem length_charBytes_le_three {c : Char} (hc : c.toNat < 0x10000) :
    (Text.charBytes c).length ≤ 3 := by
  unfold Text.charBytes
  simp only [if_pos hc]
  split
  · simp
  · split <;> simp

theorem length_charBytes_le (c : Char) : (Text.charBytes c).length ≤ 4 := by
  unfold Text.charBytes
  dsimp only
  repeat' split
  all_goals simp

theorem toNat_lt_of_isBlank {c : Char} (hc : Text.isBlank c = true) : c.toNat < 0x10000 := by
  simp only [Text.isBlank, Text.isWhite, Bool.or_eq_true, Bool.and_eq_true, decide_eq_true_eq,
    beq_iff_eq] at hc
  omega

/-- Blank characters of three tokens may stand beside those of one token, and U+FFFD, if they are
not joined with each other. -/
theorem steady_of_over (he : e ∈ known) {A : Set Char}
    (hchar : ∀ a ∈ A, (e.ids [a]).length = 1 ∨ a = Bytes.replacement ∨
      (Text.isBlank a = true ∧ (e.ids [a]).length = 3))
    (hdigits : ∀ a ∈ A, ∀ b ∈ A, a.isDigit = true → b.isDigit = true → (e.ids [a, b]).length = 2)
    (hpair : ∀ a ∈ A, ∀ b ∈ A, (e.ids [a]).length = 3 → (e.ids [b]).length = 3 →
      (e.ids [a, b]).length = 6) {s : Text} (hs : s.Over A) : e.Steady s := by
  have hlen := length_ids (parts_merge e he)
  have hletter : ∀ c, Text.isLetter c = true → (e.tokens [c]).length = 1 :=
    fun c hc => length_tokens_of_ascii he (toNat_lt_of_isLetter hc)
  have hmem : ∀ {c : Char}, c ∈ s → Text.isLetter c = false → c ∈ A :=
    fun {c} hc h => (hs c hc).resolve_left (by simp [h])
  refine ⟨fun a b hab ha hb => ?_, fun c hc => ?_, fun a b hab ha hb => ?_⟩
  · exact hdigits a (hmem (hab.subset (by simp)) (not_isLetter_of_isDigit ha)) b
      (hmem (hab.subset (by simp)) (not_isLetter_of_isDigit hb)) ha hb
  · rcases hs c hc with h | h
    · exact .inl (hletter c h)
    · rcases hchar c h with h | rfl | ⟨hb, h⟩
      · exact .inl (by rw [← hlen, h])
      · exact .inr ⟨length_tokens_replacement e he, by decide⟩
      · -- Three tokens that are not empty, for three bytes at most.
        rw [hlen] at h
        have hle := length_le_length_flatten fun p hp => ne_nil_of_mem_tokens he (s := [c]) hp
        rw [flatten_tokens he, h, Text.toBytes_cons, Text.toBytes_nil, List.append_nil] at hle
        have := length_charBytes_le_three (toNat_lt_of_isBlank hb)
        exact .inr ⟨h, by omega⟩
  · have hnot : ∀ c, (e.tokens [c]).length = 3 → Text.isLetter c = false := by
      intro c hc
      rw [Bool.eq_false_iff]
      intro h
      rw [hletter c h] at hc
      omega
    rw [← hlen]
    exact hpair a (hmem (hab.subset (by simp)) (hnot a ha)) b
      (hmem (hab.subset (by simp)) (hnot b hb))
      (by rw [hlen, ha]) (by rw [hlen, hb])

/-- Characters of one token, and U+FFFD, of which no two digits are joined, make steady texts. -/
theorem steady_of_over_replacement (he : e ∈ known) {A : Set Char}
    (hchar : ∀ a ∈ A, (e.ids [a]).length = 1 ∨ a = Bytes.replacement)
    (hdigits : ∀ a ∈ A, ∀ b ∈ A, a.isDigit = true → b.isDigit = true → (e.ids [a, b]).length = 2)
    {s : Text} (hs : s.Over A) : e.Steady s := by
  have hsix : (e.ids [Bytes.replacement, Bytes.replacement]).length = 6 := by
    have hd : e.DigitsApart [Bytes.replacement] := fun a b hab => absurd hab.length_le (by simp)
    rw [length_ids (parts_merge e he)]
    exact (length_tokens_append_replacement he hd).trans (by rw [length_tokens_replacement e he])
  refine steady_of_over he (fun a ha => (hchar a ha).imp_right .inl) hdigits
    (fun a ha b hb ha3 hb3 => ?_) hs
  obtain rfl := (hchar a ha).resolve_left (by omega)
  obtain rfl := (hchar b hb).resolve_left (by omega)
  exact hsix

end Encoding

/-- A text of letters, periods and spaces. -/
theorem Text.over_two_sentences : Text.Over {'.', ' '} "One. Two".toList :=
  forall_of_all (P := fun c => Text.isLetter c = true ∨ c = '.' ∨ c = ' ') (by decide)

theorem Encoding.length_ids_period_space :
    ∀ a ∈ ({'.', ' '} : Set Char), (Encoding.cl100k.ids [a]).length = 1 := by
  rintro a (rfl | rfl)
  · exact Encoding.length_ids_of_ascii Encoding.mem_known_cl100k (by decide)
  · exact Encoding.length_ids_of_ascii Encoding.mem_known_cl100k (by decide)

theorem Encoding.not_isDigit_period_space :
    ∀ a ∈ ({'.', ' '} : Set Char), ¬a.isDigit = true := by
  rintro a (rfl | rfl) <;> decide

/-- Splitting under a known encoding, whichever load of it. -/
theorem LoadedEncoding.split_run (l : LoadedEncoding) (hl : l.encoding ∈ Encoding.known)
    (c : Config) {size : Int} (size_pos : 0 < size.toNat) (text : Text) :
    ∃ t', (((⟨c, AnyTokenizer.tokenizer⟩ : Splitter AnyTokenizer).split (some text) size).run).run
      (.loaded l) =
        (.ok (c.chunks (segmentsOfBy l.encoding.tokens Encoding.read c size.toNat size_pos text)),
        t') := by
  obtain ⟨t', hrun, -⟩ :=
    (Encoding.represents (Encoding.parts_merge _ hl) l rfl).split_run c size_pos text
    (s := .loaded l) rfl
  exact ⟨t', hrun⟩

theorem LoadedEncoding.forall_split_iff (l : LoadedEncoding) (hl : l.encoding ∈ Encoding.known)
    (c : Config) (text : Text) {P : List Text → Prop} :
    (∀ size : Int, 0 < size → ∃ chunks t',
      (((⟨c, AnyTokenizer.tokenizer⟩ : Splitter AnyTokenizer).split (some text) size).run).run
        (.loaded l) = (.ok chunks, t') ∧ P chunks) ↔
      ∀ (size : Nat) (size_pos : 0 < size),
        P (c.chunks (segmentsOfBy l.encoding.tokens Encoding.read c size size_pos text)) :=
  (Encoding.represents (Encoding.parts_merge _ hl) l rfl).forall_split_iff c text
    (s := .loaded l) rfl

end TextChunks
