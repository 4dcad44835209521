import TextChunks.Proofs.Alphabets
import TextChunks.Proofs.Segmentation

namespace TextChunks

/-- Without a limit on their length, chunks have the characters of the segments that are not
blank. -/
theorem Config.unblank_chunks (c : Config) (hmin : c.minLength = 0) {segs : List Segment}
    (h : ∀ s, Segment.blank s ∈ segs → s.blank = true) :
    Text.unblank (c.chunks segs).flatten = Text.unblank (segs.flatMap Segment.text) := by
  have hpos : (fun s : Text => decide (0 < s.length)) = fun s => !s.isEmpty := by
    funext s
    cases s <;> simp
  rw [c.chunks_eq h, hmin, hpos, List.flatten_filter_not_isEmpty]
  clear h
  induction segs with
  | nil => rfl
  | cons g segs ih =>
    have hg : Text.unblank
        (if c.keepLines && !g.isTail then g.text.strip else g.text.collapse.strip) =
        Text.unblank g.text := by
      split
      · exact Text.unblank_strip _
      · rw [Text.unblank_strip, Text.unblank_collapse]
    rw [List.map_cons, List.flatten_cons, Text.unblank_append, hg, ih, List.flatMap_cons,
      Text.unblank_append]

namespace Encoding

variable {e : Encoding}

/-- Where only blank characters and U+FFFD are of three tokens, segments keep all others. -/
theorem Follows.unblank_sublist {size : Nat} {s : Text} {segs : List Segment}
    (h : Follows e size s segs)
    (hthree : ∀ c ∈ s, (e.tokens [c]).length = 3 → Text.isBlank c = true ∨ c = Bytes.replacement) :
    (Text.unblank s).Sublist (Text.unblank (segs.flatMap Segment.text)) := by
  induction h with
  | nil => exact .slnil
  | blank hb hrest ih =>
    have hz := ih fun d hd => hthree d (by simp [hd])
    rw [List.flatMap_cons, Text.unblank_append, Text.unblank_append]
    exact hz.append_left _
  | window hle hrest ih =>
    have hz := ih fun d hd => hthree d (by simp [hd])
    rw [List.flatMap_cons, Text.unblank_append, Text.unblank_append]
    exact hz.append_left _
  | @torn y z c segs hd hrest ih =>
    have hz := ih fun d hd => hthree d (by simp [hd])
    have hc : (Text.unblank [c]).Sublist (Text.unblank [Bytes.replacement]) := by
      rcases hthree c (by simp) hd with hb | rfl
      · rw [Text.unblank_cons_blank hb]
        exact List.nil_sublist _
      · exact .refl _
    rw [List.append_cons, List.flatMap_cons]
    simp only [Segment.text, Text.unblank_append]
    exact ((List.Sublist.refl _).append hc).append hz
  | tail => simp [Segment.text]

/-- The characters that may stand beside letters without any text being lost: those of one token,
U+FFFD, and blank ones of three tokens; and no two digits, nor two characters of three tokens, are
joined. -/
structure Keeps (e : Encoding) (A : Set Char) : Prop where
  char : ∀ a ∈ A, (e.ids [a]).length = 1 ∨ a = Bytes.replacement ∨
    (Text.isBlank a = true ∧ (e.ids [a]).length = 3)
  digits : ∀ a ∈ A, ∀ b ∈ A, a.isDigit = true → b.isDigit = true → (e.ids [a, b]).length = 2
  pair : ∀ a ∈ A, ∀ b ∈ A, (e.ids [a]).length = 3 → (e.ids [b]).length = 3 →
    (e.ids [a, b]).length = 6

theorem Keeps.unblank_sublist (he : e ∈ known) {A : Set Char} (h : e.Keeps A) {s : Text}
    (hs : s.Over A) {c : Config} (hmin : c.minLength = 0) {size : Nat} (size_pos : 0 < size) :
    (Text.unblank s).Sublist
      (Text.unblank (c.chunks (segmentsOfBy e.tokens read c size size_pos s)).flatten) := by
  rw [c.unblank_chunks hmin blank_of_mem_segmentsOfBy]
  by_cases hb : s.blank = true
  · rw [Text.unblank_eq_nil.2 hb]
    exact List.nil_sublist _
  · have hlen := length_ids (parts_merge e he)
    rw [segmentsOfBy, if_neg hb]
    refine (follows_segmentsBy he size_pos c.minCut c.maxWindows _
      (steady_of_over he h.char h.digits h.pair hs) rfl).unblank_sublist fun a ha hthree => ?_
    rw [← hlen] at hthree
    rcases hs a ha with hletter | hA
    · rw [hlen, length_tokens_of_ascii he (toNat_lt_of_isLetter hletter)] at hthree
      omega
    · rcases h.char a hA with hone | rfl | ⟨hb, -⟩
      · omega
      · exact .inr rfl
      · exact .inl hb

/-- A letter alone is a window. -/
theorem segmentsBy_letter (he : e ∈ known) (n : Nat) :
    segmentsBy e.tokens read 1 (by decide) 0 (n + 1) [[0x78]] = [.window ['x']] := by
  have hread : read [[0x78]] = ['x'] := by decide
  have hcut : Text.cut 0 ['x'] = ['x'] := by decide
  have hblank : Text.blank ['x'] = false := by decide
  have hone : e.tokens ['x'] = [[0x78]] :=
    tokens_of_length_one he (length_tokens_of_ascii he (by decide))
  rw [segmentsBy]
  simp only [List.take_succ_cons, List.take_zero, hread, hcut, hblank]
  simp [segmentsBy, hone]

/-- The last of four tokens is a continuation byte. -/
theorem toText_last_of_four (he : e ∈ known) {a : Char} {p q r t : Bytes}
    (h : e.tokens [a] = [p, q, r, t]) : Bytes.toText t = [Bytes.replacement] := by
  have hbytes : (e.tokens [a]).flatten = Text.charBytes a := by simpa using flatten_tokens he [a]
  have hsingle := eq_map_singleton_of_length (L := e.tokens [a])
    (fun p hp => ne_nil_of_mem_tokens he hp) (by rw [hbytes, h]; exact length_charBytes_le a)
  obtain ⟨x, b, hb, hlast⟩ := Text.charBytes_last a
  rw [hbytes, hb, h] at hsingle
  obtain rfl : t = [b] := by simpa using congrArg List.getLast? hsingle
  rcases hlast with ⟨hascii, -⟩ | ⟨-, hlow, hhigh, -⟩
  · have hone := length_tokens_of_ascii he hascii
    rw [h] at hone
    exact absurd hone (by simp)
  · exact Bytes.toText_cons_tail hlow (by omega) []

/-- Windows of one token over a character of several and a letter: the first is U+FFFD, and takes
the next two tokens along. -/
theorem unblank_chunks_torn (he : e ∈ known) {a : Char} (h : (e.tokens [a]).length ≠ 1) (n : Nat) :
    Text.unblank ((Config.finest (n + 1)).chunks
      (segmentsOfBy e.tokens read (.finest (n + 1)) 1 (by decide) [a, 'x'])).flatten =
        Text.unblank (Bytes.replacement :: (segmentsBy e.tokens read 1 (by decide) 0 (n + 1)
          ((e.tokens [a] ++ [[0x78]]).drop 3)).flatMap Segment.text) := by
  rw [Config.unblank_chunks _ rfl blank_of_mem_segmentsOfBy, segmentsOfBy_torn he _ h]
  rfl

/-- A character of several tokens loses itself or the letter after it, but for U+FFFD and blank
characters of three tokens. -/
theorem several_lose (he : e ∈ known) {a : Char} (hone : (e.ids [a]).length ≠ 1)
    (ha : a ≠ Bytes.replacement) (hthree : ¬(Text.isBlank a = true ∧ (e.ids [a]).length = 3))
    (n : Nat) :
    ¬(Text.unblank [a, 'x']).Sublist (Text.unblank ((Config.finest (n + 1)).chunks
      (segmentsOfBy e.tokens read (.finest (n + 1)) 1 (by decide) [a, 'x'])).flatten) := by
  rw [length_ids (parts_merge e he)] at hone hthree
  rw [unblank_chunks_torn he hone]
  intro hsub
  have hx := hsub.subset (show 'x' ∈ Text.unblank [a, 'x'] from
    List.mem_filter.2 ⟨by simp, by decide⟩)
  have hfour : (e.tokens [a]).length ≤ 4 :=
    (length_le_length_flatten fun p hp => ne_nil_of_mem_tokens he hp).trans
      (by simpa [flatten_tokens he] using length_charBytes_le a)
  match hps : e.tokens [a], hone, length_tokens_pos he a, hfour with
  | [p, q], _, _, _ =>
    -- The letter is skipped with the second token of the character.
    rw [hps] at hx
    simp [segmentsBy, Text.unblank] at hx
    exact absurd hx.1 (by decide)
  | [p, q, r], _, _, _ =>
    -- The letter comes through, but a character that is not blank is lost.
    have hb : Text.isBlank a = false := by
      rw [Bool.eq_false_iff]
      exact fun hb => hthree ⟨hb, by rw [hps]; rfl⟩
    have hmem := hsub.subset (show a ∈ Text.unblank [a, 'x'] from
      List.mem_filter.2 ⟨List.mem_cons_self, by rw [hb]; rfl⟩)
    rw [hps, show ([p, q, r] ++ [[0x78]] : List Bytes).drop 3 = [[0x78]] from rfl,
      segmentsBy_letter he] at hmem
    have hax : a = Bytes.replacement ∨ a = 'x' := by
      simpa [Segment.text] using (List.mem_filter.1 hmem).1
    rcases hax with rfl | rfl
    · exact ha rfl
    · exact hone (length_tokens_of_ascii he (by decide))
  | [p, q, r, t], _, _, _ =>
    -- The last token is a continuation byte, with which the letter is skipped.
    rw [hps, show ([p, q, r, t] ++ [[0x78]] : List Bytes).drop 3 = [t, [0x78]] from rfl,
      segmentsBy_broken he (toText_last_of_four he hps)] at hx
    simp [segmentsBy, Segment.text, Text.unblank] at hx
    exact absurd hx.1 (by decide)
  | _ :: _ :: _ :: _ :: _ :: _, _, _, hfour =>
    simp only [List.length_cons] at hfour
    omega

/-- The blank characters of three tokens that `o200k` joins lose the letter after them. -/
theorem pair_lose_o200k {a b : Char} (ha : a ∈ Bytes.replacement :: Text.blankChars)
    (hb : b ∈ Bytes.replacement :: Text.blankChars) (ha3 : (o200k.ids [a]).length = 3)
    (hb3 : (o200k.ids [b]).length = 3) : (o200k.ids [a, b]).length = 6 ∨
      ¬(Text.unblank [a, b, 'x']).Sublist (Text.unblank ((Config.finest 6).chunks
        (segmentsOfBy o200k.tokens read (.finest 6) 1 (by decide) [a, b, 'x'])).flatten) := by
  have hall : ((Bytes.replacement :: Text.blankChars).all fun a =>
      (Bytes.replacement :: Text.blankChars).all fun b => decide ((o200k.ids [a]).length = 3 →
        (o200k.ids [b]).length = 3 → (o200k.ids [a, b]).length = 6 ∨
          ¬(Text.unblank [a, b, 'x']).Sublist (Text.unblank ((Config.finest 6).chunks
            (segmentsOfBy o200k.tokens read (.finest 6) 1 (by decide) [a, b, 'x'])).flatten))) =
      true := by decide +kernel
  exact of_decide_eq_true (List.all_eq_true.1 (List.all_eq_true.1 hall a ha) b hb) ha3 hb3

/-- The second window, `1100`, is encoded anew as more tokens than it had. -/
theorem digits_lose :
    ¬(Text.unblank "1111001".toList).Sublist (Text.unblank ((Config.finest 6).chunks
      (segmentsOfBy cl100k.tokens read (.finest 6) 2 (by decide) "1111001".toList)).flatten) := by
  decide +kernel

/-- If every text over letters and the characters of `A` comes through, these are characters that
keep it. -/
theorem keeps_of_unblank_sublist (he : e ∈ known) {A : Set Char}
    (h : ∀ s : Text, s.Over A → ∀ c : Config, c.minLength = 0 →
      ∀ (size : Nat) (size_pos : 0 < size), (Text.unblank s).Sublist
        (Text.unblank (c.chunks (segmentsOfBy e.tokens read c size size_pos s)).flatten)) :
    e.Keeps A := by
  have hlen := length_ids (parts_merge e he)
  have hchar : ∀ a ∈ A, (e.ids [a]).length = 1 ∨ a = Bytes.replacement ∨
      (Text.isBlank a = true ∧ (e.ids [a]).length = 3) := by
    intro a ha
    by_contra hnot
    simp only [not_or] at hnot
    exact several_lose he hnot.1 hnot.2.1 hnot.2.2 0
      (h _ (Text.over_letter_after ha) _ rfl 1 (by decide))
  refine ⟨hchar, fun a ha b hb hda hdb => ?_, fun a ha b hb ha3 hb3 => ?_⟩
  · by_contra hnot
    obtain ⟨rfl, rfl, rfl⟩ := eq_of_digits_joined he hda hdb hnot
    exact digits_lose (h _ (Text.over_digits ha hb (forall_of_all (by decide))) _ rfl 2 (by decide))
  · have hmem : ∀ d ∈ A, (e.ids [d]).length = 3 → d ∈ Bytes.replacement :: Text.blankChars := by
      intro d hd h3
      rcases hchar d hd with h1 | rfl | ⟨hblank, -⟩
      · omega
      · exact List.mem_cons_self
      · exact List.mem_cons_of_mem _ (Text.mem_blankChars hblank)
    -- Two of three tokens are joined by `o200k` alone, and only a few of them are.
    by_cases ho : e = o200k
    · subst ho
      refine (pair_lose_o200k (hmem a ha ha3) (hmem b hb hb3) ha3 hb3).resolve_right fun hnot =>
        hnot (h _ ?_ _ rfl 1 _)
      intro d hd
      have hd' : d = a ∨ d = b ∨ d = 'x' := by simpa using hd
      rcases hd' with rfl | rfl | rfl
      · exact .inr ha
      · exact .inr hb
      · exact .inl (by decide)
    · rw [hlen] at ha3 hb3
      rw [hlen, tokens_pair he (toNat_of_length_ne_one he (by omega)) (.inl ho),
        List.length_append, ha3, hb3]

end Encoding

namespace Text

def twoSlices (n : Nat) (a : Char) : Text := List.replicate n 'x' ++ a :: List.replicate (n - 1) 'x'

theorem over_twoSlices {A : Set Char} {a : Char} (ha : a ∈ A) (n : Nat) :
    (twoSlices n a).Over A := by
  intro c hc
  have hx : isLetter 'x' = true := by decide
  rcases List.mem_append.1 hc with hc | hc
  · exact .inl (List.eq_of_mem_replicate hc ▸ hx)
  · rcases List.mem_cons.1 hc with rfl | hc
    · exact .inr ha
    · exact .inl (List.eq_of_mem_replicate hc ▸ hx)

theorem cut_twoSlices {n : Nat} (hn : 0 < n) {a : Char} (ha : isMark a = true) :
    cut 0 (twoSlices n a) = List.replicate n 'x' ++ [a] := by
  have hmark : ∀ c ∈ List.replicate (n - 1) 'x', isMark c = false := by
    intro c hc
    rw [List.eq_of_mem_replicate hc]
    decide
  rw [cut, twoSlices, lastMark?_append ha hmark]
  simp only [List.length_replicate]
  rw [if_pos hn]
  simp [List.take_append]

/-- What is kept up to a mark at the start of the second slice takes all of that slice along. -/
theorem segmentsOfBy_twoSlices {n : Nat} (hn : 0 < n) {a : Char} (ha : isMark a = true)
    (size_pos : 0 < 2) :
    segmentsOfBy (slices n) List.flatten (.finest 2) 2 size_pos (twoSlices n a) =
      [.window (List.replicate n 'x' ++ [a])] := by
  have hslices : slices n (twoSlices n a) =
      [List.replicate n 'x', a :: List.replicate (n - 1) 'x'] := by
    rw [twoSlices, slices_append hn List.length_replicate, slices_short (by simp) (by simp; omega)]
  have hkept : slices n (List.replicate n 'x' ++ [a]) = [List.replicate n 'x', [a]] := by
    rw [slices_append hn List.length_replicate, slices_short (by simp) (by simp; omega)]
  have hblank : blank (twoSlices n a) = false := by
    rw [twoSlices, blank_append, Bool.and_eq_false_iff]
    left
    simp [blank, show isBlank 'x' = false by decide]
    omega
  have hwin : (List.take 2 [List.replicate n 'x', a :: List.replicate (n - 1) 'x']).flatten =
      twoSlices n a := by simp [twoSlices]
  rw [segmentsOfBy, hblank, if_neg (by decide), hslices]
  change segmentsBy (slices n) List.flatten 2 size_pos 0 (2 + 1) _ = _
  rw [segmentsBy]
  simp only [hwin, hblank, cut_twoSlices hn ha, hkept]
  simp [segmentsBy]

/-- A mark inside a slice loses the rest of the slice. -/
theorem slices_lose {n : Nat} (hn : 2 ≤ n) {a : Char} (ha : isMark a = true) (size_pos : 0 < 2) :
    ¬(unblank (twoSlices n a)).Sublist (unblank ((Config.finest 2).chunks
      (segmentsOfBy (slices n) List.flatten (.finest 2) 2 size_pos (twoSlices n a))).flatten) := by
  rw [Config.unblank_chunks _ rfl blank_of_mem_segmentsOfBy, segmentsOfBy_twoSlices (by omega) ha]
  intro hsub
  have hx : ∀ k, unblank (List.replicate k 'x') = List.replicate k 'x' := fun k =>
    List.filter_replicate_of_pos (by decide)
  have hlen := hsub.length_le
  rw [twoSlices, List.append_cons, unblank_append, unblank_append, List.flatMap_singleton,
    Segment.text, unblank_append, hx, hx] at hlen
  simp only [List.length_append, List.length_replicate] at hlen
  omega

end Text

theorem Text.Aligned.unblank_eq {cutter : Text → List Text} {s : Text} (h : Text.Aligned cutter s)
    {c : Config} (hmin : c.minLength = 0) {size : Nat} (size_pos : 0 < size) :
    Text.unblank (c.chunks (segmentsOfBy cutter List.flatten c size size_pos s)).flatten =
      Text.unblank s := by
  rw [c.unblank_chunks hmin blank_of_mem_segmentsOfBy]
  by_cases hb : s.blank = true
  · rw [segmentsOfBy, if_pos hb, Text.unblank_eq_nil.2 hb]
    rfl
  · rw [segmentsOfBy, if_neg hb,
      (Segmentation.segmentsBy h (a := []) size_pos _ _ _ rfl).covers, h.flatten]

namespace AnyTokenizer

inductive GivesBack : AnyTokenizer → Prop where
  | chars : GivesBack .chars
  | words (seen : PieceTable) : GivesBack (.words seen)
  | slices {n : Int} (seen : PieceTable) : 0 < n → GivesBack (.slices n seen)
  | loaded {l : LoadedEncoding} : l.encoding ∈ Encoding.known → GivesBack (.loaded l)

theorem GivesBack.decode_encode {t : AnyTokenizer} (h : t.GivesBack) (s : Text) :
    ∃ ts t', (tokenizer.encode s).runIn t = (.ok ts, t') ∧
      (tokenizer.decode ts).runIn t' = (.ok s, t') := by
  cases h with
  | chars =>
    exact represents_chars.decode_encode (fun s => (Text.aligned_singletons s).flatten) rfl s
  | words seen => exact represents_words.decode_encode Text.flatten_pieces ⟨seen, rfl⟩ s
  | slices seen hn => exact (represents_slices hn).decode_encode Text.flatten_pieces ⟨seen, rfl⟩ s
  | @loaded l hl =>
    exact (Encoding.represents (Encoding.parts_merge _ hl) l rfl).decode_encode
      (Encoding.read_tokens hl) rfl s

def Keeps (A : Set Char) : AnyTokenizer → Prop
  | .slices n _ => n = 1 ∨ ∀ a ∈ A, Text.isMark a = false
  | .loaded l => l.encoding.Keeps A
  | _ => True

end AnyTokenizer

theorem Text.Over.not_isMark {A : Set Char} {s : Text} (hs : s.Over A)
    (hA : ∀ a ∈ A, Text.isMark a = false) :
    ∀ c ∈ s, Text.isMark c = false := by
  intro c hc
  rcases hs c hc with h | h
  · have hletter := Encoding.isLetter_iff.1 h
    rw [Bool.eq_false_iff, ne_eq, Encoding.isMark_iff]
    omega
  · exact hA c h

/-- Slices of one character, and texts without marks, lose nothing. -/
theorem Text.slices_unblank_sublist_iff {n : Nat} (hn : 0 < n) (A : Set Char) :
    (∀ s : Text, s.Over A → ∀ c : Config, c.minLength = 0 →
      ∀ (size : Nat) (size_pos : 0 < size), (Text.unblank s).Sublist (Text.unblank
        (c.chunks (segmentsOfBy (Text.slices n) List.flatten c size size_pos s)).flatten)) ↔
      n = 1 ∨ ∀ a ∈ A, Text.isMark a = false := by
  constructor
  · intro h
    by_contra hnot
    obtain ⟨hone, hmark⟩ := not_or.1 hnot
    obtain ⟨a, ha, hm⟩ : ∃ a ∈ A, Text.isMark a = true := by simpa using hmark
    exact Text.slices_lose (by omega) hm (by decide) (h _ (Text.over_twoSlices ha n) _ rfl 2 _)
  · rintro (rfl | hA) s hs c hmin size size_pos
    · rw [funext Text.slices_one, (Text.aligned_singletons s).unblank_eq hmin]
    · rw [(Text.aligned_slices (hs.not_isMark hA)).unblank_eq hmin]

theorem Encoding.unblank_sublist_iff {e : Encoding} (he : e ∈ Encoding.known) (A : Set Char) :
    (∀ s : Text, s.Over A → ∀ c : Config, c.minLength = 0 →
      ∀ (size : Nat) (size_pos : 0 < size), (Text.unblank s).Sublist (Text.unblank
        (c.chunks (segmentsOfBy e.tokens Encoding.read c size size_pos s)).flatten)) ↔ e.Keeps A :=
  ⟨Encoding.keeps_of_unblank_sublist he, fun h _ hs _ hmin _ size_pos =>
    h.unblank_sublist he hs hmin size_pos⟩

/-- For a tokenizer that gives texts back, no text over letters and the characters of `A` loses a
character that is not blank, exactly if these are characters that may stand beside letters. -/
theorem split_unblank_sublist_iff (t : AnyTokenizer) (ht : t.GivesBack) (A : Set Char) :
    (∀ text : Text, text.Over A → ∀ c : Config, c.minLength = 0 → ∀ size : Int, 0 < size →
      ∃ chunks t',
        (((⟨c, AnyTokenizer.tokenizer⟩ : Splitter AnyTokenizer).split (some text) size).run).run t =
          (.ok chunks, t') ∧ (Text.unblank text).Sublist (Text.unblank chunks.flatten)) ↔
      t.Keeps A := by
  cases ht with
  | chars =>
    refine iff_of_true (fun text _ c hmin => ?_) trivial
    refine (AnyTokenizer.represents_chars.forall_split_iff c text rfl).2 fun size size_pos => ?_
    rw [(Text.aligned_singletons text).unblank_eq hmin]
  | words seen =>
    refine iff_of_true (fun text _ c hmin => ?_) trivial
    refine (AnyTokenizer.represents_words.forall_split_iff c text ⟨seen, rfl⟩).2
      fun size size_pos => ?_
    rw [(Text.aligned_words text).unblank_eq hmin]
  | @slices n seen hn =>
    have hone : n.toNat = 1 ↔ n = 1 := by omega
    rw [AnyTokenizer.Keeps, ← hone, ← Text.slices_unblank_sublist_iff (by omega) A]
    exact forall₄_congr fun text _ c _ =>
      (AnyTokenizer.represents_slices hn).forall_split_iff c text ⟨seen, rfl⟩
  | @loaded l hl =>
    rw [AnyTokenizer.Keeps, ← Encoding.unblank_sublist_iff hl A]
    exact forall₄_congr fun text _ c _ => l.forall_split_iff hl c text

theorem split_unblank_sublist_two_sentences :
    AnyTokenizer.GivesBack (.loaded ⟨0, Encoding.cl100k⟩) ∧
      ∃ chunks t', (((⟨.finest 8, AnyTokenizer.tokenizer⟩ : Splitter AnyTokenizer).split
        (some "One. Two".toList) 2).run).run (.loaded ⟨0, Encoding.cl100k⟩) = (.ok chunks, t') ∧
          (Text.unblank "One. Two".toList).Sublist (Text.unblank chunks.flatten) := by
  have hback : AnyTokenizer.GivesBack (.loaded ⟨0, Encoding.cl100k⟩) :=
    .loaded (l := ⟨0, Encoding.cl100k⟩) Encoding.mem_known_cl100k
  refine ⟨hback, (split_unblank_sublist_iff _ hback {'.', ' '}).2 ⟨?_, ?_, ?_⟩ _
    Text.over_two_sentences (.finest 8) rfl 2 (by decide)⟩
  · exact fun a ha => .inl (Encoding.length_ids_period_space a ha)
  · exact fun a ha b _ hda => absurd hda (Encoding.not_isDigit_period_space a ha)
  · exact fun a ha b _ hthree =>
      absurd (hthree.symm.trans (Encoding.length_ids_period_space a ha)) (by decide)

/-- A chunk of more tokens than its window had takes the tokens after it along. -/
theorem split_loses_digit :
    AnyTokenizer.GivesBack (.loaded ⟨0, Encoding.cl100k⟩) ∧ (Config.finest 6).minLength = 0 ∧
      ∃ chunks t', (((⟨.finest 6, AnyTokenizer.tokenizer⟩ : Splitter AnyTokenizer).split
        (some "1111001".toList) 2).run).run (.loaded ⟨0, Encoding.cl100k⟩) = (.ok chunks, t') ∧
          ¬(Text.unblank "1111001".toList).Sublist (Text.unblank chunks.flatten) := by
  have hknown : Encoding.cl100k ∈ Encoding.known := Encoding.mem_known_cl100k
  obtain ⟨t', hrun⟩ := LoadedEncoding.split_run ⟨0, Encoding.cl100k⟩ hknown (.finest 6)
    (show 0 < Int.toNat 2 by decide) "1111001".toList
  exact ⟨.loaded (l := ⟨0, Encoding.cl100k⟩) hknown, rfl, _, t', hrun, Encoding.digits_lose⟩

end TextChunks
