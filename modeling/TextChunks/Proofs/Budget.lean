import TextChunks.Proofs.Alphabets
import TextChunks.Proofs.Normalised

namespace TextChunks

namespace Encoding

variable {e : Encoding}

/-- Where every character is of one token, windows are parts of the text with no more tokens than
`size`. -/
theorem Follows.of_mem_window {size : Nat} {s : Text} {segs : List Segment}
    (h : Follows e size s segs) (hone : ∀ c ∈ s, (e.tokens [c]).length = 1) {y : Text}
    (hy : Segment.window y ∈ segs) :
    y <:+: s ∧ (e.tokens y).length ≤ size := by
  induction h with
  | nil => simp at hy
  | @blank x z segs hb hrest ih =>
    have hy' : Segment.window y ∈ segs := by simpa using hy
    obtain ⟨hinf, hle⟩ := ih (fun d hd => hone d (by simp [hd])) hy'
    exact ⟨hinf.trans (List.suffix_append x z).isInfix, hle⟩
  | @window x z segs hle hrest ih =>
    rcases List.mem_cons.1 hy with heq | hy
    · obtain rfl := Segment.window.inj heq
      exact ⟨(List.prefix_append y z).isInfix, hle⟩
    · obtain ⟨hinf, hle⟩ := ih (fun d hd => hone d (by simp [hd])) hy
      exact ⟨hinf.trans (List.suffix_append x z).isInfix, hle⟩
  | @torn x z c segs hc hrest ih =>
    have := hone c (by simp)
    omega
  | tail => simp at hy

theorem blank_notMem_merges : ∀ e ∈ known, ∀ c ∈ Text.blankChars, 0x80 ≤ c.toNat →
    Text.charBytes c ∉ e.merges :=
  forall_known (forall_of_all (by rw [merges_cl100k]; decide))
    (forall_of_all (by rw [merges_o200k]; decide))
    (forall_of_all (by decide))

/-- Blank characters of one token are ASCII. -/
theorem toNat_of_isBlank (he : e ∈ known) {c : Char} (hb : Text.isBlank c = true)
    (hone : (e.tokens [c]).length = 1) : c.toNat < 0x80 := by
  by_contra hc
  exact blank_notMem_merges e he c (Text.mem_blankChars hb) (by omega)
    (mem_merges_of_length_one he (by omega) hone)

/-- A window as a chunk has no more tokens than before. -/
theorem length_tokens_normalised_le (he : e ∈ known) {y : Text} (hd : e.DigitsApart y)
    (hone : ∀ c ∈ y, (e.tokens [c]).length = 1) (keepLines : Bool) :
    (e.tokens ((Segment.window y).normalised keepLines)).length ≤ (e.tokens y).length := by
  have hblank : ∀ c ∈ y, Text.isBlank c = true → c.toNat < 0x80 :=
    fun c hc hb => toNat_of_isBlank he hb (hone c hc)
  cases keepLines with
  | true => exact length_tokens_strip_le he hd hblank
  | false =>
    refine (length_tokens_strip_le he hd.collapse fun c hc hb => ?_).trans
      (length_tokens_collapse_le he hd)
    rcases Text.mem_collapse hc with rfl | hc
    · decide
    · exact hblank c hc hb

/-- Over characters of one token, the chunks of a text that leaves no tail have no more tokens than
windows. -/
theorem length_tokens_chunk_le (he : e ∈ known) {A : Set Char}
    (hchar : ∀ a ∈ A, (e.ids [a]).length = 1)
    (hdigits : ∀ a ∈ A, ∀ b ∈ A, a.isDigit = true → b.isDigit = true → (e.ids [a, b]).length = 2)
    {s : Text} (hs : s.Over A) {c : Config} (hmost : (e.ids s).length ≤ c.maxWindows) {size : Nat}
    (size_pos : 0 < size) :
    ∀ chunk ∈ c.chunks (segmentsOfBy e.tokens read c size size_pos s),
      (e.tokens chunk).length ≤ size := by
  have hlen := length_ids (parts_merge e he)
  have hsteady := steady_of_over_replacement he (fun a ha => .inl (hchar a ha)) hdigits hs
  have hone : ∀ d ∈ s, (e.tokens [d]).length = 1 := by
    intro d hd
    rcases hs d hd with hletter | hA
    · exact length_tokens_of_ascii he (toNat_lt_of_isLetter hletter)
    · rw [← hlen, hchar d hA]
  intro chunk hchunk
  obtain ⟨g, hg, hchunk⟩ := Config.exists_of_mem_chunks hchunk
  obtain ⟨rfl, -⟩ := Segment.of_chunk? hchunk
  by_cases hb : s.blank = true
  · rw [segmentsOfBy, if_pos hb] at hg
    simp at hg
  rw [segmentsOfBy, if_neg hb] at hg
  have hfollows := follows_segmentsBy he size_pos c.minCut c.maxWindows _ hsteady rfl
  have htail := isTail_of_mem_segmentsBy (fun t ht => mt (tokens_eq_nil he).1 ht) size_pos
    c.minCut c.maxWindows _ (by rwa [← hlen]) g hg
  cases g with
  | blank y => simp [Segment.normalised, (tokens_eq_nil he).2 rfl]
  | window y =>
    obtain ⟨hinf, hle⟩ := hfollows.of_mem_window hone hg
    exact (length_tokens_normalised_le he (hsteady.digits.of_isInfix hinf)
      (fun d hd => hone d (hinf.subset hd)) c.keepLines).trans hle
  | tail y => simp [Segment.isTail] at htail

end Encoding

theorem Config.short_finest (tokens : Nat) (h : tokens ≤ 100) : (Config.finest tokens).Short := by
  apply Config.short_of_lt
  change ∀ n ∈ [1, tokens + 1, 0, 0], n < 10 ^ 100
  have hlarge : 101 < 10 ^ 100 := by decide
  simp only [List.forall_mem_cons]
  exact ⟨by omega, by omega, by omega, by omega, fun n hn => absurd hn List.not_mem_nil⟩

def Config.pairs (tokens : Nat) : Config :=
  { Config.finest tokens with windowSize := 2, windowSize_pos := Nat.two_pos }

theorem Config.short_pairs (tokens : Nat) (h : tokens ≤ 100) : (Config.pairs tokens).Short := by
  intro n hn
  rcases List.mem_cons.1 hn with rfl | hn
  · exact Config.short_finest 1 (by decide) 2 (by decide)
  · exact Config.short_finest tokens h n (List.mem_cons_of_mem _ hn)

namespace Encoding

/-- The second window of the text, `1100`, counts three tokens as a chunk. -/
theorem chunks_counted_anew :
    "1100".toList ∈ (Config.pairs 5).chunks (segmentsOfBy cl100k.tokens read (.pairs 5) 2
    (by decide) "111100".toList) ∧ (cl100k.tokens "1100".toList).length = 3 := by decide +kernel

end Encoding

namespace LoadedEncoding

variable (l : LoadedEncoding) (hl : l.encoding ∈ Encoding.known) {c : Config} {text : Text}

include hl

/-- The records of a text under a known encoding count the tokens of its chunks. -/
theorem tokenCounts_of_records {document : Literal} {records : List ChunkRecord} {t' : AnyTokenizer}
    (h : (AnyTokenizer.tokenizer.records c document (some text)).runIn (.loaded l) =
      (.ok records, t')) :
    records.map ChunkRecord.tokenCount =
      (c.chunks (segmentsOfBy l.encoding.tokens Encoding.read c c.windowSize
        c.windowSize_pos text)).map fun chunk => (l.encoding.tokens chunk).length := by
  obtain ⟨htexts, hcounts⟩ :=
    (Encoding.represents (Encoding.parts_merge _ hl) l rfl).counted_of_records
      ((Encoding.tokens_eq_nil hl).2 rfl) (s := .loaded l) rfl h
  rw [← htexts, List.map_map]
  exact List.map_congr_left hcounts

theorem exists_records (hc : c.Short) (document text : Text) :
    ∃ records t', (AnyTokenizer.tokenizer.records c document (some text)).runIn (.loaded l) =
      (.ok records, t') :=
  (Encoding.represents (Encoding.parts_merge _ hl) l rfl).exists_records_of_short hc document text rfl

/-- A bound on the tokens of chunks is one on what records count. -/
theorem records_le_of_chunks {n : Nat} (h : ∀ chunk ∈ c.chunks (segmentsOfBy l.encoding.tokens
      Encoding.read c c.windowSize c.windowSize_pos text), (l.encoding.tokens chunk).length ≤ n)
    {document : Literal} {records : List ChunkRecord} {t' : AnyTokenizer}
    (hrun : (AnyTokenizer.tokenizer.records c document (some text)).runIn (.loaded l) =
      (.ok records, t')) : ∀ r ∈ records, r.tokenCount ≤ n := by
  intro r hr
  have hcount : r.tokenCount ∈ records.map ChunkRecord.tokenCount := List.mem_map_of_mem hr
  rw [l.tokenCounts_of_records hl hrun] at hcount
  obtain ⟨chunk, hchunk, hlength⟩ := List.mem_map.1 hcount
  exact hlength ▸ h chunk hchunk

theorem chunks_le_of_records (hc : c.Short) {n : Nat}
    (h : ∀ records t', (AnyTokenizer.tokenizer.records c (.text []) (some text)).runIn (.loaded l) =
      (.ok records, t') → ∀ r ∈ records, r.tokenCount ≤ n) :
    ∀ chunk ∈ c.chunks (segmentsOfBy l.encoding.tokens Encoding.read c c.windowSize
      c.windowSize_pos text), (l.encoding.tokens chunk).length ≤ n := by
  obtain ⟨records, t', hrun⟩ := l.exists_records hl hc [] text
  have hle : ∀ count ∈ records.map ChunkRecord.tokenCount, count ≤ n :=
    List.forall_mem_map.2 (h records t' hrun)
  rw [l.tokenCounts_of_records hl hrun] at hle
  exact List.forall_mem_map.1 hle

end LoadedEncoding

/-- Under a known encoding the records of every text over letters and the characters of `A` count no
more tokens than windows have, exactly if each of these is of one token, and no two digits of them
are joined. There are records under every configuration that can be written. -/
theorem records_tokenCount_le_iff (l : LoadedEncoding) (hl : l.encoding ∈ Encoding.known)
    (A : Set Char) :
    (∀ text : Text, text.Over A → ∀ c : Config, (l.encoding.ids text).length ≤ c.maxWindows →
      (c.Short → ∀ document : Text, ∃ records t',
        (AnyTokenizer.tokenizer.records c document (some text)).runIn (.loaded l) =
          (.ok records, t')) ∧
      ∀ (document : Literal) records t',
        (AnyTokenizer.tokenizer.records c document (some text)).runIn (.loaded l) =
          (.ok records, t') → ∀ r ∈ records, r.tokenCount ≤ c.windowSize) ↔
      (∀ a ∈ A, (l.encoding.ids [a]).length = 1) ∧
        ∀ a ∈ A, ∀ b ∈ A, a.isDigit = true → b.isDigit = true →
          (l.encoding.ids [a, b]).length = 2 := by
  constructor
  · intro h
    have hchunks {text : Text} (htext : text.Over A) {c : Config} (hc : c.Short)
        (hmost : (l.encoding.ids text).length ≤ c.maxWindows) :=
      l.chunks_le_of_records hl hc ((h text htext c hmost).2 (.text []))
    refine ⟨fun a ha => ?_, fun a ha b hb hda hdb => ?_⟩
    · by_contra hone
      have hfew : (l.encoding.ids [a, 'x']).length ≤ 100 := by
        refine (Encoding.length_ids_le hl _).trans ?_
        have hbytes : Text.toBytes [a, 'x'] = Text.charBytes a ++ Text.charBytes 'x' := by
          simp [Text.toBytes]
        rw [hbytes, List.length_append]
        have ha := Encoding.length_charBytes_le a
        have hx := Encoding.length_charBytes_le 'x'
        omega
      rw [Encoding.length_ids (Encoding.parts_merge _ hl)] at hone
      have hle := hchunks (Text.over_letter_after ha) (Config.short_finest _ hfew) (Nat.le_succ _)
        [Bytes.replacement]
      rw [Encoding.length_tokens_replacement _ hl] at hle
      refine absurd (hle ?_) (by decide : ¬3 ≤ 1)
      change _ ∈ Config.chunks _ (segmentsOfBy _ _ _ 1 (by decide) _)
      rw [Encoding.segmentsOfBy_torn hl _ hone, Config.chunks_window _ rfl]
      exact List.mem_cons_self
    · by_contra hnot
      obtain ⟨he, rfl, rfl⟩ := Encoding.eq_of_digits_joined hl hda hdb hnot
      have hle := hchunks (c := .pairs 5)
        (Text.over_digits ha hb (s := "111100".toList) (forall_of_all (by decide)))
        (Config.short_pairs _ (by decide)) ((Encoding.length_ids_le hl _).trans (by decide))
      rw [he] at hle
      have hthree := hle _ Encoding.chunks_counted_anew.1
      rw [Encoding.chunks_counted_anew.2] at hthree
      exact absurd hthree (by decide)
  · rintro ⟨hchar, hdigits⟩ text htext c hmost
    have hle := Encoding.length_tokens_chunk_le hl hchar hdigits htext hmost c.windowSize_pos
    exact ⟨fun hc document => l.exists_records hl hc document text,
      fun document records t' => l.records_le_of_chunks hl hle⟩

theorem records_tokenCount_le_two_sentences :
    Encoding.cl100k ∈ Encoding.known ∧
      ∃ records t', (AnyTokenizer.tokenizer.records (.pairs 8) (.text "doc-1".toList)
        (some "One. Two".toList)).runIn (.loaded ⟨0, Encoding.cl100k⟩) = (.ok records, t') ∧
        ∀ r ∈ records, r.tokenCount ≤ 2 := by
  have hknown : Encoding.cl100k ∈ Encoding.known := Encoding.mem_known_cl100k
  obtain ⟨hexists, hle⟩ :=
    (records_tokenCount_le_iff ⟨0, Encoding.cl100k⟩ hknown {'.', ' '}).2
      ⟨Encoding.length_ids_period_space,
        fun a ha b _ hda => absurd hda (Encoding.not_isDigit_period_space a ha)⟩
      _ Text.over_two_sentences (.pairs 8) ((Encoding.length_ids_le hknown _).trans (by decide))
  obtain ⟨records, t', hrun⟩ := hexists (Config.short_pairs _ (by decide)) "doc-1".toList
  exact ⟨hknown, records, t', hrun, hle _ records t' hrun⟩

/-- A chunk of more tokens than windows have, with windows enough for every token. -/
theorem records_count_more_than_windows :
    (Encoding.cl100k.ids "111100".toList).length ≤ (Config.pairs 5).maxWindows ∧
      ∃ records t', (AnyTokenizer.tokenizer.records (.pairs 5) (.text "doc-1".toList)
        (some "111100".toList)).runIn (.loaded ⟨0, Encoding.cl100k⟩) = (.ok records, t') ∧
        ∃ r ∈ records, (Config.pairs 5).windowSize < r.tokenCount := by
  refine ⟨(Encoding.length_ids_le Encoding.mem_known_cl100k _).trans (by decide), ?_⟩
  obtain ⟨records, t', hrun⟩ :=
    LoadedEncoding.exists_records ⟨0, Encoding.cl100k⟩ Encoding.mem_known_cl100k
      (Config.short_pairs 5 (by decide)) "doc-1".toList "111100".toList
  have hcount := LoadedEncoding.tokenCounts_of_records _ Encoding.mem_known_cl100k hrun
  obtain ⟨hchunk, hthree⟩ := Encoding.chunks_counted_anew
  have hmem : 3 ∈ records.map ChunkRecord.tokenCount := by
    rw [hcount]
    exact List.mem_map.2 ⟨_, hchunk, hthree⟩
  obtain ⟨r, hr, hr3⟩ := List.mem_map.1 hmem
  exact ⟨records, t', hrun, r, hr, by rw [hr3]; decide⟩

end TextChunks
