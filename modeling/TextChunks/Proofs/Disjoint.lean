import TextChunks.Proofs.Alphabets

namespace TextChunks

/-- The chunks are at places of the text, each of which starts where the piece before it ends or
later. -/
def StandIn (s : Text) (chunks : List Text) : Prop :=
  ∃ p : Nat → Nat, (∀ i c, chunks[i]? = some c → (s.drop (p i)).take c.length = c) ∧
    ∀ i c, chunks[i]? = some c → i + 1 < chunks.length → p i + c.length ≤ p (i + 1)

namespace StandIn

theorem nil (s : Text) : StandIn s [] := ⟨fun _ => 0, by simp, by simp⟩

theorem cons {l c r : Text} {chunks : List Text} (h : StandIn r chunks) :
    StandIn (l ++ c ++ r) (c :: chunks) := by
  obtain ⟨p, hp, hle⟩ := h
  refine ⟨fun i => i.casesOn l.length fun i => l.length + c.length + p i, ?_, ?_⟩
  · rintro (_ | i) d hd
    · obtain rfl : c = d := by simpa using hd
      simp
    · rw [List.getElem?_cons_succ] at hd
      have hdrop : (l ++ c ++ r).drop (l.length + c.length + p i) = r.drop (p i) := by
        rw [← List.length_append, List.drop_length_add_append]
      simpa only [hdrop] using hp i d hd
  · rintro (_ | i) d hd hi
    · obtain rfl : c = d := by simpa using hd
      exact Nat.le_add_right _ _
    · rw [List.getElem?_cons_succ] at hd
      have := hle i d hd (by simpa using hi)
      simp only
      omega

theorem append_left {r : Text} {chunks : List Text} (h : StandIn r chunks) (l : Text) :
    StandIn (l ++ r) chunks := by
  obtain ⟨p, hp, hle⟩ := h
  refine ⟨fun i => l.length + p i, fun i c hc => ?_, fun i c hc hi => ?_⟩
  · rw [List.drop_length_add_append, hp i c hc]
  · have := hle i c hc hi
    simp only
    omega

theorem isInfix {s c : Text} {chunks : List Text} (h : StandIn s chunks) (hc : c ∈ chunks) :
    c <:+: s := by
  obtain ⟨p, hp, -⟩ := h
  obtain ⟨i, hi⟩ := List.mem_iff_getElem?.1 hc
  have hpre : (s.drop (p i)).take c.length <+: s.drop (p i) := List.take_prefix _ _
  rw [hp i c hi] at hpre
  exact hpre.isInfix.trans (List.drop_suffix _ _).isInfix

end StandIn

namespace Encoding

variable {e : Encoding}

/-- Where only U+FFFD is of three tokens, the chunks of segments without a tail stand in the
text. -/
theorem Follows.standIn {size : Nat} {s : Text} {segs : List Segment} (h : Follows e size s segs)
    (hthree : ∀ c ∈ s, (e.tokens [c]).length = 3 → c = Bytes.replacement)
    (htail : ∀ g ∈ segs, g.isTail = false) {c : Config} (hc : c.keepLines = true) :
    StandIn s (c.chunks segs) := by
  have hwindow : ∀ {y z : Text} {segs : List Segment}, StandIn z (c.chunks segs) →
      StandIn (y ++ z) (c.chunks (.window y :: segs)) := by
    intro y z segs hz
    obtain ⟨l, r, hy, -, -⟩ := Text.exists_strip y
    rw [c.chunks_window hc]
    by_cases hlen : c.minLength < y.strip.length
    · rw [if_pos hlen]
      have := (hz.append_left r).cons (l := l) (c := y.strip)
      rwa [← List.append_assoc, ← hy] at this
    · rw [if_neg hlen]
      exact hz.append_left y
  -- Each piece of the text holds the chunk of its segment, in the order of the segments.
  induction h with
  | nil => exact .nil []
  | blank hb hrest ih =>
    have hz := ih (fun d hd => hthree d (by simp [hd])) fun g hg => htail g (by simp [hg])
    exact hz.append_left _
  | window hle hrest ih =>
    exact hwindow (ih (fun d hd => hthree d (by simp [hd])) fun g hg => htail g (by simp [hg]))
  | torn hd hrest ih =>
    have hz := ih (fun d hd => hthree d (by simp [hd])) fun g hg => htail g (by simp [hg])
    rw [hthree _ (by simp) hd, List.append_cons]
    exact hwindow hz
  | tail => simp [Segment.isTail] at htail

/-- Over characters of one token and U+FFFD, the chunks of a text that leaves no tail stand in
it. -/
theorem standIn_of_over (he : e ∈ known) {A : Set Char}
    (hchar : ∀ a ∈ A, (e.ids [a]).length = 1 ∨ a = Bytes.replacement)
    (hdigits : ∀ a ∈ A, ∀ b ∈ A, a.isDigit = true → b.isDigit = true → (e.ids [a, b]).length = 2)
    {s : Text} (hs : s.Over A) {c : Config} (hc : c.keepLines = true)
    (hmost : (e.ids s).length ≤ c.maxWindows) {size : Nat} (size_pos : 0 < size) :
    StandIn s (c.chunks (segmentsOfBy e.tokens read c size size_pos s)) := by
  by_cases hb : s.blank = true
  · rw [segmentsOfBy, if_pos hb]
    exact .nil s
  · have hlen := length_ids (parts_merge e he)
    rw [segmentsOfBy, if_neg hb]
    have hfollows := follows_segmentsBy he size_pos c.minCut c.maxWindows _
      (steady_of_over_replacement he hchar hdigits hs) rfl
    refine hfollows.standIn (fun a ha hthree => ?_)
      (isTail_of_mem_segmentsBy (fun t ht => ?_) size_pos _ _ _ ?_) hc
    · rw [← hlen] at hthree
      rcases hs a ha with hletter | hA
      · rw [hlen, length_tokens_of_ascii he (toNat_lt_of_isLetter hletter)] at hthree
        omega
      · exact (hchar a hA).resolve_left (by omega)
    · exact mt (tokens_eq_nil he).1 ht
    · rwa [← hlen]

/-- The chunks of a text with a character of several tokens, other than U+FFFD, do not stand in
it. -/
theorem not_standIn_of_several (he : e ∈ known) {a : Char} (h : (e.ids [a]).length ≠ 1)
    (ha : a ≠ Bytes.replacement) {c : Config} (hc : c.keepLines = true) (hmin : c.minLength = 0) :
    ¬StandIn [a, 'x'] (c.chunks (segmentsOfBy e.tokens read c 1 (by decide) [a, 'x'])) := by
  intro hstand
  rw [length_ids (parts_merge e he)] at h
  rw [segmentsOfBy_torn he c h, c.chunks_window hc, hmin,
    show Text.strip [Bytes.replacement] = [Bytes.replacement] by decide,
    if_pos (by decide)] at hstand
  have hmem := (hstand.isInfix (by simp)).subset (List.mem_singleton_self Bytes.replacement)
  rcases List.mem_cons.1 hmem with heq | heq
  · exact ha heq.symm
  · exact absurd heq (by decide)

/-- The last two windows of the text overlap, since the second one is encoded anew as one token. -/
theorem chunks_joined_digits :
    (Config.finest 4).chunks (segmentsOfBy cl100k.tokens read (.finest 4) 2
    (by decide) "1110".toList) = ["11".toList, "10".toList, "0".toList] := by decide +kernel

end Encoding

theorem not_standIn_joined_digits :
    ¬StandIn "1110".toList ["11".toList, "10".toList, "0".toList] := by
  rintro ⟨p, hp, hle⟩
  have h0 := hle 0 _ rfl (by decide)
  have h1 := hle 1 _ rfl (by decide)
  have h2 := congrArg List.length (hp 2 _ rfl)
  simp at h0 h1 h2
  omega

/-- Splitting under a known encoding gives disjoint pieces of every text over letters and the
characters of `A`, in their order, exactly if each of these is of one token or is U+FFFD, and no two
digits of them are joined. -/
theorem split_standIn_iff (l : LoadedEncoding) (hl : l.encoding ∈ Encoding.known) (A : Set Char) :
    (∀ text : Text, text.Over A → ∀ c : Config, c.keepLines = true →
      (l.encoding.ids text).length ≤ c.maxWindows → ∀ size : Int, 0 < size →
        ∃ chunks t',
          (((⟨c, AnyTokenizer.tokenizer⟩ : Splitter AnyTokenizer).split (some text) size).run).run
            (.loaded l) = (.ok chunks, t') ∧ StandIn text chunks) ↔
      (∀ a ∈ A, (l.encoding.ids [a]).length = 1 ∨ a = Bytes.replacement) ∧
        ∀ a ∈ A, ∀ b ∈ A, a.isDigit = true → b.isDigit = true →
          (l.encoding.ids [a, b]).length = 2 := by
  simp only [l.forall_split_iff hl]
  constructor
  · intro h
    refine ⟨fun a ha => ?_, fun a ha b hb hda hdb => ?_⟩
    · by_contra hnot
      rw [not_or] at hnot
      exact Encoding.not_standIn_of_several hl hnot.1 hnot.2 rfl rfl
        (h _ (Text.over_letter_after ha) (.finest (l.encoding.ids [a, 'x']).length) rfl
          (Nat.le_succ _) 1 (by decide))
    · by_contra hnot
      obtain ⟨he, rfl, rfl⟩ := Encoding.eq_of_digits_joined hl hda hdb hnot
      have hstand := h _ (Text.over_digits ha hb (s := "1110".toList) (forall_of_all (by decide)))
        (.finest 4) rfl ((Encoding.length_ids_le hl _).trans (by decide)) 2 (by decide)
      rw [he, Encoding.chunks_joined_digits] at hstand
      exact not_standIn_joined_digits hstand
  · rintro ⟨hchar, hdigits⟩ text htext c hc hmost size size_pos
    exact Encoding.standIn_of_over hl hchar hdigits htext hc hmost size_pos

theorem split_standIn_two_sentences :
    Encoding.cl100k ∈ Encoding.known ∧
      ∃ chunks t', (((⟨.finest 8, AnyTokenizer.tokenizer⟩ : Splitter AnyTokenizer).split
        (some "One. Two".toList) 2).run).run (.loaded ⟨0, Encoding.cl100k⟩) = (.ok chunks, t') ∧
          StandIn "One. Two".toList chunks := by
  have hknown : Encoding.cl100k ∈ Encoding.known := Encoding.mem_known_cl100k
  refine ⟨hknown, (split_standIn_iff ⟨0, Encoding.cl100k⟩ hknown {'.', ' '}).2 ⟨?_, ?_⟩ _
    Text.over_two_sentences (.finest 8) rfl ?_ 2 (by decide)⟩
  · exact fun a ha => .inl (Encoding.length_ids_period_space a ha)
  · exact fun a ha b _ hda => absurd hda (Encoding.not_isDigit_period_space a ha)
  · exact (Encoding.length_ids_le hknown _).trans (by decide)

/-- Chunks that overlap, with windows enough for every token. -/
theorem split_overlapping_digits :
    (Config.finest 4).keepLines = true ∧
      (Encoding.cl100k.ids "1110".toList).length ≤ (Config.finest 4).maxWindows ∧
      ∃ t', (((⟨.finest 4, AnyTokenizer.tokenizer⟩ : Splitter AnyTokenizer).split
        (some "1110".toList) 2).run).run (.loaded ⟨0, Encoding.cl100k⟩) =
          (.ok ["11".toList, "10".toList, "0".toList], t') ∧
          ¬StandIn "1110".toList ["11".toList, "10".toList, "0".toList] := by
  refine ⟨rfl, (Encoding.length_ids_le Encoding.mem_known_cl100k _).trans (by decide), ?_⟩
  obtain ⟨t', hrun⟩ :=
    LoadedEncoding.split_run ⟨0, Encoding.cl100k⟩ Encoding.mem_known_cl100k (.finest 4)
    (show 0 < Int.toNat 2 by decide) "1110".toList
  refine ⟨t', hrun.trans ?_, not_standIn_joined_digits⟩
  exact congrArg (fun chunks => (Except.ok chunks, t')) Encoding.chunks_joined_digits

end TextChunks
