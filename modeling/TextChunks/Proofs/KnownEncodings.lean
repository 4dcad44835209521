import TextChunks.Proofs.ByteTokens

namespace TextChunks

namespace Text

theorem divisible_runOf (p : Char → Bool) : Divisible (Encoding.runOf p) where
  settled s m h := by
    cases s with
    | nil => simp
    | cons c s =>
      have hpos : 0 < runLength (fun d => p d == p c) (c :: s) := by simp [runLength]
      simp only [Encoding.runOf] at h
      obtain ⟨m, rfl⟩ : ∃ k, m = k + 1 := ⟨m - 1, by omega⟩
      exact settled_runLength _ (c :: s) (m + 1) h
  take s m hm h := by
    cases s with
    | nil => simp [Encoding.runOf] at h
    | cons c s =>
      obtain ⟨m, rfl⟩ : ∃ k, m = k + 1 := ⟨m - 1, by omega⟩
      exact (runLength_take _ (Nat.le_of_lt h)).ge
  drop s m hm h := by
    cases s with
    | nil => simp [Encoding.runOf] at h
    | cons c s =>
      simp only [Encoding.runOf] at h
      obtain ⟨d, t, hd, hpd⟩ := exists_of_lt_runLength _ h
      have hdrop := runLength_drop _ (Nat.le_of_lt h)
      rw [hd] at hdrop ⊢
      rw [beq_iff_eq] at hpd
      simpa only [Encoding.runOf, hpd] using hdrop

/-- Two characters that are both not of class `p` are one piece. -/
theorem pieces_runOf_two {p : Char → Bool} {a b : Char} (ha : p a = false) (hb : p b = false) :
    pieces (Encoding.runOf p) [a, b] = [[a, b]] := by
  rw [pieces_cons, Encoding.runOf]
  simp [runLength, ha, hb]

end Text

namespace Encoding

def oneDigit : Text → Nat
  | ' ' :: rest => Text.runLength Text.isLetter rest + 1
  | '\r' :: '\n' :: _ => 2
  | c :: rest => if Text.isLetter c then Text.runLength Text.isLetter (c :: rest) else 1
  | [] => 0

theorem oneDigit_of_isLetter {c : Char} (hc : Text.isLetter c = true) (rest : Text) :
    oneDigit (c :: rest) = Text.runLength Text.isLetter (c :: rest) := by
  have hspace : c ≠ ' ' := by rintro rfl; simp [Text.isLetter] at hc
  have hreturn : c ≠ '\r' := by rintro rfl; simp [Text.isLetter] at hc
  unfold oneDigit
  split <;> simp_all

theorem oneDigit_eq_one {c : Char} {rest : Text} (hc : Text.isLetter c = false) (hspace : c ≠ ' ')
    (hreturn : ∀ r, c = '\r' → rest ≠ '\n' :: r) : oneDigit (c :: rest) = 1 := by
  unfold oneDigit
  split <;> simp_all

theorem wordLength_eq_oneDigit {c : Char} (hc : c.isDigit = false) (rest : Text) :
    wordLength (c :: rest) = oneDigit (c :: rest) := by
  unfold wordLength oneDigit
  split <;> simp_all

theorem oneDigit_space (rest : Text) :
    oneDigit (' ' :: rest) = Text.runLength Text.isLetter rest + 1 := rfl

theorem oneDigit_newline (rest : Text) : oneDigit ('\r' :: '\n' :: rest) = 2 := rfl

theorem settled_oneDigit : Text.Settled oneDigit := by
  intro s m h
  fun_cases oneDigit s with
  | case1 rest =>
    rw [oneDigit_space] at h
    obtain ⟨m, rfl⟩ : ∃ k, m = k + 1 := ⟨m - 1, by omega⟩
    rw [List.take_succ_cons, oneDigit_space, Text.settled_runLength _ rest m (by omega)]
  | case2 rest =>
    rw [oneDigit_newline] at h
    obtain ⟨m, rfl⟩ : ∃ k, m = k + 2 := ⟨m - 2, by omega⟩
    rfl
  | case3 c rest _ _ hc =>
    rw [oneDigit_of_isLetter hc] at h
    have hpos : 0 < Text.runLength Text.isLetter (c :: rest) := by simp [Text.runLength, hc]
    obtain ⟨m, rfl⟩ : ∃ k, m = k + 1 := ⟨m - 1, by omega⟩
    rw [List.take_succ_cons, oneDigit_of_isLetter hc, ← List.take_succ_cons,
      Text.settled_runLength _ _ _ h]
  | case4 c rest hspace hreturn hc =>
    rw [oneDigit_eq_one (by simpa using hc) hspace fun r h h' => hreturn r h h'] at h
    obtain ⟨m, rfl⟩ : ∃ k, m = k + 1 := ⟨m - 1, by omega⟩
    rw [List.take_succ_cons, oneDigit_eq_one (by simpa using hc) hspace]
    rintro r rfl h'
    cases rest with
    | nil => simp at h'
    | cons d rest =>
      cases m with
      | zero => simp at h'
      | succ m =>
        obtain ⟨rfl, -⟩ : d = '\n' ∧ rest.take m = r := by simpa using h'
        exact hreturn rest rfl rfl
  | case5 => simp [oneDigit]

theorem oneDigit_take {s : Text} {m : Nat} (hm : 0 < m) (h : m < oneDigit s) :
    m ≤ oneDigit (s.take m) := by
  obtain ⟨m, rfl⟩ : ∃ k, m = k + 1 := ⟨m - 1, by omega⟩
  fun_cases oneDigit s with
  | case1 rest =>
    rw [oneDigit_space] at h
    rw [List.take_succ_cons, oneDigit_space, Text.runLength_take _ (by omega)]
  | case2 rest =>
    rw [oneDigit_newline] at h
    obtain rfl : m = 0 := by omega
    change 1 ≤ oneDigit ['\r']
    decide
  | case3 c rest _ _ hc =>
    rw [oneDigit_of_isLetter hc] at h
    rw [List.take_succ_cons, oneDigit_of_isLetter hc, ← List.take_succ_cons,
      Text.runLength_take _ (Nat.le_of_lt h)]
  | case4 c rest hspace hreturn hc =>
    rw [oneDigit_eq_one (by simpa using hc) hspace fun r h h' => hreturn r h h'] at h
    omega
  | case5 => simp [oneDigit] at h

theorem oneDigit_drop_letters {s : Text} {n : Nat} (hn : n < Text.runLength Text.isLetter s) :
    oneDigit (s.drop n) = Text.runLength Text.isLetter s - n := by
  obtain ⟨d, r, hd, hletter⟩ := Text.exists_of_lt_runLength _ hn
  rw [← Text.runLength_drop _ (Nat.le_of_lt hn), hd, oneDigit_of_isLetter hletter]

theorem oneDigit_drop {s : Text} {m : Nat} (hm : 0 < m) (h : m < oneDigit s) :
    oneDigit (s.drop m) = oneDigit s - m := by
  obtain ⟨m, rfl⟩ : ∃ k, m = k + 1 := ⟨m - 1, by omega⟩
  fun_cases oneDigit s with
  | case1 rest =>
    -- The space belongs to the letters after it, and is not dropped alone.
    rw [oneDigit_space] at h
    rw [List.drop_succ_cons, oneDigit_drop_letters (by omega)]
    omega
  | case2 rest =>
    rw [oneDigit_newline] at h
    obtain rfl : m = 0 := by omega
    exact oneDigit_eq_one (by decide) (by decide) fun r h => absurd h (by decide)
  | case3 c rest _ _ hc =>
    rw [oneDigit_of_isLetter hc] at h
    exact oneDigit_drop_letters h
  | case4 c rest hspace hreturn hc =>
    rw [oneDigit_eq_one (by simpa using hc) hspace fun r h h' => hreturn r h h'] at h
    omega
  | case5 => simp [oneDigit] at h

theorem divisible_oneDigit : Text.Divisible oneDigit where
  settled := settled_oneDigit
  take _ _ hm h := oneDigit_take hm h
  drop _ _ hm h := oneDigit_drop hm h

/-- No two digits that stand together in the text are joined. -/
def DigitsApart (e : Encoding) (s : Text) : Prop :=
  ∀ a b : Char, [a, b] <:+: s → a.isDigit = true → b.isDigit = true → (e.ids [a, b]).length = 2

theorem DigitsApart.of_isInfix {e : Encoding} {s t : Text} (h : e.DigitsApart s) (ht : t <:+: s) :
    e.DigitsApart t := fun a b hab => h a b (hab.trans ht)

theorem mem_known {e : Encoding} : e ∈ known ↔ e = cl100k ∨ e = o200k ∨ e = singleBytes := by
  simp [known]

theorem forall_known {P : Encoding → Prop} (hcl : P cl100k) (ho : P o200k) (hs : P singleBytes) :
    ∀ e ∈ known, P e := by
  intro e he
  rcases mem_known.1 he with rfl | rfl | rfl
  · exact hcl
  · exact ho
  · exact hs

theorem mem_known_cl100k : cl100k ∈ known := mem_known.2 (.inl rfl)

theorem mem_known_o200k : o200k ∈ known := mem_known.2 (.inr (.inl rfl))

theorem isDigit_iff {c : Char} : c.isDigit = true ↔ 48 ≤ c.toNat ∧ c.toNat ≤ 57 := by
  simp [Char.isDigit, UInt32.le_iff_toNat_le]
theorem isLetter_iff {c : Char} : Text.isLetter c = true ↔
    (97 ≤ c.toNat ∧ c.toNat ≤ 122) ∨ (65 ≤ c.toNat ∧ c.toNat ≤ 90) := by
  simp [Text.isLetter, Char.le_def, UInt32.le_iff_toNat_le]
theorem not_isLetter_of_isDigit {c : Char} (h : c.isDigit = true) : Text.isLetter c = false := by
  rw [isDigit_iff] at h
  rw [Bool.eq_false_iff, ne_eq, isLetter_iff]
  omega
theorem charBytes_of_isDigit {c : Char} (h : c.isDigit = true) :
    Text.charBytes c = [c.toNat.toUInt8] := by
  rw [isDigit_iff] at h
  rw [Text.charBytes, if_pos (by omega)]

theorem wordLength_of_isDigit {c : Char} (hc : c.isDigit = true) (rest : Text) :
    wordLength (c :: rest) = min 3 (Text.runLength Char.isDigit (c :: rest)) := by
  have hletter := not_isLetter_of_isDigit hc
  unfold wordLength
  split
  · next heq =>
    obtain ⟨rfl, -⟩ := List.cons.inj heq
    simp at hc
  · next heq =>
    obtain ⟨rfl, -⟩ := List.cons.inj heq
    simp at hc
  · next heq =>
    obtain ⟨rfl, rfl⟩ := List.cons.inj heq
    rw [if_neg (by simp [hletter]), if_pos hc]
  · simp_all

theorem pieces_digits {e : Encoding} (he : e ∈ known) {a b : Char} (ha : a.isDigit = true)
    (hb : b.isDigit = true) : e.pieces [a, b] = [[a, b]] := by
  have hspace : ∀ d : Char, d.isDigit = true →
      (d == ' ' || d == '\t' || d == '\r' || d == '\n') = false ∧ (d == '\n') = false := by
    intro d hd
    rw [isDigit_iff] at hd
    simp only [Bool.or_eq_false_iff, beq_eq_false_iff_ne, ne_eq]
    refine ⟨⟨⟨⟨?_, ?_⟩, ?_⟩, ?_⟩, ?_⟩ <;> rintro rfl <;> simp at hd
  rcases mem_known.1 he with rfl | rfl | rfl
  · change Text.pieces wordLength [a, b] = _
    rw [Text.pieces_cons, wordLength_of_isDigit ha]
    simp [Text.runLength, ha, hb]
  · exact Text.pieces_runOf_two (hspace a ha).1 (hspace b hb).1
  · exact Text.pieces_runOf_two (hspace a ha).2 (hspace b hb).2

/-- Two digits are two tokens if they are not one sequence of the vocabulary. -/
theorem length_ids_digits {e : Encoding} (he : e ∈ known) {a b : Char} (ha : a.isDigit = true)
    (hb : b.isDigit = true) : (e.ids [a, b]).length = 2 ↔ e.id? (Text.toBytes [a, b]) = none := by
  rw [ids, pieces_digits he ha hb, List.flatMap_singleton, pieceIds]
  cases hid : e.id? (Text.toBytes [a, b]) with
  | some i => simp
  | none =>
    rw [Text.toBytes_cons, Text.toBytes_cons, charBytes_of_isDigit ha,
      charBytes_of_isDigit hb] at hid ⊢
    have hdone : e.Done [[a.toNat.toUInt8], [b.toNat.toUInt8]] := by
      intro x y hxy
      obtain ⟨rfl, rfl⟩ : x = [a.toNat.toUInt8] ∧ y = [b.toNat.toUInt8] := by
        simpa using hxy.eq_of_length rfl
      exact hid
    exact iff_of_true
      (congrArg (fun ps => (List.filterMap e.id? ps).length) (join_of_done hdone)) rfl

/-- The bytes of digits that stand apart are not joined. -/
theorem parts_digits {ds : Text} (hd : ∀ d ∈ ds, d.isDigit = true) (h : cl100k.DigitsApart ds) :
    cl100k.parts ds.toBytes = ds.map fun d => [d.toNat.toUInt8] := by
  have hbytes : ds.toBytes = ds.map fun d => d.toNat.toUInt8 := by
    induction ds with
    | nil => rfl
    | cons d ds ih =>
      rw [Text.toBytes_cons, charBytes_of_isDigit (hd d (by simp)), List.map_cons,
        ih (fun c hc => hd c (by simp [hc])) fun a b hab =>
          h a b (hab.trans (List.suffix_cons d ds).isInfix)]
      rfl
  have hrow : ds.toBytes.map (fun b => [b]) = ds.map fun d => [d.toNat.toUInt8] := by
    rw [hbytes, List.map_map]
    rfl
  rw [parts, hrow]
  apply join_of_done
  intro x y hxy
  obtain ⟨t, ht, heq⟩ := List.infix_map_iff.1 hxy
  obtain ⟨a, b, rfl⟩ : ∃ a b, t = [a, b] :=
    List.length_eq_two.1 (by simpa using (congrArg List.length heq).symm)
  obtain ⟨rfl, rfl⟩ : x = [a.toNat.toUInt8] ∧ y = [b.toNat.toUInt8] := by simpa using heq
  have ha := hd a (ht.subset (by simp))
  have hb := hd b (ht.subset (by simp))
  have hnone := (length_ids_digits mem_known_cl100k ha hb).1 (h a b ht ha hb)
  rwa [Text.toBytes_cons, Text.toBytes_cons, charBytes_of_isDigit ha,
    charBytes_of_isDigit hb] at hnone

theorem tokensBy_oneDigit_digits {ds : Text} (hd : ∀ d ∈ ds, d.isDigit = true) (s : Text) :
    cl100k.tokensBy oneDigit (ds ++ s) =
      (ds.map fun d => [d.toNat.toUInt8]) ++ cl100k.tokensBy oneDigit s := by
  induction ds with
  | nil => rfl
  | cons d ds ih =>
    have hdd := hd d (by simp)
    have hone : oneDigit (d :: (ds ++ s)) = 1 :=
      oneDigit_eq_one (not_isLetter_of_isDigit hdd) (by rintro rfl; simp at hdd)
        (by rintro r rfl; simp at hdd)
    have hsingle : cl100k.parts (Text.toBytes [d]) = [[d.toNat.toUInt8]] := by
      rw [Text.toBytes_cons, charBytes_of_isDigit hdd]
      exact parts_singleton _
    rw [tokensBy, List.cons_append, Text.pieces_cons, hone]
    change cl100k.parts (Text.toBytes [d]) ++ cl100k.tokensBy oneDigit (ds ++ s) = _
    rw [hsingle, ih fun c hc => hd c (by simp [hc])]
    rfl

theorem tokens_cl100k {s : Text} (h : cl100k.DigitsApart s) :
    cl100k.tokens s = cl100k.tokensBy oneDigit s := by
  change cl100k.tokensBy wordLength s = _
  induction hn : s.length using Nat.strongRecOn generalizing s with
  | _ n ih =>
    cases s with
    | nil => simp [tokensBy]
    | cons c rest =>
      -- The first piece under `wordLength`, and the tokens of what is left after it.
      have hrest : cl100k.tokensBy wordLength (rest.drop (wordLength (c :: rest) - 1)) =
          cl100k.tokensBy oneDigit (rest.drop (wordLength (c :: rest) - 1)) :=
        ih _ (by rw [← hn, List.length_drop, List.length_cons]; omega)
          (fun a b hab =>
            h a b (hab.trans ((List.drop_suffix _ _).trans (List.suffix_cons _ _)).isInfix)) rfl
      rw [tokensBy, Text.pieces_cons, List.flatMap_cons, ← tokensBy, hrest]
      by_cases hc : c.isDigit = true
      · have hlen := wordLength_of_isDigit hc rest
        generalize hk : wordLength (c :: rest) - 1 = k at *
        have hdigits : ∀ d ∈ c :: rest.take k, d.isDigit = true := by
          have hle : k + 1 ≤ Text.runLength Char.isDigit (c :: rest) := by
            have hpos : 0 < Text.runLength Char.isDigit (c :: rest) := by simp [Text.runLength, hc]
            omega
          exact fun d hd => Text.of_mem_take_runLength hle hd
        have hpart : c :: rest.take k <:+: c :: rest := ⟨[], rest.drop k, by simp⟩
        rw [parts_digits hdigits fun a b hab => h a b (hab.trans hpart),
          ← tokensBy_oneDigit_digits hdigits, List.cons_append, List.take_append_drop]
      · rw [Bool.not_eq_true] at hc
        conv_rhs => rw [tokensBy, Text.pieces_cons, List.flatMap_cons, ← tokensBy,
          ← wordLength_eq_oneDigit hc]

theorem merges_cl100k : cl100k.merges =
    [[0x20, 0x74], [0x74, 0x68], [0x68, 0x65], [0x20, 0x74, 0x68], [0x20, 0x74, 0x68, 0x65],
      [0x74, 0x68, 0x65], [0x69, 0x6E], [0x69, 0x6E, 0x67], [0x65, 0x72], [0x61, 0x6E],
      [0x61, 0x6E, 0x64], [0x72, 0x65], [0x6F, 0x6E], [0x6C, 0x6C], [0x65, 0x6C, 0x6C, 0x6F],
      [0x65, 0x6C, 0x6C], [0x0D, 0x0A],
      [0xC3, 0xA9], [0xE4, 0xB8], [0xE4, 0xB8, 0xAD], [0xF0, 0x9F], [0xF0, 0x9F, 0x98],
      [0xF0, 0x9F, 0x98, 0x80], [0x31, 0x30], [0x31, 0x30, 0x30]] := by decide +kernel

theorem merges_o200k : o200k.merges =
    [[0x20, 0x20], [0x20, 0x20, 0x20, 0x20], [0x0A, 0x0A], [0x2E, 0x2E], [0x2E, 0x2E, 0x2E],
      [0x21, 0x21], [0x3F, 0x21], [0x61, 0x62], [0x61, 0x62, 0x63], [0x61, 0x62, 0x63, 0x64],
      [0x65, 0x2E], [0x73, 0x2E],
      [0x0D, 0x0A], [0x0D, 0x0A, 0x0D, 0x0A], [0xC3, 0xA9], [0x80, 0xE2], [0xE2, 0x80]] := by
        decide +kernel

/-- The known encodings have names of their own. -/
theorem eq_of_name {e f : Encoding} (he : e ∈ known) (hf : f ∈ known)
    (h : e.name = f.name) : e = f := by
  rcases mem_known.1 he with rfl | rfl | rfl <;> rcases mem_known.1 hf with rfl | rfl | rfl <;>
    first
    | rfl
    | exact absurd h (by decide)

theorem exists_divisible {e : Encoding} (he : e ∈ known) :
    ∃ next, Text.Divisible next ∧ ∀ s, e.DigitsApart s → e.tokens s = e.tokensBy next s := by
  rcases mem_known.1 he with rfl | rfl | rfl
  · exact ⟨oneDigit, divisible_oneDigit, fun s hs => tokens_cl100k hs⟩
  · exact ⟨_, Text.divisible_runOf _, fun _ _ => rfl⟩
  · exact ⟨_, Text.divisible_runOf _, fun _ _ => rfl⟩

/-- The vocabularies of the known encodings: every merge is joined again from its bytes. -/
theorem parts_merge : ∀ e ∈ known, ∀ m ∈ e.merges, e.parts m = [m] := by decide +kernel

theorem nil_notMem_merges : ∀ e ∈ known, [] ∉ e.merges :=
  forall_known (by rw [merges_cl100k]; decide) (by rw [merges_o200k]; decide) (by decide)

end Encoding

end TextChunks
