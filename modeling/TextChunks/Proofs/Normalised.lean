import TextChunks.Proofs.Spaces

namespace TextChunks.Encoding

variable {e : Encoding}

theorem DigitsApart.collapse {s : Text} (h : e.DigitsApart s) : e.DigitsApart s.collapse := by
  have hspace : Char.isDigit ' ' = false := by decide
  fun_induction Text.collapse s with
  | case1 => exact h
  | case2 rest ih => exact (ih (h.of_isInfix ⟨['\r', '\n'], [], by simp⟩)).cons hspace
  | case3 rest _ ih => exact (ih (h.of_isInfix ⟨['\r'], [], by simp⟩)).cons hspace
  | case4 rest ih => exact (ih (h.of_isInfix ⟨['\n'], [], by simp⟩)).cons hspace
  | case5 c rest _ _ _ ih =>
    intro a b hab ha hb
    rcases List.infix_cons_iff.1 hab with hpre | hinf
    · -- The digit after `c` is no space that stands for a separator.
      obtain ⟨rfl, hsingle⟩ := List.cons_prefix_cons.1 hpre
      have hhead := List.singleton_prefix_iff_head?_eq_some.1 hsingle
      rw [Text.head?_collapse] at hhead
      obtain ⟨d, hd, hdb⟩ := Option.map_eq_some_iff.1 hhead
      split at hdb
      · rw [← hdb, hspace] at hb
        simp at hb
      · obtain ⟨t, rfl⟩ := List.head?_eq_some_iff.1 hd
        exact h a b ⟨[], t, by simp [hdb]⟩ ha hb
    · exact ih (h.of_isInfix ⟨[c], [], by simp⟩) a b hinf ha hb

/-- The characters `cs`, line separators among them, start the tokens `words` only, are not joined
with any other character before them, and each of these tokens takes one at most when separators are
given up. -/
structure Collapsing (e : Encoding) (cs : List Char) (words : List Text) : Prop where
  ascii : ∀ c ∈ cs, c.toNat < 0x80
  separator : '\r' ∈ cs ∧ '\n' ∈ cs
  apart : ∀ p ∈ e.neighbours, Char.ofNat p.2.toNat ∈ ' ' :: cs →
    p.1.toNat < 0x80 ∧ Char.ofNat p.1.toNat ∈ cs
  single : ∀ c ∈ cs, [c] ∈ words
  merge : ∀ c ∈ cs, ∀ m ∈ e.merges, m.head? = some c.toNat.toUInt8 → ∃ w ∈ words, m = w.toBytes
  divided : ∀ w ∈ words, w.getLast? = some '\r' → w = ['\r']
  light : ∀ w ∈ words, e.Light w.collapse

namespace Collapsing

variable {cs : List Char} {words : List Text}

theorem tokens_append (h : e.Collapsing cs words) (he : e ∈ known) {s t : Text} {a c : Char}
    (hd : e.DigitsApart (s ++ [a] ++ c :: t)) (ha : a ∉ cs) (hc : c ∈ ' ' :: cs) :
    e.tokens (s ++ [a] ++ c :: t) = e.tokens (s ++ [a]) ++ e.tokens (c :: t) := by
  have hascii : c.toNat < 0x80 := by
    rcases List.mem_cons.1 hc with rfl | hc
    · decide
    · exact h.ascii c hc
  refine tokens_append_of_pairs he hd fun p hp hlast hhead => ha ?_
  rw [Text.charBytes, if_pos hascii] at hhead
  have hp2 : Char.ofNat p.2.toNat = c := by
    rw [← Option.some.inj hhead, Text.toNat_toUInt8 (by omega), Char.ofNat_toNat]
  obtain ⟨hlt, hmem⟩ := h.apart p hp (by rwa [hp2])
  rwa [Text.eq_of_last hlast hlt]

/-- A text that starts with one of the characters starts with a word, which is its first token. -/
theorem exists_word (h : e.Collapsing cs words) (he : e ∈ known) {s : Text} {c : Char}
    (hd : e.DigitsApart (c :: s)) (hc : c ∈ cs) :
    ∃ w ∈ words, ∃ z, w ≠ [] ∧ c :: s = w ++ z ∧ e.tokens (c :: s) = w.toBytes :: e.tokens z := by
  obtain ⟨b, bs, hb⟩ := List.exists_cons_of_ne_nil (mt (tokens_eq_nil he).1 (List.cons_ne_nil c s))
  have hbmem : b ∈ e.tokens (c :: s) := by rw [hb]; exact List.mem_cons_self
  have hne : b ≠ [] := ne_nil_of_mem_tokens he hbmem
  have hflat := flatten_tokens he (c :: s)
  rw [hb, List.flatten_cons] at hflat
  have hcbytes : Text.charBytes c = [c.toNat.toUInt8] := by
    rw [Text.charBytes, if_pos (h.ascii c hc)]
  -- The first token is a sequence of the vocabulary that starts with the byte of `c`.
  obtain ⟨w, hw, rfl⟩ : ∃ w ∈ words, b = w.toBytes := by
    have hhead : b.head? = some c.toNat.toUInt8 := by
      have happ : (b ++ bs.flatten).head? = b.head? := List.head?_append_of_ne_nil _ hne
      rw [← happ, hflat, Text.toBytes_cons, hcbytes]
      rfl
    obtain ⟨q, -, hq⟩ := List.mem_flatMap.1 hbmem
    obtain ⟨i, hi⟩ := exists_id?_of_mem_parts hq
    rcases mem_merges hi with ⟨u, rfl⟩ | hm
    · obtain rfl : u = c.toNat.toUInt8 := by simpa using hhead
      exact ⟨[c], h.single c hc, by rw [Text.toBytes_cons, hcbytes]; rfl⟩
    · exact h.merge c hc b hm hhead
  obtain ⟨z, hz, -⟩ := Text.toBytes_eq_append hflat.symm
  rw [hz] at hd hb
  obtain ⟨-, htz⟩ := tokens_of_append he hd (B := [w.toBytes]) hb (by simp)
  refine ⟨w, hw, z, ?_, hz, by rw [hz, hb, htz]⟩
  rintro rfl
  exact hne rfl

/-- Characters before the first of `cs` are left as they are, and encoded apart from it. -/
theorem length_tokens_collapse_append_le (h : e.Collapsing cs words) (he : e ∈ known) {s t : Text}
    (hd : e.DigitsApart (s ++ t)) (hs : ∀ a ∈ s, a ∉ cs) (ht : ∀ c, t.head? = some c → c ∈ cs)
    (hle : (e.tokens t.collapse).length ≤ (e.tokens t).length) :
    (e.tokens (Text.collapse (s ++ t))).length ≤ (e.tokens (s ++ t)).length := by
  have hself : Text.collapse s = s := Text.collapse_eq_self fun a ha =>
    ⟨fun heq => hs a ha (heq ▸ h.separator.1), fun heq => hs a ha (heq ▸ h.separator.2)⟩
  have hcollapse : Text.collapse (s ++ t) = s ++ t.collapse := by
    rw [Text.collapse_append fun hlast => ?_, hself]
    exact absurd h.separator.1 (hs _ (List.mem_of_getLast? hlast))
  have hdc := hd.collapse
  rw [hcollapse] at hdc ⊢
  cases s using List.reverseRecOn with
  | nil => exact hle
  | append_singleton s a =>
    have ha : a ∉ cs := hs a (by simp)
    cases t with
    | nil => exact Nat.le_refl _
    | cons c t =>
      have hc := ht c rfl
      have hhead := Text.head?_collapse (c :: t)
      rw [List.head?_cons, Option.map_some] at hhead
      obtain ⟨r, hr⟩ := List.head?_eq_some_iff.1 hhead
      have hc' : (if c = '\r' ∨ c = '\n' then ' ' else c) ∈ ' ' :: cs := by
        split
        · exact List.mem_cons_self
        · exact List.mem_cons_of_mem _ hc
      rw [hr] at hdc hle ⊢
      rw [h.tokens_append he hd ha (List.mem_cons_of_mem _ hc), h.tokens_append he hdc ha hc',
        List.length_append, List.length_append]
      omega

theorem length_tokens_collapse_le (h : e.Collapsing cs words) (he : e ∈ known) {s : Text}
    (hd : e.DigitsApart s) :
    (e.tokens s.collapse).length ≤ (e.tokens s).length := by
  -- A word at a time, or the characters up to the first word.
  induction hn : s.length using Nat.strongRecOn generalizing s with
  | _ n ih =>
    cases s with
    | nil => exact Nat.le_refl _
    | cons c s =>
      by_cases hc : c ∈ cs
      · obtain ⟨w, hw, z, hne, hz, htok⟩ := h.exists_word he hd hc
        have hpos := List.length_pos_iff.2 hne
        have hdz : e.DigitsApart z := hd.of_isInfix ⟨w, [], by simp [hz]⟩
        have hle := ih z.length (by rw [← hn, hz, List.length_append]; omega) hdz rfl
        rw [htok, List.length_cons, hz]
        by_cases hdiv : w = ['\r'] ∧ z.head? = some '\n'
        · -- One space stands for the word and the start of what follows it.
          obtain ⟨rfl, hhead⟩ := hdiv
          obtain ⟨r, rfl⟩ := List.head?_eq_some_iff.1 hhead
          exact Nat.le_succ_of_le hle
        · rw [Text.collapse_append fun hlast hhead => hdiv ⟨h.divided w hw hlast, hhead⟩]
          have := h.light w hw _ hdz.collapse
          omega
      · have hsplit := List.takeWhile_append_dropWhile (p := fun d => decide (d ∉ cs)) (l := c :: s)
        have hbefore : ∀ d ∈ (c :: s).takeWhile fun d => decide (d ∉ cs), d ∉ cs := by
          intro d hd'
          simpa using List.mem_takeWhile_imp hd'
        have hhead := List.head?_dropWhile_not (fun d => decide (d ∉ cs)) (c :: s)
        have hpos : 0 < ((c :: s).takeWhile fun d => decide (d ∉ cs)).length := by simp [hc]
        generalize (c :: s).takeWhile (fun d => decide (d ∉ cs)) = w at hsplit hbefore hpos
        generalize (c :: s).dropWhile (fun d => decide (d ∉ cs)) = z at hsplit hhead
        rw [← hsplit] at hd hn ⊢
        refine h.length_tokens_collapse_append_le he hd hbefore (fun d hd' => ?_) ?_
        · rw [hd'] at hhead
          simpa using hhead
        · exact ih z.length (by rw [← hn, List.length_append]; omega)
            (hd.of_isInfix ⟨w, [], by simp⟩) rfl

end Collapsing

theorem collapsing_cl100k :
    cl100k.Collapsing ['\r', '\n'] [['\r'], ['\n'], ['\r', '\n']] where
  ascii := forall_of_all (by decide)
  separator := by decide
  apart := forall_of_all (by rw [neighbours, merges_cl100k]; decide)
  single := forall_of_all (by decide)
  merge := forall_of_all (by rw [merges_cl100k]; decide)
  divided := by decide
  light := by
    intro w hw
    have hspace : w.collapse = [' '] := by revert w; decide
    rw [hspace]
    exact light_space_cl100k

theorem collapsing_o200k : o200k.Collapsing [' ', '\t', '\r', '\n']
    [[' '], ['\t'], ['\r'], ['\n'], [' ', ' '], [' ', ' ', ' ', ' '], ['\n', '\n'], ['\r', '\n'],
      ['\r', '\n', '\r', '\n']] where
  ascii := forall_of_all (by decide)
  separator := by decide
  apart := forall_of_all (by rw [neighbours, merges_o200k]; decide)
  single := forall_of_all (by decide)
  merge := forall_of_all (by rw [merges_o200k]; decide)
  divided := by decide
  light := by
    intro w hw
    have hspaces : w.collapse = ['\t'] ∨ w.collapse = List.replicate 1 ' ' ∨
        w.collapse = List.replicate 2 ' ' ∨ w.collapse = List.replicate 4 ' ' := by revert w; decide
    rcases hspaces with h | h | h | h <;> rw [h]
    · exact light_of_apart mem_known_o200k (by decide) (by decide)
        (forall_of_all (by rw [neighbours, merges_o200k]; decide))
    · exact light_spaces_o200k (.inl rfl)
    · exact light_spaces_o200k (.inr (.inl rfl))
    · exact light_spaces_o200k (.inr (.inr rfl))

theorem collapsing_singleBytes : singleBytes.Collapsing ['\r', '\n'] [['\r'], ['\n']] where
  ascii := forall_of_all (by decide)
  separator := by decide
  apart := forall_of_all (by decide)
  single := forall_of_all (by decide)
  merge := forall_of_all (by decide)
  divided := by decide
  light := by
    intro w hw
    have hspace : w.collapse = [' '] := by revert w; decide
    rw [hspace]
    exact light_of_apart (mem_known.2 (.inr (.inr rfl))) (by decide) (by decide)
      (forall_of_all (by decide))

/-- Giving up line separators does not make the tokens more. -/
theorem length_tokens_collapse_le (he : e ∈ known) {s : Text} (hd : e.DigitsApart s) :
    (e.tokens s.collapse).length ≤ (e.tokens s).length := by
  rcases mem_known.1 he with rfl | rfl | rfl
  · exact collapsing_cl100k.length_tokens_collapse_le he hd
  · exact collapsing_o200k.length_tokens_collapse_le he hd
  · exact collapsing_singleBytes.length_tokens_collapse_le he hd

def isBlankByte (b : UInt8) : Bool := decide (b.toNat < 0x80) && Text.isBlank (Char.ofNat b.toNat)

theorem isBlankByte_toUInt8 {c : Char} (hb : Text.isBlank c = true) (hc : c.toNat < 0x80) :
    isBlankByte c.toNat.toUInt8 = true := by
  rw [isBlankByte, Text.toNat_toUInt8 (by omega), Char.ofNat_toNat, hb, decide_eq_true hc]
  rfl

theorem isBlank_of_head {c : Char} {b : UInt8} (h : (Text.charBytes c).head? = some b)
    (hb : isBlankByte b = true) : Text.isBlank c = true := by
  rw [isBlankByte, Bool.and_eq_true, decide_eq_true_eq] at hb
  rw [Text.eq_of_head h hb.1, hb.2]

theorem isBlank_of_last {c : Char} {b : UInt8} (h : (Text.charBytes c).getLast? = some b)
    (hb : isBlankByte b = true) : Text.isBlank c = true := by
  rw [isBlankByte, Bool.and_eq_true, decide_eq_true_eq] at hb
  rw [Text.eq_of_last h hb.1, hb.2]

/-- Blank bytes are joined with no others, but for a space with a `t` after it. -/
theorem blank_pair : ∀ e ∈ known, ∀ p ∈ e.neighbours, isBlankByte p.1 = isBlankByte p.2 ∨
    (e.name = cl100k.name ∧ p.1 = 0x20 ∧ p.2 = 0x74) :=
  forall_known (forall_of_all (by rw [neighbours, merges_cl100k]; decide))
    (forall_of_all (by rw [neighbours, merges_o200k]; decide)) (forall_of_all (by decide))

/-- Blank characters after a text without any at its end are encoded apart. -/
theorem tokens_append_blank (he : e ∈ known) {s r : Text} (hd : e.DigitsApart (s ++ r))
    (hs : ∀ a, s.getLast? = some a → Text.isBlank a = false)
    (hr : ∀ c ∈ r, Text.isBlank c = true ∧ c.toNat < 0x80) :
    e.tokens (s ++ r) = e.tokens s ++ e.tokens r := by
  have hnil : e.tokens [] = [] := (tokens_eq_nil he).2 rfl
  cases s using List.reverseRecOn with
  | nil => rw [hnil]; rfl
  | append_singleton s a =>
    cases r with
    | nil => rw [hnil]; simp
    | cons c r =>
      obtain ⟨hc, hascii⟩ := hr c (by simp)
      apply tokens_append_of_pairs he hd
      intro p hp hlast hhead
      rw [Text.charBytes, if_pos hascii] at hhead
      have hp2 : isBlankByte p.2 = true := Option.some.inj hhead ▸ isBlankByte_toUInt8 hc hascii
      rcases blank_pair e he p hp with heq | ⟨-, -, ht⟩
      · have ha := isBlank_of_last hlast (heq.trans hp2)
        rw [hs a (by simp)] at ha
        simp at ha
      · rw [ht] at hp2
        exact absurd hp2 (by decide)

/-- Blank characters before a text without any at its start do not make the tokens fewer. -/
theorem length_tokens_le_blank_append (he : e ∈ known) {l s : Text} (hd : e.DigitsApart (l ++ s))
    (hs : ∀ c, s.head? = some c → Text.isBlank c = false)
    (hl : ∀ a ∈ l, Text.isBlank a = true ∧ a.toNat < 0x80) :
    (e.tokens s).length ≤ (e.tokens (l ++ s)).length := by
  cases l using List.reverseRecOn with
  | nil => exact Nat.le_refl _
  | append_singleton l a =>
    cases s with
    | nil => simp [(tokens_eq_nil he).2 rfl]
    | cons c s =>
      obtain ⟨ha, hascii⟩ := hl a (by simp)
      have hbytes : Text.charBytes a = [a.toNat.toUInt8] := by rw [Text.charBytes, if_pos hascii]
      by_cases hspace : e.name = cl100k.name ∧ a = ' '
      · -- No merge goes over the place before the space.
        obtain ⟨hname, rfl⟩ := hspace
        obtain rfl := eq_of_name he mem_known_cl100k hname
        have hbefore : ∀ p ∈ cl100k.neighbours, p.2 ≠ 0x20 :=
          forall_of_all (by rw [neighbours, merges_cl100k]; decide)
        have hdc : cl100k.DigitsApart (c :: s) := hd.of_isInfix ⟨l ++ [' '], [], by simp⟩
        have hle := (length_tokens_space hdc).1
        rw [List.append_assoc, List.singleton_append] at hd ⊢
        cases l using List.reverseRecOn with
        | nil => exact hle
        | append_singleton l b =>
          rw [tokens_append_of_pairs he hd fun p hp _ hhead =>
            hbefore p hp (Option.some.inj hhead).symm,
            List.length_append]
          omega
      · -- Any other blank character is joined with blank ones only.
        rw [tokens_append_of_pairs he hd, List.length_append]
        · omega
        · intro p hp hlast hhead
          rw [hbytes] at hlast
          have hp1 : a.toNat.toUInt8 = p.1 := Option.some.inj hlast
          have hblank := isBlankByte_toUInt8 ha hascii
          rw [hp1] at hblank
          rcases blank_pair e he p hp with heq | ⟨hname, hp20, -⟩
          · have hc := isBlank_of_head hhead (heq.symm.trans hblank)
            rw [hs c rfl] at hc
            simp at hc
          · have hnat := congrArg UInt8.toNat (hp1.trans hp20)
            rw [Text.toNat_toUInt8 (by omega)] at hnat
            exact hspace ⟨hname, Char.toNat_inj.1 hnat⟩

/-- Stripping does not make the tokens more, where the blank characters are ASCII. -/
theorem length_tokens_strip_le (he : e ∈ known) {s : Text} (hd : e.DigitsApart s)
    (hblank : ∀ c ∈ s, Text.isBlank c = true → c.toNat < 0x80) :
    (e.tokens s.strip).length ≤ (e.tokens s).length := by
  by_cases hnil : s.strip = []
  · rw [hnil, (tokens_eq_nil he).2 rfl]
    exact Nat.zero_le _
  obtain ⟨l, r, hs, hl, hr⟩ := Text.exists_strip s
  rw [Text.blank_iff] at hl hr
  have hdleft : e.DigitsApart (l ++ s.strip) := hd.of_isInfix ⟨[], r, by simpa using hs.symm⟩
  have hleft := length_tokens_le_blank_append he hdleft (fun c => Text.isBlank_head_strip)
    fun a ha => ⟨hl a ha, hblank a (by rw [hs]; simp [ha]) (hl a ha)⟩
  have hright := tokens_append_blank he (s := l ++ s.strip) (r := r) (hs ▸ hd)
    (fun a ha => Text.isBlank_last_strip (by rwa [List.getLast?_append_of_ne_nil _ hnil] at ha))
    fun c hc => ⟨hr c hc, hblank c (by rw [hs]; simp [hc]) (hr c hc)⟩
  rw [← hs] at hright
  rw [hright, List.length_append]
  omega

end TextChunks.Encoding
