import Mathlib.Algebra.Group.Nat.Defs
import Mathlib.Data.List.Forall2
import Mathlib.Data.List.TakeWhile
import TextChunks.Json.Reader
import TextChunks.Json.Writer

namespace TextChunks

namespace Hex

theorem value?_digit : ∀ n < 16, value? (digit n) = some n := by decide

theorem digit_ne_quote : ∀ n < 16, digit n ≠ '"' := by decide

theorem digit_inj {m n : Nat} (hm : m < 16) (hn : n < 16) (h : digit m = digit n) : m = n := by
  have hvalue := congrArg value? h
  rw [value?_digit m hm, value?_digit n hn] at hvalue
  exact Option.some.inj hvalue

theorem length_padded (width n : Nat) : (padded width n).length = width := by
  induction width generalizing n with
  | zero => rfl
  | succ width ih => rw [padded, List.length_append, ih, List.length_singleton]

theorem padded_inj {width m n : Nat} (hm : m < 16 ^ width) (hn : n < 16 ^ width)
    (h : padded width m = padded width n) : m = n := by
  induction width generalizing m n with
  | zero => omega
  | succ width ih =>
    rw [pow_succ] at hm hn
    obtain ⟨hhigh, hlow⟩ := List.append_inj h (by rw [length_padded, length_padded])
    have hdiv := ih (by omega) (by omega) hhigh
    have hmod := digit_inj (Nat.mod_lt _ (by decide)) (Nat.mod_lt _ (by decide))
      (List.cons.inj hlow).1
    omega

theorem ofBytes_injective : Function.Injective ofBytes := by
  intro x
  induction x with
  | nil =>
    intro y h
    cases y with
    | nil => rfl
    | cons c y => cases h
  | cons b x ih =>
    intro y h
    cases y with
    | nil => cases h
    | cons c y =>
      obtain ⟨hbyte, hrest⟩ := List.append_inj h (by rw [length_padded, length_padded])
      have hb : b.toNat = c.toNat := padded_inj b.toNat_lt c.toNat_lt hbyte
      rw [UInt8.toNat_inj.1 hb, ih hrest]

end Hex

namespace Text

theorem takeWhile_ofNat_append (n : Nat) {c : Char} (hc : c.isDigit = false) (s : Text) :
    (ofNat n ++ c :: s).takeWhile Char.isDigit = ofNat n := by
  have hdigits : ∀ d ∈ ofNat n, d.isDigit = true :=
    fun d hd => Nat.isDigit_of_mem_toDigits (by decide) (by decide) hd
  rw [List.takeWhile_append_of_pos hdigits, List.takeWhile_cons_of_neg (by simp [hc]),
    List.append_nil]

theorem ofNat_injective : Function.Injective ofNat := by
  intro m n h
  have hvalue := congrArg (fun ds => Nat.ofDigitChars 10 ds 0) h
  simpa only [ofNat, Nat.ofDigitChars_ten_toDigits] using hvalue

theorem ofNat_append_inj {m n : Nat} {c d : Char} {s t : Text} (hc : c.isDigit = false)
    (hd : d.isDigit = false) (h : ofNat m ++ c :: s = ofNat n ++ d :: t) :
    m = n ∧ c :: s = d :: t := by
  have hdigits := congrArg (List.takeWhile Char.isDigit) h
  rw [takeWhile_ofNat_append m hc, takeWhile_ofNat_append n hd] at hdigits
  obtain rfl := ofNat_injective hdigits
  exact ⟨rfl, List.append_cancel_left h⟩

end Text

namespace Json

variable {opening rest : Text}

theorem hex4?_padded {n : Nat} (h : n < 0x10000) :
    hex4? (Hex.digit (n / 16 / 16 / 16 % 16)) (Hex.digit (n / 16 / 16 % 16))
      (Hex.digit (n / 16 % 16)) (Hex.digit (n % 16)) = some n := by
  unfold hex4?
  simp only [Hex.value?_digit _ (Nat.mod_lt _ (by decide : 0 < 16)), Option.bind_eq_bind,
    Option.bind_some, Option.pure_def, Option.some.injEq]
  omega

theorem codePoints_unicodeEscape {n : Nat} (h : n < 0x10000) (hrest : rest ≠ []) :
    codePoints opening (unicodeEscape n ++ rest) =
      prepend (.ofNat n) (codePoints opening rest) := by
  obtain ⟨e, rest, rfl⟩ := List.exists_cons_of_ne_nil hrest
  change codePoints opening ('\\' :: 'u' :: _ :: _ :: _ :: _ :: e :: rest) = _
  rw [codePoints, hex4?_padded h]

def points (c : Char) : List CodePoint :=
  if c.toNat < 0x10000 then [.scalar c]
  else
    let n := c.toNat - 0x10000
    [.surrogate (0xD800 + n / 0x400), .surrogate (0xDC00 + n % 0x400)]

theorem codePoints_cons {c : Char} (hquote : c ≠ '"') (hslash : c ≠ '\\') (hc : 0x20 ≤ c.toNat) :
    codePoints opening (c :: rest) = prepend (.scalar c) (codePoints opening rest) := by
  rw [codePoints, if_neg (by omega)]
  case x_1 => exact hquote
  case x_2 => exact fun h _ => hslash h
  case x_3 => exact fun _ _ _ _ _ _ h _ => hslash h
  case x_4 => exact fun _ h _ => hslash h
  case x_5 => exact fun _ _ h _ => hslash h

theorem codePoints_escape {c x : Char} (hc : c ≠ 'u') (h : escaped? c = some x) :
    codePoints opening ('\\' :: c :: rest) = prepend (.scalar x) (codePoints opening rest) := by
  rw [codePoints, h]
  case x_1 => exact fun _ _ _ _ _ _ h _ => hc h
  case x_2 => exact hc

theorem ofNat_toNat (c : Char) : CodePoint.ofNat c.toNat = .scalar c := by
  have hvalid : c.toNat < 0xD800 ∨ 0xDFFF < c.toNat ∧ c.toNat < 0x110000 := c.valid
  have hhigh : CodePoint.isHigh c.toNat = false := by
    simp only [CodePoint.isHigh, Bool.and_eq_false_iff, decide_eq_false_iff_not]
    omega
  have hlow : CodePoint.isLow c.toNat = false := by
    simp only [CodePoint.isLow, Bool.and_eq_false_iff, decide_eq_false_iff_not]
    omega
  rw [CodePoint.ofNat, hhigh, hlow, Char.ofNat_toNat]
  rfl

theorem isHigh_pair {n : Nat} (h : n < 0x100000) :
    CodePoint.isHigh (0xD800 + n / 0x400) = true := by
  simp only [CodePoint.isHigh, Bool.and_eq_true, decide_eq_true_eq]
  omega

theorem isLow_pair (n : Nat) : CodePoint.isLow (0xDC00 + n % 0x400) = true := by
  simp only [CodePoint.isLow, Bool.and_eq_true, decide_eq_true_eq]
  omega

theorem toNat_sub_lt (c : Char) : c.toNat - 0x10000 < 0x100000 := by
  have hvalid : c.toNat < 0xD800 ∨ 0xDFFF < c.toNat ∧ c.toNat < 0x110000 := c.valid
  omega

/-- A character is written as a short escape, as itself, or as the escapes of one or two units. -/
theorem writeChar_cases (c : Char) :
    (∃ e, e ≠ 'u' ∧ escaped? e = some c ∧ c.toNat < 0x10000 ∧ writeChar c = ['\\', e]) ∨
    (c ≠ '"' ∧ c ≠ '\\' ∧ 0x20 ≤ c.toNat ∧ c.toNat < 0x10000 ∧ writeChar c = [c]) ∨
    (c.toNat < 0x10000 ∧ writeChar c = unicodeEscape c.toNat) ∨
    (0x10000 ≤ c.toNat ∧ writeChar c = unicodeEscape (0xD800 + (c.toNat - 0x10000) / 0x400) ++
      unicodeEscape (0xDC00 + (c.toNat - 0x10000) % 0x400)) := by
  by_cases hshort : c ∈ ['"', '\\', '\n', '\r', '\t', '\x08', '\x0c']
  · left
    simp only [List.mem_cons, List.not_mem_nil, or_false] at hshort
    rcases hshort with rfl | rfl | rfl | rfl | rfl | rfl | rfl
    · exact ⟨'"', by decide⟩
    · exact ⟨'\\', by decide⟩
    · exact ⟨'n', by decide⟩
    · exact ⟨'r', by decide⟩
    · exact ⟨'t', by decide⟩
    · exact ⟨'b', by decide⟩
    · exact ⟨'f', by decide⟩
  · right
    simp only [List.mem_cons, List.not_mem_nil, or_false, not_or] at hshort
    obtain ⟨hquote, hslash, hn, hr, ht, hb, hf⟩ := hshort
    rw [writeChar, if_neg hquote, if_neg hslash, if_neg hn, if_neg hr, if_neg ht, if_neg hb,
      if_neg hf]
    by_cases hplain : 0x20 ≤ c.toNat ∧ c.toNat ≤ 0x7E
    · rw [if_pos hplain]
      exact .inl ⟨hquote, hslash, hplain.1, by omega, rfl⟩
    · rw [if_neg hplain]
      by_cases hsmall : c.toNat < 0x10000
      · rw [if_pos hsmall]
        exact .inr (.inl ⟨hsmall, rfl⟩)
      · rw [if_neg hsmall]
        exact .inr (.inr ⟨Nat.le_of_not_lt hsmall, rfl⟩)

/-- A written character is read as its code points, before whatever follows it. -/
theorem codePoints_writeChar (c : Char) (hrest : rest ≠ []) :
    codePoints opening (writeChar c ++ rest) =
      (points c).foldr prepend (codePoints opening rest) := by
  unfold points
  rcases writeChar_cases c with ⟨e, he, hescaped, hsmall, hc⟩ | ⟨hquote, hslash, hlow, hsmall, hc⟩ |
    ⟨hsmall, hc⟩ | ⟨hlarge, hc⟩
  · rw [hc, if_pos hsmall]
    exact codePoints_escape he hescaped
  · rw [hc, if_pos hsmall]
    exact codePoints_cons hquote hslash hlow
  · rw [hc, if_pos hsmall, codePoints_unicodeEscape hsmall hrest, ofNat_toNat]
    rfl
  · have hpair := toNat_sub_lt c
    have hlow : unicodeEscape (0xDC00 + (c.toNat - 0x10000) % 0x400) ++ rest ≠ [] := by
      simp [unicodeEscape]
    rw [hc, if_neg (by omega), List.append_assoc, codePoints_unicodeEscape (by omega) hlow,
      codePoints_unicodeEscape (by omega) hrest]
    simp [CodePoint.ofNat, isHigh_pair hpair, isLow_pair]

theorem foldr_prepend (ps qs : List CodePoint) :
    ps.foldr prepend (.ok (qs, rest)) = .ok (ps ++ qs, rest) := by
  induction ps with
  | nil => rfl
  | cons p ps ih =>
    rw [List.foldr_cons, ih]
    rfl

theorem codePoints_written (s : Text) :
    codePoints opening (s.flatMap writeChar ++ '"' :: rest) = .ok (s.flatMap points, rest) := by
  induction s with
  | nil => rfl
  | cons c s ih =>
    rw [List.flatMap_cons, List.append_assoc, codePoints_writeChar c (by simp), ih, foldr_prepend,
      List.flatMap_cons]

theorem joinPairs_points (s : Text) : CodePoint.joinPairs (s.flatMap points) = s.map .scalar := by
  induction s with
  | nil => rfl
  | cons c s ih =>
    rw [List.flatMap_cons, points]
    split
    · rw [List.singleton_append, CodePoint.joinPairs, ih, List.map_cons]
      simp
    · have hpair := toNat_sub_lt c
      have hvalue : 0x10000 + (0xD800 + (c.toNat - 0x10000) / 0x400 - 0xD800) * 0x400 +
          (0xDC00 + (c.toNat - 0x10000) % 0x400 - 0xDC00) = c.toNat := by omega
      simp only [List.cons_append, List.nil_append, CodePoint.joinPairs, isHigh_pair hpair,
        isLow_pair, Bool.and_self, if_true, ih, List.map_cons, hvalue, Char.ofNat_toNat]

theorem ofCodePoints_map_scalar (s : Text) : Literal.ofCodePoints (s.map .scalar) = .text s := by
  have hchars : (s.map CodePoint.scalar).mapM CodePoint.char? = some s := by
    induction s with
    | nil => rfl
    | cons c s ih =>
      rw [List.map_cons, List.mapM_cons, ih]
      rfl
  rw [Literal.ofCodePoints, hchars]

/-- A written text is read back at the start of any text that follows its opening quote. -/
theorem literal_written (s : Text) :
    literal opening (s.flatMap writeChar ++ '"' :: rest) = .ok (.text s, rest) := by
  rw [literal, codePoints_written]
  change Except.ok (Literal.ofCodePoints (CodePoint.joinPairs (s.flatMap points)), rest) = _
  rw [joinPairs_points, ofCodePoints_map_scalar]

theorem writeChars_append_inj {s t u v : Text}
    (h : s.flatMap writeChar ++ '"' :: u = t.flatMap writeChar ++ '"' :: v) : s = t ∧ u = v := by
  have hread := congrArg (literal []) h
  rw [literal_written, literal_written] at hread
  obtain ⟨htext, rfl⟩ := Prod.mk.inj (Except.ok.inj hread)
  exact ⟨Literal.text.inj htext, rfl⟩

/-- A text in which a backslash stands before every quote. -/
def Escaped (s : Text) : Prop := ∀ u v, s = u ++ '"' :: v → u.getLast? = some '\\'

theorem Escaped.append {s t : Text} (hs : Escaped s) (ht : Escaped t) : Escaped (s ++ t) := by
  intro u v h
  rcases List.append_eq_append_iff.1 h with ⟨w, rfl, hw⟩ | ⟨w, hw, hv⟩
  · rw [List.getLast?_append, ht w v hw, Option.some_or]
  · cases w with
    | nil =>
      -- A quote at the start of `t` would have no backslash before it there.
      have hnil := ht [] v hv.symm
      simp at hnil
    | cons d w =>
      obtain ⟨rfl, -⟩ := List.cons.inj hv
      exact hs u w hw

theorem escaped_of_notMem {s : Text} (h : '"' ∉ s) : Escaped s := by
  rintro u v rfl
  simp at h

theorem quote_notMem_unicodeEscape (n : Nat) : '"' ∉ unicodeEscape n := by
  have hdigit : ∀ m, '"' ≠ Hex.digit (m % 16) :=
    fun m => (Hex.digit_ne_quote _ (Nat.mod_lt _ (by decide))).symm
  simp [unicodeEscape, Hex.padded, hdigit]

theorem escaped_pair (e : Char) : Escaped ['\\', e] := by
  intro u v h
  have hu : u.length ≤ 1 := by
    have hlen := congrArg List.length h
    simp only [List.length_append, List.length_cons, List.length_nil] at hlen
    omega
  match u, hu with
  | [], _ => exact absurd (List.cons.inj h).1 (by decide)
  | [d], _ => rw [← (List.cons.inj h).1, List.getLast?_singleton]

theorem escaped_writeChar (c : Char) : Escaped (writeChar c) := by
  rcases writeChar_cases c with ⟨e, -, -, -, hc⟩ | ⟨hquote, -, -, -, hc⟩ | ⟨-, hc⟩ | ⟨-, hc⟩
  · rw [hc]
    exact escaped_pair e
  · rw [hc]
    exact escaped_of_notMem (by simpa using hquote.symm)
  · rw [hc]
    exact escaped_of_notMem (quote_notMem_unicodeEscape _)
  · rw [hc]
    exact (escaped_of_notMem (quote_notMem_unicodeEscape _)).append
      (escaped_of_notMem (quote_notMem_unicodeEscape _))

theorem escaped_written (s : Text) : Escaped (s.flatMap writeChar) := by
  induction s with
  | nil => exact escaped_of_notMem List.not_mem_nil
  | cons c s ih => exact (escaped_writeChar c).append ih

/-- The written forms of two values are told apart before a comma or a closing brace. -/
def Separable (v w : Json) : Prop :=
  ∀ {c d : Char} {s t : Text}, (c = ',' ∨ c = '}') → (d = ',' ∨ d = '}') →
    write v ++ c :: s = write w ++ d :: t → v = w ∧ c :: s = d :: t

theorem not_isDigit_separator {c : Char} (h : c = ',' ∨ c = '}') : c.isDigit = false := by
  rcases h with rfl | rfl <;> decide

theorem separable_nat (m n : Nat) : Separable (.int m) (.int n) := by
  intro c d s t hc hd h
  obtain ⟨rfl, hrest⟩ :=
    Text.ofNat_append_inj (not_isDigit_separator hc) (not_isDigit_separator hd) h
  exact ⟨rfl, hrest⟩

theorem write_bool (b : Bool) :
    write (.bool b) = if b then ['t', 'r', 'u', 'e'] else ['f', 'a', 'l', 's', 'e'] := by
  cases b <;> decide

theorem separable_bool (a b : Bool) : Separable (.bool a) (.bool b) := by
  intro c d s t _ _ h
  rw [write_bool, write_bool] at h
  cases a <;> cases b
  · exact ⟨rfl, List.append_cancel_left h⟩
  · exact absurd (List.cons.inj h).1 (by decide)
  · exact absurd (List.cons.inj h).1 (by decide)
  · exact ⟨rfl, List.append_cancel_left h⟩

theorem write_ofText (s : Text) : write (.ofText s) = '"' :: (s.flatMap writeChar ++ ['"']) := rfl

theorem separable_text (s t : Text) : Separable (.ofText s) (.ofText t) := by
  intro c d u v _ _ h
  rw [write_ofText, write_ofText, List.cons_append, List.cons_append, List.append_assoc,
    List.append_assoc] at h
  have hread := writeChars_append_inj (List.cons.inj h).2
  exact ⟨congrArg ofText hread.1, hread.2⟩

theorem writeFields_cons (k : Literal) (v : Json) (f : Literal × Json)
    (fs : List (Literal × Json)) :
    writeFields ((k, v) :: f :: fs) =
      quote k ++ ':' :: ' ' :: (write v ++ ',' :: ' ' :: writeFields (f :: fs)) := by
  simp [writeFields]

theorem writeFields_singleton (k : Literal) (v : Json) :
    writeFields [(k, v)] = quote k ++ ':' :: ' ' :: write v := rfl

/-- Fields of the same names, whose values are told apart, are told apart before a closing brace. -/
theorem eq_of_writeFields {fs gs : List (Literal × Json)} {s t : Text}
    (hfields : List.Forall₂ (fun f g => f.1 = g.1 ∧ Separable f.2 g.2) fs gs)
    (h : writeFields fs ++ '}' :: s = writeFields gs ++ '}' :: t) : fs = gs := by
  induction hfields with
  | nil => rfl
  | @cons f g fs gs hfg hrest ih =>
    obtain ⟨k, v⟩ := f
    obtain ⟨k', w⟩ := g
    obtain ⟨rfl, hvalue⟩ := hfg
    -- A brace comes after the last value, and a comma after every other.
    cases hrest with
    | nil =>
      rw [writeFields_singleton, writeFields_singleton, List.append_assoc, List.append_assoc] at h
      have hafter := List.append_cancel_left h
      obtain ⟨rfl, -⟩ := hvalue (.inr rfl) (.inr rfl)
        (List.cons.inj (List.cons.inj hafter).2).2
      rfl
    | cons hnext hmore =>
      rw [writeFields_cons, writeFields_cons, List.append_assoc, List.append_assoc] at h
      have hafter := List.append_cancel_left h
      obtain ⟨rfl, hlater⟩ := hvalue (.inl rfl) (.inl rfl) (by simpa using hafter)
      rw [ih (by simpa using hlater)]

theorem brace_notMem_write_nat (n : Nat) : '{' ∉ write (.int n) := by
  intro h
  have hdigit := Nat.isDigit_of_mem_toDigits (by decide) (by decide) h
  exact absurd hdigit (by decide)

theorem brace_notMem_write_bool (b : Bool) : '{' ∉ write (.bool b) := by
  rw [write_bool]
  cases b <;> decide

theorem brace_notMem_writeFields {fs : List (Literal × Json)}
    (h : ∀ f ∈ fs, '{' ∉ quote f.1 ∧ '{' ∉ write f.2) : '{' ∉ writeFields fs := by
  induction fs with
  | nil => exact List.not_mem_nil
  | cons f fs ih =>
    obtain ⟨k, v⟩ := f
    obtain ⟨hk, hv⟩ := h (k, v) List.mem_cons_self
    have hfs := ih fun g hg => h g (List.mem_cons_of_mem _ hg)
    cases fs with
    | nil =>
      rw [writeFields_singleton]
      simp [hk, hv]
    | cons g fs =>
      rw [writeFields_cons]
      simp [hk, hv, hfs]

end Json

end TextChunks
