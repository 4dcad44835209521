import Mathlib.Data.List.Infix
import TextChunks.Text.Utf8

namespace TextChunks

namespace Bytes

/-- The bytes `ts` end the pending form, which then stands for the code point `n`. -/
def Completes (n : Nat) : Pending → Bytes → Prop
  | _, [] => False
  | p, b :: ts => (p.low ≤ b.toNat ∧ b.toNat ≤ p.high) ∧
      if p.left ≤ 1 then ts = [] ∧ p.bits * 0x40 + (b.toNat - 0x80) = n
      else Completes n ⟨p.left - 1, 0x80, 0xBF, p.bits * 0x40 + (b.toNat - 0x80)⟩ ts

theorem completes_single {n low high bits : Nat} {b : UInt8} (hlow : low ≤ b.toNat)
    (hhigh : b.toNat ≤ high) (h : bits * 0x40 + (b.toNat - 0x80) = n) :
    Completes n ⟨1, low, high, bits⟩ [b] :=
  ⟨⟨hlow, hhigh⟩, rfl, h⟩

theorem completes_cons {n k low high bits : Nat} {b : UInt8} {ts : Bytes} (hlow : low ≤ b.toNat)
    (hhigh : b.toNat ≤ high)
    (h : Completes n ⟨k + 1, 0x80, 0xBF, bits * 0x40 + (b.toNat - 0x80)⟩ ts) :
    Completes n ⟨k + 2, low, high, bits⟩ (b :: ts) :=
  ⟨⟨hlow, hhigh⟩, by rwa [if_neg (show ¬k + 2 ≤ 1 by omega)]⟩

theorem decodeFrom_completes {n : Nat} {ts : Bytes} (x : Bytes) :
    ∀ {p : Pending}, Completes n p ts →
      decodeFrom (some p) (ts ++ x) = Char.ofNat n :: toText x := by
  induction ts with
  | nil => exact fun h => h.elim
  | cons b ts ih =>
    intro p h
    obtain ⟨hb, h⟩ := h
    simp only [List.cons_append, decodeFrom, step, if_pos hb]
    by_cases hleft : p.left ≤ 1
    · rw [if_pos hleft] at h ⊢
      obtain ⟨rfl, rfl⟩ := h
      rfl
    · rw [if_neg hleft] at h ⊢
      rw [List.nil_append, ih h]

theorem decodeFrom_broken {n : Nat} {x y : Bytes} (hy : y ≠ []) :
    ∀ {p : Pending}, Completes n p (x ++ y) → decodeFrom (some p) x = [replacement] := by
  induction x with
  | nil => exact fun _ => rfl
  | cons b x ih =>
    intro p h
    obtain ⟨hb, h⟩ := h
    simp only [decodeFrom, step, if_pos hb]
    by_cases hleft : p.left ≤ 1
    · rw [if_pos hleft] at h
      simp [hy] at h
    · rw [if_neg hleft] at h ⊢
      rw [List.nil_append, ih h]

theorem lead?_two :
    ∀ k < 30, (lead? (0xC2 + k).toUInt8).map (fun l => (l.following, l.low, l.high, l.bits)) =
    some (1, 0x80, 0xBF, k + 2) := by decide

theorem lead?_three :
    ∀ k < 16, (lead? (0xE0 + k).toUInt8).map (fun l => (l.following, l.low, l.high, l.bits)) =
    some (2, if k = 0 then 0xA0 else 0x80, if k = 0xD then 0x9F else 0xBF, k) := by decide

theorem lead?_four :
    ∀ k < 5, (lead? (0xF0 + k).toUInt8).map (fun l => (l.following, l.low, l.high, l.bits)) =
    some (3, if k = 0 then 0x90 else 0x80, if k = 4 then 0x8F else 0xBF, k) := by decide

theorem lead?_eq_some {b : UInt8} {following low high bits : Nat}
    (h : (lead? b).map (fun l => (l.following, l.low, l.high, l.bits)) =
      some (following, low, high, bits)) :
    lead? b = some ⟨following, low, high, bits⟩ := by
  obtain ⟨l, hl, heq⟩ := Option.map_eq_some_iff.1 h
  simp only [Prod.mk.injEq] at heq
  obtain ⟨rfl, rfl, rfl, rfl⟩ := heq
  exact hl

end Bytes

namespace Text

theorem toNat_toUInt8 {n : Nat} (h : n < 256) : n.toUInt8.toNat = n := by
  simp [Nat.mod_eq_of_lt h]

/-- A character is one byte below 0x80, or a lead byte with those that complete its form. -/
theorem charBytes_cases (c : Char) :
    (c.toNat < 0x80 ∧ charBytes c = [c.toNat.toUInt8]) ∨
      ∃ b ts l, charBytes c = b :: ts ∧ 0xC2 ≤ b.toNat ∧ Bytes.lead? b = some l ∧
        Bytes.Completes c.toNat ⟨l.following, l.low, l.high, l.bits⟩ ts := by
  have hc : c.toNat < 0xD800 ∨ 0xDFFF < c.toNat ∧ c.toNat < 0x110000 := c.valid
  generalize hn : c.toNat = n at *
  unfold charBytes
  simp only [hn]
  by_cases h1 : n < 0x80
  · exact .inl ⟨h1, by rw [if_pos h1]⟩
  right
  rw [if_neg h1]
  by_cases h2 : n < 0x800
  · -- A lead byte and one that completes it; below, two and three that do.
    rw [if_pos h2]
    have hlead := Bytes.lead?_eq_some (Bytes.lead?_two (n / 0x40 - 2) (by omega))
    rw [show 0xC2 + (n / 0x40 - 2) = 0xC0 + n / 0x40 by omega] at hlead
    refine ⟨_, _, _, rfl, by rw [toNat_toUInt8 (by omega)]; omega, hlead, ?_⟩
    dsimp only
    have hb := toNat_toUInt8 (n := 0x80 + n % 0x40) (by omega)
    exact Bytes.completes_single (by omega) (by omega) (by omega)
  rw [if_neg h2]
  have hlast := toNat_toUInt8 (n := 0x80 + n % 0x40) (by omega)
  have hthird := toNat_toUInt8 (n := 0x80 + n / 0x40 % 0x40) (by omega)
  by_cases h3 : n < 0x10000
  · rw [if_pos h3]
    have hlead := Bytes.lead?_eq_some (Bytes.lead?_three (n / 0x1000) (by omega))
    refine ⟨_, _, _, rfl, by rw [toNat_toUInt8 (by omega)]; omega, hlead, ?_⟩
    dsimp only
    refine Bytes.completes_cons ?_ ?_ (Bytes.completes_single (by omega) (by omega) (by omega))
    · split <;> omega
    · split <;> omega
  rw [if_neg h3]
  have hsecond := toNat_toUInt8 (n := 0x80 + n / 0x1000 % 0x40) (by omega)
  have hlead := Bytes.lead?_eq_some (Bytes.lead?_four (n / 0x40000) (by omega))
  refine ⟨_, _, _, rfl, by rw [toNat_toUInt8 (by omega)]; omega, hlead, ?_⟩
  dsimp only
  refine Bytes.completes_cons ?_ ?_
    (Bytes.completes_cons (by omega) (by omega)
    (Bytes.completes_single (by omega) (by omega) (by omega)))
  · split <;> omega
  · split <;> omega

/-- The first byte of a character is below 0x80 or a lead byte. -/
theorem charBytes_head (c : Char) : ∃ b ts, charBytes c = b :: ts ∧
    ((c.toNat < 0x80 ∧ b = c.toNat.toUInt8 ∧ ts = []) ∨
      (0x80 ≤ c.toNat ∧ 0xC2 ≤ b.toNat ∧ ts ≠ [])) := by
  rcases charBytes_cases c with ⟨h, hb⟩ | ⟨b, ts, l, hb, hlead, -, hts⟩
  · exact ⟨_, [], hb, .inl ⟨h, rfl, rfl⟩⟩
  · refine ⟨b, ts, hb, .inr ⟨?_, hlead, by rintro rfl; exact hts⟩⟩
    by_contra hlt
    rw [charBytes, if_pos (by omega), List.cons.injEq] at hb
    rw [← hb.1, toNat_toUInt8 (by omega)] at hlead
    omega

end Text

namespace Bytes

/-- All bytes that complete a form are continuation bytes. -/
theorem Completes.mem {n : Nat} {ts : Bytes} :
    ∀ {p : Pending}, 0x80 ≤ p.low → p.high ≤ 0xBF → Completes n p ts →
      ∀ b ∈ ts, 0x80 ≤ b.toNat ∧ b.toNat ≤ 0xBF := by
  induction ts with
  | nil => simp
  | cons t ts ih =>
    intro p hlow hhigh h b hb
    obtain ⟨⟨ht, ht'⟩, h⟩ := h
    rcases List.mem_cons.1 hb with rfl | hb
    · omega
    · by_cases hleft : p.left ≤ 1
      · rw [if_pos hleft] at h
        simp [h.1] at hb
      · rw [if_neg hleft] at h
        exact ih (by simp) (by simp) h b hb

theorem lead?_bounds {b : UInt8} {l : Lead} (h : lead? b = some l) :
    0x80 ≤ l.low ∧ l.high ≤ 0xBF := by
  simp only [lead?] at h
  repeat' split at h
  all_goals first | (obtain rfl := Option.some.inj h; simp) | simp at h

theorem toText_lead {b : UInt8} {l : Lead} (hb : 0xC2 ≤ b.toNat) (h : lead? b = some l)
    (x : Bytes) :
    toText (b :: x) = decodeFrom (some ⟨l.following, l.low, l.high, l.bits⟩) x := by
  simp only [toText, decodeFrom, step, openForm, if_neg (show ¬b.toNat < 0x80 by omega), h,
    List.nil_append]

/-- The bytes of a character give the character, whatever follows them. -/
theorem toText_charBytes (c : Char) (x : Bytes) :
    toText (Text.charBytes c ++ x) = c :: toText x := by
  rcases Text.charBytes_cases c with ⟨hc, h⟩ | ⟨b, ts, l, h, hb, hlead, hts⟩
  · rw [h, List.singleton_append]
    simp only [toText, decodeFrom, step, openForm,
      Text.toNat_toUInt8 (show c.toNat < 256 by omega), if_pos hc,
      Char.ofNat_toNat]
    rfl
  · rw [h, List.cons_append, toText_lead hb hlead, decodeFrom_completes x hts, Char.ofNat_toNat]

/-- A form that breaks off is replaced. -/
theorem toText_broken {c : Char} {x y : Bytes} (h : Text.charBytes c = x ++ y) (hx : x ≠ [])
    (hy : y ≠ []) :
    toText x = [replacement] := by
  obtain ⟨b, x, rfl⟩ := List.exists_cons_of_ne_nil hx
  rcases Text.charBytes_cases c with ⟨-, hc⟩ | ⟨b', ts, l, hc, hb, hlead, hts⟩
  · rw [h] at hc
    have hlen := congrArg List.length hc
    have hpos := List.length_pos_iff.2 hy
    simp only [List.cons_append, List.length_cons, List.length_append, List.length_nil] at hlen
    omega
  · rw [h] at hc
    obtain ⟨rfl, rfl⟩ : b = b' ∧ x ++ y = ts := by simpa using hc
    rw [toText_lead hb hlead, decodeFrom_broken hy hts]

/-- A continuation byte that starts no form is replaced. -/
theorem toText_cons_tail {b : UInt8} (hlow : 0x80 ≤ b.toNat) (hhigh : b.toNat ≤ 0xBF) (x : Bytes) :
    toText (b :: x) = replacement :: toText x := by
  have hlead : lead? b = none := by
    simp only [lead?]
    repeat' rw [if_neg (by omega)]
  simp only [toText, decodeFrom, step, openForm, if_neg (show ¬b.toNat < 0x80 by omega), hlead,
    List.singleton_append]

end Bytes

namespace Text

/-- The last byte of a character is below 0x80 or a continuation byte. -/
theorem charBytes_last (c : Char) : ∃ ts b, charBytes c = ts ++ [b] ∧
    ((c.toNat < 0x80 ∧ b.toNat < 0x80 ∧ ts = []) ∨
      (0x80 ≤ c.toNat ∧ 0x80 ≤ b.toNat ∧ b.toNat < 0xC0 ∧ ts ≠ [])) := by
  rcases charBytes_cases c with ⟨hc, h⟩ | ⟨b, ts, l, h, hb, hlead, hts⟩
  · exact ⟨[], _, h, .inl ⟨hc, by rwa [toNat_toUInt8 (by omega)], rfl⟩⟩
  · obtain ⟨hlow, hhigh⟩ := Bytes.lead?_bounds hlead
    obtain ⟨ts, t, rfl⟩ : ∃ ts' t, ts = ts' ++ [t] :=
      ⟨_, _, (List.dropLast_concat_getLast (by rintro rfl; exact hts)).symm⟩
    have ht := hts.mem hlow hhigh t (by simp)
    refine ⟨b :: ts, t, h, .inr ⟨?_, ht.1, by omega, by simp⟩⟩
    by_contra hlt
    rw [charBytes, if_pos (by omega)] at h
    simp at h

/-- A first byte below 0x80 is the whole character. -/
theorem eq_of_head {c : Char} {b : UInt8} (h : (charBytes c).head? = some b) (hb : b.toNat < 0x80) :
    c = Char.ofNat b.toNat := by
  obtain ⟨d, ts, hd, hcases⟩ := charBytes_head c
  obtain rfl : d = b := by simpa [hd] using h
  rcases hcases with ⟨hc, rfl, -⟩ | hlead
  · rw [toNat_toUInt8 (by omega), Char.ofNat_toNat]
  · omega

/-- A last byte below 0x80 is the whole character. -/
theorem eq_of_last {c : Char} {b : UInt8} (h : (charBytes c).getLast? = some b)
    (hb : b.toNat < 0x80) : c = Char.ofNat b.toNat := by
  obtain ⟨ts, d, hd, hcases⟩ := charBytes_last c
  obtain rfl : d = b := by simpa [hd] using h
  rcases hcases with ⟨hc, -, rfl⟩ | htail
  · exact eq_of_head (by rw [hd]; rfl) hb
  · omega

theorem toNat_of_head {c : Char} {b : UInt8} (h : (charBytes c).head? = some b)
    (hb : 0x80 ≤ b.toNat) : 0x80 ≤ c.toNat := by
  obtain ⟨d, ts, hd, hcases⟩ := charBytes_head c
  obtain rfl : d = b := by simpa [hd] using h
  rcases hcases with ⟨hc, rfl, -⟩ | hlead
  · rw [toNat_toUInt8 (by omega)] at hb
    exact hb
  · exact hlead.1

theorem toNat_of_last {c : Char} {b : UInt8} (h : (charBytes c).getLast? = some b)
    (hb : 0x80 ≤ b.toNat) : 0x80 ≤ c.toNat := by
  obtain ⟨ts, d, hd, hcases⟩ := charBytes_last c
  obtain rfl : d = b := by simpa [hd] using h
  rcases hcases with hlast | htail
  · omega
  · exact htail.1

@[simp] theorem toBytes_nil : toBytes [] = [] := rfl

@[simp] theorem toBytes_cons (c : Char) (s : Text) :
    toBytes (c :: s) = charBytes c ++ toBytes s := rfl

@[simp] theorem toBytes_append (s t : Text) : toBytes (s ++ t) = toBytes s ++ toBytes t :=
  List.flatMap_append

theorem toText_toBytes_append (s : Text) (x : Bytes) : (s.toBytes ++ x).toText = s ++ x.toText := by
  induction s with
  | nil => rfl
  | cons c s ih => rw [toBytes_cons, List.append_assoc, Bytes.toText_charBytes, ih,
      List.cons_append]

@[simp] theorem toText_toBytes (s : Text) : s.toBytes.toText = s := by
  have h := toText_toBytes_append s []
  rwa [List.append_nil, show Bytes.toText [] = [] from rfl, List.append_nil] at h

theorem toBytes_injective : Function.Injective toBytes :=
  Function.LeftInverse.injective toText_toBytes

theorem toBytes_eq_nil {s : Text} : s.toBytes = [] ↔ s = [] := by
  constructor
  · intro h
    rw [← toText_toBytes s, h]
    rfl
  · rintro rfl
    rfl

theorem toBytes_eq_append {s y : Text} {x : Bytes} (h : s.toBytes = y.toBytes ++ x) :
    ∃ z, s = y ++ z ∧ x = z.toBytes := by
  have hs : s = y ++ x.toText := by rw [← toText_toBytes s, h, toText_toBytes_append]
  refine ⟨x.toText, hs, ?_⟩
  conv at h => lhs; rw [hs]
  rw [toBytes_append] at h
  exact (List.append_cancel_left h).symm

/-- A place in the bytes of a text falls between two characters, or inside the form of one. -/
theorem toBytes_split {s : Text} {x y : Bytes} (h : s.toBytes = x ++ y) :
    (∃ u v : Text, s = u ++ v ∧ x = u.toBytes ∧ y = v.toBytes) ∨
      ∃ (u : Text) (c : Char) (v : Text) (p q : Bytes), s = u ++ c :: v ∧ charBytes c = p ++ q ∧
        p ≠ [] ∧ q ≠ [] ∧
        x = u.toBytes ++ p ∧ y = q ++ v.toBytes := by
  induction s generalizing x with
  | nil =>
    obtain ⟨rfl, rfl⟩ := List.append_eq_nil_iff.1 h.symm
    exact .inl ⟨[], [], rfl, rfl, rfl⟩
  | cons c s ih =>
    rw [toBytes_cons] at h
    rcases List.append_eq_append_iff.1 h with ⟨x', rfl, hy⟩ | ⟨q, hc, rfl⟩
    · rcases ih hy with ⟨u, v, rfl, rfl, rfl⟩ | ⟨u, d, v, p, q, rfl, hd, hp, hq, rfl, rfl⟩
      · exact .inl ⟨c :: u, v, rfl, rfl, rfl⟩
      · exact .inr ⟨c :: u, d, v, p, q, rfl, hd, hp, hq, by simp, rfl⟩
    · by_cases hx : x = []
      · subst hx
        exact .inl ⟨[], c :: s, rfl, rfl, by rw [toBytes_cons, hc]; rfl⟩
      by_cases hq : q = []
      · subst hq
        exact .inl ⟨[c], s, rfl, by rw [toBytes_cons, hc]; simp, rfl⟩
      · exact .inr ⟨[], c, s, x, q, rfl, hc, hx, hq, rfl, rfl⟩

end Text

end TextChunks
