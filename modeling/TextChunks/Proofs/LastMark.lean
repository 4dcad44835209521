import Mathlib.Data.List.Induction
import TextChunks.Proofs.Marks

namespace TextChunks.Text

structure IsLast (p : Char → Bool) (s : Text) (i : Nat) : Prop where
  found : ∃ c, s[i]? = some c ∧ p c = true
  after : ∀ c ∈ s.drop (i + 1), p c = false

section LastPlace

variable {p q : Char → Bool}

theorem lastPlace_concat (s : Text) (c : Char) :
    lastPlace p (s ++ [c]) = if p c then (s.length : Int) else lastPlace p s := by
  unfold lastPlace
  rw [List.reverse_concat, lastPlace.go, List.length_reverse]

theorem isLast_concat {s : Text} {c : Char} {i : Nat} :
    IsLast p (s ++ [c]) i ↔ if p c then s.length = i else IsLast p s i := by
  split
  · next hc =>
    constructor
    · rintro ⟨⟨d, hd, -⟩, hafter⟩
      have hi := (List.getElem?_eq_some_iff.1 hd).1
      rw [List.length_append, List.length_singleton] at hi
      by_contra hne
      have hmem : c ∈ (s ++ [c]).drop (i + 1) := by
        rw [List.drop_append_of_le_length (by omega)]
        exact List.mem_append_right _ List.mem_cons_self
      simp [hafter c hmem] at hc
    · rintro rfl
      exact ⟨⟨c, List.getElem?_concat_length, hc⟩, by simp⟩
  · next hc =>
    constructor
    · rintro ⟨⟨d, hd, hpd⟩, hafter⟩
      have hi : i < s.length := by
        have hle := (List.getElem?_eq_some_iff.1 hd).1
        rw [List.length_append, List.length_singleton] at hle
        by_contra hge
        obtain rfl : i = s.length := by omega
        rw [List.getElem?_concat_length] at hd
        exact hc (Option.some.inj hd ▸ hpd)
      rw [List.getElem?_append_left hi] at hd
      rw [List.drop_append_of_le_length hi] at hafter
      exact ⟨⟨d, hd, hpd⟩, fun e he => hafter e (List.mem_append_left _ he)⟩
    · rintro ⟨⟨d, hd, hpd⟩, hafter⟩
      have hi := (List.getElem?_eq_some_iff.1 hd).1
      refine ⟨⟨d, (List.getElem?_append_left hi).trans hd, hpd⟩, ?_⟩
      rw [List.drop_append_of_le_length hi]
      intro e he
      rcases List.mem_append.1 he with he | he
      · exact hafter e he
      · rw [List.mem_singleton.1 he]
        exact Bool.eq_false_iff.2 hc

theorem lastPlace_eq_iff {s : Text} {i : Nat} : lastPlace p s = i ↔ IsLast p s i := by
  induction s using List.reverseRecOn with
  | nil =>
    constructor
    · intro h
      change (-1 : Int) = i at h
      omega
    · rintro ⟨⟨c, hc, -⟩, -⟩
      simp at hc
  | append_singleton s c ih =>
    rw [lastPlace_concat, isLast_concat]
    split
    · exact Int.ofNat_inj
    · exact ih

theorem lastPlace_eq_neg_one_iff {s : Text} : lastPlace p s = -1 ↔ ∀ c ∈ s, p c = false := by
  induction s using List.reverseRecOn with
  | nil => exact ⟨fun _ c hc => absurd hc List.not_mem_nil, fun _ => rfl⟩
  | append_singleton s c ih =>
    rw [lastPlace_concat, List.forall_mem_append, List.forall_mem_singleton, ← ih]
    split
    · next hc =>
      constructor
      · intro h
        omega
      · intro h
        simp [h.2] at hc
    · next hc => exact ⟨fun h => ⟨h, Bool.eq_false_iff.2 hc⟩, And.left⟩

theorem lastPlace_lt (p : Char → Bool) (s : Text) : lastPlace p s < s.length := by
  induction s using List.reverseRecOn with
  | nil => exact (by decide : (-1 : Int) < 0)
  | append_singleton s c ih =>
    rw [lastPlace_concat, List.length_append, List.length_singleton]
    split <;> omega

theorem lastPlace_cases (p : Char → Bool) (s : Text) :
    lastPlace p s = -1 ∨ ∃ i : Nat, lastPlace p s = i := by
  induction s using List.reverseRecOn with
  | nil => exact .inl rfl
  | append_singleton s c ih =>
    rw [lastPlace_concat]
    split
    · exact .inr ⟨s.length, rfl⟩
    · exact ih

theorem lastPlace_append (s t : Text) : lastPlace p (s ++ t) =
    if t.any p then s.length + lastPlace p t else lastPlace p s := by
  induction t using List.reverseRecOn with
  | nil => rw [List.append_nil, List.any_nil, if_neg Bool.false_ne_true]
  | append_singleton t c ih =>
    rw [← List.append_assoc, lastPlace_concat, lastPlace_concat, ih, List.any_append,
      List.length_append]
    by_cases hc : p c = true
    · simp [hc]
    · simp [hc]

theorem forall_mem_drop_lastPlace (p : Char → Bool) (s : Text) :
    ∀ c ∈ s.drop (lastPlace p s + 1).toNat, p c = false := by
  rcases lastPlace_cases p s with h | ⟨i, h⟩
  · rw [h]
    exact lastPlace_eq_neg_one_iff.1 h
  · rw [h]
    exact (lastPlace_eq_iff.1 h).after

/-- The part up to the last place has the same last place. -/
theorem lastPlace_take (p : Char → Bool) (s : Text) :
    lastPlace p (s.take (lastPlace p s + 1).toNat) = lastPlace p s := by
  have hrest : (s.drop (lastPlace p s + 1).toNat).any p = false :=
    List.any_eq_false.2 fun c hc => Bool.not_eq_true _ ▸ forall_mem_drop_lastPlace p s c hc
  conv_rhs => rw [← List.take_append_drop (lastPlace p s + 1).toNat s]
  rw [lastPlace_append, hrest, if_neg Bool.false_ne_true]

/-- A larger class has a later last place. -/
theorem lastPlace_mono (h : ∀ c, p c = true → q c = true) (s : Text) :
    lastPlace p s ≤ lastPlace q s := by
  induction s using List.reverseRecOn with
  | nil => exact Int.le_refl _
  | append_singleton s c ih =>
    rw [lastPlace_concat, lastPlace_concat]
    by_cases hp : p c = true
    · exact Int.le_of_eq ((if_pos hp).trans (if_pos (h c hp)).symm)
    · rw [if_neg hp]
      split
      · exact Int.le_of_lt (lastPlace_lt p s)
      · exact ih

/-- The greatest of the last places of some characters is that of the class of them. -/
theorem max_lastPlace {ms s : Text} (h : ms.map (fun m => lastPlace (· == m) s) ≠ []) :
    (ms.map fun m => lastPlace (· == m) s).max h = lastPlace (ms.contains ·) s := by
  rw [List.max_eq_iff]
  constructor
  · rw [List.mem_map]
    rcases lastPlace_cases (ms.contains ·) s with hnone | ⟨i, hi⟩
    · -- No search finds anything, and there is at least one search.
      obtain ⟨m, hm⟩ := List.exists_mem_of_ne_nil ms (mt List.map_eq_nil_iff.2 h)
      refine ⟨m, hm, ?_⟩
      rw [hnone, lastPlace_eq_neg_one_iff]
      intro c hc
      rw [beq_eq_false_iff_ne]
      rintro rfl
      exact Bool.false_ne_true
        ((lastPlace_eq_neg_one_iff.1 hnone c hc).symm.trans (List.contains_iff_mem.2 hm))
    · -- The search for the character that stands at the place finds it.
      obtain ⟨⟨c, hc, hmem⟩, hafter⟩ := lastPlace_eq_iff.1 hi
      refine ⟨c, List.contains_iff_mem.1 hmem, ?_⟩
      rw [hi, lastPlace_eq_iff]
      refine ⟨⟨c, hc, beq_self_eq_true c⟩, fun d hd => ?_⟩
      rw [beq_eq_false_iff_ne]
      rintro rfl
      exact Bool.false_ne_true ((hafter d hd).symm.trans hmem)
  · intro i hi
    obtain ⟨m, hm, rfl⟩ := List.mem_map.1 hi
    apply lastPlace_mono
    intro c hc
    rw [eq_of_beq hc]
    exact List.contains_iff_mem.2 hm

end LastPlace

theorem contains_marks (c : Char) : marks.contains c = isMark c := by
  simp only [marks, isMark, List.contains_cons, List.contains_nil, Bool.or_false, Bool.or_assoc]

theorem lastBoundary_eq (s : Text) : s.lastBoundary = lastPlace isMark s := by
  have hclass : (marks.contains ·) = isMark := funext contains_marks
  rw [lastBoundary, max_lastPlace, hclass]

theorem lastPlace_isMark_of_some {s : Text} {i : Nat} (h : s.lastMark? = some i) :
    lastPlace isMark s = i := by
  obtain ⟨u, m, v, rfl, rfl, hm, hv⟩ := lastMark?_eq_some h
  rw [lastPlace_eq_iff]
  exact ⟨⟨m, by simp, hm⟩, by simpa using hv⟩

theorem cut_eq (least : Nat) (s : Text) : s.cut least =
    if (least : Int) < s.lastBoundary then s.take (s.lastBoundary + 1).toNat else s := by
  rw [lastBoundary_eq, cut]
  split
  · next i hi =>
    rw [lastPlace_isMark_of_some hi]
    simp only [Int.ofNat_lt]
    rfl
  · next hnone =>
    rw [lastPlace_eq_neg_one_iff.2 (lastMark?_eq_none hnone), if_neg (by omega)]

theorem cut_cut (least : Nat) (s : Text) : (s.cut least).cut least = s.cut least := by
  by_cases h : (least : Int) < s.lastBoundary
  · have hagain : lastBoundary (s.take (s.lastBoundary + 1).toNat) = s.lastBoundary := by
      rw [lastBoundary_eq, lastBoundary_eq, lastPlace_take]
    rw [cut_eq least s, if_pos h, cut_eq, hagain, if_pos h, List.take_take, Nat.min_self]
  · have hall : s.cut least = s := by rw [cut_eq, if_neg h]
    rw [hall, hall]

theorem exists_append_of_cut (least : Nat) (s : Text) :
    ∃ rest, s = s.cut least ++ rest ∧ ∀ c ∈ rest, isMark c = false := by
  rcases cut_eq_self_or least s with h | ⟨u, m, v, hs, hcut, -, hv⟩
  · exact ⟨[], by rw [h, List.append_nil], fun c hc => absurd hc List.not_mem_nil⟩
  · refine ⟨v, ?_, hv⟩
    rw [hcut, List.append_assoc, List.singleton_append]
    exact hs

/-- The greatest of the last places of the marks is `-1` in a text without marks, and else the place of the
last mark. A longer text has that of its second part, if there is a mark in it; the part up to the place
has the same place, and a cut leaves this part or all of the text, so that a second cut leaves the same. -/
theorem lastBoundary_finds_last_mark (s t : Text) (least : Nat) :
    (s.lastBoundary = -1 ↔ ∀ c ∈ s, isMark c = false) ∧
      (s.lastBoundary = -1 ∨ ∃ i : Nat, s.lastBoundary = i) ∧
      (∀ i : Nat, s.lastBoundary = i ↔ IsLast isMark s i) ∧
      (s ++ t).lastBoundary =
        (if t.any isMark then s.length + t.lastBoundary else s.lastBoundary) ∧
      lastBoundary (s.take (s.lastBoundary + 1).toNat) = s.lastBoundary ∧
      (∀ c ∈ s.drop (s.lastBoundary + 1).toNat, isMark c = false) ∧
      s.cut least = (if (least : Int) < s.lastBoundary then s.take (s.lastBoundary + 1).toNat
        else s) ∧
      (s.cut least).cut least = s.cut least ∧
      ∃ rest, s = s.cut least ++ rest ∧ ∀ c ∈ rest, isMark c = false := by
  refine ⟨?_, ?_, fun i => ?_, ?_, ?_, ?_, cut_eq least s, cut_cut least s,
    exists_append_of_cut least s⟩
  all_goals simp only [lastBoundary_eq]
  · exact lastPlace_eq_neg_one_iff
  · exact lastPlace_cases isMark s
  · exact lastPlace_eq_iff
  · exact lastPlace_append s t
  · exact lastPlace_take isMark s
  · exact forall_mem_drop_lastPlace isMark s

/-- The last mark need not be one of the kind that is searched for first. -/
theorem lastBoundary_finds_last_mark_of_three :
    lastBoundary "a.b\nc!d".toList = 5 ∧ IsLast isMark "a.b\nc!d".toList 5 ∧
      lastBoundary ("a.b\nc!d".toList ++ "e?f".toList) = 8 ∧
      cut 4 "a.b\nc!d".toList = "a.b\nc!".toList := by
  obtain ⟨-, -, hplace, happend, -, -, hcut, -⟩ :=
    lastBoundary_finds_last_mark "a.b\nc!d".toList "e?f".toList 4
  have hfive : lastBoundary "a.b\nc!d".toList = 5 := by decide
  refine ⟨hfive, (hplace 5).1 hfive, ?_, ?_⟩
  · rw [happend]
    decide
  · rw [hcut, hfive]
    rfl

end TextChunks.Text
