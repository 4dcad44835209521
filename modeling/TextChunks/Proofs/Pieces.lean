import Mathlib.Data.List.Basic
import Mathlib.Data.List.TakeWhile
import TextChunks.Tokenizer.Encodings

namespace TextChunks.Text

variable {next : Text → Nat}

@[simp] theorem pieces_nil : pieces next [] = [] := by rw [pieces]

theorem pieces_cons (c : Char) (rest : Text) : pieces next (c :: rest) =
    (c :: rest.take (next (c :: rest) - 1)) :: pieces next (rest.drop (next (c :: rest) - 1)) := by
  rw [pieces]

@[simp] theorem flatten_pieces (s : Text) : (pieces next s).flatten = s := by
  fun_induction pieces next s with
  | case1 => rfl
  | case2 c rest n ih => simp [ih]

/-- Every piece is the first one of what is left of the text there. -/
theorem exists_of_mem_pieces {s p : Text} (h : p ∈ pieces next s) :
    ∃ c rest, c :: rest <:+ s ∧ p = c :: rest.take (next (c :: rest) - 1) := by
  fun_induction pieces next s with
  | case1 => simp at h
  | case2 c rest n ih =>
    rcases List.mem_cons.1 h with rfl | h
    · exact ⟨c, rest, List.suffix_rfl, rfl⟩
    · obtain ⟨d, rest', hsuf, hp⟩ := ih h
      exact ⟨d, rest', hsuf.trans ((List.drop_suffix _ _).trans (List.suffix_cons _ _)), hp⟩

theorem ne_nil_of_mem_pieces {s p : Text} (h : p ∈ pieces next s) : p ≠ [] := by
  obtain ⟨c, rest, -, rfl⟩ := exists_of_mem_pieces h
  simp

/-- The pieces from any place on are the pieces of the text that is left there. -/
theorem pieces_flatten_of_append {s : Text} {a b : List Text} (h : pieces next s = a ++ b) :
    pieces next b.flatten = b := by
  induction a generalizing s with
  | nil => rw [← List.nil_append b, ← h, flatten_pieces]
  | cons p a ih =>
    cases s with
    | nil => simp at h
    | cons c rest =>
      rw [pieces_cons, List.cons_append, List.cons.injEq] at h
      exact ih h.2

/-- The length of the first piece does not depend on what comes after that piece. -/
def Settled (next : Text → Nat) : Prop := ∀ s m, next s ≤ m → next (s.take m) = next s

/-- The pieces up to any place are the pieces of the text up to there. -/
theorem Settled.pieces_flatten_of_append (hn : Settled next) {s : Text} {a b : List Text}
    (h : pieces next s = a ++ b) : pieces next a.flatten = a := by
  induction a generalizing s with
  | nil => simp
  | cons p a ih =>
    cases s with
    | nil => simp at h
    | cons c rest =>
      have hfull : (p :: a).flatten ++ b.flatten = c :: rest := by
        rw [← List.flatten_append, ← h, flatten_pieces]
      rw [pieces_cons, List.cons_append, List.cons.injEq] at h
      obtain ⟨rfl, hrest⟩ := h
      simp only [List.flatten_cons, List.cons_append, List.cons.injEq, true_and] at hfull ⊢
      -- The length of the first piece is settled by the text of the block, if that holds the piece.
      generalize hk : next (c :: rest) - 1 = n at *
      by_cases hle : n ≤ rest.length
      · have hlen : (rest.take n).length = n := by rw [List.length_take]; omega
        have htake :
            c :: (rest.take n ++ a.flatten) = (c :: rest).take (n + 1 + a.flatten.length) := by
          have hlen' : (c :: (rest.take n ++ a.flatten)).length = n + 1 + a.flatten.length := by
            simp only [List.length_cons, List.length_append, hlen]
            omega
          conv_rhs => rw [← hfull]
          exact (List.take_left' hlen').symm
        have hnext : next (c :: (rest.take n ++ a.flatten)) = next (c :: rest) := by
          rw [htake]
          exact hn _ _ (by omega)
        rw [pieces_cons, hnext, hk, List.take_left' hlen, List.drop_left' hlen, ih hrest]
      · -- The piece is all that is left of the text, so no other follows it.
        have hdrop : rest.drop n = [] := List.drop_of_length_le (by omega)
        rw [hdrop, pieces_nil] at hrest
        obtain ⟨rfl, rfl⟩ := List.append_eq_nil_iff.1 hrest.symm
        simp only [List.flatten_nil, List.append_nil] at hfull ⊢
        rw [hfull, pieces_cons, hk, hdrop, hfull, pieces_nil]

theorem Settled.pieces_flatten_middle (hn : Settled next) {s : Text} {a b c : List Text}
    (h : pieces next s = a ++ b ++ c) : pieces next b.flatten = b := by
  rw [List.append_assoc] at h
  exact hn.pieces_flatten_of_append (Text.pieces_flatten_of_append h)

theorem settled_runLength (p : Char → Bool) : Settled (runLength p) := by
  intro s m h
  simp only [runLength] at h ⊢
  induction s generalizing m with
  | nil => simp
  | cons c s ih =>
    by_cases hc : p c = true
    · rw [List.takeWhile_cons_of_pos hc, List.length_cons] at h ⊢
      obtain ⟨m, rfl⟩ : ∃ k, m = k + 1 := ⟨m - 1, by omega⟩
      rw [List.take_succ_cons, List.takeWhile_cons_of_pos hc, List.length_cons, ih m (by omega)]
    · rw [List.takeWhile_cons_of_neg hc]
      cases m with
      | zero => simp
      | succ m => rw [List.take_succ_cons, List.takeWhile_cons_of_neg hc]

theorem settled_const (n : Nat) : Settled fun _ => n := fun _ _ _ => rfl

theorem runLength_take (p : Char → Bool) {s : Text} {m : Nat} (h : m ≤ runLength p s) :
    runLength p (s.take m) = m := by
  induction s generalizing m with
  | nil =>
    obtain rfl : m = 0 := by simpa [runLength] using h
    rfl
  | cons c s ih =>
    cases m with
    | zero => rfl
    | succ m =>
      by_cases hc : p c = true
      · simp only [runLength, List.takeWhile_cons_of_pos hc, List.length_cons,
          List.take_succ_cons] at h ih ⊢
        rw [ih (by omega)]
      · simp [runLength, List.takeWhile_cons_of_neg hc] at h

theorem runLength_drop (p : Char → Bool) {s : Text} {m : Nat} (h : m ≤ runLength p s) :
    runLength p (s.drop m) = runLength p s - m := by
  induction s generalizing m with
  | nil => simp [runLength]
  | cons c s ih =>
    cases m with
    | zero => rfl
    | succ m =>
      by_cases hc : p c = true
      · simp only [runLength, List.takeWhile_cons_of_pos hc, List.length_cons,
          List.drop_succ_cons] at h ih ⊢
        rw [ih (by omega)]
        omega
      · simp [runLength, List.takeWhile_cons_of_neg hc] at h

theorem exists_of_lt_runLength (p : Char → Bool) {s : Text} {m : Nat} (h : m < runLength p s) :
    ∃ c t, s.drop m = c :: t ∧ p c = true := by
  have hpos : 0 < runLength p (s.drop m) := by rw [runLength_drop p (Nat.le_of_lt h)]; omega
  cases hd : s.drop m with
  | nil => simp [hd, runLength] at hpos
  | cons c t =>
    refine ⟨c, t, rfl, ?_⟩
    by_contra hc
    simp [hd, runLength, List.takeWhile_cons_of_neg hc] at hpos

theorem of_mem_take_runLength {p : Char → Bool} {s : Text} {m : Nat}
    (h : m ≤ runLength p s) {c : Char} (hc : c ∈ s.take m) : p c = true := by
  have htake : s.take m = (s.takeWhile p).take m := by
    have hpre : s.takeWhile p <+: s := List.takeWhile_prefix p
    rw [List.prefix_iff_eq_take.1 hpre, List.take_take]
    exact congrArg (s.take ·) (Nat.min_eq_left h).symm
  rw [htake] at hc
  exact List.mem_takeWhile_imp (List.mem_of_mem_take hc)

/-- A piece may be divided at any place: the part before the place is a piece alone, and the part
after it is the first piece of what is left there. -/
structure Divisible (next : Text → Nat) : Prop where
  settled : Settled next
  take : ∀ s m, 0 < m → m < next s → m ≤ next (s.take m)
  drop : ∀ s m, 0 < m → m < next s → next (s.drop m) = next s - m

/-- A text put together from two is cut at the place between them, or that place divides one
piece. -/
theorem Divisible.pieces_append (h : Divisible next) (s t : Text) :
    pieces next (s ++ t) = pieces next s ++ pieces next t ∨
      ∃ P p q Q, pieces next s = P ++ [p] ∧ pieces next t = q :: Q ∧
        pieces next (s ++ t) = P ++ (p ++ q) :: Q := by
  induction hn : s.length using Nat.strongRecOn generalizing s with
  | _ n ih =>
    cases s with
    | nil => exact .inl (by simp)
    | cons c s =>
      have hst : next ((c :: s) ++ t) = next (c :: (s ++ t)) := rfl
      generalize hk : next (c :: (s ++ t)) = k at hst
      by_cases hle : k ≤ (c :: s).length
      · -- The first piece lies before the place.
        have hs : next (c :: s) = k := by
          rw [← hst]
          have := h.settled ((c :: s) ++ t) (c :: s).length (by rw [hst]; exact hle)
          rwa [List.take_left] at this
        have hk' : k - 1 ≤ s.length := by simp only [List.length_cons] at hle; omega
        have htake : (s ++ t).take (k - 1) = s.take (k - 1) := List.take_append_of_le_length hk'
        have hdrop : (s ++ t).drop (k - 1) = s.drop (k - 1) ++ t :=
          List.drop_append_of_le_length hk'
        rw [List.cons_append, pieces_cons, pieces_cons, hk, hs, htake, hdrop]
        have hlt : (s.drop (k - 1)).length < n := by
          rw [← hn, List.length_drop, List.length_cons]
          omega
        rcases ih _ hlt (s.drop (k - 1)) rfl with heq | ⟨P, p, q, Q, hP, hQ, heq⟩
        · exact .inl (by rw [heq, List.cons_append])
        · refine .inr ⟨(c :: s.take (k - 1)) :: P, p, q, Q, ?_, hQ, ?_⟩
          · rw [hP, List.cons_append]
          · rw [heq, List.cons_append]
      · -- The first piece reaches the place and goes on after it, if any text does.
        have hlt : (c :: s).length < next ((c :: s) ++ t) := by rw [hst]; omega
        have hfirst : (c :: s).length ≤ next (c :: s) := by
          have := h.take ((c :: s) ++ t) (c :: s).length (by simp) hlt
          rwa [List.take_left] at this
        have hs : pieces next (c :: s) = [c :: s] := by
          have hdrop : s.drop (next (c :: s) - 1) = [] :=
            List.drop_of_length_le (by simp only [List.length_cons] at hfirst; omega)
          have htake : s.take (next (c :: s) - 1) = s :=
            List.take_of_length_le (by simp only [List.length_cons] at hfirst; omega)
          rw [pieces_cons, hdrop, htake, pieces_nil]
        cases t with
        | nil => exact .inl (by simp)
        | cons d t =>
          have hsecond : next (d :: t) = k - (c :: s).length := by
            have := h.drop ((c :: s) ++ d :: t) (c :: s).length (by simp) hlt
            rwa [List.drop_left, hst] at this
          have hk' : k - 1 = s.length + (next (d :: t) - 1 + 1) := by
            simp only [List.length_cons] at hle hsecond
            omega
          refine .inr ⟨[], c :: s, _, _, hs, pieces_cons d t, ?_⟩
          rw [List.cons_append, pieces_cons, hk, hk', List.take_length_add_append,
            List.drop_length_add_append, List.take_succ_cons, List.drop_succ_cons]
          simp

section Slices

variable {n : Nat}

theorem flatten_slices (s : Text) : (slices n s).flatten = s := flatten_pieces s

theorem slices_eq_nil {s : Text} : slices n s = [] ↔ s = [] := by
  constructor
  · intro h
    rw [← flatten_slices (n := n) s, h, List.flatten_nil]
  · rintro rfl
    exact pieces_nil

variable (hn : 0 < n)
include hn

theorem slices_of_ne_nil {s : Text} (hs : s ≠ []) :
    slices n s = s.take n :: slices n (s.drop n) := by
  obtain ⟨c, s, rfl⟩ := List.exists_cons_of_ne_nil hs
  obtain ⟨m, rfl⟩ : ∃ m, n = m + 1 := ⟨n - 1, by omega⟩
  rw [slices, pieces_cons, Nat.add_sub_cancel]
  rfl

theorem slices_append {s : Text} (hs : s.length = n) (t : Text) :
    slices n (s ++ t) = s :: slices n t := by
  have hne : s ++ t ≠ [] := List.append_ne_nil_of_left_ne_nil (List.length_pos_iff.1 (hs ▸ hn)) t
  rw [slices_of_ne_nil hn hne, List.take_left' hs, List.drop_left' hs]

/-- The slices after `k` of them are the slices of the text that is left there. -/
theorem drop_slices (k : Nat) (s : Text) : (slices n s).drop k = slices n (s.drop (n * k)) := by
  induction k generalizing s with
  | zero => rfl
  | succ k ih =>
    by_cases hs : s = []
    · rw [hs, List.drop_nil, slices_eq_nil.2 rfl, List.drop_nil]
    · rw [slices_of_ne_nil hn hs, List.drop_succ_cons, ih, List.drop_drop, Nat.mul_succ,
        Nat.add_comm]

theorem flatten_take_slices (k : Nat) (s : Text) :
    ((slices n s).take k).flatten = s.take (n * k) := by
  have hdrop : ((slices n s).drop k).flatten = s.drop (n * k) := by
    rw [drop_slices hn, flatten_slices]
  have hboth : ((slices n s).take k).flatten ++ s.drop (n * k) =
      s.take (n * k) ++ s.drop (n * k) := by
    rw [List.take_append_drop, ← hdrop, ← List.flatten_append, List.take_append_drop,
      flatten_slices]
  exact List.append_cancel_right hboth

/-- There are as many slices as it takes to hold the text. -/
theorem length_slices_le_iff {s : Text} {k : Nat} :
    (slices n s).length ≤ k ↔ s.length ≤ n * k := by
  rw [← List.drop_eq_nil_iff, ← List.drop_eq_nil_iff, drop_slices hn, slices_eq_nil]

theorem length_le_mul_length_slices (s : Text) : s.length ≤ n * (slices n s).length :=
  (length_slices_le_iff hn).1 le_rfl

/-- The last slice is not empty, so all slices but that hold less than the text. -/
theorem mul_length_slices_lt (s : Text) : n * (slices n s).length < s.length + n := by
  cases hk : (slices n s).length with
  | zero => omega
  | succ k =>
    have hlt : n * k < s.length := by
      rw [← Nat.not_le, ← length_slices_le_iff hn, hk]
      omega
    rw [Nat.mul_succ]
    omega

end Slices

theorem slices_short {n : Nat} {s : Text} (hs : s ≠ []) (hle : s.length ≤ n) :
    slices n s = [s] := by
  have hn : 0 < n := (List.length_pos_iff.2 hs).trans_le hle
  rw [slices_of_ne_nil hn hs, List.take_of_length_le hle, List.drop_of_length_le hle,
    slices_eq_nil.2 rfl]

end TextChunks.Text
