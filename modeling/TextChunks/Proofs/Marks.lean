import Mathlib.Data.List.Basic
import TextChunks.Text.Basic

namespace TextChunks.Text

theorem lastMark?_eq_none {s : Text} (h : s.lastMark? = none) : ∀ c ∈ s, isMark c = false := by
  induction s with
  | nil => simp
  | cons d s ih =>
    simp only [lastMark?] at h
    split at h
    · simp at h
    · next hs =>
      split at h
      · simp at h
      · next hd => simpa [hd] using ih hs

theorem lastMark?_eq_some {s : Text} {i : Nat} (h : s.lastMark? = some i) :
    ∃ u m v, s = u ++ m :: v ∧ u.length = i ∧ isMark m = true ∧ ∀ c ∈ v, isMark c = false := by
  induction s generalizing i with
  | nil => simp [lastMark?] at h
  | cons d s ih =>
    simp only [lastMark?] at h
    split at h
    · next j hj =>
      obtain ⟨u, m, v, rfl, hu, hm, hv⟩ := ih hj
      exact ⟨d :: u, m, v, rfl, by simp only [List.length_cons]; simp at h; omega, hm, hv⟩
    · next hs =>
      split at h
      · next hd => exact ⟨[], d, s, rfl, by simpa using h, hd, lastMark?_eq_none hs⟩
      · simp at h

theorem lastMark?_append {u v : Text} {m : Char} (hm : isMark m = true)
    (hv : ∀ c ∈ v, isMark c = false) :
    lastMark? (u ++ m :: v) = some u.length := by
  have hnone : lastMark? v = none := by
    cases h : lastMark? v with
    | none => rfl
    | some i =>
      obtain ⟨u', m', v', rfl, -, hm', -⟩ := lastMark?_eq_some h
      simp [hv m' (by simp)] at hm'
  induction u with
  | nil => simp [lastMark?, hnone, hm]
  | cons c u ih => simp [lastMark?, ih]

/-- What a cut past index `least` leaves of a window: all of it if no mark stands past that index,
else the part that ends right after the last mark. -/
def IsCut (least : Nat) (window kept : Text) : Prop :=
  (kept = window ∧ ∀ i c, least < i → window[i]? = some c → isMark c = false) ∨
    ∃ u m v, window = u ++ m :: v ∧ kept = u ++ [m] ∧ least < u.length ∧ isMark m = true ∧
      ∀ c ∈ v, isMark c = false

theorem isCut_cut (least : Nat) (s : Text) : IsCut least s (s.cut least) := by
  unfold cut
  split
  · next i hi =>
    obtain ⟨u, m, v, rfl, rfl, hm, hv⟩ := lastMark?_eq_some hi
    split
    · next hlt =>
        exact .inr ⟨u, m, v, rfl, by simp [List.take_append, List.take_of_length_le], hlt, hm, hv⟩
    · next hle =>
      refine .inl ⟨rfl, fun j c hj hc => hv c ?_⟩
      rw [List.getElem?_append_right (by omega)] at hc
      obtain ⟨k, hk⟩ : ∃ k, j - u.length = k + 1 := ⟨j - u.length - 1, by omega⟩
      rw [hk, List.getElem?_cons_succ] at hc
      exact List.mem_of_getElem? hc
  · next hn => exact .inl ⟨rfl, fun i c _ hc => lastMark?_eq_none hn c (List.mem_of_getElem? hc)⟩

/-- A cut leaves the whole text, or ends with a mark after which there is none. -/
theorem cut_eq_self_or (least : Nat) (s : Text) : s.cut least = s ∨
    ∃ u m v, s = u ++ m :: v ∧ s.cut least = u ++ [m] ∧ isMark m = true ∧
      ∀ c ∈ v, isMark c = false := by
  rcases isCut_cut least s with ⟨h, -⟩ | ⟨u, m, v, hs, hk, -, hm, hv⟩
  · exact .inl h
  · exact .inr ⟨u, m, v, hs, hk, hm, hv⟩

theorem IsCut.isPrefix {least : Nat} {window kept : Text} (h : IsCut least window kept) :
    kept <+: window := by
  rcases h with ⟨rfl, -⟩ | ⟨u, m, v, rfl, rfl, -⟩
  · exact List.prefix_rfl
  · exact ⟨v, by simp⟩

/-- What a cut leaves is all of the window, or goes beyond index `least`. -/
theorem IsCut.eq_or_lt_length {least : Nat} {window kept : Text} (h : IsCut least window kept) :
    kept = window ∨ least + 1 < kept.length := by
  rcases h with ⟨rfl, -⟩ | ⟨u, m, v, -, rfl, hlt, -⟩
  · exact .inl rfl
  · exact .inr (by simpa using hlt)

theorem cut_ne_nil (least : Nat) {s : Text} (h : s ≠ []) : s.cut least ≠ [] := by
  rcases cut_eq_self_or least s with hk | ⟨u, m, v, -, hk, -⟩
  · rwa [hk]
  · simp [hk]

end TextChunks.Text
