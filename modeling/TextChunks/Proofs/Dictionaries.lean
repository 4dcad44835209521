import Mathlib.Data.List.Nodup
import TextChunks.Dictionary

namespace TextChunks

namespace Dictionary

variable {κ α : Type} [DecidableEq κ]

theorem get?_cons (k k' : κ) (v : α) (d : Dictionary κ α) :
    get? ((k, v) :: d) k' = if k = k' then some v else get? d k' := by
  unfold get?
  rw [List.find?_cons]
  by_cases h : k = k' <;> simp [h]

theorem get?_put (d : Dictionary κ α) (k k' : κ) (v : α) :
    get? (d.put k v) k' = if k = k' then some v else get? d k' := by
  induction d with
  | nil => exact get?_cons k k' v []
  | cons p d ih =>
    obtain ⟨l, w⟩ := p
    by_cases hl : l = k
    · subst hl
      rw [put, if_pos rfl, get?_cons, get?_cons]
      split <;> rfl
    · rw [put, if_neg hl, get?_cons, ih, get?_cons]
      by_cases hk : k = k'
      · subst hk
        rw [if_neg hl, if_pos rfl, if_pos rfl]
      · rw [if_neg hk, if_neg hk]

theorem put_put (d : Dictionary κ α) (k : κ) (v w : α) : (d.put k v).put k w = d.put k w := by
  induction d with
  | nil => exact if_pos rfl
  | cons p d ih =>
    obtain ⟨l, u⟩ := p
    by_cases hl : l = k
    · rw [put, if_pos hl, put, if_pos rfl, put, if_pos hl]
    · rw [put, if_neg hl, put, if_neg hl, ih, put, if_neg hl]

theorem get?_eq_none_iff {d : Dictionary κ α} {k : κ} :
    get? d k = none ↔ k ∉ d.map Prod.fst := by
  unfold get?
  rw [Option.map_eq_none_iff, List.find?_eq_none]
  constructor
  · intro h hk
    obtain ⟨p, hp, heq⟩ := List.mem_map.1 hk
    exact h p hp (decide_eq_true heq)
  · intro h p hp heq
    exact h (List.mem_map.2 ⟨p, hp, of_decide_eq_true heq⟩)

theorem mem_keys_of_get? {d : Dictionary κ α} {k : κ} {v : α} (h : get? d k = some v) :
    k ∈ d.map Prod.fst := by
  by_contra hk
  rw [get?_eq_none_iff.2 hk] at h
  cases h

theorem get?_of_mem {d : Dictionary κ α} (hd : (d.map Prod.fst).Nodup) {k : κ} {v : α}
    (h : (k, v) ∈ d) : get? d k = some v := by
  induction d with
  | nil => cases h
  | cons p d ih =>
    obtain ⟨l, w⟩ := p
    rw [List.map_cons, List.nodup_cons] at hd
    rw [get?_cons]
    rcases List.mem_cons.1 h with heq | hmem
    · obtain ⟨rfl, rfl⟩ := Prod.mk.inj heq
      exact if_pos rfl
    · have hne : l ≠ k := by
        rintro rfl
        exact hd.1 (List.mem_map.2 ⟨_, hmem, rfl⟩)
      rw [if_neg hne, ih hd.2 hmem]

theorem mem_of_get? {d : Dictionary κ α} {k : κ} {v : α} (h : get? d k = some v) : (k, v) ∈ d := by
  obtain ⟨⟨l, w⟩, hfind, rfl⟩ := Option.map_eq_some_iff.1 h
  obtain rfl : l = k := by simpa using List.find?_some hfind
  exact List.mem_of_find?_eq_some hfind

theorem put_of_get?_eq_none {d : Dictionary κ α} {k : κ} (v : α) (h : get? d k = none) :
    d.put k v = d ++ [(k, v)] := by
  rw [get?_eq_none_iff] at h
  induction d with
  | nil => rfl
  | cons p d ih =>
    rw [List.map_cons, List.mem_cons, not_or] at h
    rw [put, if_neg fun heq => h.1 heq.symm, ih h.2]
    rfl

theorem get?_of_isPrefix {d e : Dictionary κ α} (h : d <+: e) {k : κ} {v : α}
    (hget : get? d k = some v) : get? e k = some v := by
  obtain ⟨t, rfl⟩ := h
  obtain ⟨p, hfind, rfl⟩ := Option.map_eq_some_iff.1 hget
  unfold get?
  rw [List.find?_append, hfind]
  rfl

theorem get?_putAll (d e : Dictionary κ α) (he : (e.map Prod.fst).Nodup) (k : κ) :
    get? (d.putAll e) k = (get? e k).or (get? d k) := by
  induction e generalizing d with
  | nil => rfl
  | cons p e ih =>
    obtain ⟨l, v⟩ := p
    rw [List.map_cons, List.nodup_cons] at he
    change get? ((d.put l v).putAll e) k = _
    rw [ih _ he.2, get?_put, get?_cons]
    by_cases hl : l = k
    · subst hl
      rw [get?_eq_none_iff.2 he.1, if_pos rfl, if_pos rfl]
      rfl
    · rw [if_neg hl, if_neg hl]

/-- What all entries of a key agree on is found under it. -/
theorem get?_putAll_of_forall {d e : Dictionary κ α} {k : κ} {v : α} (h : ∀ kv ∈ e, kv.1 = k → kv.2 = v)
    (hk : k ∈ e.map Prod.fst ∨ get? d k = some v) : get? (d.putAll e) k = some v := by
  induction e generalizing d with
  | nil => exact hk.resolve_left List.not_mem_nil
  | cons p e ih =>
    obtain ⟨l, w⟩ := p
    change get? ((d.put l w).putAll e) k = some v
    apply ih fun kv hkv => h kv (List.mem_cons_of_mem _ hkv)
    rw [get?_put]
    by_cases hl : l = k
    · exact .inr ((if_pos hl).trans (congrArg some (h (l, w) List.mem_cons_self hl)))
    · rw [List.map_cons, List.mem_cons] at hk
      rw [if_neg hl]
      exact hk.imp_left fun hk => hk.resolve_left fun heq => hl heq.symm

theorem mem_keys_put {d : Dictionary κ α} {k l : κ} {v : α} (h : l ∈ (d.put k v).map Prod.fst) :
    l = k ∨ l ∈ d.map Prod.fst := by
  induction d with
  | nil => exact .inl (List.mem_singleton.1 h)
  | cons p d ih =>
    obtain ⟨m, w⟩ := p
    rw [put] at h
    split at h
    · rw [List.map_cons, List.mem_cons] at h
      exact h.imp_right (List.mem_cons_of_mem _)
    · rw [List.map_cons, List.mem_cons] at h
      rcases h with rfl | h
      · exact .inr List.mem_cons_self
      · exact (ih h).imp_right (List.mem_cons_of_mem _)

theorem mem_keys_putAll {d e : Dictionary κ α} {k : κ} (h : k ∈ (d.putAll e).map Prod.fst) :
    k ∈ e.map Prod.fst ∨ k ∈ d.map Prod.fst := by
  induction e generalizing d with
  | nil => exact .inr h
  | cons p e ih =>
    rw [List.map_cons, List.mem_cons]
    rcases ih h with h | h
    · exact .inl (.inr h)
    · exact (mem_keys_put h).imp_left .inl

end Dictionary

end TextChunks
