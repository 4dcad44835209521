import TextChunks.Proofs.Blanks

namespace TextChunks.Text

def OneLine (s : Text) : Prop := ∀ c ∈ s, c ≠ '\r' ∧ c ≠ '\n'

theorem oneLine_collapse (s : Text) : OneLine s.collapse := by
  have hspace : ' ' ≠ '\r' ∧ ' ' ≠ '\n' := by decide
  fun_induction collapse s with
  | case1 => exact fun c hc => absurd hc List.not_mem_nil
  | case2 rest ih => exact List.forall_mem_cons.2 ⟨hspace, ih⟩
  | case3 rest _ ih => exact List.forall_mem_cons.2 ⟨hspace, ih⟩
  | case4 rest ih => exact List.forall_mem_cons.2 ⟨hspace, ih⟩
  | case5 c rest _ hcr hlf ih => exact List.forall_mem_cons.2 ⟨⟨hcr, hlf⟩, ih⟩

theorem collapse_collapse (s : Text) : s.collapse.collapse = s.collapse :=
  collapse_eq_self (oneLine_collapse s)

theorem oneLine_of_isBlank {c : Char} (h : isBlank c = false) : c ≠ '\r' ∧ c ≠ '\n' := by
  constructor <;>
  · rintro rfl
    exact absurd h (by decide)

theorem strip_isInfix (s : Text) : s.strip <:+: s := by
  obtain ⟨l, r, hs, -⟩ := exists_strip s
  exact ⟨l, r, hs.symm⟩

theorem OneLine.strip {s : Text} (h : OneLine s) : OneLine s.strip :=
  fun c hc => h c ((strip_isInfix s).subset hc)

structure Bare (s : Text) : Prop where
  head : ∀ c, s.head? = some c → isBlank c = false
  last : ∀ c, s.getLast? = some c → isBlank c = false

theorem bare_strip (s : Text) : Bare s.strip :=
  ⟨fun _ => isBlank_head_strip, fun _ => isBlank_last_strip⟩

/-- Between blank texts, stripping finds the bare one. -/
theorem Bare.strip_append {l m r : Text} (h : Bare m) (hl : l.blank = true) (hr : r.blank = true) :
    (l ++ m ++ r).strip = m := by
  have hleft : (l ++ (m ++ r)).dropWhile isBlank = (m ++ r).dropWhile isBlank :=
    List.dropWhile_append_of_pos (blank_iff.1 hl)
  have hright : (m ++ r).rdropWhile isBlank = m.rdropWhile isBlank := by
    unfold List.rdropWhile
    rw [List.reverse_append, List.dropWhile_append_of_pos]
    intro c hc
    exact blank_iff.1 hr c (List.mem_reverse.1 hc)
  have hlast : m.rdropWhile isBlank = m := by
    rw [List.rdropWhile_eq_self_iff]
    intro hne hblank
    simp [h.last _ (List.getLast?_eq_some_getLast hne)] at hblank
  rw [List.append_assoc]
  change ((l ++ (m ++ r)).dropWhile isBlank).rdropWhile isBlank = m
  rw [hleft]
  cases m with
  | nil =>
    have hnil : r.dropWhile isBlank = [] := List.dropWhile_eq_nil_iff.2 (blank_iff.1 hr)
    rw [List.nil_append, hnil, List.rdropWhile_nil]
  | cons c m =>
    have hc : ¬isBlank c = true := by simp [h.head c rfl]
    rw [List.cons_append, List.dropWhile_cons_of_neg hc, ← List.cons_append, hright, hlast]

theorem strip_strip (s : Text) : s.strip.strip = s.strip := by
  have hbare := (bare_strip s).strip_append (l := []) (r := []) rfl rfl
  rwa [List.nil_append, List.append_nil] at hbare

theorem Bare.collapse {s : Text} (h : Bare s) : Bare s.collapse := by
  constructor
  · intro c hc
    rw [head?_collapse] at hc
    obtain ⟨d, hd, rfl⟩ := Option.map_eq_some_iff.1 hc
    have hdb := h.head d hd
    obtain ⟨hcr, hlf⟩ := oneLine_of_isBlank hdb
    rwa [if_neg (not_or.2 ⟨hcr, hlf⟩)]
  · cases s using List.reverseRecOn with
    | nil => simp [Text.collapse]
    | append_singleton s d =>
      -- The last character is no separator, and is left as it is.
      have hdb := h.last d (by simp)
      obtain ⟨hcr, hlf⟩ := oneLine_of_isBlank hdb
      have hcollapse : Text.collapse (s ++ [d]) = Text.collapse s ++ [d] := by
        rw [collapse_append (by simpa using fun _ => hlf), collapse_cons hcr hlf]
        rfl
      intro c hc
      rw [hcollapse, List.getLast?_concat] at hc
      rwa [← Option.some.inj hc]

theorem collapse_strip (s : Text) : s.strip.collapse = s.collapse.strip := by
  obtain ⟨l, r, hs, hl, hr⟩ := exists_strip s
  have hbare := bare_strip s
  by_cases hnil : s.strip = []
  · have hb : s.collapse.strip = [] := by
      rw [strip_eq_nil, blank_collapse, ← strip_eq_nil, hnil]
    rw [hnil, hb]
    rfl
  · -- No separator goes over an end of the stripped text, which is not blank there.
    have hright : (l ++ s.strip).getLast? ≠ some '\r' := by
      rw [List.getLast?_append_of_ne_nil _ hnil]
      exact fun h => (oneLine_of_isBlank (hbare.last _ h)).1 rfl
    have hleft : s.strip.head? ≠ some '\n' :=
      fun h => (oneLine_of_isBlank (hbare.head _ h)).2 rfl
    have hcollapse : s.collapse = l.collapse ++ s.strip.collapse ++ r.collapse := by
      conv_lhs => rw [hs]
      rw [collapse_append fun h => absurd h hright, collapse_append fun _ => hleft]
    rw [hcollapse, hbare.collapse.strip_append (by rw [blank_collapse, hl])
      (by rw [blank_collapse, hr])]

end TextChunks.Text
