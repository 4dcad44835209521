import TextChunks.Proofs.Lines

namespace TextChunks.Text

def linePairs (s : Text) : Nat := (s.zip s.tail).count ('\r', '\n')

/-- The text without every `\n` that follows a `\r`, after the character `before`. -/
def unpairedAfter (before : Option Char) (s : Text) : Text :=
  (s.zip (before :: s.map some)).filterMap fun (c, before) =>
    if c = '\n' ∧ before = some '\r' then none else some c

def unpaired (s : Text) : Text := unpairedAfter none s

def spaced (c : Char) : Char := if c = '\r' ∨ c = '\n' then ' ' else c

/-- One separator goes over the end of the first text. -/
def Divided (s t : Text) : Prop := s.getLast? = some '\r' ∧ t.head? = some '\n'

theorem linePairs_cons (c : Char) (s : Text) :
    linePairs (c :: s) = linePairs s + if c = '\r' ∧ s.head? = some '\n' then 1 else 0 := by
  cases s with
  | nil => simp [linePairs]
  | cons d s => simp [linePairs, List.count_cons]

theorem unpairedAfter_cons (before : Option Char) (c : Char) (s : Text) :
    unpairedAfter before (c :: s) = if c = '\n' ∧ before = some '\r' then unpairedAfter (some c) s
      else c :: unpairedAfter (some c) s := by
  unfold unpairedAfter
  rw [List.map_cons, List.zip_cons_cons, List.filterMap_cons]
  split <;> simp_all

theorem head?_ne_newline {s : Text} (h : ∀ t, s ≠ '\n' :: t) : s.head? ≠ some '\n' := by
  intro hhead
  obtain ⟨t, rfl⟩ := List.head?_eq_some_iff.1 hhead
  exact h t rfl

theorem length_collapse (s : Text) : s.collapse.length + linePairs s = s.length := by
  fun_induction collapse s with
  | case1 => rfl
  | case2 rest ih =>
    have hpair : linePairs ('\r' :: '\n' :: rest) = linePairs rest + 1 := by
      rw [linePairs_cons, if_pos ⟨rfl, rfl⟩, linePairs_cons, if_neg fun h => absurd h.1 (by decide)]
    rw [hpair]
    simp only [List.length_cons]
    omega
  | case3 rest hrest ih =>
    rw [linePairs_cons, if_neg fun h => head?_ne_newline hrest h.2]
    simp only [List.length_cons]
    omega
  | case4 rest ih =>
    rw [linePairs_cons, if_neg fun h => absurd h.1 (by decide)]
    simp only [List.length_cons]
    omega
  | case5 c rest _ hcr _ ih =>
    rw [linePairs_cons, if_neg fun h => hcr h.1]
    simp only [List.length_cons]
    omega

/-- Every character that does not end a pair is kept in its place, the separators as spaces. -/
theorem collapse_eq_map_unpairedAfter (s : Text) {before : Option Char}
    (h : before = some '\r' → s.head? ≠ some '\n') :
    s.collapse = (unpairedAfter before s).map spaced := by
  fun_induction collapse s generalizing before with
  | case1 => rfl
  | case2 rest ih =>
    have hrest : collapse rest = (unpairedAfter (some '\n') rest).map spaced :=
      ih fun hb => absurd hb (by decide)
    rw [unpairedAfter_cons, if_neg fun hc => absurd hc.1 (by decide), unpairedAfter_cons,
      if_pos ⟨rfl, rfl⟩, List.map_cons, hrest]
    rfl
  | case3 rest hrest ih =>
    rw [unpairedAfter_cons, if_neg fun hc => absurd hc.1 (by decide), List.map_cons,
      ih fun _ => head?_ne_newline hrest]
    rfl
  | case4 rest ih =>
    have hrest : collapse rest = (unpairedAfter (some '\n') rest).map spaced :=
      ih fun hb => absurd hb (by decide)
    rw [unpairedAfter_cons, if_neg fun hc => h hc.2 rfl, List.map_cons, hrest]
    rfl
  | case5 c rest _ hcr hlf ih =>
    rw [unpairedAfter_cons, if_neg fun hc => hlf hc.1, List.map_cons,
      ih fun hb => absurd (Option.some.inj hb) hcr, spaced, if_neg (not_or.2 ⟨hcr, hlf⟩)]

theorem collapse_eq_map (s : Text) : s.collapse = s.unpaired.map spaced :=
  collapse_eq_map_unpairedAfter s fun h => absurd h (by decide)

theorem collapse_append_of_divided {s t : Text} (h : Divided s t) :
    ∃ x y, s.collapse = x ++ [' '] ∧ t.collapse = ' ' :: y ∧ (s ++ t).collapse = x ++ ' ' :: y := by
  obtain ⟨x, rfl⟩ := List.getLast?_eq_some_iff.1 h.1
  obtain ⟨y, rfl⟩ := List.head?_eq_some_iff.1 h.2
  -- No separator goes over the place in front of `\r`.
  have hx (r : Text) : collapse (x ++ '\r' :: r) = collapse x ++ collapse ('\r' :: r) := by
    apply collapse_append
    intro _ hhead
    exact absurd hhead (by simp)
  refine ⟨collapse x, collapse y, hx [], rfl, ?_⟩
  rw [List.append_assoc, List.singleton_append, hx]
  rfl

theorem filter_unpairedAfter {p : Char → Bool} (hp : p '\n' = false) (before : Option Char)
    (s : Text) : (unpairedAfter before s).filter p = s.filter p := by
  induction s generalizing before with
  | nil => rfl
  | cons c s ih =>
    rw [unpairedAfter_cons]
    split
    · next h => rw [ih, h.1, List.filter_cons_of_neg (Bool.eq_false_iff.1 hp)]
    · rw [List.filter_cons, List.filter_cons, ih]

/-- No separator is left, and every other character is, in its order; of a pair one space is left, and of
each other separator too. It does not matter whether blanks are stripped before or after, nor whether a text
is taken in two parts, unless these divide a pair. -/
theorem collapse_laws (a b : Text) :
    OneLine a.collapse ∧
      a.collapse.collapse = a.collapse ∧
      a.collapse.length + linePairs a = a.length ∧
      (a.collapse = a.unpaired.map spaced ∧ a.unpaired.filter (· ≠ '\n') = a.filter (· ≠ '\n')) ∧
      unblank a.collapse = unblank a ∧
      a.collapse.strip = a.strip.collapse ∧
      (¬Divided a b → (a ++ b).collapse = a.collapse ++ b.collapse) ∧
      (Divided a b → ∃ x y, a.collapse = x ++ [' '] ∧ b.collapse = ' ' :: y ∧
        (a ++ b).collapse = x ++ ' ' :: y) := by
  have hkept : a.unpaired.filter (· ≠ '\n') = a.filter (· ≠ '\n') :=
    filter_unpairedAfter (by decide) none a
  refine ⟨oneLine_collapse a, collapse_collapse a, length_collapse a, ⟨collapse_eq_map a, hkept⟩,
    unblank_collapse a, (collapse_strip a).symm, fun h => ?_, collapse_append_of_divided⟩
  exact collapse_append fun hlast hhead => h ⟨hlast, hhead⟩

theorem collapse_laws_divided_pair : Divided "a\r\r".toList "\n\rb".toList ∧
    ∃ x y, collapse "a\r\r".toList = x ++ [' '] ∧ collapse "\n\rb".toList = ' ' :: y ∧
      collapse ("a\r\r".toList ++ "\n\rb".toList) = x ++ ' ' :: y := by
  have hdivided : Divided "a\r\r".toList "\n\rb".toList := ⟨rfl, rfl⟩
  obtain ⟨-, -, -, -, -, -, -, hlaw⟩ := collapse_laws "a\r\r".toList "\n\rb".toList
  exact ⟨hdivided, hlaw hdivided⟩

end TextChunks.Text
