import Mathlib.Data.List.DropRight
import Mathlib.Data.List.Induction
import TextChunks.Text.Basic

namespace TextChunks.Text

def blankChars : List Char :=
  [0x9, 0xA, 0xB, 0xC, 0xD, 0x1C, 0x1D, 0x1E, 0x1F, 0x20, 0x85, 0xA0, 0x1680, 0x2000, 0x2001,
    0x2002, 0x2003, 0x2004, 0x2005, 0x2006, 0x2007, 0x2008, 0x2009, 0x200A, 0x2028, 0x2029, 0x202F,
    0x205F, 0x3000].map Char.ofNat

theorem mem_blankChars {c : Char} (h : isBlank c = true) : c ∈ blankChars := by
  simp only [isBlank, isWhite, Bool.or_eq_true, Bool.and_eq_true, decide_eq_true_eq,
    beq_iff_eq] at h
  refine List.mem_map.2 ⟨c.toNat, ?_, Char.ofNat_toNat c⟩
  simp only [List.mem_cons, List.not_mem_nil, or_false]
  omega

def unblank (s : Text) : Text := s.filter fun c => !isBlank c

@[simp] theorem unblank_append (s t : Text) : unblank (s ++ t) = unblank s ++ unblank t :=
  List.filter_append ..

theorem blank_iff {s : Text} : s.blank = true ↔ ∀ c ∈ s, isBlank c = true := by
  simp [blank]

theorem blank_append {s t : Text} : (s ++ t).blank = (s.blank && t.blank) := by
  simp [blank]

theorem unblank_eq_nil {s : Text} : unblank s = [] ↔ s.blank = true := by
  simp [unblank, blank_iff]

/-- The stripped text stands between two blank parts. -/
theorem exists_strip (s : Text) :
    ∃ l r, s = l ++ s.strip ++ r ∧ l.blank = true ∧ r.blank = true := by
  refine ⟨s.takeWhile isBlank, (s.dropWhile isBlank).rtakeWhile isBlank, ?_, ?_, ?_⟩
  · rw [List.append_assoc]
    change s = _ ++ ((s.dropWhile isBlank).rdropWhile isBlank ++ _)
    rw [List.rdropWhile_append_rtakeWhile, List.takeWhile_append_dropWhile]
  · exact blank_iff.2 fun c hc => List.mem_takeWhile_imp hc
  · exact blank_iff.2 fun c hc => List.mem_rtakeWhile_imp hc

theorem isBlank_head_strip {s : Text} {c : Char} (h : s.strip.head? = some c) :
    isBlank c = false := by
  have hne : s.strip ≠ [] := by
    rintro hnil
    simp [hnil] at h
  have hpre : s.strip <+: s.dropWhile isBlank := List.rdropWhile_prefix isBlank _
  obtain ⟨r, hr⟩ := hpre
  have hnot := List.head?_dropWhile_not isBlank s
  rw [← hr, List.head?_append_of_ne_nil _ hne, h] at hnot
  simpa using hnot

theorem isBlank_last_strip {s : Text} {c : Char} (h : s.strip.getLast? = some c) :
    isBlank c = false := by
  have hne : s.strip ≠ [] := by
    rintro hnil
    simp [hnil] at h
  have hnot := List.rdropWhile_last_not isBlank (s.dropWhile isBlank) hne
  rw [List.getLast?_eq_some_getLast hne] at h
  rw [← Option.some.inj h, Bool.eq_false_iff]
  exact hnot

theorem unblank_strip (s : Text) : unblank s.strip = unblank s := by
  obtain ⟨l, r, hs, hl, hr⟩ := exists_strip s
  conv_rhs => rw [hs]
  simp [unblank_eq_nil.2 hl, unblank_eq_nil.2 hr]

theorem strip_eq_nil {s : Text} : s.strip = [] ↔ s.blank = true := by
  constructor
  · intro h
    rw [← unblank_eq_nil, ← unblank_strip, h]
    rfl
  · intro h
    have hd : s.dropWhile isBlank = [] := List.dropWhile_eq_nil_iff.2 (blank_iff.1 h)
    simp [strip, trim, hd]

theorem unblank_cons_blank {c : Char} (h : isBlank c = true) (s : Text) :
    unblank (c :: s) = unblank s := by simp [unblank, h]

theorem filter_collapse {p : Char → Bool} (hspace : p ' ' = false) (hcr : p '\r' = false)
    (hlf : p '\n' = false) (s : Text) : s.collapse.filter p = s.filter p := by
  fun_induction collapse s with
  | case1 => rfl
  | case2 rest ih => simp [hspace, hcr, hlf, ih]
  | case3 rest _ ih => simp [hspace, hcr, ih]
  | case4 rest ih => simp [hspace, hlf, ih]
  | case5 c rest _ _ _ ih => simp [List.filter_cons, ih]

theorem unblank_collapse (s : Text) : unblank s.collapse = unblank s :=
  filter_collapse (by decide) (by decide) (by decide) s

theorem collapse_cons {c : Char} (hcr : c ≠ '\r') (hlf : c ≠ '\n') (s : Text) :
    collapse (c :: s) = c :: collapse s := by
  rw [collapse]
  · exact fun _ h => absurd h hcr
  · exact hcr
  · exact hlf

theorem collapse_eq_self {s : Text} (h : ∀ c ∈ s, c ≠ '\r' ∧ c ≠ '\n') : s.collapse = s := by
  induction s with
  | nil => rfl
  | cons c s ih =>
    obtain ⟨hcr, hlf⟩ := h c (by simp)
    rw [collapse_cons hcr hlf, ih fun d hd => h d (by simp [hd])]

theorem head?_collapse (s : Text) :
    s.collapse.head? = s.head?.map fun c => if c = '\r' ∨ c = '\n' then ' ' else c := by
  fun_cases collapse s <;> simp_all

/-- A place that does not divide a line separator. -/
theorem collapse_append {s t : Text} (h : s.getLast? = some '\r' → t.head? ≠ some '\n') :
    collapse (s ++ t) = collapse s ++ collapse t := by
  fun_induction collapse s with
  | case1 => rfl
  | case2 rest ih =>
    rw [List.cons_append, List.cons_append, collapse, ih fun hl => h ?_, List.cons_append]
    cases rest <;> simp_all
  | case3 rest hrest ih =>
    have hrest' : ∀ r, rest ++ t ≠ '\n' :: r := by
      intro r hr
      cases rest with
      | nil => exact h (by simp) (by rw [← List.nil_append t, hr]; rfl)
      | cons d rest =>
        obtain ⟨rfl, -⟩ := List.cons.inj hr
        exact hrest rest rfl
    rw [List.cons_append, collapse, ih fun hl => h ?_, List.cons_append]
    · cases rest <;> simp_all
    · exact hrest'
  | case4 rest ih =>
    rw [List.cons_append, collapse, ih fun hl => h ?_, List.cons_append]
    cases rest <;> simp_all
  | case5 c rest hcrlf hcr hlf ih =>
    rw [List.cons_append, collapse_cons hcr hlf, ih fun hl => h ?_, List.cons_append]
    cases rest <;> simp_all

theorem mem_collapse {s : Text} {c : Char} (h : c ∈ s.collapse) : c = ' ' ∨ c ∈ s := by
  fun_induction collapse s <;> simp_all <;> tauto

theorem blank_collapse (s : Text) : s.collapse.blank = s.blank := by
  rw [Bool.eq_iff_iff, ← unblank_eq_nil, unblank_collapse, unblank_eq_nil]

end TextChunks.Text
