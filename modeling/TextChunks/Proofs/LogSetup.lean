import TextChunks.Log.Setup
import TextChunks.Proofs.Dictionaries
import TextChunks.Proofs.Rows

namespace TextChunks

namespace Text

theorem isLower_toUpper (c : Char) : c.toUpper.isLower = false := by
  unfold Char.toUpper Char.isLower
  split
  · next h =>
    simp only [UInt32.le_iff_toNat_le, Char.reduceVal, UInt32.reduceToNat] at h
    simp only [Bool.and_eq_false_iff, decide_eq_false_iff_not, ge_iff_le, UInt32.le_iff_toNat_le,
      UInt32.toNat_add, Char.reduceVal, UInt32.reduceSub, UInt32.reduceToNat]
    omega
  · next h =>
    rw [← Bool.decide_and, decide_eq_false_iff_not]
    exact h

/-- No small letter of ASCII is left in upper case. -/
theorem isLower_of_mem_upper {s : Text} {c : Char} (h : c ∈ s.upper) : c.isLower = false := by
  have htable : ∀ p ∈ asciiCapitals, p.2.toList.any Char.isLower = false :=
    forall_of_all (by decide)
  obtain ⟨d, -, hc⟩ := List.mem_flatMap.1 h
  unfold upperChar at hc
  split at hc
  · next letters hletters =>
    obtain ⟨l, r, hl, -⟩ := List.lookup_eq_some_iff.1 hletters
    have hmem : (d, letters) ∈ asciiCapitals := by
      rw [hl]
      exact List.mem_append_right _ List.mem_cons_self
    exact Bool.eq_false_iff.2 (List.any_eq_false.1 (htable _ hmem) c hc)
  · rw [List.mem_singleton.1 hc]
    exact isLower_toUpper d

end Text

namespace Log

abbrev Names := List (String × Except SetupError Int)

/-- What a name stands for in upper case; if for nothing, it asks for `INFO`. -/
def Names.meaning (names : Names) (name : Text) : Except SetupError Int :=
  ((names.find? (·.1.toList = name.upper)).map (·.2)).getD (.ok info)

def taken : Names :=
  reserved.map (fun p => (p.1, .error p.2)) ++ levelNames.map fun p => (p.1, .ok p.2)

/-- The name is taken, but not by a level. -/
def Reserved (name : Text) : Prop := ∃ p ∈ reserved, p.1.toList = name.upper

instance (name : Text) : Decidable (Reserved name) :=
  inferInstanceAs (Decidable (∃ p ∈ reserved, p.1.toList = name.upper))

def IsLevelOf (name : Text) (level : Int) : Prop :=
  (∃ p ∈ levelNames, p.1.toList = name.upper ∧ p.2 = level) ∨
    (∀ p ∈ levelNames, p.1.toList ≠ name.upper) ∧ level = info

theorem of_find?_name {α : Type} {names : List (String × α)} {name : Text} {p : String × α}
    (h : names.find? (·.1.toList = name) = some p) : p ∈ names ∧ p.1.toList = name :=
  ⟨List.mem_of_find?_eq_some h, by simpa using List.find?_some h⟩

theorem find?_name_eq_none {α : Type} {names : List (String × α)} {name : Text} :
    names.find? (·.1.toList = name) = none ↔ ∀ p ∈ names, p.1.toList ≠ name := by
  simp only [List.find?_eq_none, decide_eq_true_eq, ne_eq]

theorem levelOf_eq_meaning (name : Text) : levelOf name = taken.meaning name := by
  unfold levelOf Names.meaning taken
  rw [List.find?_append, List.find?_map, List.find?_map]
  simp only [Function.comp_def]
  cases reserved.find? (·.1.toList = name.upper) with
  | some p => rfl
  | none => cases levelNames.find? (·.1.toList = name.upper) <;> rfl

/-- Further names make no difference if each has a small letter. -/
theorem meaning_append {others : Names} (h : ∀ p ∈ others, p.1.toList.any Char.isLower = true)
    (names : Names) (name : Text) : (others ++ names).meaning name = names.meaning name := by
  have hnone : others.find? (·.1.toList = name.upper) = none := by
    rw [find?_name_eq_none]
    intro p hp heq
    obtain ⟨c, hc, hlower⟩ := List.any_eq_true.1 (h p hp)
    rw [heq] at hc
    exact Bool.false_ne_true ((Text.isLower_of_mem_upper hc).symm.trans hlower)
  rw [Names.meaning, List.find?_append, hnone, Option.none_or, Names.meaning]

theorem levelOf_of_reserved {name : Text} (h : Reserved name) :
    ∃ p ∈ reserved, p.1.toList = name.upper ∧ levelOf name = .error p.2 := by
  cases hfind : reserved.find? (·.1.toList = name.upper) with
  | some p =>
    obtain ⟨hp, heq⟩ := of_find?_name hfind
    refine ⟨p, hp, heq, ?_⟩
    rw [levelOf, hfind]
  | none =>
    obtain ⟨p, hp, heq⟩ := h
    exact absurd heq (find?_name_eq_none.1 hfind p hp)

theorem levelOf_of_not_reserved {name : Text} (h : ¬Reserved name) :
    ∃ level, levelOf name = .ok level ∧ IsLevelOf name level := by
  have hnone : reserved.find? (·.1.toList = name.upper) = none :=
    find?_name_eq_none.2 fun p hp heq => h ⟨p, hp, heq⟩
  rw [levelOf, hnone]
  cases hfind : levelNames.find? (·.1.toList = name.upper) with
  | some p =>
    obtain ⟨hp, heq⟩ := of_find?_name hfind
    exact ⟨p.2, rfl, .inl ⟨p, hp, heq, rfl⟩⟩
  | none => exact ⟨info, rfl, .inr ⟨find?_name_eq_none.1 hfind, rfl⟩⟩

namespace Setup

def atLevel (s : Setup) (level : Int) : Setup where
  root := level
  handlers := [⟨level, true⟩]
  own := s.own.put accessLogger warning
  asked := s.asked.map fun kv => (kv.1, [])

theorem configure_eq (s : Setup) (name : Text) :
    s.configure name = (levelOf name).map s.atLevel := by
  unfold configure
  cases levelOf name <;> rfl

/-- Of several set-ups the last one counts. -/
theorem atLevel_atLevel (s : Setup) (level level' : Int) :
    (s.atLevel level).atLevel level' = s.atLevel level' := by
  unfold atLevel
  rw [Dictionary.put_put, List.map_map]
  rfl

theorem configure_configure {s s' : Setup} {name : Text} (h : s.configure name = .ok s') :
    s'.configure name = .ok s' := by
  rw [configure_eq] at h ⊢
  cases hlevel : levelOf name with
  | error e =>
    rw [hlevel] at h
    cases h
  | ok level =>
    rw [hlevel] at h
    cases h
    exact congrArg Except.ok (atLevel_atLevel s level level)

def configureTimes (s : Setup) (name : Text) : Nat → Except SetupError Setup
  | 0 => .ok s
  | n + 1 => do (← s.configureTimes name n).configure name

theorem configureTimes_succ (s : Setup) (name : Text) (n : Nat) :
    s.configureTimes name (n + 1) = s.configure name := by
  induction n with
  | zero => rfl
  | succ n ih =>
    rw [configureTimes, ih]
    cases h : s.configure name with
    | error e => rfl
    | ok s' => exact configure_configure h

/-- What a set-up promises of the loggers: one handler, of the level of the root logger, which is the one
that the name asks for, and a level of its own for the logger of requests and no other. -/
structure IsSetUp (before : Setup) (name : Text) (after : Setup) : Prop where
  level : IsLevelOf name after.root
  handlers : after.handlers = [⟨after.root, true⟩]
  access : after.own.get? accessLogger = some warning
  own : ∀ logger, logger ≠ accessLogger → after.own.get? logger = before.own.get? logger

theorem isSetUp_atLevel (s : Setup) {name : Text} {level : Int} (h : IsLevelOf name level) :
    s.IsSetUp name (s.atLevel level) where
  level := h
  handlers := rfl
  access := (Dictionary.get?_put s.own _ _ _).trans (if_pos rfl)
  own _ hne := (Dictionary.get?_put s.own _ _ _).trans (if_neg hne.symm)

/-- A number of set-ups keeps the promise, and leaves the loggers as one set-up does. -/
def SetsUp (s : Setup) (name : Text) (n : Nat) : Prop :=
  ∃ s', s.configureTimes name n = .ok s' ∧ s.IsSetUp name s' ∧ s.configure name = .ok s'

theorem configureTimes_of_reserved (s : Setup) {name : Text} (h : Reserved name) (n : Nat) :
    ∃ p ∈ reserved, p.1.toList = name.upper ∧ s.configureTimes name (n + 1) = .error p.2 := by
  obtain ⟨p, hp, heq, hlevel⟩ := levelOf_of_reserved h
  refine ⟨p, hp, heq, ?_⟩
  rw [configureTimes_succ, configure_eq, hlevel]
  rfl

theorem setsUp_of_not_reserved (s : Setup) {name : Text} (h : ¬Reserved name) (n : Nat) :
    s.SetsUp name (n + 1) := by
  obtain ⟨level, hlevel, hof⟩ := levelOf_of_not_reserved h
  have hconf : s.configure name = .ok (s.atLevel level) := by
    rw [configure_eq, hlevel]
    rfl
  exact ⟨s.atLevel level, (configureTimes_succ s name n).trans hconf, s.isSetUp_atLevel hof, hconf⟩

/-- Set-ups keep their promise unless the name is reserved, and then fail for what it stands for. Which
names are reserved does not depend on further names that stand for something, if these have small letters. -/
theorem setsUp_iff (s : Setup) (name : Text) (n : Nat) :
    (s.SetsUp name (n + 1) ↔ ¬Reserved name) ∧
      (Reserved name → ∃ p ∈ reserved, p.1.toList = name.upper ∧
        s.configureTimes name (n + 1) = .error p.2) ∧
      ∀ others : Names, (∀ p ∈ others, p.1.toList.any Char.isLower = true) →
        levelOf name = (others ++ taken).meaning name := by
  refine ⟨⟨?_, fun h => s.setsUp_of_not_reserved h n⟩,
    fun h => s.configureTimes_of_reserved h n, fun others hothers => ?_⟩
  · rintro ⟨s', hs', -⟩ h
    obtain ⟨p, -, -, hp⟩ := s.configureTimes_of_reserved h n
    cases hs'.symm.trans hp
  · rw [meaning_append hothers, levelOf_eq_meaning]

/-- The dotless `ı` and the long `ſ` have the capitals of `i` and `s`. -/
theorem setsUp_iff_other_letters :
    (¬Reserved "crıtıcal".toList ∧ SetsUp {} "crıtıcal".toList 3) ∧
      (Reserved "_ſtyles".toList ∧ ∃ p ∈ reserved, p.1.toList = Text.upper "_ſtyles".toList ∧
        configureTimes {} "_ſtyles".toList 3 = .error p.2) ∧
      levelOf "Logger".toList =
        Names.meaning (("Logger", .error (.notAName "a class".toList)) :: taken) "Logger".toList := by
  have hlevel : ¬Reserved "crıtıcal".toList := by decide +kernel
  have hstyles : Reserved "_ſtyles".toList := by decide +kernel
  obtain ⟨hsets, -, -⟩ := setsUp_iff {} "crıtıcal".toList 2
  obtain ⟨-, hfails, -⟩ := setsUp_iff {} "_ſtyles".toList 2
  obtain ⟨-, -, hothers⟩ := setsUp_iff {} "Logger".toList 0
  refine ⟨⟨hlevel, hsets.2 hlevel⟩, ⟨hstyles, hfails hstyles⟩, ?_⟩
  exact hothers [("Logger", .error (.notAName "a class".toList))] (by decide)

/-- The name of the form of a line stops the set-up. -/
theorem form_name_sets_nothing_up : ¬SetsUp {} "basic_format".toList 1 ∧
    configure {} "basic_format".toList =
      .error (.notALevel "%(levelname)s:%(name)s:%(message)s".toList) := by
  have hfails : configure {} "basic_format".toList =
      .error (.notALevel "%(levelname)s:%(name)s:%(message)s".toList) := by rfl
  refine ⟨?_, hfails⟩
  rintro ⟨s', -, -, hs'⟩
  cases hfails.symm.trans hs'

end Setup

end Log

end TextChunks
