import Mathlib.Data.List.Induction
import Mathlib.Logic.ExistsUnique
import TextChunks.Proofs.Reading

namespace TextChunks.Profiles

inductive Step where
  | resolve (name inlined : Json)
  | get (name : Json)
  | active
  | load
  | write (file : Text)
  | reload

inductive Outcome where
  | config (c : Config)
  | found (c : Option Config)
  | marker (v : Json)
  | profiles (d : Dictionary Literal Config)
  | done

namespace Step

/-- Whether the step asks for what is in the file; a configuration given inline does not. -/
def Asks : Step → Prop
  | .resolve _ inlined => inlined.isFalsy = true
  | .get _ => True
  | .active => True
  | .load => True
  | .write _ => False
  | .reload => False

def access : Step → Access Outcome
  | .resolve name inlined => return .config (← Profiles.resolve name inlined)
  | .get name => return .found (← find name)
  | .active => return .marker (← Profiles.active)
  | .load => return .profiles (← Profiles.load)
  | .write file => do modify fun p => p.write file; return .done
  | .reload => do modify Profiles.reload; return .done

def answer (p : Profiles) (step : Step) : Except ProfileError Outcome := (step.access.run.run p).1

def leaves (p : Profiles) (step : Step) : Profiles := (step.access.run.run p).2

variable {p q : Profiles} {step : Step}

theorem exists_answers (h : step.Asks) : ∃ answer, Answers step.access answer := by
  cases step with
  | resolve name inlined =>
    have hresolve : Profiles.resolve name inlined = resolveName name := if_pos h
    exact ⟨_, hresolve ▸ (answers_resolveName name).bind_except fun _ _ => rfl⟩
  | get name => exact ⟨_, (answers_find name).bind_except fun _ _ => rfl⟩
  | active => exact ⟨_, answers_active.bind_except fun _ _ => rfl⟩
  | load => exact ⟨_, answers_load.bind_except fun _ _ => rfl⟩
  | write file => exact h.elim
  | reload => exact h.elim

theorem asked (hp : p.Coherent) (h : step.Asks) : Asked p (step.leaves p) := by
  obtain ⟨answer, hanswers⟩ := exists_answers h
  obtain ⟨q, hrun, hq⟩ := hanswers p hp
  rwa [leaves, hrun]

theorem access_inlined (name : Json) {inlined : Json} (h : inlined.isFalsy = false) (p : Profiles) :
    (Step.resolve name inlined).access.run.run p =
      (((Config.ofJson inlined).mapError .invalid).map .config, p) := by
  change (Profiles.resolve name inlined >>= fun c => pure (Outcome.config c)).run.run p = _
  unfold Profiles.resolve
  rw [if_neg (by simp [h])]
  cases Config.ofJson inlined <;> rfl

/-- A step asks, or leaves the profiles as they are, or writes or drops them. -/
theorem leaves_cases (hp : p.Coherent) (step : Step) :
    (step.Asks ∧ Asked p (step.leaves p)) ∨ step.leaves p = p ∨
      (∃ file, step = .write file ∧ step.leaves p = p.write file) ∨
      (step = .reload ∧ step.leaves p = p.reload) := by
  by_cases h : step.Asks
  · exact .inl ⟨h, asked hp h⟩
  · cases step with
    | resolve name inlined =>
      have hinlined : inlined.isFalsy = false := by simpa [Asks] using h
      exact .inr (.inl (congrArg Prod.snd (access_inlined name hinlined p)))
    | write file => exact .inr (.inr (.inl ⟨file, rfl, rfl⟩))
    | reload => exact .inr (.inr (.inr ⟨rfl, rfl⟩))
    | get name => exact absurd trivial h
    | active => exact absurd trivial h
    | load => exact absurd trivial h

theorem coherent_leaves (hp : p.Coherent) (step : Step) : (step.leaves p).Coherent := by
  rcases leaves_cases hp step with ⟨-, h⟩ | h | ⟨file, -, h⟩ | ⟨-, h⟩
  · exact h.coherent
  · rwa [h]
  · rw [h]
    exact hp
  · rw [h]
    exact coherent_of_file p.file

/-- What was read is kept until it is dropped. -/
theorem raw_leaves (hp : p.Coherent) {v : Json} (hraw : p.raw = some v) (hstep : step ≠ .reload) :
    (step.leaves p).raw = some v := by
  rcases leaves_cases hp step with ⟨-, h⟩ | h | ⟨file, -, h⟩ | ⟨h, -⟩
  · rw [h.raw_eq, reading_of_raw hraw]
    rfl
  · rwa [h]
  · rw [h]
    exact hraw
  · exact absurd h hstep

end Step

def after (file : Text) (steps : List Step) : Profiles := steps.foldl Step.leaves { file := file }

theorem after_append (file : Text) (steps steps' : List Step) :
    after file (steps ++ steps') = steps'.foldl Step.leaves (after file steps) := List.foldl_append

theorem after_concat (file : Text) (steps : List Step) (step : Step) :
    after file (steps ++ [step]) = step.leaves (after file steps) := after_append file steps [step]

theorem coherent_after (file : Text) (steps : List Step) : (after file steps).Coherent := by
  induction steps using List.reverseRecOn with
  | nil => exact coherent_of_file file
  | append_singleton steps step ih =>
    rw [after_concat]
    exact Step.coherent_leaves ih step

theorem raw_after_append {file : Text} {steps later : List Step} {v : Json}
    (hraw : (after file steps).raw = some v) (hlater : Step.reload ∉ later) :
    (after file (steps ++ later)).raw = some v := by
  induction later using List.reverseRecOn with
  | nil => simpa using hraw
  | append_singleton later step ih =>
    rw [List.mem_append, not_or] at hlater
    rw [← List.append_assoc, after_concat]
    apply Step.raw_leaves (coherent_after file _) (ih hlater.1)
    rintro rfl
    exact hlater.2 (List.mem_singleton.2 rfl)

/-- The version that stood in the file when a step first could read it, of the steps since the profiles
were last dropped. -/
def FirstRead (file : Text) (history : List Step) (version : Text) : Prop :=
  ∃ before step between, history = before ++ step :: between ∧ step.Asks ∧
    (after file before).raw = none ∧ (after file before).file = version ∧
    (∃ v, readFile version = .ok v) ∧ Step.reload ∉ between

theorem raw_after_first {file : Text} {before between : List Step} {step : Step} {v : Json}
    (hasks : step.Asks) (hraw : (after file before).raw = none)
    (hread : readFile (after file before).file = .ok v) (hbetween : Step.reload ∉ between) :
    (after file (before ++ step :: between)).raw = some v := by
  have hfirst : (after file (before ++ [step])).raw = some v := by
    rw [after_concat, (Step.asked (coherent_after file before) hasks).raw_eq, reading_of_none hraw,
      hread]
    rfl
  simpa using raw_after_append hfirst hbetween

theorem FirstRead.unique {file : Text} {history : List Step} {version version' : Text}
    (h : FirstRead file history version) (h' : FirstRead file history version') :
    version = version' := by
  obtain ⟨before, step, between, rfl, hasks, hraw, rfl, ⟨v, hread⟩, hbetween⟩ := h
  obtain ⟨before', step', between', heq, hasks', hraw', rfl, ⟨v', hread'⟩, hbetween'⟩ := h'
  -- Were one of the two steps after the other, the earlier one would have read the file before it.
  rcases List.append_eq_append_iff.1 heq with ⟨a, rfl, ha⟩ | ⟨a, rfl, ha⟩
  · cases a with
    | nil => rw [List.append_nil]
    | cons x a =>
      obtain ⟨rfl, rfl⟩ := List.cons.inj ha
      have hsome := raw_after_first hasks hraw hread
        (fun h => hbetween (List.mem_append_left _ h) : Step.reload ∉ a)
      rw [hsome] at hraw'
      simp at hraw'
  · cases a with
    | nil => rw [List.append_nil]
    | cons x a =>
      obtain ⟨rfl, rfl⟩ := List.cons.inj ha
      have hsome := raw_after_first hasks' hraw' hread'
        (fun h => hbetween' (List.mem_append_left _ h) : Step.reload ∉ a)
      rw [hsome] at hraw
      simp at hraw

end TextChunks.Profiles
