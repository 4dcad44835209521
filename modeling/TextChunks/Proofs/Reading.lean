import TextChunks.Profiles
import TextChunks.Proofs.Runs

namespace TextChunks

abbrev Reading := Except Json.ReadError Json

namespace Reading

def fields : Reading → Except ProfileError Json.Fields
  | .ok (.object fields) => .ok fields
  | .ok v => .error (.notObject v)
  | .error e => .error (.unreadable e)

theorem eq_of_fields {r : Reading} {fields : Json.Fields} (h : r.fields = .ok fields) :
    r = .ok (.object fields) := by
  rcases r with e | v
  · simp [Reading.fields] at h
  · cases v <;> simp_all [Reading.fields]

def profiles (r : Reading) : Except ProfileError (Dictionary Literal Config) :=
  r.fields >>= Profiles.ofContent

def marker (r : Reading) : Except ProfileError Json :=
  r.fields.map fun fields => (fields.get? Profiles.activeName).getD (.ofString "default")

def lookUp (d : Dictionary Literal Config) : Json → Except ProfileError (Option Config)
  | .str l => .ok (d.get? l)
  | .array items => .error (.unusableName (.array items))
  | .object fields => .error (.unusableName (.object fields))
  | _ => .ok none

def find (r : Reading) (name : Json) : Except ProfileError (Option Config) :=
  r.profiles >>= fun d => lookUp d name

/-- The name, where the active one gives way to what the file marks as active. -/
def expand (r : Reading) : Json → Except ProfileError Json
  | .str l => if l = Profiles.activeName then r.marker else .ok (.str l)
  | v => .ok v

def known (name : Json) : Option Config → Except ProfileError Config
  | some c => .ok c
  | none => .error (.unknown name.shown)

def resolve (r : Reading) (name : Json) : Except ProfileError Config :=
  r.expand name >>= fun name => r.find name >>= known name

variable {r : Reading} {v name : Json}

theorem expand_active : r.expand (.str Profiles.activeName) = r.marker := by
  rw [expand, if_pos rfl]

theorem expand_of_ne (h : v ≠ .str Profiles.activeName) : r.expand v = .ok v := by
  cases v with
  | str l => exact if_neg fun hl => h (congrArg Json.str hl)
  | _ => rfl

/-- What the active name gives way to is looked up as it is, even if it is the active name again. -/
theorem expand_of_expand (h : r.expand v = .ok name) : r.expand name = .ok name := by
  by_cases hv : v = .str Profiles.activeName
  · by_cases hname : name = .str Profiles.activeName
    · rwa [hv, ← hname] at h
    · exact expand_of_ne hname
  · rw [expand_of_ne hv] at h
    obtain rfl := Except.ok.inj h
    exact expand_of_ne hv

theorem fields_of_expand_error {e : ProfileError} (h : r.expand v = .error e) :
    r.fields = .error e := by
  by_cases hv : v = .str Profiles.activeName
  · rw [hv, expand_active, marker] at h
    cases hfields : r.fields with
    | error e' =>
      rw [hfields] at h
      exact congrArg Except.error (Except.error.inj h)
    | ok fields =>
      rw [hfields] at h
      exact nomatch h
  · rw [expand_of_ne hv] at h
    exact nomatch h

theorem resolve_eq_of_expand (h : r.expand v = .ok name) :
    r.resolve v = r.find name >>= known name := by
  rw [resolve, h]
  rfl

theorem resolve_of_expand (h : r.expand v = .ok name) : r.resolve name = r.resolve v := by
  rw [resolve_eq_of_expand h, resolve_eq_of_expand (expand_of_expand h)]

/-- What is resolved is a profile in the file, under the name that is asked for or marked. -/
theorem exists_of_resolve {c : Config} (h : r.resolve v = .ok c) :
    ∃ l d, r.expand v = .ok (.str l) ∧ r.profiles = .ok d ∧ d.get? l = some c := by
  obtain ⟨name, hname, h⟩ := exists_of_bind_ok h
  obtain ⟨found, hfind, h⟩ := exists_of_bind_ok h
  obtain ⟨d, hd, hlook⟩ := exists_of_bind_ok hfind
  cases found with
  | none => exact nomatch h
  | some c' =>
    obtain rfl := Except.ok.inj h
    cases name with
    | str l => exact ⟨l, d, hname, hd, Except.ok.inj hlook⟩
    | _ => exact nomatch hlook

end Reading

namespace Profiles

def reading (p : Profiles) : Reading :=
  match p.raw with
  | some v => .ok v
  | none => readFile p.file

/-- The profiles that are kept are those of what was read. -/
def Coherent (p : Profiles) : Prop :=
  ∀ d, p.loaded = some d → ∃ fields, p.raw = some (.object fields) ∧ ofContent fields = .ok d

theorem coherent_of_file (file : Text) : Coherent { file := file } := by
  intro d h
  simp at h

theorem reading_of_raw {p : Profiles} {v : Json} (h : p.raw = some v) : p.reading = .ok v := by
  simp only [reading, h]

theorem reading_of_none {p : Profiles} (h : p.raw = none) : p.reading = readFile p.file := by
  simp only [reading, h]

structure Asked (p q : Profiles) : Prop where
  file_eq : q.file = p.file
  raw_eq : q.raw = p.reading.toOption
  coherent : q.Coherent

theorem Asked.reading_eq {p q : Profiles} (h : Asked p q) : q.reading = p.reading := by
  have hraw := h.raw_eq
  cases hp : p.raw with
  | some v =>
    rw [reading_of_raw hp] at hraw ⊢
    exact reading_of_raw hraw
  | none =>
    rw [reading_of_none hp] at hraw ⊢
    cases hread : readFile p.file with
    | ok v =>
      rw [hread] at hraw
      exact reading_of_raw hraw
    | error e =>
      rw [hread] at hraw
      rw [reading_of_none hraw, h.file_eq, hread]

theorem Asked.trans {p q r : Profiles} (h : Asked p q) (h' : Asked q r) : Asked p r where
  file_eq := h'.file_eq.trans h.file_eq
  raw_eq := by rw [h'.raw_eq, h.reading_eq]
  coherent := h'.coherent

theorem Coherent.asked {p : Profiles} (h : p.Coherent) {v : Json} (hraw : p.raw = some v) :
    Asked p p := ⟨rfl, by rw [reading_of_raw hraw, hraw]; rfl, h⟩

/-- In every coherent state the access gives what `answer` makes of the reading. -/
def Answers (a : Access α) (answer : Reading → Except ProfileError α) : Prop :=
  ∀ p, Coherent p → ∃ q, a.run.run p = (answer p.reading, q) ∧ Asked p q

namespace Answers

variable {a : Access α} {f : Reading → Except ProfileError α} {b : α → Access β}

theorem bind {g : α → Reading → Except ProfileError β} (ha : Answers a f)
    (hb : ∀ x, Answers (b x) (g x)) : Answers (a >>= b) fun r => f r >>= fun x => g x r := by
  intro p hp
  obtain ⟨q, hrun, hq⟩ := ha p hp
  cases hf : f p.reading with
  | error e =>
    rw [hf] at hrun
    refine ⟨q, ?_, hq⟩
    dsimp only
    rw [run_bind_error hrun, hf]
    rfl
  | ok x =>
    rw [hf] at hrun
    obtain ⟨q', hrun', hq'⟩ := hb x q hq.coherent
    refine ⟨q', ?_, hq.trans hq'⟩
    dsimp only
    rw [run_bind_ok hrun, hrun', hq.reading_eq, hf]
    rfl

/-- What follows need not look at the file. -/
theorem bind_except {g : α → Except ProfileError β} (ha : Answers a f)
    (hb : ∀ x p, (b x).run.run p = (g x, p)) : Answers (a >>= b) fun r => f r >>= g := by
  intro p hp
  obtain ⟨q, hrun, hq⟩ := ha p hp
  refine ⟨q, ?_, hq⟩
  dsimp only
  cases hf : f p.reading with
  | error e =>
    rw [hf] at hrun
    rw [run_bind_error hrun]
    rfl
  | ok x =>
    rw [hf] at hrun
    rw [run_bind_ok hrun, hb]
    rfl

theorem congr {f' : Reading → Except ProfileError α} (ha : Answers a f) (h : ∀ r, f r = f' r) :
    Answers a f' := by
  obtain rfl : f = f' := funext h
  exact ha

end Answers

theorem run_content_of_none (file : Text) (loaded : Option (Dictionary Literal Config)) :
    content.run.run ⟨file, none, loaded⟩ =
      ((readFile file).mapError .unreadable, ⟨file, (readFile file).toOption, loaded⟩) := by
  unfold content
  rw [run_get_bind]
  dsimp only
  rw [run_get_bind]
  dsimp only
  cases readFile file <;> rfl

theorem answers_content : Answers content fun r => r.mapError .unreadable := by
  intro p hp
  refine ⟨{ p with raw := p.reading.toOption }, ?_, rfl, rfl, ?_⟩
  · rcases p with ⟨file, raw | v, loaded⟩
    · exact run_content_of_none file loaded
    · rfl
  · intro d hd
    obtain ⟨fields, hraw, hof⟩ := hp d hd
    exact ⟨fields, by rw [reading_of_raw hraw]; rfl, hof⟩

theorem answers_contentFields : Answers contentFields Reading.fields := by
  apply (answers_content.bind_except (g := fun v => Reading.fields (.ok v)) ?_).congr
  · intro r
    cases r <;> rfl
  · intro v p
    cases v <;> rfl

theorem answers_active : Answers active Reading.marker :=
  answers_contentFields.bind_except fun _ _ => rfl

theorem run_load_of_some {p : Profiles} {d : Dictionary Literal Config} (h : p.loaded = some d) :
    load.run.run p = (.ok d, p) := by
  rcases p with ⟨file, raw, loaded⟩
  obtain rfl : loaded = some d := h
  rfl

theorem run_load_of_none {p : Profiles} (h : p.loaded = none) :
    load.run.run p = (do
      match ofContent (← contentFields) with
      | .ok d => modify fun p => { p with loaded := some d }; return d
      | .error e => throw e : Access _).run.run p := by
  rcases p with ⟨file, raw, loaded⟩
  obtain rfl : loaded = none := h
  rfl

theorem answers_load : Answers load Reading.profiles := by
  intro p hp
  cases hloaded : p.loaded with
  | some d =>
    obtain ⟨fields, hraw, hof⟩ := hp d hloaded
    have hprofiles : p.reading.profiles = .ok d := by
      rw [reading_of_raw hraw]
      exact hof
    exact ⟨p, by rw [run_load_of_some hloaded, hprofiles], hp.asked hraw⟩
  | none =>
    obtain ⟨q, hrun, hq⟩ := answers_contentFields p hp
    rw [run_load_of_none hloaded, Reading.profiles]
    cases hfields : p.reading.fields with
    | error e =>
      rw [hfields] at hrun
      exact ⟨q, run_bind_error hrun _, hq⟩
    | ok fields =>
      rw [hfields] at hrun
      rw [run_bind_ok hrun]
      change ∃ q, _ = (ofContent fields, q) ∧ p.Asked q
      have hraw : q.raw = some (.object fields) := by
        rw [hq.raw_eq, Reading.eq_of_fields hfields]
        rfl
      cases hof : ofContent fields with
      | error e => exact ⟨q, rfl, hq⟩
      | ok d =>
        refine ⟨{ q with loaded := some d }, rfl, hq.file_eq, hq.raw_eq, ?_⟩
        intro d' hd'
        obtain rfl : d = d' := Option.some.inj hd'
        exact ⟨fields, hraw, hof⟩

theorem answers_find (name : Json) : Answers (find name) (Reading.find · name) := by
  apply answers_load.bind_except
  intro d p
  cases name <;> rfl

def findKnown (name : Json) : Access Config := do
  match ← find name with
  | some c => return c
  | none => throw (.unknown name.shown)

theorem answers_findKnown (name : Json) :
    Answers (findKnown name) fun r => r.find name >>= Reading.known name := by
  apply (answers_find name).bind_except
  intro found p
  cases found <;> rfl

theorem answers_resolveName (name : Json) : Answers (resolveName name) (Reading.resolve · name) := by
  by_cases hactive : name = .str activeName
  · subst hactive
    exact answers_active.bind answers_findKnown
  · have hrun : resolveName name = findKnown name := by
      cases name with
      | str l =>
        have hl : l ≠ activeName := fun h => hactive (congrArg _ h)
        simp only [resolveName, if_neg hl, pure_bind]
        rfl
      | _ => rfl
    rw [hrun]
    apply (answers_findKnown name).congr
    intro r
    rw [Reading.resolve, Reading.expand_of_ne hactive]
    rfl

end Profiles
end TextChunks
