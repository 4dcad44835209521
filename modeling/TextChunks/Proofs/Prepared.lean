import TextChunks.Proofs.Overrides
import TextChunks.Proofs.Reading
import TextChunks.Service.Handlers

namespace TextChunks

theorem Settings.Cache.get_get (c : Settings.Cache) : c.get.2.get.1 = c.get.1 := by
  rcases c with ⟨sources, settings | settings⟩
  · unfold get
    dsimp only
    cases h : sources.load with
    | ok settings => rfl
    | error ps =>
      dsimp only
      rw [h]
  · rfl

namespace Profiles

theorem answers_resolve (name : Json) : Answers (resolve name .null) (Reading.resolve · name) :=
  answers_resolveName name

theorem runIn_resolve {p : Profiles} (hp : p.Coherent) (name : Json) :
    ((resolve name .null).runIn p).1 = p.reading.resolve name := by
  obtain ⟨q, hrun, -⟩ := answers_resolve name p hp
  exact congrArg Prod.fst hrun

theorem run_resolve_inlined {inlined : Json} {c : Config} (h : inlined.isFalsy = false)
    (hc : Config.ofJson inlined = .ok c) (name : Json) (p : Profiles) :
    (resolve name inlined).run.run p = (.ok c, p) := by
  unfold resolve
  rw [if_neg (by simp [h]), hc]
  rfl

end Profiles

theorem SplitRequest.applied_of_isEmpty {r : SplitRequest} (h : r.overrides.isEmpty = true)
    (c : Config) : r.inlined c = .null ∧ r.applied c = c :=
  ⟨if_pos h, r.applied_of_nil c (List.isEmpty_iff.1 h)⟩

/-- The values of a request never make a profile's configuration invalid. -/
theorem Profiles.exists_run_resolve_inlined {p : Profiles} (hp : p.Coherent)
    (request : SplitRequest) {name : Json} {base : Config}
    (h : p.reading.resolve name = .ok base) :
    ∃ q, (resolve name (request.inlined base)).run.run p = (.ok (request.applied base), q) ∧
      q.reading = p.reading ∧ q.Coherent := by
  by_cases hempty : request.overrides.isEmpty = true
  · obtain ⟨hinlined, happlied⟩ := SplitRequest.applied_of_isEmpty hempty base
    obtain ⟨q, hrun, hq⟩ := answers_resolve name p hp
    rw [hinlined, happlied, ← h]
    exact ⟨q, hrun, hq.reading_eq, hq.coherent⟩
  · have hne : request.overrides ≠ [] := fun hnil => hempty (List.isEmpty_iff.2 hnil)
    exact ⟨p, run_resolve_inlined (request.inlined_isFalsy base hne)
      (request.ofJson_inlined base hne) name p, rfl, hp⟩

namespace Service

/-- The services differ at most in what they keep of the settings and of the file, and in what they
reported. -/
structure Alike (s s' : Service) : Prop where
  standIn_eq : s'.standIn = s.standIn
  encodings_eq : s'.encodings = s.encodings
  ids_eq : s'.ids = s.ids
  drawn_eq : s'.drawn = s.drawn
  settings_eq : s'.settings.get.1 = s.settings.get.1
  reading_eq : s'.profiles.reading = s.profiles.reading
  coherent : s'.profiles.Coherent

theorem Alike.refl {s : Service} (hs : s.profiles.Coherent) : s.Alike s :=
  ⟨rfl, rfl, rfl, rfl, rfl, rfl, hs⟩

theorem Alike.trans {s s' s'' : Service} (h : s.Alike s') (h' : s'.Alike s'') : s.Alike s'' where
  standIn_eq := h'.standIn_eq.trans h.standIn_eq
  encodings_eq := h'.encodings_eq.trans h.encodings_eq
  ids_eq := h'.ids_eq.trans h.ids_eq
  drawn_eq := h'.drawn_eq.trans h.drawn_eq
  settings_eq := h'.settings_eq.trans h.settings_eq
  reading_eq := h'.reading_eq.trans h.reading_eq
  coherent := h'.coherent

theorem alike_report {s : Service} (hs : s.profiles.Coherent) (e : Log.Event) :
    s.Alike ((report e).run s).2 := ⟨rfl, rfl, rfl, rfl, rfl, rfl, hs⟩

theorem exists_run_currentSettings {s : Service} (hs : s.profiles.Coherent) :
    ∃ s', currentSettings.run s = (s.settings.get.1, s') ∧ s.Alike s' :=
  ⟨_, rfl, rfl, rfl, rfl, rfl, s.settings.get_get, rfl, hs⟩

theorem run_onProfiles {s : Service} {access : Profiles.Access α} {result : Except ProfileError α}
    {q : Profiles} (h : access.run.run s.profiles = (result, q)) :
    (onProfiles access).run s = (result, { s with profiles := q }) := by
  have haccess : access.runIn s.profiles = (result, q) := h
  change ((access.runIn s.profiles).1, { s with profiles := (access.runIn s.profiles).2 }) = _
  rw [haccess]

theorem exists_run_onProfiles {s : Service} (hs : s.profiles.Coherent) {access : Profiles.Access α}
    {f : Reading → Except ProfileError α} (h : Profiles.Answers access f) :
    ∃ s', (onProfiles access).run s = (f s.profiles.reading, s') ∧ s.Alike s' := by
  obtain ⟨q, hrun, hq⟩ := h s.profiles hs
  exact ⟨_, run_onProfiles hrun, rfl, rfl, rfl, rfl, rfl, hq.reading_eq, hq.coherent⟩

/-- The handler gives what `f` makes of the settings and of what was read from the file. -/
def Consults (x : Handler α) (f : Except (List Problem) Settings → Reading → Except Reply α) : Prop :=
  ∀ s : Service, s.profiles.Coherent →
    ∃ s', x.run.run s = (f s.settings.get.1 s.profiles.reading, s') ∧ s.Alike s'

namespace Consults

variable {x : Handler α} {f : Except (List Problem) Settings → Reading → Except Reply α}

theorem ofExcept (e : Except Reply α) : Consults (ExceptT.mk (Pure.pure e)) fun _ _ => e :=
  fun s hs => ⟨s, rfl, .refl hs⟩

theorem pure (a : α) : Consults (Pure.pure a) fun _ _ => .ok a := ofExcept (.ok a)

theorem throw (reply : Reply) : Consults (α := α) (throw reply) fun _ _ => .error reply :=
  ofExcept (.error reply)

theorem fail : Consults (α := α) fail fun _ _ => .error .failed :=
  fun _ hs => ⟨_, rfl, alike_report hs .unhandled⟩

theorem congr {f' : Except (List Problem) Settings → Reading → Except Reply α} (hx : Consults x f)
    (h : ∀ settings reading, f settings reading = f' settings reading) : Consults x f' := by
  obtain rfl : f = f' := funext fun settings => funext (h settings)
  exact hx

theorem bind {y : α → Handler β} {g : α → Except (List Problem) Settings → Reading → Except Reply β}
    (hx : Consults x f) (hy : ∀ a, Consults (y a) (g a)) :
    Consults (x >>= y) fun settings reading =>
      f settings reading >>= fun a => g a settings reading := by
  intro s hs
  obtain ⟨s₁, hrun, hs₁⟩ := hx s hs
  dsimp only
  cases hf : f s.settings.get.1 s.profiles.reading with
  | error reply =>
    rw [hf] at hrun
    exact ⟨s₁, run_bind_error hrun y, hs₁⟩
  | ok a =>
    rw [hf] at hrun
    obtain ⟨s₂, hrun₂, hs₂⟩ := hy a s₁ hs₁.coherent
    rw [hs₁.settings_eq, hs₁.reading_eq] at hrun₂
    exact ⟨s₂, (run_bind_ok hrun y).trans hrun₂, hs₁.trans hs₂⟩

theorem settings_bind {y : Except (List Problem) Settings → Handler α}
    {g : Except (List Problem) Settings → Except (List Problem) Settings → Reading → Except Reply α}
    (hy : ∀ settings, Consults (y settings) (g settings)) :
    Consults (liftM currentSettings >>= y) fun settings reading => g settings settings reading := by
  intro s hs
  obtain ⟨s₁, hrun, hs₁⟩ := exists_run_currentSettings hs
  obtain ⟨s₂, hrun₂, hs₂⟩ := hy s.settings.get.1 s₁ hs₁.coherent
  rw [hs₁.settings_eq, hs₁.reading_eq] at hrun₂
  exact ⟨s₂, (run_lift_bind hrun y).trans hrun₂, hs₁.trans hs₂⟩

theorem profiles_bind {access : Profiles.Access α} {h : Reading → Except ProfileError α}
    (ha : Profiles.Answers access h) {y : Except ProfileError α → Handler β}
    {g : Except ProfileError α → Except (List Problem) Settings → Reading → Except Reply β}
    (hy : ∀ result, Consults (y result) (g result)) :
    Consults (liftM (onProfiles access) >>= y) fun settings reading =>
      g (h reading) settings reading := by
  intro s hs
  obtain ⟨s₁, hrun, hs₁⟩ := exists_run_onProfiles hs ha
  obtain ⟨s₂, hrun₂, hs₂⟩ := hy (h s.profiles.reading) s₁ hs₁.coherent
  rw [hs₁.settings_eq, hs₁.reading_eq] at hrun₂
  exact ⟨s₂, (run_lift_bind hrun y).trans hrun₂, hs₁.trans hs₂⟩

variable {s : Service} (hx : Consults x f) (hs : s.profiles.Coherent) (y : α → Handler β)

include hx hs

theorem exists_run_bind_of_error {reply : Reply}
    (h : f s.settings.get.1 s.profiles.reading = .error reply) :
    ∃ s', (x >>= y).run.run s = (.error reply, s') ∧ s.Alike s' := by
  obtain ⟨s', hrun, hs'⟩ := hx s hs
  rw [h] at hrun
  exact ⟨s', run_bind_error hrun y, hs'⟩

theorem exists_run_bind_of_ok {a : α} (h : f s.settings.get.1 s.profiles.reading = .ok a) :
    ∃ s', (x >>= y).run.run s = (y a).run.run s' ∧ s.Alike s' := by
  obtain ⟨s', hrun, hs'⟩ := hx s hs
  rw [h] at hrun
  exact ⟨s', run_bind_ok hrun y, hs'⟩

end Consults

def refusal (e : ProfileError) : Reply := if e.isValueError then .refused e.message else .failed

theorem consults_readSplitRequest (r : Request) :
    Consults (readSplitRequest r) fun settings _ => do
      let v ← bodyOf r
      let settings ← settings.mapError fun _ => .failed
      let request ← (SplitRequest.ofBody v).mapError fun ps => .invalid (ps.map .value)
      return (request, settings) := by
  unfold readSplitRequest
  cases bodyOf r with
  | error reply => exact .throw reply
  | ok v =>
    apply Consults.settings_bind (g := fun settings _ _ => do
      let settings ← settings.mapError fun _ => .failed
      let request ← (SplitRequest.ofBody v).mapError fun ps => .invalid (ps.map .value)
      return (request, settings))
    intro settings
    cases settings with
    | error ps => exact .fail
    | ok settings =>
      dsimp only
      cases SplitRequest.ofBody v with
      | error ps => exact .throw _
      | ok request => exact .pure _

theorem consults_profileName (asked : Text) :
    Consults (profileName asked) fun _ reading =>
      (reading.expand (.ofText asked)).mapError fun _ => .failed := by
  unfold profileName Reading.expand Json.ofText
  by_cases hasked : Literal.text asked = Profiles.activeName
  · simp only [if_pos hasked]
    apply Consults.profiles_bind Profiles.answers_active
      (g := fun result _ _ => result.mapError fun _ => .failed)
    intro result
    cases result with
    | ok v => exact .pure v
    | error e => exact .fail
  · simp only [if_neg hasked]
    exact .pure _

theorem consults_requestConfig (request : SplitRequest) (name : Json) :
    Consults (requestConfig request name) fun _ reading =>
      ((reading.resolve name).map request.applied).mapError refusal := by
  intro s hs
  obtain ⟨s₁, hrun₁, hs₁⟩ := exists_run_onProfiles hs (Profiles.answers_resolve name)
  unfold requestConfig
  rw [run_lift_bind hrun₁]
  dsimp only
  cases hresolve : s.profiles.reading.resolve name with
  | error e =>
    unfold refusal
    by_cases he : e.isValueError
    · exact ⟨s₁, by simp only [if_pos he, Except.map, Except.mapError]; rfl, hs₁⟩
    · refine ⟨_, ?_, hs₁.trans (alike_report hs₁.coherent .unhandled)⟩
      simp only [if_neg he, Except.map, Except.mapError]
      rfl
  | ok base =>
    -- The values of the request go into a configuration that is valid, and stay within its bounds.
    rw [← hs₁.reading_eq] at hresolve
    obtain ⟨q, hrun₂, hread, hq⟩ :=
      Profiles.exists_run_resolve_inlined hs₁.coherent request hresolve
    refine ⟨{ s₁ with profiles := q }, ?_, hs₁.trans ⟨rfl, rfl, rfl, rfl, rfl, hread, hq⟩⟩
    dsimp only
    rw [run_lift_bind (run_onProfiles hrun₂)]
    rfl

/-- What a split does before its reply: the request, the profile's name and the configuration. -/
def prepare (r : Request) : Handler (SplitRequest × Json × Config) := do
  let (request, settings) ← readSplitRequest r
  if settings.maxTextChars.1 < request.text.length then throw (.tooLong settings.maxTextChars.1)
  let name ← profileName (request.profileOr settings.profile)
  let c ← requestConfig request name
  return (request, name, c)

theorem split_eq (r : Request) :
    split r = prepare r >>= fun p => splitReply p.1 p.2.1 p.2.2 := by
  unfold split prepare
  rw [bind_assoc]
  congr 1
  funext p
  obtain ⟨request, settings⟩ := p
  dsimp only
  split
  · rfl
  · simp only [bind_assoc, pure_bind]

def prepared (r : Request) (settings : Except (List Problem) Settings) (reading : Reading) :
    Except Reply (SplitRequest × Json × Config) := do
  let v ← bodyOf r
  let settings ← settings.mapError fun _ => .failed
  let request ← (SplitRequest.ofBody v).mapError fun ps => .invalid (ps.map .value)
  if settings.maxTextChars.1 < request.text.length then throw (.tooLong settings.maxTextChars.1)
  let name ← (reading.expand (.ofText (request.profileOr settings.profile))).mapError
    fun _ => .failed
  let c ← ((reading.resolve name).map request.applied).mapError refusal
  return (request, name, c)

theorem consults_prepare (r : Request) : Consults (prepare r) (prepared r) := by
  unfold prepare
  apply ((consults_readSplitRequest r).bind (g := fun p _ reading => do
    if p.2.maxTextChars.1 < p.1.text.length then throw (.tooLong p.2.maxTextChars.1)
    let name ← (reading.expand (.ofText (p.1.profileOr p.2.profile))).mapError fun _ => .failed
    let c ← ((reading.resolve name).map p.1.applied).mapError refusal
    return (p.1, name, c)) ?_).congr
  · intro settings reading
    unfold prepared
    simp only [bind_assoc, pure_bind]
  · rintro ⟨request, settings⟩
    dsimp only
    split
    · exact .throw _
    · exact (consults_profileName _).bind fun name =>
        (consults_requestConfig request name).bind fun c => .pure _

section Split

variable {s : Service} (hs : s.profiles.Coherent) {r : Request}

include hs

theorem exists_run_split_of_error {reply : Reply}
    (h : prepared r s.settings.get.1 s.profiles.reading = .error reply) :
    ∃ s', (split r).run.run s = (.error reply, s') ∧ s.Alike s' := by
  rw [split_eq]
  exact (consults_prepare r).exists_run_bind_of_error hs (fun p => splitReply p.1 p.2.1 p.2.2) h

theorem exists_run_split_of_ok {request : SplitRequest} {name : Json} {c : Config}
    (h : prepared r s.settings.get.1 s.profiles.reading = .ok (request, name, c)) :
    ∃ s', (split r).run.run s = (splitReply request name c).run.run s' ∧ s.Alike s' := by
  rw [split_eq]
  obtain ⟨s', hrun, hs'⟩ := (consults_prepare r).exists_run_bind_of_ok hs
    (fun p => splitReply p.1 p.2.1 p.2.2) h
  exact ⟨s', hrun, hs'⟩

end Split

/-- What is done before a probe: the configuration of the configured profile, if this is known. -/
def configured : Handler (Option Config) := do
  match ← currentSettings with
  | .error _ => fail
  | .ok settings =>
    match ← onProfiles (Profiles.resolve (.ofText settings.profile) .null) with
    | .ok c => return some c
    | .error e =>
      if e.isValueError then
        report .profileMissing
        return none
      else fail

def readyReply : Option Config → Handler Reply
  | some c => do
    match ← ping c.encoding with
    | .ok h => return .probed c.encoding h
    | .error _ => fail
  | none => return .unknownProfile

theorem replyOf_readyReply (c : Config) (s : Service) :
    (∃ h, replyOf ((readyReply (some c)).run.run s).1 = .probed c.encoding h) ∨
      replyOf ((readyReply (some c)).run.run s).1 = .failed := by
  unfold readyReply
  rw [run_lift_bind_eq]
  split
  · exact .inl ⟨_, rfl⟩
  · exact .inr rfl

theorem ready_eq : ready = configured >>= readyReply := by
  unfold ready configured
  rw [bind_assoc]
  congr 1
  funext result
  cases result with
  | error ps => rfl
  | ok settings =>
    dsimp only
    rw [bind_assoc]
    congr 1
    funext result
    cases result with
    | ok c => rfl
    | error e =>
      dsimp only
      split <;> rfl

def probed (settings : Except (List Problem) Settings) (reading : Reading) :
    Except Reply (Option Config) :=
  match settings with
  | .error _ => .error .failed
  | .ok settings =>
    match reading.resolve (.ofText settings.profile) with
    | .ok c => .ok (some c)
    | .error e => if e.isValueError then .ok none else .error .failed

theorem consults_configured : Consults configured probed := by
  unfold configured
  apply Consults.settings_bind (g := fun settings _ => probed settings)
  intro settings
  cases settings with
  | error ps => exact .fail
  | ok settings =>
    apply Consults.profiles_bind (Profiles.answers_resolve (.ofText settings.profile))
      (g := fun result _ _ => match result with
        | .ok c => .ok (some c)
        | .error e => if e.isValueError then .ok none else .error .failed)
    intro result
    cases result with
    | ok c => exact .pure _
    | error e =>
      dsimp only
      split
      · exact fun _ hs => ⟨_, rfl, alike_report hs .profileMissing⟩
      · exact .fail

theorem probed_eq_some_iff {settings : Settings} {reading : Reading} {c : Config} :
    probed (.ok settings) reading = .ok (some c) ↔
      reading.resolve (.ofText settings.profile) = .ok c := by
  unfold probed
  dsimp only
  cases reading.resolve (.ofText settings.profile) with
  | ok c' => simp only [Except.ok.injEq, Option.some.injEq]
  | error e =>
    dsimp only
    split
    · exact iff_of_false (fun h => nomatch h) fun h => nomatch h
    · exact iff_of_false (fun h => nomatch h) fun h => nomatch h

theorem probed_eq_none_iff {settings : Settings} {reading : Reading} :
    probed (.ok settings) reading = .ok none ↔
      ∃ e, reading.resolve (.ofText settings.profile) = .error e ∧ e.isValueError = true := by
  unfold probed
  dsimp only
  cases reading.resolve (.ofText settings.profile) with
  | ok c => exact iff_of_false (fun h => nomatch h) fun h => nomatch h.choose_spec.1
  | error e =>
    dsimp only
    by_cases he : e.isValueError
    · rw [if_pos he]
      exact iff_of_true rfl ⟨e, rfl, he⟩
    · rw [if_neg he]
      refine iff_of_false (fun h => nomatch h) ?_
      rintro ⟨e', he', hvalue⟩
      exact he (Except.error.inj he' ▸ hvalue)

theorem eq_failed_of_probed {settings : Except (List Problem) Settings} {reading : Reading}
    {reply : Reply} (h : probed settings reading = .error reply) : reply = .failed := by
  unfold probed at h
  split at h
  · exact (Except.error.inj h).symm
  · split at h
    · exact nomatch h
    · split at h
      · exact nomatch h
      · exact (Except.error.inj h).symm

/-- A request is answered with an error for its target or method, or as its route asks. -/
theorem handle_cases (r : Request) :
    handle r = pure .notFound ∨ handle r = pure .notAllowed ∨ handle r = pure .alive ∨
      handle r = ready ∨ handle r = split r := by
  unfold handle
  split
  · exact .inl rfl
  · split
    · exact .inr (.inl rfl)
    · split
      · exact .inr (.inr (.inr (.inr rfl)))
      · exact .inr (.inr (.inl rfl))
      · exact .inr (.inr (.inr (.inl rfl)))

end Service

end TextChunks
