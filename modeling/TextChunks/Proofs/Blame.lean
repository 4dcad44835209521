import Mathlib.Data.List.Permutation
import TextChunks.Proofs.Accepted

namespace TextChunks

namespace Profiles

theorem invalid_of_validate_error {fields : Json.Fields} {e : ProfileError}
    (h : validate fields = .error e) : ∃ ps, e = .invalid ps := by
  induction fields with
  | nil => exact nomatch h
  | cons field rest ih =>
    rw [validate] at h
    cases hfield : Config.ofJson field.2 with
    | error ps =>
      rw [hfield] at h
      exact ⟨ps, (Except.error.inj h).symm⟩
    | ok c =>
      rw [hfield] at h
      cases hrest : validate rest with
      | error e' =>
        rw [hrest] at h
        exact ih (hrest.trans (congrArg Except.error (Except.error.inj h)))
      | ok d =>
        rw [hrest] at h
        exact nomatch h

theorem invalid_of_ofContent_error {fields : Json.Fields} {e : ProfileError}
    (h : ofContent fields = .error e) (he : e.isValueError = true) : ∃ ps, e = .invalid ps := by
  unfold ofContent at h
  split at h
  · exact invalid_of_validate_error h
  · obtain rfl := Except.error.inj h
    exact nomatch he

end Profiles

namespace Reading

/-- The file was read and all its profiles are valid, and none of them has the name asked for. -/
def Unknown (r : Reading) (asked : Text) : Prop :=
  ∃ fields d name, r = .ok (.object fields) ∧ Profiles.ofContent fields = .ok d ∧
    r.expand (.ofText asked) = .ok name ∧ ∀ l ∈ d.map Prod.fst, name ≠ .str l

/-- The file is no JSON, or a profile in it is not valid. -/
inductive Misread : Reading → Prop where
  | malformed (f : Json.Fault) (position line column : Nat) :
    Misread (.error (.malformed f position line column))
  | digits (n : Nat) : Misread (.error (.digits n))
  | invalid {fields : Json.Fields} {ps : List Problem}
    (h : Profiles.ofContent fields = .error (.invalid ps)) : Misread (.ok (.object fields))

variable {r : Reading} {v name : Json}

theorem find_of_profiles_error {e : ProfileError} (h : r.profiles = .error e) :
    r.find name = .error e := by
  rw [Reading.find, h]
  rfl

theorem profiles_of_fields_error {e : ProfileError} (h : r.fields = .error e) :
    r.profiles = .error e := by
  rw [profiles, h]
  rfl

/-- Errors in the file come before what the name itself may be. -/
theorem resolve_of_profiles_error {e : ProfileError} (h : r.profiles = .error e) :
    r.resolve v = .error e := by
  cases hexpand : r.expand v with
  | error e' =>
    have hfields := profiles_of_fields_error (fields_of_expand_error hexpand)
    rw [h] at hfields
    rw [resolve, hexpand, Except.error.inj hfields]
    rfl
  | ok name =>
    rw [resolve_eq_of_expand hexpand, find_of_profiles_error h]
    rfl

theorem Misread.profiles_eq (h : r.Misread) :
    ∃ e, r.profiles = .error e ∧ e.isValueError = true := by
  cases h with
  | malformed f position line column => exact ⟨_, rfl, rfl⟩
  | digits n => exact ⟨_, rfl, rfl⟩
  | invalid hinvalid => exact ⟨_, hinvalid, rfl⟩

theorem Misread.not_unknown (h : r.Misread) (asked : Text) : ¬r.Unknown asked := by
  rintro ⟨fields, d, name, hr, hd, -, -⟩
  obtain ⟨e, hprofiles, -⟩ := h.profiles_eq
  rw [hr] at hprofiles
  exact nomatch hd.symm.trans hprofiles

/-- A name stands for another one only if the file could be read. -/
theorem Misread.exists_expand_iff (h : r.Misread) (asked : Text) :
    (∃ name, r.expand (.ofText asked) = .ok name) ↔
      (Literal.text asked = Profiles.activeName → ∃ v, r = .ok v) := by
  unfold Reading.expand Json.ofText
  by_cases hasked : Literal.text asked = Profiles.activeName
  · simp only [hasked, true_imp_iff]
    cases h with
    | malformed => exact iff_of_false (fun h => nomatch h.choose_spec) fun h => nomatch h.choose_spec
    | digits => exact iff_of_false (fun h => nomatch h.choose_spec) fun h => nomatch h.choose_spec
    | invalid => exact iff_of_true ⟨_, rfl⟩ ⟨_, rfl⟩
  · simp only [if_neg hasked]
    exact iff_of_true ⟨_, rfl⟩ fun h => absurd h hasked

theorem misread_of_profiles_error {e : ProfileError} (h : r.profiles = .error e)
    (he : e.isValueError = true) : r.Misread := by
  cases r with
  | error e' =>
    obtain rfl := Except.error.inj h
    cases e' with
    | malformed f position line column => exact .malformed ..
    | digits n => exact .digits n
    | depth c => exact nomatch he
  | ok v =>
    cases v with
    | object fields =>
      obtain ⟨ps, rfl⟩ := Profiles.invalid_of_ofContent_error h he
      exact .invalid h
    | _ =>
      obtain rfl := Except.error.inj h
      exact nomatch he

theorem unknown_of_profiles {d : Dictionary Literal Config} (hd : r.profiles = .ok d) {asked : Text}
    {e : ProfileError} (h : r.resolve (.ofText asked) = .error e) : r.Unknown asked := by
  obtain ⟨fields, hfields, hof⟩ := exists_of_bind_ok hd
  cases hexpand : r.expand (.ofText asked) with
  | error e' => exact nomatch hfields.symm.trans (fields_of_expand_error hexpand)
  | ok name =>
    refine ⟨fields, d, name, eq_of_fields hfields, hof, hexpand, ?_⟩
    rintro l hl rfl
    rw [resolve_eq_of_expand hexpand, Reading.find, hd] at h
    change known _ (d.get? l) = _ at h
    cases hget : d.get? l with
    | none => exact Dictionary.get?_eq_none_iff.1 hget hl
    | some c =>
      rw [hget] at h
      exact nomatch h

/-- Where the error lies of which a client is told. -/
theorem misread_or_unknown {asked : Text} {e : ProfileError}
    (h : r.resolve (.ofText asked) = .error e) (he : e.isValueError = true) :
    r.Misread ∨ r.Unknown asked := by
  cases hprofiles : r.profiles with
  | error e' =>
    obtain rfl := Except.error.inj ((resolve_of_profiles_error hprofiles).symm.trans h)
    exact .inl (misread_of_profiles_error hprofiles he)
  | ok d => exact .inr (unknown_of_profiles hprofiles h)

end Reading

namespace Service

variable {s : Service}

theorem status_sent (reply : Reply) : (sent reply).status = 400 ↔ reply.status = 400 := by
  unfold sent
  by_cases hsend : reply.body.sendable
  · rw [if_pos hsend]
  · rw [if_neg hsend]
    refine iff_of_false (by decide) fun hstatus => hsend ?_
    cases reply with
    | refused message => rfl
    | unreadable => rfl
    | probed encoding h =>
      simp only [Reply.status] at hstatus
      split at hstatus <;> exact absurd hstatus (by decide)
    | _ => exact nomatch hstatus

theorem eq_of_sent_eq {reply out : Reply} (h : sent reply = out) (hout : out ≠ .failed) :
    reply = out := by
  unfold sent at h
  split at h
  · exact h
  · exact absurd h.symm hout

theorem status_refusal (e : ProfileError) :
    (refusal e).status = 400 ↔ e.isValueError = true := by
  unfold refusal
  by_cases he : e.isValueError
  · rw [if_pos he]
    exact iff_of_true rfl he
  · rw [if_neg he]
    exact iff_of_false (by decide) he

/-- What a split comes to ends in no refusal. -/
theorem status_splitReply (request : SplitRequest) (name : Json) (c : Config) :
    (replyOf ((splitReply request name c).run.run s).1).status ≠ 400 := by
  unfold splitReply
  rw [run_lift_bind_eq, run_lift_bind_eq]
  split
  · rw [run_lift_bind_eq]
    split
    · exact (by decide : 200 ≠ 400)
    · exact (by decide : 500 ≠ 400)
  · exact (by decide : 500 ≠ 400)

variable (hs : s.profiles.Coherent)

include hs

theorem status_answer_split {r : Request} {request : SplitRequest} {settings : Settings}
    (hr : s.Accepts r request settings) :
    ((answer r).run s).1.status = 400 ↔
      (∃ name, s.profiles.reading.expand (.ofText (request.profileOr settings.profile)) = .ok name) ∧
      ∃ e, s.profiles.reading.resolve (.ofText (request.profileOr settings.profile)) = .error e ∧
        e.isValueError = true := by
  rw [(run_answer r s).1, handle_of_accepts hr, status_sent]
  cases hname : s.profiles.reading.expand (.ofText (request.profileOr settings.profile)) with
  | error e =>
    obtain ⟨s', hrun, -⟩ := exists_run_split_of_expand_error hs hr hname
    rw [hrun]
    exact iff_of_false (by simp [replyOf, Reply.status]) fun h => nomatch h.1.choose_spec
  | ok name =>
    rw [← Reading.resolve_of_expand hname]
    cases hresolve : s.profiles.reading.resolve name with
    | error e =>
      obtain ⟨s', hrun, -⟩ := exists_run_split_of_resolve_error hs hr hname hresolve
      rw [hrun]
      refine (status_refusal e).trans ⟨fun he => ⟨⟨name, rfl⟩, e, rfl, he⟩, ?_⟩
      rintro ⟨-, e', he', hvalue⟩
      rwa [Except.error.inj he']
    | ok base =>
      obtain ⟨s', hrun, -⟩ := exists_run_split_of_resolve hs hr hname hresolve
      rw [hrun]
      exact iff_of_false (status_splitReply request name _) fun h => nomatch h.2.choose_spec.1

structure Probes (s : Service) (r : Request) (settings : Settings) : Prop where
  route : Route.find? r.target = some .ready
  method : r.method.upper = Route.ready.method.toList
  settings_eq : s.settings.get.1 = .ok settings

omit hs in
theorem handle_of_probes {r : Request} {settings : Settings} (hr : s.Probes r settings) :
    handle r = ready := by
  unfold handle
  simp only [hr.route, hr.method, ne_eq, not_true_eq_false, if_false]

theorem answer_ready {r : Request} {settings : Settings} (hr : s.Probes r settings) :
    ((answer r).run s).1 = .unknownProfile ↔
      ∃ e, s.profiles.reading.resolve (.ofText settings.profile) = .error e ∧
        e.isValueError = true := by
  rw [(run_answer r s).1, handle_of_probes hr, ready_eq, ← probed_eq_none_iff, ← hr.settings_eq]
  cases hprobed : probed s.settings.get.1 s.profiles.reading with
  | error reply =>
    obtain ⟨s', hrun, -⟩ := consults_configured.exists_run_bind_of_error hs readyReply hprobed
    rw [hrun, eq_failed_of_probed hprobed]
    exact iff_of_false (fun h => nomatch h) fun h => nomatch h
  | ok configuration =>
    obtain ⟨s', hrun, -⟩ := consults_configured.exists_run_bind_of_ok hs readyReply hprobed
    rw [hrun]
    cases configuration with
    | none => exact iff_of_true rfl rfl
    | some c =>
      refine iff_of_false (fun h => ?_) fun h => nomatch h
      replace h := eq_of_sent_eq h nofun
      rcases replyOf_readyReply c s' with ⟨h', hreply⟩ | hreply
      · exact nomatch hreply.symm.trans h
      · exact nomatch hreply.symm.trans h

theorem refused_of_misread (hmisread : s.profiles.reading.Misread) {r : Request}
    {request : SplitRequest} {settings : Settings} (hr : s.Accepts r request settings)
    (hactive : Literal.text (request.profileOr settings.profile) = Profiles.activeName →
      ∃ v, s.profiles.reading = .ok v) : ((answer r).run s).1.status = 400 := by
  obtain ⟨e, hprofiles, he⟩ := hmisread.profiles_eq
  exact (status_answer_split hs hr).2
    ⟨(hmisread.exists_expand_iff _).2 hactive, e, Reading.resolve_of_profiles_error hprofiles, he⟩

theorem unready_of_misread (hmisread : s.profiles.reading.Misread) {r : Request}
    {settings : Settings} (hr : s.Probes r settings) : ((answer r).run s).1 = .unknownProfile := by
  obtain ⟨e, hprofiles, he⟩ := hmisread.profiles_eq
  exact (answer_ready hs hr).2 ⟨e, Reading.resolve_of_profiles_error hprofiles, he⟩

/-- Exactly where the file is misread, errors are blamed on names that need not be unknown. -/
theorem unknown_blamed_iff :
    (∀ r request settings, s.Accepts r request settings →
      ((((answer r).run s).1.status = 400 →
          s.profiles.reading.Unknown (request.profileOr settings.profile)) ↔
        ¬(s.profiles.reading.Misread ∧
          (Literal.text (request.profileOr settings.profile) = Profiles.activeName →
            ∃ v, s.profiles.reading = .ok v)))) ∧
    ∀ r settings, s.Probes r settings →
      ((((answer r).run s).1 = .unknownProfile → s.profiles.reading.Unknown settings.profile) ↔
        ¬s.profiles.reading.Misread) := by
  constructor
  · intro r request settings hr
    constructor
    · rintro h ⟨hmisread, hactive⟩
      exact hmisread.not_unknown _ (h (refused_of_misread hs hmisread hr hactive))
    · intro h hstatus
      obtain ⟨hname, e, hresolve, he⟩ := (status_answer_split hs hr).1 hstatus
      apply (Reading.misread_or_unknown hresolve he).resolve_left
      exact fun hmisread => h ⟨hmisread, (hmisread.exists_expand_iff _).1 hname⟩
  · intro r settings hr
    constructor
    · intro h hmisread
      exact hmisread.not_unknown _ (h (unready_of_misread hs hmisread hr))
    · intro h hreply
      obtain ⟨e, hresolve, he⟩ := (answer_ready hs hr).1 hreply
      exact (Reading.misread_or_unknown hresolve he).resolve_left h

omit hs

theorem unknown_blamed_iff_invalid_profile :
    ∃ s r request, s.profiles.Coherent ∧ s.Accepts r request .standard ∧
      ¬(((answer r).run s).1.status = 400 →
        s.profiles.reading.Unknown (request.profileOr Settings.standard.profile)) := by
  have hread : Profiles.readFile "\x7b\"profiles\": \x7b\"odd\": 0\x7d\x7d".toList =
      .ok (.record [("profiles", .record [("odd", .int 0)])]) := by cbv
  have hcontent : Request.content { body := "\x7b\"text\": \"\"\x7d".toList } =
      .value (.record [("text", .ofString "")]) := by cbv
  have hs := coherent_opened "\x7b\"profiles\": \x7b\"odd\": 0\x7d\x7d".toList none
  have hr := accepts_opened "\x7b\"profiles\": \x7b\"odd\": 0\x7d\x7d".toList none hcontent rfl
    (Nat.zero_le _)
  refine ⟨_, _, _, hs, hr, fun h => ((unknown_blamed_iff hs).1 _ _ _ hr).1 h ?_⟩
  rw [reading_opened, hread]
  exact ⟨.invalid rfl, fun _ => ⟨_, rfl⟩⟩

theorem broken_file_blamed_on_name :
    ∃ request, (opened ['{'] none).Accepts
        { body := "\x7b\"text\": \"a\", \"profile\": \"x\"\x7d".toList } request .standard ∧
      ((answer { body := "\x7b\"text\": \"a\", \"profile\": \"x\"\x7d".toList }).run
        (opened ['{'] none)).1.status = 400 ∧
      ¬(opened ['{'] none).profiles.reading.Unknown (request.profileOr Settings.standard.profile) := by
  have hread : Profiles.readFile ['{'] = .error (.malformed .propertyName 1 1 2) := by cbv
  have hmisread : (opened ['{'] none).profiles.reading.Misread := by
    rw [reading_opened, hread]
    exact .malformed ..
  have hcontent : Request.content
      { body := "\x7b\"text\": \"a\", \"profile\": \"x\"\x7d".toList } =
      .value (.record [("text", .ofString "a"), ("profile", .ofString "x")]) := by cbv
  have hr := accepts_opened ['{'] none hcontent rfl (by decide)
  exact ⟨_, hr, refused_of_misread (coherent_opened _ _) hmisread hr fun h => absurd h (by decide),
    hmisread.not_unknown _⟩

end Service

end TextChunks
