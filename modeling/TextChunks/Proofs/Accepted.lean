import TextChunks.Proofs.Prepared

namespace TextChunks

namespace Service

structure Accepts (s : Service) (r : Request) (request : SplitRequest) (settings : Settings) :
    Prop where
  route : Route.find? r.target = some .split
  method : r.method.upper = Route.split.method.toList
  content : ∃ v, r.content = .value v ∧ SplitRequest.ofJson v = .ok request
  settings_eq : s.settings.get.1 = .ok settings
  length_le : request.text.length ≤ settings.maxTextChars.1

variable {s s' : Service} {r : Request} {request : SplitRequest} {settings : Settings}

theorem Accepts.of_alike (hr : s.Accepts r request settings) (h : s.Alike s') :
    s'.Accepts r request settings :=
  ⟨hr.route, hr.method, hr.content, h.settings_eq.trans hr.settings_eq, hr.length_le⟩

/-- What an accepted request comes to, by the name of its profile. -/
theorem prepared_of_accepts (hr : s.Accepts r request settings) (reading : Reading) :
    prepared r s.settings.get.1 reading = (do
      let name ← (reading.expand (.ofText (request.profileOr settings.profile))).mapError
        fun _ => .failed
      let c ← ((reading.resolve name).map request.applied).mapError refusal
      return (request, name, c)) := by
  obtain ⟨v, hcontent, hof⟩ := hr.content
  have hbody : bodyOf r = .ok (some v) := by
    unfold bodyOf
    rw [hcontent]
  unfold prepared
  rw [hbody, hr.settings_eq]
  change ((SplitRequest.ofJson v).mapError _ >>= _) = _
  rw [hof]
  exact if_neg (Nat.not_lt.2 hr.length_le)

section Split

variable (hs : s.profiles.Coherent) (hr : s.Accepts r request settings)

include hs hr

theorem exists_run_split_of_expand_error {e : ProfileError}
    (h : s.profiles.reading.expand (.ofText (request.profileOr settings.profile)) = .error e) :
    ∃ s', (split r).run.run s = (.error .failed, s') ∧ s.Alike s' :=
  exists_run_split_of_error hs (by rw [prepared_of_accepts hr, h]; rfl)

variable {name : Json}
  (hname : s.profiles.reading.expand (.ofText (request.profileOr settings.profile)) = .ok name)

include hname

theorem exists_run_split_of_resolve_error {e : ProfileError}
    (h : s.profiles.reading.resolve name = .error e) :
    ∃ s', (split r).run.run s = (.error (refusal e), s') ∧ s.Alike s' := by
  apply exists_run_split_of_error hs
  rw [prepared_of_accepts hr, hname]
  change (((s.profiles.reading.resolve name).map _).mapError _ >>= _) = _
  rw [h]
  rfl

theorem exists_run_split_of_resolve {base : Config}
    (h : s.profiles.reading.resolve name = .ok base) :
    ∃ s', (split r).run.run s = (splitReply request name (request.applied base)).run.run s' ∧
      s.Alike s' := by
  apply exists_run_split_of_ok hs
  rw [prepared_of_accepts hr, hname]
  change (((s.profiles.reading.resolve name).map _).mapError _ >>= _) = _
  rw [h]
  rfl

end Split

theorem handle_of_accepts {r : Request} {request : SplitRequest} {settings : Settings}
    (hr : s.Accepts r request settings) : handle r = split r := by
  unfold handle
  simp only [hr.route, hr.method, ne_eq, not_true_eq_false, if_false]

def sent (reply : Reply) : Reply := if reply.body.sendable then reply else .failed

theorem run_send (reply : Reply) (s : Service) :
    ((send reply).run s).1 = sent reply ∧ ((send reply).run s).2.drawn = s.drawn := by
  unfold send sent
  by_cases hsend : reply.body.sendable
  · simp only [if_pos hsend]
    exact ⟨rfl, rfl⟩
  · simp only [if_neg hsend]
    exact ⟨rfl, rfl⟩

theorem run_answer (r : Request) (s : Service) :
    ((answer r).run s).1 = sent (replyOf ((handle r).run.run s).1) ∧
      ((answer r).run s).2.drawn = ((handle r).run.run s).2.drawn :=
  run_send (replyOf ((handle r).run.run s).1) ((handle r).run.run s).2

/-- A service for which nothing is set, with a file that it has not read yet. -/
def opened (file : Text) (standIn : Option AnyTokenizer) : Service :=
  { settings := { sources := {} }, profiles := { file := file }, standIn := standIn }

theorem reading_opened (file : Text) (standIn : Option AnyTokenizer) :
    (opened file standIn).profiles.reading = Profiles.readFile file := rfl

theorem coherent_opened (file : Text) (standIn : Option AnyTokenizer) :
    (opened file standIn).profiles.Coherent := Profiles.coherent_of_file file

theorem accepts_opened (file : Text) (standIn : Option AnyTokenizer) {body : Text} {v : Json}
    {request : SplitRequest} (hcontent : Request.content { body := body } = .value v)
    (hrequest : SplitRequest.ofJson v = .ok request) (hlength : request.text.length ≤ 2000000) :
    (opened file standIn).Accepts { body := body } request .standard where
  route := by change Route.find? "/split".toList = _; decide +kernel
  method := by change Text.upper "POST".toList = _; decide +kernel
  content := ⟨v, hcontent, hrequest⟩
  settings_eq := rfl
  length_le := hlength

end Service
end TextChunks
