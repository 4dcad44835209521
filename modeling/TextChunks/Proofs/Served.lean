import TextChunks.Proofs.Accepted

namespace TextChunks

namespace Profiles

/-- The profiles that are kept are right, and what is asked of them is answered from the reading. -/
structure Tells (p : Profiles) (r : Reading) : Prop where
  coherent : p.Coherent
  reading_eq : p.reading = r

end Profiles

namespace Service

theorem Alike.tells {s t : Service} (h : s.Alike t) {r : Reading} (hs : s.profiles.Tells r) :
    t.profiles.Tells r := ⟨h.coherent, h.reading_eq.trans hs.reading_eq⟩

theorem Alike.symm {s t : Service} (h : s.Alike t) (hs : s.profiles.Coherent) : t.Alike s where
  standIn_eq := h.standIn_eq.symm
  encodings_eq := h.encodings_eq.symm
  ids_eq := h.ids_eq.symm
  drawn_eq := h.drawn_eq.symm
  settings_eq := h.settings_eq.symm
  reading_eq := h.reading_eq.symm
  coherent := hs

/-- In services that are alike the computation gives the same and leaves them alike, and their profiles
still tell the same. -/
def Respects (x : StateM Service α) : Prop :=
  ∀ r s t, s.profiles.Tells r → s.Alike t →
    (x.run t).1 = (x.run s).1 ∧ (x.run s).2.profiles.Tells r ∧ (x.run s).2.Alike (x.run t).2

namespace Respects

theorem pure (a : α) : Respects (Pure.pure a) := fun _ _ _ hs h => ⟨rfl, hs, h⟩

theorem bind {x : StateM Service α} {f : α → StateM Service β} (hx : Respects x)
    (hf : ∀ a, Respects (f a)) : Respects (x >>= f) := by
  intro r s t hs h
  obtain ⟨heq, hs', h'⟩ := hx r s t hs h
  rw [run_state_bind, run_state_bind, heq]
  exact hf _ r _ _ hs' h'

theorem get_bind {f : Service → StateM Service α} (hf : ∀ s t, s.Alike t → f t = f s)
    (hs : ∀ s, Respects (f s)) : Respects (get >>= f) := by
  intro r s t hr h
  rw [run_state_get_bind, run_state_get_bind, hf s t h]
  exact hs s r s t hr h

theorem report (e : Log.Event) : Respects (report e) := fun _ _ _ hs h =>
  ⟨rfl, hs, h.standIn_eq, h.encodings_eq, h.ids_eq, h.drawn_eq, h.settings_eq, h.reading_eq,
    h.coherent⟩

theorem reportIf (condition : Bool) (e : Log.Event) : Respects (reportIf condition e) := by
  cases condition with
  | false => exact pure ()
  | true => exact report e

theorem current_eq {s t : Service} (h : s.Alike t) (source : Source) :
    t.current source = s.current source := by
  cases source with
  | standIn =>
    unfold current
    rw [h.standIn_eq]
  | loaded l => rfl

theorem call (source : Source) (c : Call AnyTokenizer α) : Respects (call source c) := by
  intro r s t hs h
  have hrun (u : Service) : (Service.call source c).run u =
      ((c.runIn (u.current source)).1, u.keep source (c.runIn (u.current source)).2) := rfl
  rw [hrun, hrun, current_eq h]
  cases source with
  | standIn =>
    have hstandIn := congrArg (Option.map fun _ => (c.runIn (s.current .standIn)).2) h.standIn_eq
    exact ⟨rfl, hs, hstandIn, h.encodings_eq, h.ids_eq, h.drawn_eq, h.settings_eq, h.reading_eq,
      h.coherent⟩
  | loaded l => exact ⟨rfl, hs, h⟩

theorem tokenizerFor (request : Option Text) : Respects (tokenizerFor request) := by
  unfold Service.tokenizerFor
  apply get_bind
  · intro s t h
    rw [h.standIn_eq, h.encodings_eq]
  · intro s
    split
    · exact bind (call _ _) fun _ => pure _
    · refine bind (reportIf _ _) fun _ => bind (fun _ _ _ hs h => ?_) fun _ => pure _
      exact ⟨rfl, hs, h.standIn_eq, rfl, h.ids_eq, h.drawn_eq, h.settings_eq, h.reading_eq, h.coherent⟩

theorem documentOf (request : SplitRequest) : Respects (documentOf request) := by
  unfold Service.documentOf
  split
  · exact pure _
  · intro r s t hs h
    refine ⟨?_, hs, h.standIn_eq, h.encodings_eq, h.ids_eq, congrArg (· + 1) h.drawn_eq, h.settings_eq,
      h.reading_eq, h.coherent⟩
    change t.ids (t.drawn + 1) = s.ids (s.drawn + 1)
    rw [h.ids_eq, h.drawn_eq]

theorem chunkRecords (source : Source) (c : Config) (document : Text) (text : Literal) :
    Respects (chunkRecords source c document text) := by
  unfold Service.chunkRecords
  apply get_bind
  · intro s t h
    rw [current_eq h]
  · intro s
    apply bind (call _ _)
    intro result
    split
    · exact pure _
    · refine bind (reportIf _ _) fun _ => bind (reportIf _ _) fun _ => bind (call _ _) fun result => ?_
      split
      · exact pure _
      · exact bind (report _) fun _ => pure _

theorem probe (encoding : Text) : Respects (probe encoding) := by
  unfold Service.probe
  apply bind (tokenizerFor _)
  intro result
  split
  · exact call _ _
  · exact pure _

theorem healthOf (result : Except Failure Bool) : Respects (healthOf result) := by
  unfold Service.healthOf
  split
  · exact pure _
  · exact pure _
  · split
    · exact bind (report _) fun _ => pure _
    · exact bind (report _) fun _ => pure _
    · exact bind (report _) fun _ => pure _
    · exact pure _

theorem ping (encoding : Text) : Respects (ping encoding) := bind (probe encoding) healthOf

theorem send (reply : Reply) : Respects (send reply) := by
  unfold Service.send
  split
  · exact pure _
  · exact bind (report _) fun _ => pure _

section Handlers

theorem lift {x : StateM Service α} (h : Respects x) : Respects (liftM x : Handler α).run :=
  bind h fun _ => pure _

theorem handler_bind {x : Handler α} {f : α → Handler β} (hx : Respects x.run)
    (hf : ∀ a, Respects (f a).run) : Respects (x >>= f).run := by
  intro r s t hs h
  obtain ⟨heq, hs', h'⟩ := hx r s t hs h
  rcases hrun : x.run.run s with ⟨result, s'⟩
  rcases hrun' : x.run.run t with ⟨result', t'⟩
  rw [hrun, hrun'] at heq h'
  rw [hrun] at hs'
  obtain rfl : result' = result := heq
  cases result' with
  | error reply =>
    rw [run_bind_error hrun, run_bind_error hrun']
    exact ⟨rfl, hs', h'⟩
  | ok a =>
    rw [run_bind_ok hrun, run_bind_ok hrun']
    exact hf a r s' t' hs' h'

theorem lift_bind {x : StateM Service α} {f : α → Handler β} (hx : Respects x)
    (hf : ∀ a, Respects (f a).run) : Respects (liftM x >>= f).run := handler_bind hx.lift hf

/-- A handler that only consults the settings and the profiles finds the same in both services. -/
theorem of_consults {x : Handler α} {f : Except (List Problem) Settings → Reading → Except Reply α}
    (hx : Consults x f) : Respects x.run := by
  intro r s t hs h
  obtain ⟨s', hrun, hs'⟩ := hx s hs.coherent
  obtain ⟨t', hrun', ht'⟩ := hx t h.coherent
  rw [h.settings_eq, h.reading_eq] at hrun'
  rw [hrun, hrun']
  exact ⟨rfl, hs'.tells hs, (hs'.symm hs.coherent).trans (h.trans ht')⟩

theorem fail : Respects (fail : Handler α).run := of_consults .fail

theorem splitReply (request : SplitRequest) (name : Json) (c : Config) :
    Respects (splitReply request name c).run := by
  unfold Service.splitReply
  refine lift_bind (documentOf request) fun document => lift_bind (tokenizerFor _) fun result => ?_
  split
  · apply lift_bind (chunkRecords _ _ _ _)
    intro records
    split
    · exact pure _
    · exact fail
  · exact fail

theorem split (r : Request) : Respects (split r).run := by
  rw [split_eq]
  exact handler_bind (of_consults (consults_prepare r)) fun p => splitReply p.1 p.2.1 p.2.2

theorem ready : Respects ready.run := by
  rw [ready_eq]
  apply handler_bind (of_consults consults_configured)
  intro configuration
  unfold readyReply
  split
  · apply lift_bind (ping _)
    intro result
    split
    · exact pure _
    · exact fail
  · exact pure _

theorem handle (r : Request) : Respects (handle r).run := by
  unfold Service.handle
  split
  · exact pure _
  · split
    · exact pure _
    · split
      · exact Respects.split r
      · exact pure _
      · exact ready

end Handlers

theorem answer (r : Request) : Respects (answer r) :=
  bind (handle r) fun result => send (replyOf result)

end Respects

variable {s : Service} {r : Reading} (hs : s.profiles.Tells r)

include hs

theorem tells_answer (request : Request) : ((answer request).run s).2.profiles.Tells r :=
  (Respects.answer request r s s hs (.refl hs.coherent)).2.1

/-- No requests make a difference to what the profiles tell, although the file is read at one of them. -/
theorem tells_answers (requests : List Request) :
    (requests.foldl (fun s request => ((answer request).run s).2) s).profiles.Tells r := by
  induction requests generalizing s with
  | nil => exact hs
  | cons request requests ih => exact ih (tells_answer hs request)

end Service

end TextChunks
