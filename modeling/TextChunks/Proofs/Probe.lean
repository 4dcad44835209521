import TextChunks.Proofs.Agreement
import TextChunks.Proofs.Blame
import TextChunks.Proofs.LoadedOnce
import TextChunks.Proofs.Rejected
import TextChunks.Proofs.RoundTrip

namespace TextChunks

theorem LoadedEncoding.probe_runIn {l : LoadedEncoding} (hl : l.encoding ∈ Encoding.known) :
    AnyTokenizer.tokenizer.probe.runIn (.loaded l) = (.ok true, .loaded l) := by
  unfold Tokenizer.probe
  rw [Call.runIn_bind_ok (encode_runIn l probeText), Call.runIn_bind_pure, decode_ids hl]
  simp [Except.map]

namespace Service

/-- All calls go to known encodings: to a loaded one, or to one that is the stand-in. -/
structure Encoded (s : Service) : Prop where
  coherent : s.profiles.Coherent
  sound : s.encodings.Sound
  standIn : ∀ t, s.standIn = some t → ∃ l : LoadedEncoding, t = .loaded l ∧ l.encoding ∈ Encoding.known

theorem Alike.encoded {s s' : Service} (h : s.Alike s') (hs : s.Encoded) : s'.Encoded where
  coherent := h.coherent
  sound := h.encodings_eq ▸ hs.sound
  standIn := h.standIn_eq ▸ hs.standIn

theorem encoded_opened (file : Text) : (opened file none).Encoded where
  coherent := coherent_opened file none
  sound := EncodingCache.sound_empty
  standIn _ h := nomatch h

def Keeps (x : StateM Service α) : Prop := ∀ s, s.Encoded → (x.run s).2.Encoded

namespace Keeps

theorem pure (a : α) : Keeps (Pure.pure a) := fun _ hs => hs

theorem bind {x : StateM Service α} {f : α → StateM Service β} (hx : Keeps x)
    (hf : ∀ a, Keeps (f a)) : Keeps (x >>= f) := fun s hs => hf _ _ (hx s hs)

theorem get_bind {f : Service → StateM Service α} (hf : ∀ s, s.Encoded → Keeps (f s)) :
    Keeps (get >>= f) := fun s hs => hf s hs s hs

theorem report (e : Log.Event) : Keeps (report e) := fun _ hs => ⟨hs.coherent, hs.sound, hs.standIn⟩

theorem reportIf (condition : Bool) (e : Log.Event) : Keeps (reportIf condition e) := by
  cases condition with
  | false => exact pure ()
  | true => exact report e

theorem call (source : Source) {c : Call AnyTokenizer α} (hc : ∀ l, c.Maintains (· = .loaded l)) :
    Keeps (call source c) := by
  intro s hs
  change (s.keep source (c.runIn (s.current source)).2).Encoded
  cases source with
  | loaded l => exact hs
  | standIn =>
    refine ⟨hs.coherent, hs.sound, ?_⟩
    intro t ht
    obtain ⟨t₀, hstandIn, rfl⟩ := Option.map_eq_some_iff.1 ht
    obtain ⟨l, rfl, hl⟩ := hs.standIn t₀ hstandIn
    exact ⟨l, hc l _ (Holds.current_eq (.standIn hstandIn)), hl⟩

theorem tokenizerFor (request : Option Text) : Keeps (tokenizerFor request) := by
  unfold Service.tokenizerFor
  apply get_bind
  intro s hs
  split
  · apply bind (call _ _) fun _ => pure _
    rintro l _ rfl
    rfl
  · refine bind (reportIf _ _) fun _ => bind (fun s' hs' => ?_) fun _ => pure _
    exact ⟨hs'.coherent, (EncodingCache.step_get s.encodings request).sound hs.sound, hs'.standIn⟩

theorem documentOf (request : SplitRequest) : Keeps (documentOf request) := by
  unfold Service.documentOf
  split
  · exact pure _
  · exact fun s hs => ⟨hs.coherent, hs.sound, hs.standIn⟩

theorem chunkRecords (source : Source) (c : Config) (document : Text) (text : Literal) :
    Keeps (chunkRecords source c document text) := by
  have hparallel (l : LoadedEncoding) := (AnyTokenizer.maintains_loaded l).parallel
  unfold Service.chunkRecords
  apply get_bind
  intro s _
  apply bind (call _ fun l => (hparallel l).segmentsOf c c.windowSize_pos _)
  intro result
  split
  · exact pure _
  · refine bind (reportIf _ _) fun _ => bind (reportIf _ _) fun _ => ?_
    apply bind (call _ fun l => (hparallel l).recordsFrom c document _ 0 _)
    intro result
    split
    · exact pure _
    · exact bind (report _) fun _ => pure _

theorem probe (encoding : Text) : Keeps (probe encoding) := by
  unfold Service.probe
  apply bind (tokenizerFor _)
  intro result
  split
  · apply call
    intro l
    exact Call.Maintains.bind ((AnyTokenizer.maintains_loaded l).encode _) fun _ =>
      Call.Maintains.bind ((AnyTokenizer.maintains_loaded l).decode _) fun _ => Call.maintains_pure _
  · exact pure _

theorem healthOf (result : Except Failure Bool) : Keeps (healthOf result) := by
  unfold Service.healthOf
  split
  · exact pure _
  · exact pure _
  · split
    · exact bind (report _) fun _ => pure _
    · exact bind (report _) fun _ => pure _
    · exact bind (report _) fun _ => pure _
    · exact pure _

theorem send (reply : Reply) : Keeps (send reply) := by
  unfold Service.send
  split
  · exact pure _
  · exact bind (report _) fun _ => pure _

theorem handler_bind {x : Handler α} {f : α → Handler β} (hx : Keeps x.run)
    (hf : ∀ a, Keeps (f a).run) : Keeps (x >>= f).run := by
  intro s hs
  have hs' := hx s hs
  rcases hrun : x.run.run s with ⟨reply | a, s'⟩
  · rw [hrun] at hs'
    rw [run_bind_error hrun]
    exact hs'
  · rw [hrun] at hs'
    rw [run_bind_ok hrun]
    exact hf a s' hs'

theorem lift_bind {x : StateM Service α} {f : α → Handler β} (hx : Keeps x)
    (hf : ∀ a, Keeps (f a).run) : Keeps (liftM x >>= f).run :=
  handler_bind (bind hx fun _ => pure _) hf

theorem of_consults {x : Handler α} {f : Except (List Problem) Settings → Reading → Except Reply α}
    (hx : Consults x f) : Keeps x.run := by
  intro s hs
  obtain ⟨s', hrun, hs'⟩ := hx s hs.coherent
  rw [hrun]
  exact hs'.encoded hs

theorem splitReply (request : SplitRequest) (name : Json) (c : Config) :
    Keeps (splitReply request name c).run := by
  unfold Service.splitReply
  refine lift_bind (documentOf request) fun document => lift_bind (tokenizerFor _) fun result => ?_
  split
  · apply lift_bind (chunkRecords _ _ _ _)
    intro records
    split
    · exact pure _
    · exact of_consults .fail
  · exact of_consults .fail

theorem split (r : Request) : Keeps (split r).run := by
  rw [split_eq]
  exact handler_bind (of_consults (consults_prepare r)) fun p => splitReply p.1 p.2.1 p.2.2

theorem ready : Keeps ready.run := by
  rw [ready_eq]
  apply handler_bind (of_consults consults_configured)
  intro configuration
  unfold readyReply
  split
  · apply lift_bind (bind (probe _) healthOf)
    intro result
    split
    · exact pure _
    · exact of_consults .fail
  · exact pure _

theorem handle (r : Request) : Keeps (handle r).run := by
  rcases handle_cases r with h | h | h | h | h <;> rw [h]
  · exact pure _
  · exact pure _
  · exact pure _
  · exact ready
  · exact split r

theorem answer (r : Request) : Keeps (answer r) :=
  bind (handle r) fun result => send (replyOf result)

end Keeps

theorem encoded_after {s : Service} (hs : s.Encoded) (requests : List Request) :
    (s.after requests).Encoded := by
  induction requests generalizing s with
  | nil => exact hs
  | cons r requests ih => exact ih (Keeps.answer r s hs)

/-- A known encoding is provided for the name, unless the load of the name fails. -/
theorem Encoded.provides_or {s : Service} (hs : s.Encoded) (name : Text) :
    (∃ l : LoadedEncoding, l.encoding ∈ Encoding.known ∧ s.Provides name (.loaded l)) ∧
        (s.standIn.isSome = true ∨ (Encoding.load name).isOk = true) ∨
      s.standIn = none ∧ ∃ f, Encoding.load name = .error f ∧
        ((tokenizerFor (some name)).run s).1 = .error f := by
  cases hstandIn : s.standIn with
  | some t =>
    obtain ⟨l, rfl, hl⟩ := hs.standIn t hstandIn
    exact .inl ⟨⟨l, hl, .standIn hstandIn rfl⟩, .inl rfl⟩
  | none =>
    have hanswer := (EncodingCache.step_get s.encodings (some name)).map_encoding hs.sound
    cases hget : (s.encodings.get (some name)).1 with
    | ok l =>
      rw [hget] at hanswer
      have hload : Encoding.load name = .ok l.encoding := hanswer.symm
      refine .inl ⟨⟨l, (Encoding.of_load hload).1, .loaded hstandIn hget⟩, .inr ?_⟩
      rw [hload]
      rfl
    | error f =>
      rw [hget] at hanswer
      refine .inr ⟨rfl, f, hanswer.symm, ?_⟩
      unfold tokenizerFor
      rw [run_state_get_bind, if_neg (by rw [hstandIn]; exact nofun)]
      change (s.encodings.get (some name)).1.map Source.loaded = _
      rw [hget]
      rfl

theorem Encoded.probe_cases {s : Service} (hs : s.Encoded) (name : Text) :
    ((probe name).run s).1 = .ok true ∧
        (s.standIn.isSome = true ∨ (Encoding.load name).isOk = true) ∨
      s.standIn = none ∧ ∃ f, Encoding.load name = .error f ∧ ((probe name).run s).1 = .error f := by
  unfold probe
  rw [run_state_bind]
  rcases hs.provides_or name with ⟨⟨l, hl, hprovides⟩, hcan⟩ | ⟨hnone, f, hload, hfail⟩
  · obtain ⟨source, s', hrun, hholds, -⟩ := hprovides.exists_run_tokenizerFor
    rw [hrun]
    dsimp only
    rw [hholds.run_call (LoadedEncoding.probe_runIn hl)]
    exact .inl ⟨rfl, hcan⟩
  · rw [hfail]
    exact .inr ⟨hnone, f, hload, rfl⟩

/-- A failure is never taken for an outcome of the probe itself. -/
theorem healthOf_error_ne (f : Failure) (s : Service) :
    ((healthOf (.error f)).run s).1 ≠ .ok .healthy ∧
      ((healthOf (.error f)).run s).1 ≠ .ok .mismatch := by
  unfold healthOf
  dsimp only
  cases f.kind <;> exact ⟨nofun, nofun⟩

/-- The probe finds the encoding healthy if there is a stand-in or the encoding can be loaded. -/
theorem Encoded.ping_cases {s : Service} (hs : s.Encoded) (name : Text) :
    ((ping name).run s).1 ≠ .ok .mismatch ∧ (((ping name).run s).1 = .ok .healthy ↔
      s.standIn.isSome = true ∨ (Encoding.load name).isOk = true) := by
  unfold ping
  rw [run_state_bind]
  rcases hs.probe_cases name with ⟨hok, hcan⟩ | ⟨hnone, f, hload, hfail⟩
  · rw [hok]
    exact ⟨nofun, iff_of_true rfl hcan⟩
  · rw [hfail, hnone, hload]
    obtain ⟨hhealthy, hmismatch⟩ := healthOf_error_ne f ((probe name).run s).2
    refine ⟨hmismatch, iff_of_false hhealthy ?_⟩
    rintro (h | h) <;> cases h

theorem handle_of_route {r : Request} (h : Route.find? r.target = some .ready) :
    handle r = pure .notAllowed ∨ handle r = ready := by
  unfold handle
  rw [h]
  dsimp only
  split
  · exact .inl rfl
  · exact .inr rfl

theorem Encoded.ready_ne {s : Service} (hs : s.Encoded) (encoding : Text) :
    replyOf (ready.run.run s).1 ≠ .probed encoding .mismatch := by
  rw [ready_eq]
  cases hprobed : probed s.settings.get.1 s.profiles.reading with
  | error reply =>
    obtain ⟨s', hrun, -⟩ := consults_configured.exists_run_bind_of_error hs.coherent readyReply hprobed
    rw [hrun, eq_failed_of_probed hprobed]
    exact nofun
  | ok configuration =>
    obtain ⟨s', hrun, hs'⟩ := consults_configured.exists_run_bind_of_ok hs.coherent readyReply hprobed
    rw [hrun]
    cases configuration with
    | none => exact nofun
    | some c =>
      have hping := ((hs'.encoded hs).ping_cases c.encoding).1
      unfold readyReply
      rw [run_lift_bind_eq]
      split
      · next h hok =>
        intro heq
        obtain ⟨-, rfl⟩ := Reply.probed.inj heq
        exact hping hok
      · exact nofun

theorem Encoded.answer_ne {s : Service} (hs : s.Encoded) {r : Request}
    (hr : Route.find? r.target = some .ready) (encoding : Text) :
    ((answer r).run s).1 ≠ .probed encoding .mismatch := by
  rw [(run_answer r s).1]
  intro heq
  have hreply := eq_of_sent_eq heq nofun
  rcases handle_of_route hr with h | h <;> rw [h] at hreply
  · cases hreply
  · exact hs.ready_ne encoding hreply

/-- Every text comes back from its tokens, which are bytes and merges alone, no more than the text has
bytes; so a service with these encodings is never told of a mismatch, after any requests. -/
theorem known_encodings_round_trip :
    (∀ l : LoadedEncoding, l.encoding ∈ Encoding.known → ∀ text : Text, ∃ ids n,
      (AnyTokenizer.tokenizer.encode text).runIn (.loaded l) = (.ok ids, .loaded l) ∧
      (AnyTokenizer.tokenizer.decode ids).runIn (.loaded l) = (.ok text, .loaded l) ∧
      (AnyTokenizer.tokenizer.decode [l.encoding.specialId]).runIn (.loaded l) =
        (.ok l.encoding.special, .loaded l) ∧
      l.encoding.specialId ∉ ids ∧
      (AnyTokenizer.tokenizer.count text).runIn (.loaded l) = (.ok n, .loaded l) ∧
      (n = 0 ↔ text = []) ∧ n ≤ text.toBytes.length) ∧
    ∀ s : Service, s.Encoded → ∀ requests : List Request,
      (∀ name, ((ping name).run (s.after requests)).1 ≠ .ok .mismatch ∧
        (((ping name).run (s.after requests)).1 = .ok .healthy ↔
          (s.after requests).standIn.isSome = true ∨ (Encoding.load name).isOk = true)) ∧
      ∀ r : Request, Route.find? r.target = some .ready → ∀ encoding,
        ((answer r).run (s.after requests)).1 ≠ .probed encoding .mismatch := by
  constructor
  · intro l hl text
    exact ⟨l.encoding.ids text, (l.encoding.ids text).length, l.encode_runIn text,
      LoadedEncoding.decode_ids hl text, l.decode_specialId, Encoding.specialId_notMem_ids text,
      LoadedEncoding.count_runIn hl text, Encoding.length_ids_eq_zero hl,
      Encoding.length_ids_le hl text⟩
  · intro s hs requests
    have hafter := encoded_after hs requests
    exact ⟨hafter.ping_cases, fun r hr => hafter.answer_ne hr⟩

theorem known_encodings_round_trip_marker :
    (∃ ids, (AnyTokenizer.tokenizer.encode "<|endoftext|>".toList).runIn
        (.loaded ⟨0, Encoding.cl100k⟩) = (.ok ids, .loaded ⟨0, Encoding.cl100k⟩) ∧
      (AnyTokenizer.tokenizer.decode ids).runIn (.loaded ⟨0, Encoding.cl100k⟩) =
        (.ok "<|endoftext|>".toList, .loaded ⟨0, Encoding.cl100k⟩) ∧ 281 ∉ ids) ∧
    ((ping Encoding.defaultName).run (opened [] none)).1 = .ok .healthy := by
  obtain ⟨htexts, hprobe⟩ := known_encodings_round_trip
  constructor
  · obtain ⟨ids, -, hencode, hdecode, -, hspecial, -⟩ :=
      htexts ⟨0, Encoding.cl100k⟩ Encoding.mem_known_cl100k "<|endoftext|>".toList
    exact ⟨ids, hencode, hdecode, hspecial⟩
  · exact ((hprobe _ (encoded_opened []) []).1 Encoding.defaultName).2.2 (.inr rfl)

end Service

end TextChunks
