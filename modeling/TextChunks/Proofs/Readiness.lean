import TextChunks.Proofs.Agreement
import TextChunks.Proofs.Blame

namespace TextChunks

theorem Reading.resolve_eq_ok_iff {r : Reading} {v : Json} {c : Config} :
    r.resolve v = .ok c ↔ ∃ name, r.expand v = .ok (.str name) ∧ r.resolve (.str name) = .ok c := by
  constructor
  · intro h
    obtain ⟨name, -, hname, -, -⟩ := exists_of_resolve h
    exact ⟨name, hname, (resolve_of_expand hname).trans h⟩
  · rintro ⟨name, hname, h⟩
    exact (resolve_of_expand hname).symm.trans h

theorem SplitRequest.profileOr_of_none {r : SplitRequest} (h : r.profile = none) (configured : Text) :
    r.profileOr configured = configured := by
  unfold profileOr
  rw [h]

def Tokenizer.echo (t : Tokenizer σ) (text : Text) : Call σ Text := do
  t.decode (← t.encode text)

theorem Tokenizer.probe_eq_bind (t : Tokenizer σ) :
    t.probe = t.echo probeText >>= fun text => pure (decide (text = probeText)) := by
  simp only [probe, echo, bind_assoc]

namespace Service

/-- The configured profile has this configuration. -/
def Configures (s : Service) (settings : Settings) (c : Config) : Prop :=
  ((Profiles.resolve (.ofText settings.profile) .null).runIn s.profiles).1 = .ok c

/-- The answer of a probe, from what comes back of the text. -/
def echoReply (encoding : Text) : Except Failure Text → Reply
  | .ok text => .probed encoding (if text = probeText then .healthy else .mismatch)
  | .error f =>
    match f.kind with
    | .value | .key => .probed encoding .unknownEncoding
    | .system => .probed encoding .loadFailed
    | .other => .failed

variable {s : Service} {c : Config} {t : AnyTokenizer}

theorem sent_echoReply (encoding : Text) (result : Except Failure Text) :
    sent (echoReply encoding result) = echoReply encoding result := by
  have hprobed (h : Health) : sent (.probed encoding h) = .probed encoding h := by
    cases h <;> rfl
  cases result with
  | ok text => exact hprobed _
  | error f =>
    unfold echoReply
    dsimp only
    cases f.kind with
    | value => exact hprobed _
    | key => exact hprobed _
    | system => exact hprobed _
    | other => rfl

theorem exists_error_of_not_provides {encoding : Text} (h : ∀ t, ¬s.Provides encoding t) :
    ∃ f, ((tokenizerFor (some encoding)).run s).1 = .error f := by
  unfold tokenizerFor
  rw [run_state_get_bind]
  cases hstandIn : s.standIn with
  | none =>
    rw [if_neg (by exact nofun)]
    cases hget : (s.encodings.get (some encoding)).1 with
    | ok l => exact absurd (.loaded hstandIn hget) (h _)
    | error f =>
      refine ⟨f, ?_⟩
      change (s.encodings.get (some encoding)).1.map Source.loaded = _
      rw [hget]
      rfl
  | some source =>
    have hholds : s.Holds .standIn source := .standIn hstandIn
    rw [if_pos (by rfl), run_state_bind]
    rcases hprovide : (AnyTokenizer.provide (some encoding)).runIn source with ⟨f | _, t⟩
    · rw [hholds.run_call hprovide]
      exact ⟨f, rfl⟩
    · exact absurd (.standIn hstandIn hprovide) (h t)

/-- A probe answers with what its tokenizer brings back. -/
theorem replyOf_readyReply_of_provides (ht : s.Provides c.encoding t) :
    replyOf ((readyReply (some c)).run.run s).1 =
      echoReply c.encoding ((AnyTokenizer.tokenizer.echo probeText).runIn t).1 := by
  obtain ⟨source, s', hsource, hholds, -⟩ := ht.exists_run_tokenizerFor
  have hprobe : ((probe c.encoding).run s).1 =
      ((AnyTokenizer.tokenizer.echo probeText).runIn t).1.map fun text => decide (text = probeText) := by
    unfold probe
    rw [run_state_bind, hsource]
    dsimp only
    rw [Tokenizer.probe_eq_bind, hholds.run_call (Call.runIn_bind_pure ..)]
    rfl
  unfold readyReply ping
  rw [run_lift_bind_eq, run_state_bind, hprobe]
  cases ((AnyTokenizer.tokenizer.echo probeText).runIn t).1 with
  | ok text =>
    unfold echoReply
    dsimp only [Except.map]
    by_cases htext : text = probeText
    · rw [if_pos htext, decide_eq_true htext]
      rfl
    · rw [if_neg htext, decide_eq_false htext]
      rfl
  | error f =>
    unfold echoReply healthOf
    dsimp only [Except.map]
    cases f.kind <;> rfl

theorem le_status_refusal (e : ProfileError) : 400 ≤ (refusal e).status := by
  unfold refusal
  split
  · exact Nat.le_refl 400
  · exact (by decide : 400 ≤ 500)

theorem le_status_sent {reply : Reply} (h : 400 ≤ reply.status) : 400 ≤ (sent reply).status := by
  unfold sent
  split
  · exact h
  · exact (by decide : 400 ≤ 500)

theorem healthOf_error (f : Failure) (s : Service) : ((healthOf (.error f)).run s).1 = .error f ∨
    ∃ h, ((healthOf (.error f)).run s).1 = .ok h ∧ h.isHealthy = false := by
  unfold healthOf
  dsimp only
  cases f.kind with
  | value => exact .inr ⟨.unknownEncoding, rfl, rfl⟩
  | key => exact .inr ⟨.unknownEncoding, rfl, rfl⟩
  | system => exact .inr ⟨.loadFailed, rfl, rfl⟩
  | other => exact .inl rfl

/-- A probe without a tokenizer ends in an error. -/
theorem le_status_readyReply (h : ∀ t, ¬s.Provides c.encoding t) :
    400 ≤ (replyOf ((readyReply (some c)).run.run s).1).status := by
  obtain ⟨f, hf⟩ := exists_error_of_not_provides h
  have hprobe : ((probe c.encoding).run s).1 = .error f := by
    unfold probe
    rw [run_state_bind, hf]
    rfl
  unfold readyReply ping
  rw [run_lift_bind_eq, run_state_bind, hprobe]
  rcases healthOf_error f ((probe c.encoding).run s).2 with hhealth | ⟨h, hhealth, hsick⟩
  · rw [hhealth]
    exact (by decide : 400 ≤ 500)
  · rw [hhealth]
    change 400 ≤ if h.isHealthy then 200 else 503
    rw [hsick]
    decide

/-- A split without a tokenizer ends in an error. -/
theorem le_status_splitReply {request : SplitRequest} {name : Json}
    (h : ∀ t, ¬s.Provides c.encoding t) :
    400 ≤ (replyOf ((splitReply request name c).run.run s).1).status := by
  obtain ⟨s', hdocument, hstandIn, hencodings, -⟩ := exists_run_documentOf request s
  obtain ⟨f, hf⟩ := exists_error_of_not_provides fun t (ht : s'.Provides c.encoding t) =>
    h t (ht.congr hstandIn.symm hencodings.symm)
  unfold splitReply
  rw [run_lift_bind hdocument, run_lift_bind_eq, hf]
  exact (by decide : 400 ≤ 500)

section Plain

variable {r : Request} {request : SplitRequest} {settings : Settings}
  (hr : s.Accepts r request settings) (hprofile : request.profile = none)
  (hoverrides : request.overrides = [])

include hr hprofile

theorem prepared_of_plain (reading : Reading) : prepared r s.settings.get.1 reading =
    ((reading.expand (.ofText settings.profile)).mapError fun _ => .failed) >>= fun name =>
      ((reading.resolve name).map request.applied).mapError refusal >>= fun c =>
        .ok (request, name, c) := by
  rw [prepared_of_accepts hr, SplitRequest.profileOr_of_none hprofile]
  rfl

include hoverrides

/-- A split that names no profile and sets no values comes to what the configured profile is. -/
theorem prepared_eq_iff {reading : Reading} {request' : SplitRequest} {name : Json} :
    prepared r s.settings.get.1 reading = .ok (request', name, c) ↔
      request' = request ∧ reading.expand (.ofText settings.profile) = .ok name ∧
        reading.resolve name = .ok c := by
  rw [prepared_of_plain hr hprofile]
  constructor
  · intro h
    obtain ⟨name', hname, h⟩ := exists_of_bind_ok h
    obtain ⟨c', hconfig, h⟩ := exists_of_bind_ok h
    obtain ⟨base, hbase, rfl⟩ := exists_of_map_ok (mapError_eq_ok_iff.1 hconfig)
    obtain ⟨rfl, hpair⟩ := Prod.mk.inj (Except.ok.inj h)
    obtain ⟨rfl, rfl⟩ := Prod.mk.inj hpair
    rw [request.applied_of_nil base hoverrides]
    exact ⟨rfl, mapError_eq_ok_iff.1 hname, hbase⟩
  · rintro ⟨rfl, hname, h⟩
    rw [hname]
    change (((reading.resolve name).map _).mapError _ >>= _) = _
    rw [h]
    change Except.ok (request', name, request'.applied c) = _
    rw [request'.applied_of_nil c hoverrides]

end Plain

variable {q r : Request} {request : SplitRequest} {settings : Settings} (hs : s.profiles.Coherent)

include hs

theorem configures_iff : s.Configures settings c ↔
    s.profiles.reading.resolve (.ofText settings.profile) = .ok c := by
  rw [Configures, Profiles.runIn_resolve hs]

theorem run_configured_eq_iff (hq : s.Probes q settings) :
    (configured.run.run s).1 = .ok (some c) ↔ s.Configures settings c := by
  obtain ⟨s', hrun, -⟩ := consults_configured s hs
  rw [hrun, hq.settings_eq, configures_iff hs]
  exact probed_eq_some_iff

theorem run_prepare_eq_iff (hr : s.Accepts r request settings) (hprofile : request.profile = none)
    (hoverrides : request.overrides = []) :
    (∃ name, ((prepare r).run.run s).1 = .ok (request, .str name, c)) ↔ s.Configures settings c := by
  obtain ⟨s', hrun, -⟩ := consults_prepare r s hs
  simp only [hrun, prepared_eq_iff hr hprofile hoverrides, true_and]
  exact Reading.resolve_eq_ok_iff.symm.trans (configures_iff hs).symm

theorem answer_probed (hq : s.Probes q settings) (hc : s.Configures settings c)
    (ht : s.Provides c.encoding t) : ((answer q).run s).1 =
      echoReply c.encoding ((AnyTokenizer.tokenizer.echo probeText).runIn t).1 := by
  have hprobed : probed s.settings.get.1 s.profiles.reading = .ok (some c) := by
    rw [hq.settings_eq, probed_eq_some_iff]
    exact (configures_iff hs).1 hc
  obtain ⟨s', hrun, hs'⟩ := consults_configured.exists_run_bind_of_ok hs readyReply hprobed
  rw [(run_answer q s).1, handle_of_probes hq, ready_eq, hrun,
    replyOf_readyReply_of_provides (ht.congr hs'.standIn_eq hs'.encodings_eq), sent_echoReply]

theorem exists_answer_plain (hr : s.Accepts r request settings) (hprofile : request.profile = none)
    (hoverrides : request.overrides = []) (hc : s.Configures settings c)
    (ht : s.Provides c.encoding t) :
    ∃ name, ((prepare r).run.run s).1 = .ok (request, .str name, c) ∧
      ((answer r).run s).1 =
        recordsReply (request.document.elim (s.ids (s.drawn + 1)) Subtype.val) name
          ((AnyTokenizer.tokenizer.records c
            (request.document.elim (s.ids (s.drawn + 1)) Subtype.val : Text)
            (some (t.masked request.text))).runIn t).1 := by
  obtain ⟨name, hprepare⟩ := (run_prepare_eq_iff hs hr hprofile hoverrides).2 hc
  refine ⟨name, hprepare, ?_⟩
  obtain ⟨s', hrun, -⟩ := consults_prepare r s hs
  rw [hrun] at hprepare
  obtain ⟨-, hname, hresolve⟩ := (prepared_eq_iff hr hprofile hoverrides).1 hprepare
  rw [← SplitRequest.profileOr_of_none hprofile settings.profile] at hname
  have hanswer := (answer_of_provides hs hr hname hresolve ht).1
  rwa [request.applied_of_nil c hoverrides] at hanswer

section Errors

variable (h : ∀ c t, s.Configures settings c → ¬s.Provides c.encoding t)

include h

/-- Without a configuration and a tokenizer for it, the service tells that it is not ready. -/
theorem le_status_ready (hq : s.Probes q settings) : 400 ≤ ((answer q).run s).1.status := by
  rw [(run_answer q s).1, handle_of_probes hq, ready_eq]
  apply le_status_sent
  cases hprobed : probed s.settings.get.1 s.profiles.reading with
  | error reply =>
    obtain ⟨s', hrun, -⟩ := consults_configured.exists_run_bind_of_error hs readyReply hprobed
    rw [hrun, eq_failed_of_probed hprobed]
    exact (by decide : 400 ≤ 500)
  | ok configuration =>
    obtain ⟨s', hrun, hs'⟩ := consults_configured.exists_run_bind_of_ok hs readyReply hprobed
    rw [hrun]
    cases configuration with
    | none => exact (by decide : 400 ≤ 503)
    | some c =>
      rw [hq.settings_eq, probed_eq_some_iff] at hprobed
      apply le_status_readyReply
      intro t ht
      exact h c t ((configures_iff hs).2 hprobed)
        (ht.congr hs'.standIn_eq.symm hs'.encodings_eq.symm)

theorem le_status_split (hr : s.Accepts r request settings) (hprofile : request.profile = none)
    (hoverrides : request.overrides = []) : 400 ≤ ((answer r).run s).1.status := by
  rw [(run_answer r s).1, handle_of_accepts hr]
  apply le_status_sent
  -- There is no name, or it has no configuration, or there is no tokenizer for this.
  have hprepared := prepared_of_plain hr hprofile s.profiles.reading
  cases hname : s.profiles.reading.expand (.ofText settings.profile) with
  | error e =>
    rw [hname] at hprepared
    obtain ⟨s', hrun, -⟩ := exists_run_split_of_error hs hprepared
    rw [hrun]
    exact (by decide : 400 ≤ 500)
  | ok name =>
    cases hresolve : s.profiles.reading.resolve name with
    | error e =>
      rw [hname] at hprepared
      change _ = (((s.profiles.reading.resolve name).map _).mapError _ >>= _) at hprepared
      rw [hresolve] at hprepared
      obtain ⟨s', hrun, -⟩ := exists_run_split_of_error hs hprepared
      rw [hrun]
      exact le_status_refusal e
    | ok c =>
      obtain ⟨s', hrun, hs'⟩ := exists_run_split_of_ok hs
        ((prepared_eq_iff hr hprofile hoverrides).2 ⟨rfl, hname, hresolve⟩)
      rw [hrun]
      rw [Reading.resolve_of_expand hname] at hresolve
      apply le_status_splitReply
      intro t ht
      exact h c t ((configures_iff hs).2 hresolve)
        (ht.congr hs'.standIn_eq.symm hs'.encodings_eq.symm)

end Errors

/-- The configuration that a probe is made under is the one that a split without a profile and values of
its own is made under. Where there is a tokenizer for its encoding, the probe text is encoded and decoded
with that tokenizer, and the text of the split has the records that the library makes with it; in every
other case both requests end in an error. -/
theorem ready_and_split_agree (hq : s.Probes q settings) (hr : s.Accepts r request settings)
    (hprofile : request.profile = none) (hoverrides : request.overrides = []) :
    (handle q = configured >>= readyReply ∧
      handle r = prepare r >>= fun p => splitReply p.1 p.2.1 p.2.2) ∧
    (∀ c, ((configured.run.run s).1 = .ok (some c) ↔ s.Configures settings c) ∧
      ((∃ name, ((prepare r).run.run s).1 = .ok (request, .str name, c)) ↔
        s.Configures settings c)) ∧
    (∀ c t, s.Configures settings c → s.Provides c.encoding t →
      ((answer q).run s).1 =
        echoReply c.encoding ((AnyTokenizer.tokenizer.echo probeText).runIn t).1 ∧
      ∃ name, ((prepare r).run.run s).1 = .ok (request, .str name, c) ∧
        ((answer r).run s).1 =
          recordsReply (request.document.elim (s.ids (s.drawn + 1)) Subtype.val) name
            ((AnyTokenizer.tokenizer.records c
              (request.document.elim (s.ids (s.drawn + 1)) Subtype.val : Text)
              (some (t.masked request.text))).runIn t).1) ∧
    ((∀ c t, s.Configures settings c → ¬s.Provides c.encoding t) →
      400 ≤ ((answer q).run s).1.status ∧ 400 ≤ ((answer r).run s).1.status) := by
  refine ⟨⟨(handle_of_probes hq).trans ready_eq, (handle_of_accepts hr).trans (split_eq r)⟩, ?_, ?_, ?_⟩
  · exact fun c => ⟨run_configured_eq_iff hs hq, run_prepare_eq_iff hs hr hprofile hoverrides⟩
  · exact fun c t hc ht =>
      ⟨answer_probed hs hq hc ht, exists_answer_plain hs hr hprofile hoverrides hc ht⟩
  · exact fun h => ⟨le_status_ready hs h hq, le_status_split hs h hr hprofile hoverrides⟩

omit hs in
/-- The configured profile is `active`, and the file marks none. -/
theorem ready_and_split_agree_unmarked :
    ((answer ⟨"GET".toList, "/ready".toList, none, []⟩).run
      (opened "\x7b\"profiles\": \x7b\"default\": \x7b\x7d\x7d\x7d".toList (some .chars))).1 =
        .probed "cl100k_base".toList .healthy ∧
    ∃ records, records.map ChunkRecord.text = ["red green blue".toList] ∧
      ((answer { body := "\x7b\"text\": \"red green blue\"\x7d".toList }).run
        (opened "\x7b\"profiles\": \x7b\"default\": \x7b\x7d\x7d\x7d".toList (some .chars))).1 =
          .split (documentId 1) "default" records := by
  have hread : Profiles.readFile "\x7b\"profiles\": \x7b\"default\": \x7b\x7d\x7d\x7d".toList =
      .ok (.record [("profiles", .record [("default", .record [])])]) := by cbv
  have hcontent : Request.content { body := "\x7b\"text\": \"red green blue\"\x7d".toList } =
      .value (.record [("text", .ofString "red green blue")]) := by cbv
  generalize "\x7b\"profiles\": \x7b\"default\": \x7b\x7d\x7d\x7d".toList = file at hread ⊢
  have hs := coherent_opened file (some .chars)
  have hr := accepts_opened file (some .chars) hcontent rfl (by decide)
  have hq : (opened file (some .chars)).Probes ⟨"GET".toList, "/ready".toList, none, []⟩ .standard :=
    ⟨by decide +kernel, by decide +kernel, rfl⟩
  have hc : (opened file (some .chars)).Configures .standard {} := by
    rw [configures_iff hs, reading_opened, hread]
    rfl
  have hecho : ((AnyTokenizer.tokenizer.echo probeText).runIn .chars).1 = .ok probeText := by rfl
  have hshort : Config.Short {} := Config.short_of_lt (by decide)
  obtain ⟨records, u, hrecords⟩ := AnyTokenizer.represents_chars.exists_records_of_short hshort
    (documentId 1) "red green blue".toList rfl
  have htexts := (AnyTokenizer.represents_chars.counted_of_records rfl rfl hrecords).1
  obtain ⟨hready, name, hprepare, hsplit⟩ :=
    (ready_and_split_agree hs hq hr rfl rfl).2.2.1 {} .chars hc (.standIn rfl rfl)
  rw [hecho] at hready
  obtain ⟨s', hrun, -⟩ := consults_prepare _ _ hs
  rw [hrun] at hprepare
  have hname := ((prepared_eq_iff hr rfl rfl).1 hprepare).2.1
  rw [reading_opened, hread] at hname
  obtain rfl : Literal.ofString "default" = name := Json.str.inj (Except.ok.inj hname)
  have hreply := congrArg (recordsReply (documentId 1) (Literal.ofString "default"))
    (congrArg Prod.fst hrecords)
  exact ⟨hready, records, htexts.trans (by decide +kernel), hsplit.trans hreply⟩

end Service

end TextChunks
