import TextChunks.Proofs.Agreement
import TextChunks.Proofs.Served

namespace TextChunks

/-- The reply blames the request: its body, its text's length, or its profile's name. -/
def Reply.rejects (reply : Reply) : Bool :=
  reply.status == 400 || reply.status == 413 || reply.status == 422

namespace Service

def replies (s : Service) : List Request → List (Request × Reply)
  | [] => []
  | r :: rest => (r, ((answer r).run s).1) :: replies ((answer r).run s).2 rest

def remaining (s : Service) (requests : List Request) : List (Request × Reply) :=
  (s.replies requests).filter fun p => !p.2.rejects

theorem remaining_cons (s : Service) (r : Request) (rest : List Request) :
    s.remaining (r :: rest) =
      if ((answer r).run s).1.rejects then ((answer r).run s).2.remaining rest
      else (r, ((answer r).run s).1) :: ((answer r).run s).2.remaining rest := by
  unfold remaining
  rw [replies, List.filter_cons]
  cases ((answer r).run s).1.rejects <;> rfl

def after (s : Service) (requests : List Request) : Service :=
  requests.foldl (fun s r => ((answer r).run s).2) s

theorem rejects_of_sent {reply : Reply} (h : (sent reply).rejects = true) :
    reply.rejects = true := by
  unfold sent at h
  split at h
  · exact h
  · exact nomatch h

theorem rejects_readyReply (configuration : Option Config) (s : Service) :
    (replyOf ((readyReply configuration).run.run s).1).rejects = false := by
  cases configuration with
  | none => rfl
  | some c =>
    rcases replyOf_readyReply c s with ⟨h, hreply⟩ | hreply
    · rw [hreply]
      cases h <;> rfl
    · rw [hreply]
      rfl

theorem rejects_splitReply (request : SplitRequest) (name : Json) (c : Config) (s : Service) :
    (replyOf ((splitReply request name c).run.run s).1).rejects = false := by
  unfold splitReply
  rw [run_lift_bind_eq, run_lift_bind_eq]
  split
  · rw [run_lift_bind_eq]
    split <;> rfl
  · rfl

theorem alike_send {s : Service} (hs : s.profiles.Coherent) (reply : Reply) :
    s.Alike ((send reply).run s).2 := by
  unfold send
  split
  · exact .refl hs
  · exact alike_report hs .unhandled

variable {s : Service} (hs : s.profiles.Coherent)

include hs

theorem rejects_ready : (replyOf (ready.run.run s).1).rejects = false := by
  rw [ready_eq]
  cases hprobed : probed s.settings.get.1 s.profiles.reading with
  | error reply =>
    obtain ⟨s', hrun, -⟩ := consults_configured.exists_run_bind_of_error hs readyReply hprobed
    rw [hrun, eq_failed_of_probed hprobed]
    rfl
  | ok configuration =>
    obtain ⟨s', hrun, -⟩ := consults_configured.exists_run_bind_of_ok hs readyReply hprobed
    rw [hrun]
    exact rejects_readyReply ..

/-- A request is only rejected before its reply is made. -/
theorem exists_prepared_of_rejects {r : Request} (h : ((answer r).run s).1.rejects = true) :
    handle r = split r ∧ ∃ reply, prepared r s.settings.get.1 s.profiles.reading = .error reply := by
  rw [(run_answer r s).1] at h
  replace h := rejects_of_sent h
  rcases handle_cases r with hr | hr | hr | hr | hr <;> rw [hr] at h
  · exact nomatch h
  · exact nomatch h
  · exact nomatch h
  · rw [rejects_ready hs] at h
    exact nomatch h
  · refine ⟨hr, ?_⟩
    cases hprepared : prepared r s.settings.get.1 s.profiles.reading with
    | error reply => exact ⟨reply, rfl⟩
    | ok p =>
      obtain ⟨s', hrun, -⟩ := exists_run_split_of_ok hs hprepared
      rw [hrun, rejects_splitReply] at h
      exact nomatch h

theorem answer_of_prepared_error {r : Request} (hr : handle r = split r) {reply : Reply}
    (h : prepared r s.settings.get.1 s.profiles.reading = .error reply) :
    ((answer r).run s).1 = sent reply ∧ s.Alike ((answer r).run s).2 := by
  obtain ⟨s', hrun, hs'⟩ := exists_run_split_of_error hs h
  rw [← hr] at hrun
  have hanswer : (answer r).run s = (send reply).run s' := by
    unfold answer
    rw [run_state_bind, hrun]
    rfl
  rw [hanswer]
  exact ⟨(run_send reply s').1, hs'.trans (alike_send hs'.coherent reply)⟩

theorem alike_of_rejects {r : Request} (h : ((answer r).run s).1.rejects = true) :
    s.Alike ((answer r).run s).2 := by
  obtain ⟨hr, reply, hprepared⟩ := exists_prepared_of_rejects hs h
  exact (answer_of_prepared_error hs hr hprepared).2

/-- A rejection is the same whatever tokenizer there is, and leaves it as it is. -/
theorem answer_of_rejects {r : Request} (h : ((answer r).run s).1.rejects = true)
    (standIn : Option AnyTokenizer) :
    ((answer r).run { s with standIn := standIn }).1 = ((answer r).run s).1 ∧
      { s with standIn := standIn }.Alike ((answer r).run { s with standIn := standIn }).2 := by
  obtain ⟨hr, reply, hprepared⟩ := exists_prepared_of_rejects hs h
  rw [(answer_of_prepared_error hs hr hprepared).1]
  exact answer_of_prepared_error (s := { s with standIn := standIn }) hs hr hprepared

omit hs in
/-- Requests that were rejected on one side only leave both sides alike. -/
theorem replies_of_remaining {reading : Reading} {s t : Service} (hs : s.profiles.Tells reading)
    (h : s.Alike t) (requests : List Request) :
    t.replies ((s.remaining requests).map Prod.fst) = s.remaining requests := by
  induction requests generalizing s t with
  | nil => rfl
  | cons r rest ih =>
    obtain ⟨hreply, hs', h'⟩ := Respects.answer r reading s t hs h
    rw [remaining_cons]
    by_cases hrejects : ((answer r).run s).1.rejects
    · rw [if_pos hrejects]
      have hquiet := alike_of_rejects hs.coherent hrejects
      exact ih hs' ((hquiet.symm hs.coherent).trans h)
    · rw [if_neg hrejects, List.map_cons, replies, hreply, ih hs' h']

/-- Rejected requests are invisible: without them, the others get the same replies. Wherever one comes,
it draws no identifier and calls no tokenizer. -/
theorem rejected_requests_invisible (requests : List Request) :
    s.replies ((s.remaining requests).map Prod.fst) = s.remaining requests ∧
    ∀ r, ((answer r).run (s.after requests)).1.rejects = true → ∀ standIn,
      ((answer r).run { s.after requests with standIn := standIn }).1 =
        ((answer r).run (s.after requests)).1 ∧
      ((answer r).run { s.after requests with standIn := standIn }).2.standIn = standIn ∧
      ((answer r).run { s.after requests with standIn := standIn }).2.encodings =
        (s.after requests).encodings ∧
      ((answer r).run { s.after requests with standIn := standIn }).2.drawn =
        (s.after requests).drawn := by
  have htells : s.profiles.Tells s.profiles.reading := ⟨hs, rfl⟩
  refine ⟨replies_of_remaining htells (.refl hs) requests, fun r h standIn => ?_⟩
  have hafter := (tells_answers htells requests).coherent
  obtain ⟨hreply, halike⟩ := answer_of_rejects hafter h standIn
  exact ⟨hreply, halike.standIn_eq, halike.encodings_eq, halike.drawn_eq⟩

omit hs in
/-- The first request has no body. The second one draws the identifier that it would draw alone. -/
theorem rejected_requests_invisible_no_body :
    ∃ records, records.map ChunkRecord.text = ["red green blue".toList] ∧
      (opened "\x7b\"profiles\": \x7b\"default\": \x7b\x7d\x7d\x7d".toList (some .chars)).remaining
        [{}, { body := "\x7b\"text\": \"red green blue\"\x7d".toList }] =
          [({ body := "\x7b\"text\": \"red green blue\"\x7d".toList },
            .split (documentId 1) "default" records)] ∧
      (opened "\x7b\"profiles\": \x7b\"default\": \x7b\x7d\x7d\x7d".toList (some .chars)).replies
        [{ body := "\x7b\"text\": \"red green blue\"\x7d".toList }] =
          [({ body := "\x7b\"text\": \"red green blue\"\x7d".toList },
            .split (documentId 1) "default" records)] := by
  have hread : Profiles.readFile "\x7b\"profiles\": \x7b\"default\": \x7b\x7d\x7d\x7d".toList =
      .ok (.record [("profiles", .record [("default", .record [])])]) := by cbv
  have hcontent : Request.content { body := "\x7b\"text\": \"red green blue\"\x7d".toList } =
      .value (.record [("text", .ofString "red green blue")]) := by cbv
  generalize "\x7b\"profiles\": \x7b\"default\": \x7b\x7d\x7d\x7d".toList = file at hread ⊢
  generalize "\x7b\"text\": \"red green blue\"\x7d".toList = body at hcontent ⊢
  have hs := coherent_opened file (some .chars)
  have hr := accepts_opened file (some .chars) hcontent rfl (by decide)
  have hshort : Config.Short {} := Config.short_of_lt (by decide)
  obtain ⟨records, u, hrecords⟩ := AnyTokenizer.represents_chars.exists_records_of_short hshort
    (documentId 1) "red green blue".toList rfl
  have htexts := (AnyTokenizer.represents_chars.counted_of_records rfl rfl hrecords).1
  have hempty : handle {} = split {} := by
    have hroute : Route.find? "/split".toList = some .split := by decide +kernel
    have hmethod : Text.upper "POST".toList = Route.split.method.toList := by decide +kernel
    unfold handle
    simp only [hroute, hmethod, ne_eq, not_true_eq_false, if_false]
  have hprepared : prepared {} (opened file (some .chars)).settings.get.1
      (opened file (some .chars)).profiles.reading =
        .error (.invalid [.value ⟨none, .missing, .null⟩]) := rfl
  obtain ⟨hfirst, halike⟩ := answer_of_prepared_error hs hempty hprepared
  generalize hnext : ((answer {}).run (opened file (some .chars))).2 = next at halike
  have hsecond :
      ((answer { body := body }).run next).1 = .split (documentId 1) "default" records := by
    have hname : next.profiles.reading.expand (.ofText "active".toList) =
        .ok (.str (Literal.ofString "default")) := by
      rw [halike.reading_eq, reading_opened, hread]
      rfl
    have hbase : next.profiles.reading.resolve (.str (Literal.ofString "default")) = .ok {} := by
      rw [halike.reading_eq, reading_opened, hread]
      rfl
    have hid : next.ids (next.drawn + 1) = documentId 1 := by
      rw [halike.ids_eq, halike.drawn_eq]
      rfl
    have hanswer := (answer_of_provides halike.coherent (hr.of_alike halike) hname hbase
      (.standIn halike.standIn_eq rfl)).1
    rw [← hid] at hrecords ⊢
    exact hanswer.trans (congrArg (recordsReply (next.ids (next.drawn + 1)) (Literal.ofString "default"))
      (congrArg Prod.fst hrecords))
  have hremaining : (opened file (some .chars)).remaining [{}, { body := body }] =
      [({ body := body }, .split (documentId 1) "default" records)] := by
    rw [remaining_cons, hfirst, if_pos (by decide), remaining_cons, hnext, hsecond]
    rfl
  refine ⟨records, htexts.trans (by decide +kernel), hremaining, ?_⟩
  have hreplies := (rejected_requests_invisible hs [{}, { body := body }]).1
  rwa [hremaining] at hreplies

end Service

end TextChunks
