import Mathlib.Data.List.Permutation
import TextChunks.Proofs.Accepted
import TextChunks.Proofs.Maintained
import TextChunks.Proofs.Reused

namespace TextChunks

namespace Tokenizer

variable {t : Tokenizer σ} {c : Config} {document text : Text} {masked : Masked} {s u : σ}
  {records : List ChunkRecord}

theorem map_text_recordsFrom {index : Nat} {chunks : List Text}
    (h : (t.recordsFrom c document masked index chunks).runIn s = (.ok records, u)) :
    records.map ChunkRecord.text = chunks := by
  induction chunks generalizing index s u records with
  | nil =>
    obtain ⟨rfl, -⟩ := recordsFrom_nil_eq_ok_iff.1 h
    rfl
  | cons chunk rest ih =>
    obtain ⟨name, count, v, later, -, -, hlater, rfl⟩ := recordsFrom_cons_eq_ok_iff.1 h
    exact congrArg _ (ih hlater)

/-- Chunks without surrogates have the records that they have in a text without any. -/
theorem recordsFrom_of_clear {index : Nat} {chunks : List Text}
    (h : (t.recordsFrom c document text index chunks).runIn s = (.ok records, u))
    (hclear : chunks.all masked.isClear = true) :
    (t.recordsFrom c document masked index chunks).runIn s = (.ok records, u) := by
  induction chunks generalizing index s u records with
  | nil => exact h
  | cons chunk rest ih =>
    rw [List.all_cons, Bool.and_eq_true] at hclear
    obtain ⟨name, count, v, later, hname, hcount, hlater, rfl⟩ := recordsFrom_cons_eq_ok_iff.1 h
    have hreveal : masked.reveal chunk = Masked.reveal text chunk := Masked.reveal_of_isClear hclear.1
    exact recordsFrom_cons_eq_ok_iff.2
      ⟨name, count, v, later, hreveal ▸ hname, hcount, ih hlater hclear.2, rfl⟩

theorem all_isClear_of_recordsFrom {index : Nat} {chunks : List Text}
    (h : (t.recordsFrom c document masked index chunks).runIn s = (.ok records, u)) :
    chunks.all masked.isClear = true := by
  induction chunks generalizing index s u records with
  | nil => rfl
  | cons chunk rest ih =>
    obtain ⟨name, count, v, later, hname, -, hlater, rfl⟩ := recordsFrom_cons_eq_ok_iff.1 h
    obtain ⟨-, d, text, -, hreveal, -⟩ := nameOf_eq_ok_iff.1 hname
    rw [List.all_cons, (Masked.reveal_eq_text_iff.1 hreveal).1, ih hlater, Bool.and_true]

/-- The first chunk with a surrogate has no record. -/
theorem exists_recordsFrom_of_not_clear {index : Nat} {chunks : List Text}
    (hclear : chunks.all masked.isClear = false) (s : σ) :
    ∃ f v, (t.recordsFrom c document masked index chunks).runIn s = (.error f, v) := by
  rcases h : (t.recordsFrom c document masked index chunks).runIn s with ⟨f | records, v⟩
  · exact ⟨f, v, rfl⟩
  · rw [all_isClear_of_recordsFrom h] at hclear
    cases hclear

theorem all_chunks_of_records {chunks : List Text} {index : Nat} (p : Text → Bool)
    (h : (t.recordsFrom c document masked index chunks).runIn s = (.ok records, u)) :
    chunks.all p = records.all fun r => p r.text := by
  rw [← map_text_recordsFrom h, List.all_map]
  rfl

theorem records_of_clear
    (h : (t.records c document (some (masked.text : Text))).runIn s = (.ok records, u))
    (hclear : (records.all fun r => masked.isClear r.text) = true) :
    (t.records c document (some masked)).runIn s = (.ok records, u) := by
  obtain ⟨chunks, s₁, hchunks, h⟩ := Call.exists_of_runIn_bind h
  rw [← all_chunks_of_records masked.isClear h] at hclear
  rw [Tokenizer.records, Call.runIn_bind_ok hchunks, recordsFrom_of_clear h hclear]

theorem exists_records_of_not_clear
    (h : (t.records c document (some (masked.text : Text))).runIn s = (.ok records, u))
    (hclear : (records.all fun r => masked.isClear r.text) = false) :
    ∃ f v, (t.records c document (some masked)).runIn s = (.error f, v) := by
  obtain ⟨chunks, s₁, hchunks, h⟩ := Call.exists_of_runIn_bind h
  rw [← all_chunks_of_records masked.isClear h] at hclear
  rw [Tokenizer.records, Call.runIn_bind_ok hchunks]
  exact exists_recordsFrom_of_not_clear hclear s₁

/-- Records are made of segments first, and then of their chunks. -/
theorem records_eq_bind (t : Tokenizer σ) (c : Config) (document : Literal) (masked : Masked) :
    t.records c document (some masked) =
      t.segmentsOf c c.windowSize c.windowSize_pos masked.text >>= fun segments =>
        t.recordsFrom c document masked 0 (c.chunks segments) := by
  simp only [records, chunks, chunksOf, bind_assoc, pure_bind]

end Tokenizer

/-- An encoding stays as it is. -/
theorem AnyTokenizer.maintains_loaded (l : LoadedEncoding) :
    AnyTokenizer.tokenizer.Maintains (· = .loaded l) where
  encode text := by
    rintro _ rfl
    rfl
  decode ids := by
    rintro _ rfl
    rfl

namespace Service

/-- The source of tokenizers gives this one for an encoding. -/
inductive Provides (s : Service) (encoding : Text) : AnyTokenizer → Prop where
  | standIn {source t : AnyTokenizer} (hsource : s.standIn = some source)
    (ht : (AnyTokenizer.provide (some encoding)).runIn source = (.ok (), t)) : Provides s encoding t
  | loaded {l : LoadedEncoding} (hnone : s.standIn = none)
    (hl : (s.encodings.get (some encoding)).1 = .ok l) : Provides s encoding (.loaded l)

inductive Holds (s : Service) : Source → AnyTokenizer → Prop where
  | standIn {t : AnyTokenizer} (h : s.standIn = some t) : Holds s .standIn t
  | loaded (l : LoadedEncoding) : Holds s (.loaded l) (.loaded l)

variable {s : Service} {source : Source} {t : AnyTokenizer}

theorem Holds.current_eq (h : s.Holds source t) : s.current source = t := by
  cases h with
  | standIn hs => rw [current, hs]; rfl
  | loaded l => rfl

theorem Holds.report (h : s.Holds source t) (e : Log.Event) :
    ((report e).run s).2.Holds source t := by
  cases h with
  | standIn hs => exact .standIn hs
  | loaded l => exact .loaded l

theorem Holds.reportIf (h : s.Holds source t) (condition : Bool) (e : Log.Event) :
    ((reportIf condition e).run s).2.Holds source t := by
  cases condition with
  | false => exact h
  | true => exact h.report e

theorem drawn_reportIf (condition : Bool) (e : Log.Event) (s : Service) :
    ((reportIf condition e).run s).2.drawn = s.drawn := by
  cases condition <;> rfl

theorem drawn_keep (s : Service) (source : Source) (t : AnyTokenizer) :
    (s.keep source t).drawn = s.drawn := by
  cases source <;> rfl

theorem Holds.run_call (h : s.Holds source t) {c : Call AnyTokenizer α}
    {result : Except Failure α} {u : AnyTokenizer} (hrun : c.runIn t = (result, u)) :
    (call source c).run s = (result, s.keep source u) := by
  have hcall : (call source c).run s =
      ((c.runIn (s.current source)).1, s.keep source (c.runIn (s.current source)).2) := rfl
  rw [hcall, h.current_eq, hrun]

theorem Holds.keep (h : s.Holds source t) {c : Call AnyTokenizer α}
    (hc : ∀ l, c.Maintains (· = .loaded l)) {result : Except Failure α} {u : AnyTokenizer}
    (hrun : c.runIn t = (result, u)) : (s.keep source u).Holds source u := by
  cases h with
  | standIn hs => exact .standIn (congrArg (Option.map fun _ => u) hs)
  | loaded l =>
    have hu := hc l _ rfl
    rw [hrun] at hu
    obtain rfl : u = .loaded l := hu
    exact .loaded l

/-- The service makes the records that the library makes. -/
theorem exists_run_chunkRecords (h : s.Holds source t) (c : Config) (document : Text)
    (text : Literal) :
    ∃ s', (chunkRecords source c document text).run s =
      (((AnyTokenizer.tokenizer.records c document (some (t.masked text))).runIn t).1.toOption, s') ∧
        s'.drawn = s.drawn := by
  rw [Tokenizer.records_eq_bind, Call.runIn_bind]
  unfold chunkRecords
  dsimp only
  rw [run_state_get_bind, h.current_eq, run_state_bind]
  rcases hsegments : (AnyTokenizer.tokenizer.segmentsOf c c.windowSize c.windowSize_pos
    (t.masked text).text).runIn t with ⟨f | segments, u₁⟩
  · rw [h.run_call hsegments]
    exact ⟨_, rfl, drawn_keep s source u₁⟩
  · have hs₁ := h.keep
      (fun l => (AnyTokenizer.maintains_loaded l).parallel.segmentsOf c c.windowSize_pos _) hsegments
    rw [h.run_call hsegments]
    dsimp only
    rw [run_state_bind, run_state_bind]
    -- What is reported in between leaves the tokenizer as the segments left it.
    generalize hs₂ : ((reportIf _ Log.Event.textSplit).run _).2 = s₂
    have hholds : s₂.Holds source u₁ := hs₂ ▸ (hs₁.reportIf _ _).reportIf _ _
    have hdrawn : s₂.drawn = s.drawn := by
      rw [← hs₂, drawn_reportIf, drawn_reportIf, drawn_keep]
    rw [run_state_bind]
    rcases hfrom : (AnyTokenizer.tokenizer.recordsFrom c document (t.masked text) 0
      (c.chunks segments)).runIn u₁ with ⟨f | records, u⟩
    · rw [hholds.run_call hfrom]
      exact ⟨_, rfl, (drawn_keep s₂ source u).trans hdrawn⟩
    · rw [hholds.run_call hfrom]
      exact ⟨_, rfl, (drawn_keep s₂ source u).trans hdrawn⟩

theorem exists_run_documentOf (request : SplitRequest) (s : Service) :
    ∃ s', (documentOf request).run s =
      (request.document.elim (s.ids (s.drawn + 1)) Subtype.val, s') ∧
      s'.standIn = s.standIn ∧ s'.encodings = s.encodings ∧
      s'.drawn = request.document.elim (s.drawn + 1) fun _ => s.drawn := by
  unfold documentOf
  cases request.document with
  | none => exact ⟨_, rfl, rfl, rfl, rfl⟩
  | some d => exact ⟨_, rfl, rfl, rfl, rfl⟩

theorem Provides.congr {s s' : Service} {encoding : Text} (h : s.Provides encoding t)
    (hstandIn : s'.standIn = s.standIn) (hencodings : s'.encodings = s.encodings) :
    s'.Provides encoding t := by
  cases h with
  | standIn hsource ht => exact .standIn (hstandIn.trans hsource) ht
  | loaded hnone hl => exact .loaded (hstandIn.trans hnone) (hencodings ▸ hl)

theorem Provides.exists_run_tokenizerFor {encoding : Text} (h : s.Provides encoding t) :
    ∃ source s', (tokenizerFor (some encoding)).run s = (.ok source, s') ∧ s'.Holds source t ∧
      s'.drawn = s.drawn := by
  unfold tokenizerFor
  cases h with
  | @standIn source t hsource ht =>
    have hholds : s.Holds .standIn source := .standIn hsource
    rw [run_state_get_bind, if_pos (by rw [hsource]; rfl), run_state_bind, hholds.run_call ht]
    exact ⟨.standIn, _, rfl, .standIn (congrArg (Option.map fun _ => t) hsource), rfl⟩
  | @loaded l hnone hl =>
    have hrun : (s.encodings.get (some encoding)) = (.ok l, (s.encodings.get (some encoding)).2) :=
      Prod.ext hl rfl
    rw [run_state_get_bind, if_neg (by rw [hnone]; exact nofun), run_state_bind, hrun]
    refine ⟨.loaded l, _, rfl, .loaded l, ?_⟩
    exact drawn_reportIf _ _ s

theorem run_splitReply (request : SplitRequest) (name : Literal) (c : Config)
    (hprovides : s.Provides c.encoding t) :
    replyOf ((splitReply request (.str name) c).run.run s).1 =
      (match ((AnyTokenizer.tokenizer.records c
          (request.document.elim (s.ids (s.drawn + 1)) Subtype.val : Text)
          (some (t.masked request.text))).runIn t).1 with
        | .ok records => .split (request.document.elim (s.ids (s.drawn + 1)) Subtype.val) name records
        | .error _ => .failed) ∧
      ((splitReply request (.str name) c).run.run s).2.drawn =
        request.document.elim (s.drawn + 1) fun _ => s.drawn := by
  obtain ⟨s₁, hdocument, hstandIn, hencodings, hdrawn⟩ := exists_run_documentOf request s
  obtain ⟨source, s₂, hsource, hholds, hdrawn₂⟩ :=
    (hprovides.congr hstandIn hencodings).exists_run_tokenizerFor
  obtain ⟨s₃, hchunks, hdrawn₃⟩ := exists_run_chunkRecords hholds c
    (request.document.elim (s.ids (s.drawn + 1)) Subtype.val) request.text
  have hlast := hdrawn₃.trans (hdrawn₂.trans hdrawn)
  unfold splitReply
  rw [run_lift_bind hdocument, run_lift_bind hsource]
  dsimp only
  rw [run_lift_bind hchunks]
  generalize ((AnyTokenizer.tokenizer.records c _ (some (t.masked request.text))).runIn t).1 = result
  cases result with
  | ok records => exact ⟨rfl, hlast⟩
  | error f => exact ⟨rfl, hlast⟩

theorem sendable_chunks (records : List ChunkRecord) :
    Json.sendableItems (records.map ChunkRecord.toJson) = true := by
  induction records with
  | nil => rfl
  | cons x records ih => exact ih

theorem sendable_split (document : Text) (name : Literal) (records : List ChunkRecord) :
    (Reply.split document name records).body.sendable = !name.isStray := by
  cases name with
  | stray points => rfl
  | text name =>
    change (Json.sendableItems (records.map ChunkRecord.toJson) && true) = true
    rw [sendable_chunks]
    rfl

theorem sent_split (document : Text) (name : Literal) (records : List ChunkRecord) :
    sent (.split document name records) =
      if name.isStray then .failed else .split document name records := by
  unfold sent
  rw [sendable_split]
  cases name.isStray <;> rfl

variable {r : Request} {request : SplitRequest} {settings : Settings} {base : Config}
  {records : List ChunkRecord} {u : AnyTokenizer}

/-- The answer of a split, from what the library makes of the text. -/
def recordsReply (document : Text) (name : Literal) : Except Failure (List ChunkRecord) → Reply
  | .ok records => if name.isStray then .failed else .split document name records
  | .error _ => .failed

section Answer

variable (hs : s.profiles.Coherent) (hr : s.Accepts r request settings) {name : Literal}
  (hname : s.profiles.reading.expand (.ofText (request.profileOr settings.profile)) =
    .ok (.str name))
  (hbase : s.profiles.reading.resolve (.str name) = .ok base)
  (ht : s.Provides base.encoding t)

include hs hr hname hbase ht

/-- An accepted request is answered with what the library makes of its text. -/
theorem answer_of_provides :
    ((answer r).run s).1 =
      recordsReply (request.document.elim (s.ids (s.drawn + 1)) Subtype.val) name
        ((AnyTokenizer.tokenizer.records (request.applied base)
          (request.document.elim (s.ids (s.drawn + 1)) Subtype.val : Text)
          (some (t.masked request.text))).runIn t).1 ∧
      ((answer r).run s).2.drawn = request.document.elim (s.drawn + 1) fun _ => s.drawn := by
  obtain ⟨s', hrun, hs'⟩ := exists_run_split_of_resolve hs hr hname hbase
  have hprovides := ht.congr hs'.standIn_eq hs'.encodings_eq
  obtain ⟨hreply, hdrawn⟩ := run_splitReply request name (request.applied base) hprovides
  rw [hs'.drawn_eq, hs'.ids_eq] at hreply
  rw [hs'.drawn_eq] at hdrawn
  rw [(run_answer r s).1, (run_answer r s).2, handle_of_accepts hr, hrun, hreply]
  refine ⟨?_, hdrawn⟩
  generalize ((AnyTokenizer.tokenizer.records (request.applied base) _
    (some (t.masked request.text))).runIn t).1 = result
  cases result with
  | ok records => exact sent_split ..
  | error f => rfl

theorem answer_of_records
    (hrecords : (AnyTokenizer.tokenizer.records (request.applied base)
      (request.document.elim (s.ids (s.drawn + 1)) Subtype.val : Text)
      (some (t.masked request.text).text)).runIn t = (.ok records, u)) :
    ((answer r).run s).1 =
      (if name.isStray || !records.all fun x => (t.masked request.text).isClear x.text then .failed
        else .split (request.document.elim (s.ids (s.drawn + 1)) Subtype.val) name records) ∧
      ((answer r).run s).2.drawn = request.document.elim (s.drawn + 1) fun _ => s.drawn := by
  obtain ⟨hreply, hdrawn⟩ := answer_of_provides hs hr hname hbase ht
  refine ⟨hreply.trans ?_, hdrawn⟩
  cases hclear : records.all fun x => (t.masked request.text).isClear x.text with
  | true =>
    rw [Tokenizer.records_of_clear hrecords hclear, Bool.not_true, Bool.or_false]
    rfl
  | false =>
    obtain ⟨f, v, hfail⟩ := Tokenizer.exists_records_of_not_clear hrecords hclear
    rw [hfail, Bool.not_false, Bool.or_true, if_pos rfl]
    rfl

end Answer

/-- An accepted request is answered with the records that the library makes of its text, unless they
cannot be hashed or sent. -/
theorem answer_eq_library (hs : s.profiles.Coherent) (hr : s.Accepts r request settings)
    (hbase : ((Profiles.resolve (.ofText (request.profileOr settings.profile)) .null).runIn
      s.profiles).1 = .ok base)
    (ht : s.Provides base.encoding t)
    (hrecords : (AnyTokenizer.tokenizer.records (request.applied base)
      (request.document.elim (s.ids (s.drawn + 1)) Subtype.val : Text)
      (some (t.masked request.text).text)).runIn t = (.ok records, u)) :
    ∃ name d,
      s.profiles.reading.expand (.ofText (request.profileOr settings.profile)) = .ok (.str name) ∧
      s.profiles.reading.profiles = .ok d ∧ d.get? name = some base ∧
      (∀ p, p.Coherent → p.reading = s.profiles.reading →
        ((Profiles.resolve (.str name) (request.inlined base)).runIn p).1 =
          .ok (request.applied base)) ∧
      ((answer r).run s).2.drawn = request.document.elim (s.drawn + 1) (fun _ => s.drawn) ∧
      if name.isStray || !records.all fun x => (t.masked request.text).isClear x.text then
        ((answer r).run s).1 = .failed
      else
        ((answer r).run s).1.status = 200 ∧ ((answer r).run s).1.body = .record
          [("document_id",
              .ofText (request.document.elim (s.ids (s.drawn + 1)) Subtype.val)),
            ("profile", .str name), ("total_chunks", .int records.length),
            ("chunks", .array (records.map ChunkRecord.toJson))] := by
  have hresolve := (Profiles.runIn_resolve hs _).symm.trans hbase
  obtain ⟨name, d, hname, hd, hget⟩ := Reading.exists_of_resolve hresolve
  rw [← Reading.resolve_of_expand hname] at hresolve
  obtain ⟨hreply, hdrawn⟩ := answer_of_records hs hr hname hresolve ht hrecords
  refine ⟨name, d, hname, hd, hget, ?_, hdrawn, ?_⟩
  · intro p hp hread
    obtain ⟨q, hrun, -⟩ := Profiles.exists_run_resolve_inlined hp request (hread.symm ▸ hresolve)
    exact congrArg Prod.fst hrun
  · rw [hreply]
    split
    · rfl
    · exact ⟨rfl, rfl⟩

theorem answer_eq_library_words :
    ∃ records u,
      (AnyTokenizer.tokenizer.records { keepLines := false } (documentId 1)
        (some ("red green blue".toList : Text))).runIn (.words []) = (.ok records, u) ∧
      records.map ChunkRecord.text = ["red green blue".toList] ∧
      ((answer { body := "\x7b\"text\": \"red green blue\", \"keep_separator\": false\x7d".toList }).run
        (opened "\x7b\"profiles\": \x7b\"default\": \x7b\x7d\x7d\x7d".toList (some (.words [])))).1.body =
        .record
          [("document_id", .ofText (documentId 1)), ("profile", .ofString "default"),
            ("total_chunks", .int records.length),
            ("chunks", .array (records.map ChunkRecord.toJson))] := by
  have hread : Profiles.readFile "\x7b\"profiles\": \x7b\"default\": \x7b\x7d\x7d\x7d".toList =
      .ok (.record [("profiles", .record [("default", .record [])])]) := by cbv
  have hcontent : Request.content
      { body := "\x7b\"text\": \"red green blue\", \"keep_separator\": false\x7d".toList } =
      .value (.record [("text", .ofString "red green blue"), ("keep_separator", .bool false)]) := by cbv
  have hshort : Config.Short { keepLines := false } := Config.short_of_lt (by decide)
  obtain ⟨records, u, hrecords⟩ := AnyTokenizer.represents_words.exists_records_of_short hshort
    (documentId 1) "red green blue".toList ⟨[], rfl⟩
  have htexts := (AnyTokenizer.represents_words.counted_of_records (by decide +kernel) ⟨[], rfl⟩ hrecords).1
  generalize "\x7b\"profiles\": \x7b\"default\": \x7b\x7d\x7d\x7d".toList = file at hread ⊢
  have hs := coherent_opened file (some (.words []))
  have hr := accepts_opened file (some (.words [])) hcontent rfl (by decide)
  have hbase : ((Profiles.resolve (.ofText "active".toList) .null).runIn
      (opened file (some (.words []))).profiles).1 = .ok {} := by
    rw [Profiles.runIn_resolve hs, reading_opened, hread]
    rfl
  refine ⟨records, u, hrecords, htexts.trans (by decide +kernel), ?_⟩
  obtain ⟨name, d, hname, -, -, -, -, hreply⟩ :=
    answer_eq_library hs hr hbase (.standIn rfl rfl) hrecords
  rw [reading_opened, hread] at hname
  obtain rfl : Literal.ofString "default" = name := Json.str.inj (Except.ok.inj hname)
  have hclear : records.all (fun x =>
      ((AnyTokenizer.words []).masked (.text "red green blue".toList)).isClear x.text) = true :=
    List.all_eq_true.2 fun _ _ => rfl
  rw [hclear, if_neg (by decide)] at hreply
  exact hreply.2

/-- A name with a surrogate that stands alone has no form that can be sent. -/
theorem stray_name_not_sent :
    ∃ request, (opened "\x7b\"active\": \"\\ud800\", \"profiles\": \x7b\"\\ud800\": \x7b\x7d\x7d\x7d".toList
        (some .chars)).Accepts { body := "\x7b\"text\": \"\"\x7d".toList } request .standard ∧
      ((Profiles.resolve (.ofText (request.profileOr Settings.standard.profile)) .null).runIn
        (opened "\x7b\"active\": \"\\ud800\", \"profiles\": \x7b\"\\ud800\": \x7b\x7d\x7d\x7d".toList
          (some .chars)).profiles).1 = .ok {} ∧
      (AnyTokenizer.tokenizer.records (request.applied {}) (documentId 1) (some ([] : Text))).runIn
          .chars =
        (.ok [], .chars) ∧
      ((answer { body := "\x7b\"text\": \"\"\x7d".toList }).run
        (opened "\x7b\"active\": \"\\ud800\", \"profiles\": \x7b\"\\ud800\": \x7b\x7d\x7d\x7d".toList
          (some .chars))).1.status = 500 := by
  have hread : Profiles.readFile
      "\x7b\"active\": \"\\ud800\", \"profiles\": \x7b\"\\ud800\": \x7b\x7d\x7d\x7d".toList =
      .ok (.record [("active", .str (.stray [.surrogate 0xD800])),
        ("profiles", .object [(.stray [.surrogate 0xD800], .record [])])]) := by cbv
  have hcontent : Request.content { body := "\x7b\"text\": \"\"\x7d".toList } =
      .value (.record [("text", .ofString "")]) := by cbv
  generalize "\x7b\"active\": \"\\ud800\", \"profiles\": \x7b\"\\ud800\": \x7b\x7d\x7d\x7d".toList =
    file at hread ⊢
  have hs := coherent_opened file (some .chars)
  have hr := accepts_opened file (some .chars) hcontent rfl (Nat.zero_le _)
  have hname : (opened file (some .chars)).profiles.reading.expand (.ofText "active".toList) =
      .ok (.str (.stray [.surrogate 0xD800])) := by
    rw [reading_opened, hread]
    rfl
  have hbase : (opened file (some .chars)).profiles.reading.resolve
      (.str (.stray [.surrogate 0xD800])) = .ok {} := by
    rw [reading_opened, hread]
    rfl
  refine ⟨_, hr, ?_, rfl, ?_⟩
  · rw [Profiles.runIn_resolve hs]
    exact (Reading.resolve_of_expand hname).symm.trans hbase
  · rw [(answer_of_records hs hr hname hbase (.standIn rfl rfl) rfl).1]
    rfl

end Service

end TextChunks
