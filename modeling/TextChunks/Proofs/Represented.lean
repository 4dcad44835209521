import TextChunks.Proofs.Calls
import TextChunks.Proofs.Marks
import TextChunks.Proofs.Runs
import TextChunks.Proofs.Writable

namespace TextChunks

theorem Segment.of_chunk? {c : Config} {g : Segment} {s : Text} (h : g.chunk? c = some s) :
    s = g.normalised c.keepLines ∧ c.minLength < s.length := by
  simp only [chunk?] at h
  split at h
  · next hlen => exact ⟨(Option.some.inj h).symm, Option.some.inj h ▸ hlen⟩
  · simp at h

theorem Config.exists_of_mem_chunks {c : Config} {gs : List Segment} {s : Text}
    (h : s ∈ c.chunks gs) : ∃ g ∈ gs, g.chunk? c = some s := List.mem_filterMap.1 h

theorem Config.chunks_append (c : Config) (gs hs : List Segment) :
    c.chunks (gs ++ hs) = c.chunks gs ++ c.chunks hs := List.filterMap_append

/-- The segments that the loop takes, for tokens that are what `encode` makes of a text and `decode`
reads back. -/
def segmentsBy (encode : Text → List α) (decode : List α → Text) (size : Nat) (size_pos : 0 < size)
    (minCut : Nat) (budget : Nat) (tokens : List α) : List Segment :=
  match budget, tokens with
  | _, [] => []
  | 0, a :: rest => [.tail (decode (a :: rest))]
  | budget + 1, a :: rest =>
    let window := decode ((a :: rest).take size)
    if window.blank then
      .blank window ::
        segmentsBy encode decode size size_pos minCut (budget + 1) ((a :: rest).drop size)
    else
      let kept := window.cut minCut
      .window kept ::
        segmentsBy encode decode size size_pos minCut budget ((a :: rest).drop (encode kept).length)
termination_by budget + tokens.length
decreasing_by all_goals simp only [List.length_drop, List.length_cons]; omega

def segmentsOfBy (encode : Text → List α) (decode : List α → Text) (c : Config) (size : Nat)
    (size_pos : 0 < size) (text : Text) : List Segment :=
  if text.blank then []
  else segmentsBy encode decode size size_pos c.minCut c.maxWindows (encode text)

/-- The loop takes a segment as long as there are tokens left. -/
theorem segmentsBy_ne_nil {encode : Text → List α} {decode : List α → Text} {size : Nat}
    (size_pos : 0 < size) (minCut budget : Nat) {as : List α} (h : as ≠ []) :
    segmentsBy encode decode size size_pos minCut budget as ≠ [] := by
  fun_cases segmentsBy encode decode size size_pos minCut budget as
  case case1 => exact absurd rfl h
  all_goals apply List.cons_ne_nil

/-- A segment that is taken as blank is blank. -/
theorem blank_of_mem_segmentsBy {encode : Text → List α} {decode : List α → Text} {size : Nat}
    (size_pos : 0 < size) (minCut budget : Nat) (as : List α) :
    ∀ s, Segment.blank s ∈ segmentsBy encode decode size size_pos minCut budget as →
      s.blank = true := by
  fun_induction segmentsBy encode decode size size_pos minCut budget as
  case case1 => simp
  case case2 a rest => simp
  case case3 budget a rest window hb ih =>
    intro s hs
    rcases List.mem_cons.1 hs with heq | hs
    · rwa [Segment.blank.inj heq]
    · exact ih s hs
  case case4 budget a rest window hb kept ih =>
    intro s hs
    exact ih s (by simpa using hs)

theorem blank_of_mem_segmentsOfBy {encode : Text → List α} {decode : List α → Text} {c : Config}
    {size : Nat} {size_pos : 0 < size} {text : Text} :
    ∀ s, Segment.blank s ∈ segmentsOfBy encode decode c size size_pos text → s.blank = true := by
  unfold segmentsOfBy
  split
  · simp
  · exact blank_of_mem_segmentsBy size_pos _ _ _

/-- Where there are no more tokens than windows, nothing is left for a tail. -/
theorem isTail_of_mem_segmentsBy {encode : Text → List α} {decode : List α → Text}
    (hne : ∀ s, s ≠ [] → encode s ≠ []) {size : Nat} (size_pos : 0 < size) (minCut budget : Nat)
    (as : List α)
    (h : as.length ≤ budget) :
    ∀ g ∈ segmentsBy encode decode size size_pos minCut budget as, g.isTail = false := by
  fun_induction segmentsBy encode decode size size_pos minCut budget as
  case case1 => simp
  case case2 a rest => simp at h
  case case3 budget a rest window hb ih =>
    intro g hg
    rcases List.mem_cons.1 hg with rfl | hg
    · rfl
    · exact ih (by rw [List.length_drop]; omega) g hg
  case case4 budget a rest window hb kept ih =>
    have hwin : window ≠ [] := by
      rintro hnil
      simp [hnil, Text.blank] at hb
    have hkept := List.length_pos_iff.2 (hne kept (Text.cut_ne_nil minCut hwin))
    intro g hg
    rcases List.mem_cons.1 hg with rfl | hg
    · rfl
    · exact ih (by rw [List.length_drop]; omega) g hg

def recordsBy (encode : Text → List α) (c : Config) (document : Literal) (masked : Masked)
    (index : Nat) : List Text → Except Failure (List ChunkRecord)
  | [] => return []
  | chunk :: rest => do
    let name ← nameOf c document index (masked.reveal chunk)
    return ⟨name.id, index, chunk, if chunk.isEmpty then 0 else (encode chunk).length, name.hash⟩ ::
      (← recordsBy encode c document masked (index + 1) rest)

/-- The records are of the chunks, and each counts the tokens of its own. -/
theorem counted_of_recordsBy {encode : Text → List α} (hnil : encode [] = []) {c : Config}
    {document : Literal} {masked : Masked} {index : Nat} {chunks : List Text}
    {records : List ChunkRecord} (h : recordsBy encode c document masked index chunks = .ok records) :
    records.map ChunkRecord.text = chunks ∧
      ∀ r ∈ records, r.tokenCount = (encode r.text).length := by
  induction chunks generalizing index records with
  | nil =>
    obtain rfl := Except.ok.inj h
    exact ⟨rfl, fun r hr => absurd hr List.not_mem_nil⟩
  | cons chunk rest ih =>
    obtain ⟨name, -, h⟩ := exists_of_bind_ok h
    obtain ⟨later, hlater, h⟩ := exists_of_bind_ok h
    obtain rfl := Except.ok.inj h
    obtain ⟨htexts, hcounts⟩ := ih hlater
    refine ⟨congrArg (chunk :: ·) htexts, List.forall_mem_cons.2 ⟨?_, hcounts⟩⟩
    cases chunk with
    | nil => simp [hnil]
    | cons a s => rfl

/-- There are records where all chunks have a hash and an identifier. -/
theorem exists_recordsBy_iff {encode : Text → List α} {c : Config} {document : Literal}
    {masked : Masked} {index : Nat} {chunks : List Text} :
    (∃ records, recordsBy encode c document masked index chunks = .ok records) ↔
      ∀ chunk ∈ chunks, c.names document masked chunk = true := by
  induction chunks generalizing index with
  | nil => exact iff_of_true ⟨[], rfl⟩ fun chunk hchunk => absurd hchunk List.not_mem_nil
  | cons chunk rest ih =>
    rw [List.forall_mem_cons, ← @ih (index + 1), Config.names_iff index]
    constructor
    · rintro ⟨records, h⟩
      obtain ⟨name, hname, h⟩ := exists_of_bind_ok h
      obtain ⟨later, hlater, -⟩ := exists_of_bind_ok h
      exact ⟨⟨name, hname⟩, later, hlater⟩
    · rintro ⟨⟨name, hname⟩, later, hlater⟩
      rw [recordsBy, hname, hlater]
      exact ⟨_, rfl⟩

/-- Records fail at the first chunk that has no hash or no identifier. -/
theorem exists_of_recordsBy_error {encode : Text → List α} {c : Config} {document : Literal}
    {masked : Masked} {index : Nat} {chunks : List Text} {f : Failure}
    (h : recordsBy encode c document masked index chunks = .error f) :
    ∃ before chunk later, chunks = before ++ chunk :: later ∧
      (∀ s ∈ before, c.names document masked s = true) ∧
      nameOf c document (index + before.length : Nat) (masked.reveal chunk) = .error f := by
  induction chunks generalizing index with
  | nil => exact nomatch h
  | cons chunk rest ih =>
    cases hname : nameOf c document index (masked.reveal chunk) with
    | error f' =>
      rw [recordsBy, hname] at h
      obtain rfl := Except.error.inj h
      exact ⟨[], chunk, rest, rfl, fun s hs => absurd hs List.not_mem_nil, hname⟩
    | ok name =>
      rw [recordsBy, hname] at h
      cases hlater : recordsBy encode c document masked (index + 1) rest with
      | ok records =>
        rw [hlater] at h
        exact nomatch h
      | error f' =>
        rw [hlater] at h
        obtain rfl := Except.error.inj h
        obtain ⟨before, chunk', later, rfl, hbefore, herror⟩ := ih hlater
        refine ⟨chunk :: before, chunk', later, rfl, List.forall_mem_cons.2 ⟨?_, hbefore⟩, ?_⟩
        · exact (Config.names_iff index).2 ⟨name, hname⟩
        · rwa [List.length_cons, Nat.add_comm before.length, ← Nat.add_assoc]

/-- In every state with `inv`, the numbers of the tokenizer stand for values by `view`: encoding
gives numbers of the values that `encode` gives and leaves known numbers alone, and decoding reads
values as `decode` does. -/
structure Represents (t : Tokenizer σ) (inv : σ → Prop) (view : σ → Nat → Option α)
    (encode : Text → List α) (decode : List α → Text) : Prop where
  encode_runIn : ∀ s, inv s → ∀ text, ∃ ts s', (t.encode text).runIn s = (.ok ts, s') ∧ inv s' ∧
    ts.map (view s') = (encode text).map some ∧ ∀ i a, view s i = some a → view s' i = some a
  decode_runIn : ∀ s, inv s → ∀ ts as, ts.map (view s) = as.map some →
    (t.decode ts).runIn s = (.ok (decode as), s)

namespace Represents

variable {t : Tokenizer σ} {inv : σ → Prop} {view : σ → Nat → Option α} {encode : Text → List α}
  {decode : List α → Text}

/-- A tokenizer that acts on a wrapped state as `t` does on the state itself. -/
theorem wrap (h : Represents t inv view encode decode) (T : Tokenizer τ) (wrap : σ → τ)
    (view' : τ → Nat → Option α) (hview : ∀ s, view' (wrap s) = view s)
    (hencode : ∀ s text, (T.encode text).runIn (wrap s) =
      (((t.encode text).runIn s).1, wrap ((t.encode text).runIn s).2))
    (hdecode : ∀ s ts, (T.decode ts).runIn (wrap s) =
      (((t.decode ts).runIn s).1, wrap ((t.decode ts).runIn s).2)) :
    Represents T (fun u => ∃ s, inv s ∧ u = wrap s) view' encode decode where
  encode_runIn := by
    rintro _ ⟨s, hs, rfl⟩ text
    obtain ⟨ts, s', hrun, hs', hts, hext⟩ := h.encode_runIn s hs text
    refine ⟨ts, wrap s', by rw [hencode, hrun], ⟨s', hs', rfl⟩, ?_, ?_⟩
    · rw [hview, hts]
    · simpa only [hview] using hext
  decode_runIn := by
    rintro _ ⟨s, hs, rfl⟩ ts as hts
    rw [hview] at hts
    rw [hdecode, h.decode_runIn s hs ts as hts]

theorem map_view_mono {s s' : σ} (hext : ∀ i a, view s i = some a → view s' i = some a)
    {ts : List Nat} {as : List α} (h : ts.map (view s) = as.map some) :
    ts.map (view s') = as.map some := by
  induction ts generalizing as with
  | nil => simpa using h
  | cons i ts ih =>
    cases as with
    | nil => simp at h
    | cons a as =>
      simp only [List.map_cons, List.cons.injEq] at h ⊢
      exact ⟨hext i a h.1, ih h.2⟩

theorem decode_encode (h : Represents t inv view encode decode)
    (hback : ∀ s, decode (encode s) = s) {s : σ} (hs : inv s) (text : Text) :
    ∃ ts s', (t.encode text).runIn s = (.ok ts, s') ∧ (t.decode ts).runIn s' = (.ok text, s') := by
  obtain ⟨ts, s', henc, hs', hts, -⟩ := h.encode_runIn s hs text
  exact ⟨ts, s', henc, by rw [h.decode_runIn s' hs' ts _ hts, hback]⟩

theorem segments_runIn (h : Represents t inv view encode decode) {size : Nat} (size_pos : 0 < size)
    (minCut budget : Nat) (as : List α) :
    ∀ {s : σ} {ts : List Nat}, inv s → ts.map (view s) = as.map some →
      ∃ s', (t.segments size size_pos minCut budget ts).runIn s =
          (.ok (segmentsBy encode decode size size_pos minCut budget as), s') ∧ inv s' ∧
        ∀ i a, view s i = some a → view s' i = some a := by
  -- On the loop over values, for every state that `inv` allows: calls may change the state, but no
  -- number that is known already.
  fun_induction segmentsBy encode decode size size_pos minCut budget as
  case case1 budget =>
    intro s ts hs hts
    obtain rfl : ts = [] := by simpa using hts
    exact ⟨s, by rw [Tokenizer.segments]; rfl, hs, fun _ _ hv => hv⟩
  case case2 a rest =>
    intro s ts hs hts
    obtain ⟨i, ts, rfl⟩ : ∃ i is, ts = i :: is := by cases ts <;> simp_all
    refine ⟨s, ?_, hs, fun _ _ hv => hv⟩
    rw [Tokenizer.segments, Call.runIn_bind_ok (h.decode_runIn s hs _ _ hts)]
    rfl
  case case3 budget a rest window hb ih =>
    intro s ts hs hts
    obtain ⟨i, ts, rfl⟩ : ∃ i is, ts = i :: is := by cases ts <;> simp_all
    have hwin : ((i :: ts).take size).map (view s) = ((a :: rest).take size).map some := by
      rw [List.map_take, hts, List.map_take]
    have hdrop : ((i :: ts).drop size).map (view s) = ((a :: rest).drop size).map some := by
      rw [List.map_drop, hts, List.map_drop]
    obtain ⟨s', hrun, hs', hext⟩ := ih hs hdrop
    refine ⟨s', ?_, hs', hext⟩
    rw [Tokenizer.segments, Call.runIn_bind_ok (h.decode_runIn s hs _ _ hwin)]
    change (if window.blank then _ else _ : Call _ _).runIn s = _
    rw [if_pos hb]
    rw [Call.runIn_bind_ok hrun]
    rfl
  case case4 budget a rest window hb kept ih =>
    intro s ts hs hts
    obtain ⟨i, ts, rfl⟩ : ∃ i is, ts = i :: is := by cases ts <;> simp_all
    have hwin : ((i :: ts).take size).map (view s) = ((a :: rest).take size).map some := by
      rw [List.map_take, hts, List.map_take]
    obtain ⟨used, s₁, henc, hs₁, hused, hext₁⟩ := h.encode_runIn s hs kept
    have hlen : used.length = (encode kept).length := by
      simpa using congrArg List.length hused
    -- The numbers that are left still stand for the same values after the kept text is encoded.
    have hdrop : ((i :: ts).drop used.length).map (view s₁) =
        ((a :: rest).drop (encode kept).length).map some := by
      rw [List.map_drop, map_view_mono hext₁ hts, List.map_drop, hlen]
    obtain ⟨s', hrun, hs', hext⟩ := ih hs₁ hdrop
    refine ⟨s', ?_, hs', fun j b hv => hext j b (hext₁ j b hv)⟩
    rw [Tokenizer.segments, Call.runIn_bind_ok (h.decode_runIn s hs _ _ hwin)]
    change (if window.blank then _ else _ : Call _ _).runIn s = _
    rw [if_neg hb, Call.runIn_bind_ok henc, Call.runIn_bind_ok hrun]
    rfl

theorem segmentsOf_runIn (h : Represents t inv view encode decode) (c : Config) {size : Nat}
    (size_pos : 0 < size) (text : Text) {s : σ} (hs : inv s) :
    ∃ s', (t.segmentsOf c size size_pos text).runIn s =
        (.ok (segmentsOfBy encode decode c size size_pos text), s') ∧ inv s' := by
  by_cases hb : text.blank = true
  · refine ⟨s, ?_, hs⟩
    simp only [Tokenizer.segmentsOf, segmentsOfBy, hb, if_true]
    rfl
  · obtain ⟨ts, s₁, henc, hs₁, hts, -⟩ := h.encode_runIn s hs text
    obtain ⟨s', hrun, hs', -⟩ := h.segments_runIn size_pos c.minCut c.maxWindows _ hs₁ hts
    refine ⟨s', ?_, hs'⟩
    simp only [Tokenizer.segmentsOf, segmentsOfBy, if_neg hb]
    rw [Call.runIn_bind_ok henc, hrun]

theorem chunksOf_runIn (h : Represents t inv view encode decode) (c : Config) {size : Nat}
    (size_pos : 0 < size) (text : Text) {s : σ} (hs : inv s) :
    ∃ s', (t.chunksOf c size size_pos text).runIn s =
        (.ok (c.chunks (segmentsOfBy encode decode c size size_pos text)), s') ∧ inv s' := by
  obtain ⟨s', hrun, hs'⟩ := h.segmentsOf_runIn c size_pos text hs
  exact ⟨s', by rw [Tokenizer.chunksOf, Call.runIn_bind_ok hrun]; rfl, hs'⟩

/-- The chunks of a text under any size of windows above zero. -/
theorem split_run (h : Represents t inv view encode decode) (c : Config) {size : Int}
    (size_pos : 0 < size.toNat) (text : Text) {s : σ} (hs : inv s) :
    ∃ s', (((⟨c, t⟩ : Splitter σ).split (some text) size).run).run s =
        (.ok (c.chunks (segmentsOfBy encode decode c size.toNat size_pos text)), s') ∧ inv s' := by
  obtain ⟨s', hrun, hs'⟩ := h.chunksOf_runIn c size_pos text hs
  refine ⟨s', ?_, hs'⟩
  rw [Splitter.run_split_some _ s size_pos, hrun]
  rfl

/-- A property of the chunks for all sizes of windows, as one of the chunks of values. -/
theorem forall_split_iff (h : Represents t inv view encode decode) (c : Config) (text : Text)
    {s : σ} (hs : inv s) {P : List Text → Prop} :
    (∀ size : Int, 0 < size → ∃ chunks s',
      (((⟨c, t⟩ : Splitter σ).split (some text) size).run).run s = (.ok chunks, s') ∧ P chunks) ↔
        ∀ (size : Nat) (size_pos : 0 < size),
          P (c.chunks (segmentsOfBy encode decode c size size_pos text)) := by
  constructor
  · intro hsplit size size_pos
    obtain ⟨s', hrun, -⟩ := h.split_run c (show 0 < (size : Int).toNat from size_pos) text hs
    exact (Call.exists_ok_iff hrun).1 (hsplit size (Int.natCast_pos.2 size_pos))
  · intro hchunks size hsize
    have size_pos : 0 < size.toNat := by omega
    obtain ⟨s', hrun, -⟩ := h.split_run c size_pos text hs
    exact (Call.exists_ok_iff hrun).2 (hchunks size.toNat size_pos)

theorem recordsFrom_runIn (h : Represents t inv view encode decode) (c : Config) (document : Literal)
    (masked : Masked) : ∀ (chunks : List Text) (index : Nat) {s : σ}, inv s →
      ∃ s', (t.recordsFrom c document masked index chunks).runIn s =
        (recordsBy encode c document masked index chunks, s') ∧ inv s'
  | [], _, s, hs => ⟨s, rfl, hs⟩
  | chunk :: rest, index, s, hs => by
    obtain ⟨s₁, hcount, hs₁⟩ : ∃ s₁, (t.count chunk).runIn s =
        (.ok (if chunk.isEmpty then 0 else (encode chunk).length), s₁) ∧ inv s₁ := by
      unfold Tokenizer.count
      split
      · exact ⟨s, rfl, hs⟩
      · obtain ⟨ts, s₁, henc, hs₁, hts, -⟩ := h.encode_runIn s hs chunk
        have hlen : ts.length = (encode chunk).length := by simpa using congrArg List.length hts
        exact ⟨s₁, by rw [Call.runIn_bind_ok henc, Call.runIn_pure, hlen], hs₁⟩
    obtain ⟨s', hrun, hs'⟩ := h.recordsFrom_runIn c document masked rest (index + 1) hs₁
    rw [Tokenizer.recordsFrom, recordsBy, Call.runIn_ofExcept_bind]
    cases nameOf c document index (masked.reveal chunk) with
    | error f => exact ⟨s, rfl, hs⟩
    | ok name =>
      refine ⟨s', ?_, hs'⟩
      dsimp only
      rw [Call.runIn_bind_ok hcount, Call.runIn_bind_pure, hrun]
      cases recordsBy encode c document masked (index + 1) rest <;> rfl

theorem records_runIn (h : Represents t inv view encode decode) (c : Config) (document : Literal)
    (masked : Masked) {s : σ} (hs : inv s) :
    ∃ s', (t.records c document (some masked)).runIn s =
      (recordsBy encode c document masked 0
        (c.chunks (segmentsOfBy encode decode c c.windowSize c.windowSize_pos masked.text)), s') ∧
      inv s' := by
  obtain ⟨s₁, hchunks, hs₁⟩ := h.chunksOf_runIn c c.windowSize_pos masked.text hs
  obtain ⟨s', hrun, hs'⟩ := h.recordsFrom_runIn c document masked
    (c.chunks (segmentsOfBy encode decode c c.windowSize c.windowSize_pos masked.text)) 0 hs₁
  exact ⟨s', by rw [Tokenizer.records, Tokenizer.chunks, Call.runIn_bind_ok hchunks, hrun], hs'⟩

/-- The records of a text are of its chunks, and each counts the tokens of its own. -/
theorem counted_of_records (h : Represents t inv view encode decode) (hnil : encode [] = [])
    {c : Config} {document : Literal} {masked : Masked} {s u : σ} (hs : inv s)
    {records : List ChunkRecord}
    (hrecords : (t.records c document (some masked)).runIn s = (.ok records, u)) :
    records.map ChunkRecord.text =
        c.chunks (segmentsOfBy encode decode c c.windowSize c.windowSize_pos masked.text) ∧
      ∀ r ∈ records, r.tokenCount = (encode r.text).length := by
  obtain ⟨s', hrun, -⟩ := h.records_runIn c document masked hs
  exact counted_of_recordsBy hnil (Prod.mk.inj (hrun.symm.trans hrecords)).1

/-- A text has records under every configuration that can be written. -/
theorem exists_records_of_short (h : Represents t inv view encode decode) {c : Config}
    (hc : c.Short) (document text : Text) {s : σ} (hs : inv s) :
    ∃ records s', (t.records c document (some text)).runIn s = (.ok records, s') := by
  obtain ⟨s', hrun, -⟩ := h.records_runIn c document text hs
  obtain ⟨records, hrecords⟩ : ∃ records, recordsBy encode c document text 0
      (c.chunks (segmentsOfBy encode decode c c.windowSize c.windowSize_pos text)) = .ok records :=
    exists_recordsBy_iff.2 fun chunk _ => Config.names_text hc document text chunk
  exact ⟨records, s', hrun.trans (congrArg (·, s') hrecords)⟩

end Represents

end TextChunks
