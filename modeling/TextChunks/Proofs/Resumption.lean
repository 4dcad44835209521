import TextChunks.Proofs.Loop

namespace TextChunks

namespace Loop

variable {l : Loop σ} {p q : Place} {s u : σ} {g : Segment} {gs : List Segment}
  {inv : σ → Prop} {view : σ → Nat → Option α} {encode : Text → List α} {decode : List α → Text}
  {as : List α}

/-- After a window the tokens of the loop stand for what they stood for. -/
theorem view_of_window (h : Represents l.tokenizer inv view encode decode) (hs : inv s)
    (htokens : l.tokens.map (view s) = as.map some)
    (hwindow : (l.window p).runIn s = (.ok (g, q), u)) :
    inv u ∧ l.tokens.map (view u) = as.map some := by
  have hids : ((l.tokens.drop p.start).take l.size).map (view s) =
      ((as.drop p.start).take l.size).map some := by
    rw [List.map_take, List.map_drop, htokens, List.map_take, List.map_drop]
  unfold window at hwindow
  rw [Call.runIn_bind_ok (h.decode_runIn s hs _ _ hids)] at hwindow
  split at hwindow
  · obtain ⟨-, rfl⟩ := Prod.mk.inj hwindow
    exact ⟨hs, htokens⟩
  · obtain ⟨used, v, hencode, hwindow⟩ := Call.exists_of_runIn_bind hwindow
    obtain ⟨-, rfl⟩ := Prod.mk.inj hwindow
    obtain ⟨ts, s', hrun, hs', -, hext⟩ := h.encode_runIn s hs _
    obtain ⟨-, rfl⟩ := Prod.mk.inj (hrun.symm.trans hencode)
    exact ⟨hs', Represents.map_view_mono hext htokens⟩

namespace Windows

theorem map_view (h : Represents l.tokenizer inv view encode decode)
    (hwindows : l.Windows p s gs q u) (hs : inv s)
    (htokens : l.tokens.map (view s) = as.map some) :
    inv u ∧ l.tokens.map (view u) = as.map some := by
  induction hwindows with
  | nil => exact ⟨hs, htokens⟩
  | cons hopen hwindow _ ih =>
    obtain ⟨hs', htokens'⟩ := view_of_window h hs htokens hwindow
    exact ih hs' htokens'

/-- The segments from a place on are those of the windows up to a later one, and those from there
on. -/
theorem segmentsBy_eq (h : Represents l.tokenizer inv view encode decode)
    (hwindows : l.Windows p s gs q u) (hs : inv s)
    (htokens : l.tokens.map (view s) = as.map some) :
    segmentsBy encode decode l.size l.size_pos l.config.minCut (l.config.maxWindows - p.taken)
        (as.drop p.start) =
      gs ++ segmentsBy encode decode l.size l.size_pos l.config.minCut
        (l.config.maxWindows - q.taken) (as.drop q.start) := by
  obtain ⟨hu, htokens'⟩ := hwindows.map_view h hs htokens
  have hp : (l.tokens.drop p.start).map (view s) = (as.drop p.start).map some := by
    rw [List.map_drop, htokens, List.map_drop]
  have hq : (l.tokens.drop q.start).map (view u) = (as.drop q.start).map some := by
    rw [List.map_drop, htokens', List.map_drop]
  obtain ⟨s', hrun, -⟩ := h.segments_runIn l.size_pos l.config.minCut
    (l.config.maxWindows - p.taken) (as.drop p.start) hs hp
  obtain ⟨u', hrun', -⟩ := h.segments_runIn l.size_pos l.config.minCut
    (l.config.maxWindows - q.taken) (as.drop q.start) hu hq
  have hsegments := hwindows.segments_runIn
  unfold segments at hsegments
  rw [hrun, hrun'] at hsegments
  exact Except.ok.inj (Prod.mk.inj hsegments).1

end Windows

end Loop

theorem Config.chunks_blank (c : Config) (s : Text) (gs : List Segment) :
    c.chunks (.blank s :: gs) = c.chunks gs := rfl

section Blank

variable {encode : Text → List Text} {size : Nat} (size_pos : 0 < size) (c : Config)

/-- Blank text gives no chunks, as long as there is a window for it. -/
theorem chunks_segmentsBy_of_blank {budget : Nat} (budget_pos : 0 < budget) {as : List Text}
    (h : Text.blank as.flatten = true) :
    c.chunks (segmentsBy encode List.flatten size size_pos c.minCut budget as) = [] := by
  fun_induction segmentsBy encode List.flatten size size_pos c.minCut budget as
  case case1 => rfl
  case case2 => exact absurd budget_pos (Nat.lt_irrefl 0)
  case case3 budget a rest window hb ih =>
    rw [c.chunks_blank]
    refine ih budget_pos ?_
    rw [← List.take_append_drop size (a :: rest), List.flatten_append, Text.blank_append,
      Bool.and_eq_true] at h
    exact h.2
  case case4 budget a rest window hb kept ih =>
    rw [← List.take_append_drop size (a :: rest), List.flatten_append, Text.blank_append,
      Bool.and_eq_true] at h
    exact absurd h.1 hb

/-- The chunks of a text are those that the loop gives, whether or not the text is blank. -/
theorem chunks_segmentsOfBy {text : Text} (h : (encode text).flatten = text) :
    c.chunks (segmentsOfBy encode List.flatten c size size_pos text) =
      c.chunks (segmentsBy encode List.flatten size size_pos c.minCut c.maxWindows
        (encode text)) := by
  unfold segmentsOfBy
  split
  · next hb =>
    rw [← h] at hb
    exact (chunks_segmentsBy_of_blank size_pos c c.maxWindows_pos hb).symm
  · rfl

/-- Whole windows of blank tokens before others give no chunks, and take no window from them. -/
theorem chunks_segmentsBy_append_of_blank {budget : Nat} (budget_pos : 0 < budget) (as : List Text)
    (k : Nat) : ∀ {bs : List Text}, bs.length = k * size → Text.blank bs.flatten = true →
      c.chunks (segmentsBy encode List.flatten size size_pos c.minCut budget (bs ++ as)) =
        c.chunks (segmentsBy encode List.flatten size size_pos c.minCut budget as) := by
  induction k with
  | zero =>
    intro bs hlen _
    rw [Nat.zero_mul, List.length_eq_zero_iff] at hlen
    rw [hlen, List.nil_append]
  | succ k ih =>
    intro bs hlen hb
    rw [← List.take_append_drop size bs, List.flatten_append, Text.blank_append,
      Bool.and_eq_true] at hb
    have hle : size ≤ bs.length := by
      rw [hlen, Nat.succ_mul]
      exact Nat.le_add_left ..
    obtain ⟨b, bs', hbs⟩ := List.exists_cons_of_length_pos (size_pos.trans_le hle)
    obtain ⟨n, rfl⟩ : ∃ n, budget = n + 1 := ⟨budget - 1, by omega⟩
    have htake : (b :: (bs' ++ as)).take size = bs.take size := by
      rw [← List.cons_append, ← hbs, List.take_append_of_le_length hle]
    have hdrop : (b :: (bs' ++ as)).drop size = bs.drop size ++ as := by
      rw [← List.cons_append, ← hbs, List.drop_append_of_le_length hle]
    have hrest : (bs.drop size).length = k * size := by
      rw [List.length_drop, hlen, Nat.succ_mul, Nat.add_sub_cancel]
    rw [hbs, List.cons_append, segmentsBy, htake, if_pos hb.1, hdrop, c.chunks_blank,
      ih hrest hb.2]

end Blank

/-- The windows up to a place take the text of the tokens before it. -/
theorem Text.Aligned.flatMap_text {cutter : Text → List Text} {text : Text}
    (hc : Text.Aligned cutter text) {size : Nat} (size_pos : 0 < size)
    (minCut budget budget' start : Nat) {gs : List Segment}
    (h : segmentsBy cutter List.flatten size size_pos minCut budget (cutter text) =
      gs ++ segmentsBy cutter List.flatten size size_pos minCut budget'
        ((cutter text).drop start)) :
    gs.flatMap Segment.text = ((cutter text).take start).flatten := by
  have hall := (Segmentation.segmentsBy hc (a := []) size_pos minCut budget _ rfl).covers
  have hrest := (Segmentation.segmentsBy hc (a := (cutter text).take start) size_pos minCut
    budget' _ (List.take_append_drop ..).symm).covers
  have hflatten : (cutter text).flatten =
      ((cutter text).take start).flatten ++ ((cutter text).drop start).flatten := by
    rw [← List.flatten_append, List.take_append_drop]
  rw [h, List.flatMap_append, hrest, hflatten] at hall
  exact List.append_cancel_right hall

theorem Text.isWordChar_of_isBlank {c : Char} (h : isBlank c = true) : isWordChar c = false := by
  have hall : (blankChars.all fun c => decide (isWordChar c = false)) = true := by decide
  exact forall_of_all hall c (mem_blankChars h)

namespace AlignedTokenizer

variable (t : AlignedTokenizer)

/-- Blank characters are one token each. -/
theorem pieces_blank_append {s : Text} (h : s.blank = true) (text : Text) :
    t.pieces (s ++ text) = Text.singletons s ++ t.pieces text := by
  cases t with
  | chars => exact List.map_append
  | words seen =>
    change Text.words (s ++ text) = Text.singletons s ++ Text.words text
    rw [Text.blank_iff] at h
    induction s with
    | nil => rfl
    | cons c s ih =>
      have hc := Text.isWordChar_of_isBlank (h c List.mem_cons_self)
      rw [List.cons_append, Text.words_cons hc, ih fun d hd => h d (List.mem_cons_of_mem c hd)]
      rfl

theorem run_split (c : Config) {size : Int} (size_pos : 0 < size.toNat) (text : Text)
    {s : AnyTokenizer} (hs : t.IsState s) :
    ∃ s', Splitter.run ⟨c, AnyTokenizer.tokenizer⟩ text size s =
      (.ok (c.chunks (segmentsBy t.pieces List.flatten size.toNat size_pos c.minCut c.maxWindows
        (t.pieces text))), s') := by
  obtain ⟨s', hrun, -⟩ := t.represents.split_run c size_pos text hs
  exact ⟨s', by rw [← chunks_segmentsOfBy size_pos c (t.aligned_pieces text).flatten, ← hrun]; rfl⟩

/-- At a place, the tokens before it are those of the segments so far, and the loop goes on with the
pieces of the text that is left. -/
theorem exists_rest {l : Loop AnyTokenizer} (hl : l.tokenizer = AnyTokenizer.tokenizer)
    {text : Text} {u v : AnyTokenizer} {gs : List Segment} {p : Place}
    (hencode : (AnyTokenizer.tokenizer.encode text).runIn t.toAny = (.ok l.tokens, u))
    (hwindows : l.Windows {} u gs p v) :
    (AnyTokenizer.tokenizer.decode (l.tokens.take p.start)).runIn v =
      (.ok (gs.flatMap Segment.text), v) ∧
    ∃ rest, text = gs.flatMap Segment.text ++ rest ∧
      segmentsBy t.pieces List.flatten l.size l.size_pos l.config.minCut l.config.maxWindows
          (t.pieces text) =
        gs ++ segmentsBy t.pieces List.flatten l.size l.size_pos l.config.minCut
          (l.config.maxWindows - p.taken) (t.pieces rest) := by
  have hc := t.aligned_pieces text
  obtain ⟨ts, u', hrun, hu, hts, -⟩ := t.represents.encode_runIn _ t.isState_toAny text
  obtain ⟨htokens, rfl⟩ := Prod.mk.inj (hrun.symm.trans hencode)
  obtain rfl := Except.ok.inj htokens
  have hrep : Represents l.tokenizer t.IsState AnyTokenizer.piece? t.pieces List.flatten :=
    hl ▸ t.represents
  have hsegments := hwindows.segmentsBy_eq hrep hu hts
  obtain ⟨hv, hts'⟩ := hwindows.map_view hrep hu hts
  have htext := hc.flatMap_text l.size_pos l.config.minCut _ _ p.start hsegments
  have hpieces : t.pieces ((t.pieces text).drop p.start).flatten = (t.pieces text).drop p.start :=
    hc.block (a := (t.pieces text).take p.start) (c := []) (by simp)
  refine ⟨?_, ((t.pieces text).drop p.start).flatten, ?_, ?_⟩
  · rw [htext]
    exact t.represents.decode_runIn v hv _ _ (by rw [List.map_take, hts', List.map_take])
  · rw [htext, ← List.flatten_append, List.take_append_drop, hc.flatten]
  · rwa [hpieces]

end AlignedTokenizer

/-- A split by characters or words may be taken up again wherever a window is left: the chunks so
far, and those of the text that is left, split anew with the windows that are left, are the chunks
of the whole text. Whole windows of blank characters before a text make no difference to it. -/
theorem split_resumes (t : AlignedTokenizer) (c : Config) (text : Text) {size : Int}
    (hsize : 0 < size) :
    (∀ (l : Loop AnyTokenizer) (u : AnyTokenizer), l.toSplitter = ⟨c, AnyTokenizer.tokenizer⟩ →
      (l.size : Int) = size →
      (AnyTokenizer.tokenizer.encode text).runIn t.toAny = (.ok l.tokens, u) →
      ∀ gs p v, l.Windows {} u gs p v → ∀ hp : p.taken < c.maxWindows,
        (AnyTokenizer.tokenizer.decode (l.tokens.take p.start)).runIn v =
          (.ok (gs.flatMap Segment.text), v) ∧
        ∃ rest, text = gs.flatMap Segment.text ++ rest ∧ ∀ s, t.IsState s → ∃ chunks s' t',
          Splitter.run ⟨c.withWindows (c.maxWindows - p.taken) (Nat.sub_pos_of_lt hp),
            AnyTokenizer.tokenizer⟩ rest size s = (.ok chunks, s') ∧
          Splitter.run ⟨c, AnyTokenizer.tokenizer⟩ text size t.toAny =
            (.ok (c.chunks gs ++ chunks), t')) ∧
    ∀ w : Text, w.blank = true → size ∣ (w.length : Int) → ∃ chunks s' t',
      Splitter.run ⟨c, AnyTokenizer.tokenizer⟩ (w ++ text) size t.toAny = (.ok chunks, s') ∧
        Splitter.run ⟨c, AnyTokenizer.tokenizer⟩ text size t.toAny = (.ok chunks, t') := by
  constructor
  · intro l u hl hlsize hencode gs p v hwindows hp
    obtain ⟨S, n, n_pos, tokens⟩ := l
    obtain rfl : S = ⟨c, AnyTokenizer.tokenizer⟩ := hl
    obtain rfl : (n : Int) = size := hlsize
    obtain ⟨hdecode, rest, htext, hsegments⟩ := t.exists_rest rfl hencode hwindows
    refine ⟨hdecode, rest, htext, fun s hs => ?_⟩
    have hn : 0 < (n : Int).toNat := n_pos
    obtain ⟨s', hrest⟩ := t.run_split (c.withWindows (c.maxWindows - p.taken) _) hn rest hs
    obtain ⟨t', hwhole⟩ := t.run_split c hn text t.isState_toAny
    refine ⟨_, s', t', hrest, hwhole.trans ?_⟩
    have hchunks := congrArg c.chunks hsegments
    rw [c.chunks_append] at hchunks
    exact congrArg (fun chunks => (Except.ok chunks, t')) hchunks
  · intro w hw hdvd
    obtain ⟨n, rfl⟩ := Int.eq_ofNat_of_zero_le (Int.le_of_lt hsize)
    have hn : 0 < (n : Int).toNat := Int.natCast_pos.1 hsize
    obtain ⟨k, hk⟩ : n ∣ w.length := Int.natCast_dvd_natCast.1 hdvd
    obtain ⟨s', hrun⟩ := t.run_split c hn (w ++ text) t.isState_toAny
    obtain ⟨t', hrun'⟩ := t.run_split c hn text t.isState_toAny
    have hflatten : Text.blank (Text.singletons w).flatten = true := by
      rwa [(Text.aligned_singletons w).flatten]
    refine ⟨_, s', t', hrun, ?_⟩
    have hlen : (Text.singletons w).length = k * n := by
      rw [Text.singletons, List.length_map, hk, Nat.mul_comm]
    rw [hrun', t.pieces_blank_append hw,
      chunks_segmentsBy_append_of_blank hn c c.maxWindows_pos _ k hlen hflatten]

/-- Taken up again after a blank window and one that is cut. -/
theorem split_resumes_after_sentence :
    (0 : Int) < 5 ∧ ∃ l : Loop AnyTokenizer, l.toSplitter =
        ⟨{ minCut := 0, minLength := 0, maxWindows := 2 }, AnyTokenizer.tokenizer⟩ ∧
      (l.size : Int) = 5 ∧
      (AnyTokenizer.tokenizer.encode "     One. Two".toList).runIn .chars =
        (.ok l.tokens, .chars) ∧
      l.Windows {} .chars [.blank "     ".toList, .window "One.".toList] ⟨9, 1⟩ .chars ∧
      (∃ rest, "     One. Two".toList = "     One.".toList ++ rest ∧ ∃ chunks s' t',
        Splitter.run ⟨{ minCut := 0, minLength := 0, maxWindows := 1 }, AnyTokenizer.tokenizer⟩ rest
          5 .chars = (.ok chunks, s') ∧
        Splitter.run ⟨{ minCut := 0, minLength := 0, maxWindows := 2 }, AnyTokenizer.tokenizer⟩
          "     One. Two".toList 5 .chars = (.ok ("One.".toList :: chunks), t')) ∧
      Text.blank "     \n    ".toList = true ∧ (5 : Int) ∣ "     \n    ".toList.length ∧
      ∃ chunks s' t',
        Splitter.run ⟨{ minCut := 0, minLength := 0, maxWindows := 2 }, AnyTokenizer.tokenizer⟩
          ("     \n    ".toList ++ "     One. Two".toList) 5 .chars = (.ok chunks, s') ∧
        Splitter.run ⟨{ minCut := 0, minLength := 0, maxWindows := 2 }, AnyTokenizer.tokenizer⟩
          "     One. Two".toList 5 .chars = (.ok chunks, t') := by
  have hsize : (0 : Int) < 5 := by decide
  let l : Loop AnyTokenizer :=
    ⟨⟨{ minCut := 0, minLength := 0, maxWindows := 2 }, AnyTokenizer.tokenizer⟩, 5, by decide,
      "     One. Two".toList.map Char.toNat⟩
  have hwindows :
      l.Windows {} .chars [.blank "     ".toList, .window "One.".toList] ⟨9, 1⟩ .chars :=
    .cons (q := ⟨5, 0⟩) (by decide) rfl (.cons (by decide) rfl .nil)
  have hblank : Text.blank "     \n    ".toList = true := by decide
  have hdvd : (5 : Int) ∣ "     \n    ".toList.length := by decide
  obtain ⟨hresumes, hblanks⟩ := split_resumes .chars
    { minCut := 0, minLength := 0, maxWindows := 2 } "     One. Two".toList hsize
  obtain ⟨-, rest, htext, hrest⟩ := hresumes l .chars rfl rfl rfl _ _ _ hwindows (by decide)
  exact ⟨hsize, l, rfl, rfl, rfl, hwindows, ⟨rest, htext, hrest .chars rfl⟩, hblank, hdvd,
    hblanks _ hblank hdvd⟩

end TextChunks
