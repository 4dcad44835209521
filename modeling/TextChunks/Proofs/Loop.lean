import TextChunks.Proofs.Segmentation

namespace TextChunks

def Segment.isBlank : Segment → Bool
  | .blank _ => true
  | _ => false

def Config.withWindows (c : Config) (n : Nat) (n_pos : 0 < n) : Config :=
  { c with maxWindows := n, maxWindows_pos := n_pos }

/-- Where the loop stands: the next window starts at token `start`, and `taken` windows came before
that were not blank. -/
structure Place where
  start : Nat := 0
  taken : Nat := 0

structure Loop (σ : Type) extends Splitter σ where
  size : Nat
  size_pos : 0 < size
  tokens : List Nat

namespace Loop

variable {l : Loop σ} {p q r : Place} {s u v : σ} {g : Segment} {gs hs : List Segment}

def Open (l : Loop σ) (p : Place) : Prop :=
  p.start < l.tokens.length ∧ p.taken < l.config.maxWindows

instance : Decidable (l.Open p) := inferInstanceAs (Decidable (_ ∧ _))

/-- One window: its segment, and the place that it leads to. -/
def window (l : Loop σ) (p : Place) : Call σ (Segment × Place) := do
  let ids := (l.tokens.drop p.start).take l.size
  let text ← l.tokenizer.decode ids
  if text.blank then return (.blank text, { p with start := p.start + ids.length })
  else
    let used ← l.tokenizer.encode (text.cut l.config.minCut)
    return (.window (text.cut l.config.minCut), ⟨p.start + used.length, p.taken + 1⟩)

def rest (l : Loop σ) (p : Place) : Call σ (List Segment) :=
  if p.start < l.tokens.length then
    return [.tail (← l.tokenizer.decode (l.tokens.drop p.start))]
  else return []

def segments (l : Loop σ) (p : Place) : Call σ (List Segment) :=
  l.tokenizer.segments l.size l.size_pos l.config.minCut (l.config.maxWindows - p.taken)
    (l.tokens.drop p.start)

theorem segments_of_open (h : l.Open p) : l.segments p = do
    let (g, q) ← l.window p
    return g :: (← l.segments q) := by
  obtain ⟨hstart, htaken⟩ := h
  obtain ⟨token, more, htokens⟩ : ∃ token more, l.tokens.drop p.start = token :: more :=
    List.exists_cons_of_ne_nil (by simpa using hstart)
  obtain ⟨k, hk⟩ : ∃ k, l.config.maxWindows - p.taken = k + 1 :=
    ⟨l.config.maxWindows - p.taken - 1, by omega⟩
  have hk' : l.config.maxWindows - (p.taken + 1) = k := by omega
  unfold segments window
  rw [htokens, hk, Tokenizer.segments, bind_assoc]
  refine bind_congr fun text => ?_
  by_cases hb : text.blank = true
  · -- The last window may have fewer tokens than the size, and then no tokens are left after it.
    have hdrop : l.tokens.drop (p.start + ((token :: more).take l.size).length) =
        (token :: more).drop l.size := by
      rw [← List.drop_drop, htokens, List.length_take, ← List.drop_eq_drop_min]
    simp only [hb, if_true, pure_bind, hdrop, hk]
  · simp only [hb, Bool.false_eq_true, if_false, bind_assoc, pure_bind, hk', ← List.drop_drop,
      htokens]

theorem segments_of_not_open (h : ¬l.Open p) : l.segments p = l.rest p := by
  unfold segments rest
  by_cases hstart : p.start < l.tokens.length
  · obtain ⟨token, more, htokens⟩ : ∃ token more, l.tokens.drop p.start = token :: more :=
      List.exists_cons_of_ne_nil (by simpa using hstart)
    have hk : l.config.maxWindows - p.taken = 0 := by
      unfold Open at h
      omega
    rw [if_pos hstart, htokens, hk, Tokenizer.segments]
  · rw [if_neg hstart, List.drop_eq_nil_of_le (by omega), Tokenizer.segments]

/-- A window that a run gives moves on if it is blank, and else takes the tokens of a text with
characters along. -/
theorem window_eq_ok (h : (l.window p).runIn s = (.ok (g, q), u)) :
    (∃ text, text.blank = true ∧ g = .blank text ∧
      q = ⟨p.start + ((l.tokens.drop p.start).take l.size).length, p.taken⟩) ∨
    ∃ kept used v, kept ≠ [] ∧ g = .window kept ∧
      (l.tokenizer.encode kept).runIn v = (.ok used, u) ∧
      q = ⟨p.start + used.length, p.taken + 1⟩ := by
  obtain ⟨text, v, -, h⟩ := Call.exists_of_runIn_bind h
  by_cases hb : text.blank = true
  · left
    rw [if_pos hb, Call.runIn_pure] at h
    obtain ⟨rfl, rfl⟩ := Prod.mk.inj (Except.ok.inj (Prod.mk.inj h).1)
    exact ⟨text, hb, rfl, rfl⟩
  · right
    rw [if_neg hb] at h
    obtain ⟨used, v', henc, h⟩ := Call.exists_of_runIn_bind h
    rw [Call.runIn_pure] at h
    obtain ⟨hgq, rfl⟩ := Prod.mk.inj h
    obtain ⟨rfl, rfl⟩ := Prod.mk.inj (Except.ok.inj hgq)
    have hne : text ≠ [] := by
      rintro rfl
      exact hb rfl
    exact ⟨_, used, v, Text.cut_ne_nil _ hne, rfl, henc, rfl⟩

/-- A window is counted unless it is blank, and it moves on if it is. -/
theorem window_moves (h : (l.window p).runIn s = (.ok (g, q), u)) (hopen : l.Open p) :
    q.taken = p.taken + (if g.isWindow then 1 else 0) ∧
      p.start + (if g.isBlank then 1 else 0) ≤ q.start ∧ g.isTail = false := by
  obtain ⟨hstart, -⟩ := hopen
  have hsize := l.size_pos
  rcases window_eq_ok h with ⟨text, -, rfl, rfl⟩ | ⟨kept, used, v, -, rfl, -, rfl⟩
  · refine ⟨rfl, ?_, rfl⟩
    simp only [Segment.isBlank, if_true, List.length_take, List.length_drop]
    omega
  · exact ⟨rfl, Nat.le_add_right .., rfl⟩

/-- The windows from one place to another, and what they make of the tokenizer's state. -/
inductive Windows (l : Loop σ) : Place → σ → List Segment → Place → σ → Prop where
  | nil {p : Place} {s : σ} : Windows l p s [] p s
  | cons {p q r : Place} {s u v : σ} {g : Segment} {gs : List Segment} : l.Open p →
      (l.window p).runIn s = (.ok (g, q), u) → Windows l q u gs r v → Windows l p s (g :: gs) r v

namespace Windows

theorem segments_runIn (h : l.Windows p s gs q u) :
    (l.segments p).runIn s = Prod.map (Except.map (gs ++ ·)) id ((l.segments q).runIn u) := by
  induction h with
  | @nil p s => rcases (l.segments p).runIn s with ⟨a | e, s'⟩ <;> rfl
  | @cons p q r s u v g gs hopen hwindow _ ih =>
    rw [segments_of_open hopen, Call.runIn_bind_ok hwindow, Call.runIn_bind_pure, ih]
    rcases (l.segments r).runIn v with ⟨a | e, s'⟩ <;> rfl

theorem start_le (h : l.Windows p s gs q u) : p.start ≤ q.start := by
  induction h with
  | nil => exact Nat.le_refl _
  | cons hopen hwindow _ ih =>
    obtain ⟨-, hstart, -⟩ := window_moves hwindow hopen
    omega

theorem taken_eq (h : l.Windows p s gs q u) : q.taken = p.taken + gs.countP Segment.isWindow := by
  induction h with
  | nil => rfl
  | cons hopen hwindow _ ih =>
    obtain ⟨htaken, -⟩ := window_moves hwindow hopen
    rw [List.countP_cons, ih, htaken]
    omega

theorem taken_le (h : l.Windows p s gs q u) (hp : p.taken ≤ l.config.maxWindows) :
    q.taken ≤ l.config.maxWindows := by
  induction h with
  | nil => exact hp
  | cons hopen hwindow _ ih =>
    apply ih
    obtain ⟨htaken, -⟩ := window_moves hwindow hopen
    have hless := hopen.2
    split at htaken <;> omega

/-- A blank window leaves fewer tokens, and no window leaves more. -/
theorem blanks_le (h : l.Windows p s gs q u) :
    gs.countP Segment.isBlank ≤ l.tokens.length - p.start := by
  induction h with
  | nil => exact Nat.zero_le _
  | cons hopen hwindow _ ih =>
    obtain ⟨-, hstart, -⟩ := window_moves hwindow hopen
    have hless := hopen.1
    rw [List.countP_cons]
    split_ifs at hstart ⊢ <;> omega

theorem isTail_eq_false (h : l.Windows p s gs q u) : ∀ g ∈ gs, g.isTail = false := by
  induction h with
  | nil => simp
  | cons hopen hwindow _ ih =>
    intro g hg
    rcases List.mem_cons.1 hg with rfl | hg
    · exact (window_moves hwindow hopen).2.2
    · exact ih g hg

end Windows

def left (l : Loop σ) (p : Place) : Nat :=
  (l.config.maxWindows - p.taken) + (l.tokens.length - p.start)

theorem left_lt (hopen : l.Open p) (h : (l.window p).runIn s = (.ok (g, q), u)) :
    l.left q < l.left p := by
  have hmoves : p.start < q.start ∧ p.taken = q.taken ∨ p.start ≤ q.start ∧ p.taken < q.taken := by
    obtain ⟨htaken, hstart, htail⟩ := window_moves h hopen
    -- A window that is not blank may stay where it is, if its cut text has no tokens.
    cases g with
    | blank text => exact .inl ⟨hstart, htaken.symm⟩
    | window kept => exact .inr ⟨hstart, htaken ▸ Nat.lt_succ_self _⟩
    | tail text => simp [Segment.isTail] at htail
  obtain ⟨hless, htaken⟩ := hopen
  unfold left
  omega

/-- From every place the loop comes to one where it is over or a call fails. -/
theorem exists_windows (l : Loop σ) (p : Place) (s : σ) :
    ∃ gs q u, l.Windows p s gs q u ∧
      (l.Open q → ∃ f v, (l.window q).runIn u = (.error f, v)) := by
  by_cases hopen : l.Open p
  · rcases hrun : (l.window p).runIn s with ⟨f | ⟨g, q⟩, u⟩
    · exact ⟨[], p, s, .nil, fun _ => ⟨f, u, hrun⟩⟩
    · have hlt := left_lt hopen hrun
      obtain ⟨gs, r, v, hwindows, hend⟩ := l.exists_windows q u
      exact ⟨g :: gs, r, v, .cons hopen hrun hwindows, hend⟩
  · exact ⟨[], p, s, .nil, fun h => absurd h hopen⟩
termination_by l.left p

/-- What the loop gives from a place on where it ends: it is over, or a call fails. -/
inductive Ends (l : Loop σ) (p : Place) (s : σ) : Except Failure (List Segment) × σ → Prop where
  | done {rest : Except Failure (List Segment) × σ} : ¬l.Open p → (l.rest p).runIn s = rest →
      Ends l p s rest
  | fails {f : Failure} {u : σ} : l.Open p → (l.window p).runIn s = (.error f, u) →
      Ends l p s (.error f, u)

theorem exists_ends (l : Loop σ) (p : Place) (s : σ) :
    ∃ gs q u, l.Windows p s gs q u ∧ l.Ends q u ((l.segments q).runIn u) := by
  obtain ⟨gs, q, u, hwindows, hfails⟩ := l.exists_windows p s
  refine ⟨gs, q, u, hwindows, ?_⟩
  by_cases hopen : l.Open q
  · obtain ⟨f, v, hrun⟩ := hfails hopen
    have hsegments : (l.segments q).runIn u = (.error f, v) := by
      rw [segments_of_open hopen, Call.runIn_bind, hrun]
    rw [hsegments]
    exact .fails hopen hrun
  · rw [segments_of_not_open hopen]
    exact .done hopen rfl

end Loop

/-- Every text with characters has tokens, in every state. -/
def Tokenizer.Counting (t : Tokenizer σ) : Prop :=
  ∀ text, text ≠ [] → ∀ s u, (t.encode text).runIn s ≠ (.ok [], u)

namespace Loop

variable {l : Loop σ} {p q r : Place} {s u v : σ} {g : Segment} {gs hs : List Segment}

/-- Where every text has tokens, every window moves on. -/
theorem Windows.length_le (hcount : l.tokenizer.Counting) (h : l.Windows p s gs q u) :
    gs.length ≤ l.tokens.length - p.start := by
  induction h with
  | nil => exact Nat.zero_le _
  | @cons p q r s u v g gs hopen hwindow _ ih =>
    have hless := hopen.1
    have hmoves : p.start < q.start := by
      rcases window_eq_ok hwindow with ⟨text, -, rfl, -⟩ | ⟨kept, used, v, hne, -, henc, rfl⟩
      · exact (window_moves hwindow hopen).2.1
      · have hused : used ≠ [] := by
          rintro rfl
          exact hcount kept hne _ _ henc
        exact Nat.lt_add_of_pos_right (List.length_pos_iff.2 hused)
    rw [List.length_cons]
    omega

structure Bounded (l : Loop σ) (gs : List Segment) (p : Place) (s : σ) : Prop where
  windows_le : gs.countP Segment.isWindow ≤ l.config.maxWindows
  blanks_le : gs.countP Segment.isBlank ≤ l.tokens.length
  /-- Later windows start no earlier. -/
  start_le : ∀ {hs q u}, l.Windows p s hs q u → p.start ≤ q.start
  length_le : l.tokenizer.Counting → gs.length ≤ l.tokens.length

theorem Windows.bounded (h : l.Windows {} s gs p u) : l.Bounded gs p u where
  windows_le := by
    have htaken := h.taken_le (Nat.zero_le _)
    rw [h.taken_eq] at htaken
    exact Nat.le_of_add_left_le htaken
  blanks_le := h.blanks_le
  start_le := Windows.start_le
  length_le hcount := h.length_le hcount

end Loop

def Loop.answer (l : Loop σ) (gs : List Segment) (rest : Except Failure (List Segment) × σ) :
    Except SplitError (List Text) × σ :=
  ((rest.1.map fun hs => l.config.chunks (gs ++ hs)).mapError .tokenizer, rest.2)

namespace Splitter

def run (S : Splitter σ) (text : Text) (size : Int) (s : σ) : Except SplitError (List Text) × σ :=
  (S.split (some text) size).run.run s

variable (S : Splitter σ) (text : Text) {size : Int} (s : σ)

theorem run_eq (hsize : 0 < size.toNat) : S.run text size s =
    Prod.map (fun segments => (segments.map S.config.chunks).mapError .tokenizer) id
      ((S.tokenizer.segmentsOf S.config size.toNat hsize text).runIn s) := by
  have hchunks : (S.tokenizer.chunksOf S.config size.toNat hsize text).runIn s =
      Prod.map (Except.map S.config.chunks) id
        ((S.tokenizer.segmentsOf S.config size.toNat hsize text).runIn s) :=
    Call.runIn_bind_pure ..
  have hrun : S.run text size s = Prod.map (Except.mapError .tokenizer) id
      ((S.tokenizer.chunksOf S.config size.toNat hsize text).runIn s) :=
    S.run_split_some s hsize text
  rw [hrun, hchunks, Prod.map_map]
  rfl

/-- A split of a text with characters is the loop over its tokens. -/
theorem run_eq_segments {l : Loop σ} {u : σ} (hb : text.blank = false)
    (hencode : (l.tokenizer.encode text).runIn s = (.ok l.tokens, u)) :
    l.toSplitter.run text l.size s =
      Prod.map (fun segments => (segments.map l.config.chunks).mapError .tokenizer) id
        ((l.segments {}).runIn u) := by
  rw [run_eq l.toSplitter text s (show 0 < (l.size : Int).toNat from l.size_pos)]
  unfold Tokenizer.segmentsOf
  rw [hb, if_neg (by simp), Call.runIn_bind_ok hencode]
  rfl

/-- A split makes no call for a blank text; else it runs the loop over the tokens of the text. -/
theorem exists_loop (hsize : 0 < size) :
    (text.blank = true ∧ S.run text size s = (.ok [], s)) ∨
    (text.blank = false ∧ ∃ f u, (S.tokenizer.encode text).runIn s = (.error f, u) ∧
      S.run text size s = (.error (.tokenizer f), u)) ∨
    (text.blank = false ∧ ∃ (l : Loop σ) (u : σ), l.toSplitter = S ∧ (l.size : Int) = size ∧
      (S.tokenizer.encode text).runIn s = (.ok l.tokens, u) ∧ ∃ gs p v rest,
        l.Windows {} u gs p v ∧ l.Ends p v rest ∧ S.run text size s = l.answer gs rest) := by
  have hsize' : 0 < size.toNat := by omega
  rw [S.run_eq text s hsize']
  unfold Tokenizer.segmentsOf
  rcases hb : text.blank with - | -
  · right
    rw [if_neg (by simp), Call.runIn_bind]
    rcases henc : (S.tokenizer.encode text).runIn s with ⟨f | tokens, u⟩
    · exact .inl ⟨rfl, f, u, rfl, rfl⟩
    · right
      let l : Loop σ := ⟨S, size.toNat, hsize', tokens⟩
      obtain ⟨gs, p, v, hwindows, hends⟩ := l.exists_ends {} u
      refine ⟨rfl, l, u, rfl, Int.toNat_of_nonneg (Int.le_of_lt hsize), rfl, gs, p, v, _, hwindows,
        hends, ?_⟩
      change Prod.map _ _ ((l.segments {}).runIn u) = _
      rw [hwindows.segments_runIn]
      rcases (l.segments p).runIn v with ⟨f | rest, w⟩ <;> rfl
  · exact .inl ⟨rfl, rfl⟩

theorem run_of_blank (hsize : 0 < size) (hb : text.blank = true) :
    S.run text size s = (.ok [], s) := by
  rcases S.exists_loop text s hsize with ⟨-, hrun⟩ | ⟨hb', -⟩ | ⟨hb', -⟩
  · exact hrun
  all_goals simp [hb] at hb'

end Splitter

/-- The loop of every split ends, for a tokenizer that answers and fails as it likes: from the first
token it comes to a place where it is over or a call fails, and the windows up to any place on its
way keep the bounds. -/
theorem split_ends (S : Splitter σ) (text : Text) {size : Int} (s : σ) (hsize : 0 < size) :
    (text.blank = true ∧ S.run text size s = (.ok [], s)) ∨
    (text.blank = false ∧ ∃ f u, (S.tokenizer.encode text).runIn s = (.error f, u) ∧
      S.run text size s = (.error (.tokenizer f), u)) ∨
    (text.blank = false ∧ ∃ (l : Loop σ) (u : σ), l.toSplitter = S ∧ (l.size : Int) = size ∧
      (S.tokenizer.encode text).runIn s = (.ok l.tokens, u) ∧
      (∃ gs p v rest, l.Windows {} u gs p v ∧ l.Ends p v rest ∧
        S.run text size s = l.answer gs rest) ∧
      ∀ gs p v, l.Windows {} u gs p v → l.Bounded gs p v) := by
  rcases S.exists_loop text s hsize with h | h | ⟨hb, l, u, hS, hl, henc, hend⟩
  · exact .inl h
  · exact .inr (.inl h)
  · exact .inr (.inr ⟨hb, l, u, hS, hl, henc, hend, fun gs p v => Loop.Windows.bounded⟩)

/-- A kept text has twice as many tokens as the window that it is taken from. -/
theorem split_ends_stutter :
    (0 : Int) < 1 ∧ (Tokenizer.stutter 2 : Tokenizer Unit).Counting ∧
      ∃ (l : Loop Unit) (u : Unit), l.toSplitter = ⟨{}, .stutter 2⟩ ∧ (l.size : Int) = 1 ∧
        l.tokens = "aabb".toList.map Char.toNat ∧
        (∃ gs p v rest, l.Windows {} u gs p v ∧ l.Ends p v rest ∧
          Splitter.run ⟨{}, .stutter 2⟩ "ab".toList 1 () = l.answer gs rest) ∧
        ∀ gs p v, l.Windows {} u gs p v → l.Bounded gs p v ∧ gs.length ≤ 4 := by
  have hsize : (0 : Int) < 1 := by decide
  have hcount : (Tokenizer.stutter 2 : Tokenizer Unit).Counting := by
    intro text hne s u hrun
    obtain ⟨c, text, rfl⟩ := List.exists_cons_of_ne_nil hne
    have htokens := Except.ok.inj (Prod.mk.inj hrun).1
    simp at htokens
  refine ⟨hsize, hcount, ?_⟩
  have hrun : ((Tokenizer.stutter 2).encode "ab".toList).runIn () =
      (.ok ("aabb".toList.map Char.toNat), ()) := rfl
  rcases split_ends ⟨{}, .stutter 2⟩ "ab".toList () hsize with
    ⟨hb, -⟩ | ⟨-, f, u, henc, -⟩ | ⟨-, l, u, hS, hl, henc, hend, hbounded⟩
  · exact absurd hb (by decide)
  · exact absurd (hrun.symm.trans henc) (by simp)
  · have htokens : l.tokens = "aabb".toList.map Char.toNat :=
      (Except.ok.inj (Prod.mk.inj (hrun.symm.trans henc)).1).symm
    have hlcount : l.tokenizer.Counting := by rwa [hS]
    refine ⟨l, u, hS, hl, htokens, hend, fun gs p v h => ⟨hbounded gs p v h, ?_⟩⟩
    have hle := (hbounded gs p v h).length_le hlcount
    rwa [htokens] at hle

end TextChunks
