import TextChunks.Proofs.PostProcessing
import TextChunks.Proofs.Shape

namespace TextChunks

namespace Loop

def withWindows (l : Loop σ) (n : Nat) (n_pos : 0 < n) : Loop σ :=
  { l with config := l.config.withWindows n n_pos }

variable {l : Loop σ} {p q : Place} {s u v w : σ} {gs hs : List Segment} {n : Nat} {n_pos : 0 < n}

theorem Open.withWindows (h : l.Open p) (hn : l.config.maxWindows ≤ n) :
    (l.withWindows n n_pos).Open p := ⟨h.1, h.2.trans_le hn⟩

/-- A window does not depend on how many there may be after it. -/
theorem Windows.withWindows (h : l.Windows p s gs q u) (hn : l.config.maxWindows ≤ n) :
    (l.withWindows n n_pos).Windows p s gs q u := by
  induction h with
  | nil => exact .nil
  | cons hopen hwindow _ ih => exact .cons (hopen.withWindows hn) hwindow ih

/-- Without tokens there are no further segments, however many windows there are. -/
theorem segments_runIn_of_le (h : l.tokens.length ≤ p.start) :
    (l.segments p).runIn s = (.ok [], s) := by
  rw [segments_of_not_open fun hopen => absurd hopen.1 (Nat.not_lt.2 h), rest,
    if_neg (Nat.not_lt.2 h), Call.runIn_pure]

/-- Without windows all tokens that are left make a tail. -/
theorem segments_runIn_of_lt (hopen : ¬l.Open p) (hstart : p.start < l.tokens.length) {text : Text}
    (hdecode : (l.tokenizer.decode (l.tokens.drop p.start)).runIn s = (.ok text, u)) :
    (l.segments p).runIn s = (.ok [.tail text], u) := by
  rw [segments_of_not_open hopen, rest, if_pos hstart, Call.runIn_bind_ok hdecode, Call.runIn_pure]

/-- Where the loop is over with tokens left, the windows are used up. -/
theorem Windows.taken_eq_of_not_open (h : l.Windows {} s gs p u) (hopen : ¬l.Open p)
    (hstart : p.start < l.tokens.length) : p.taken = l.config.maxWindows :=
  Nat.le_antisymm (h.taken_le (Nat.zero_le _)) (Nat.not_lt.1 fun htaken => hopen ⟨hstart, htaken⟩)

/-- What a split gives is what the windows up to a place give, and the segments from there on. -/
theorem Windows.run_eq {text : Text} (h : l.Windows {} u gs p v) (hb : text.blank = false)
    (hencode : (l.tokenizer.encode text).runIn s = (.ok l.tokens, u))
    (hrest : (l.segments p).runIn v = (.ok hs, w)) :
    l.toSplitter.run text l.size s = (.ok (l.config.chunks (gs ++ hs)), w) := by
  rw [Splitter.run_eq_segments text s hb hencode, h.segments_runIn, hrest]
  rfl

theorem exists_end (hraises : ∀ f, ¬l.tokenizer.Raises f) (p : Place) (s : σ) :
    ∃ gs q u, l.Windows p s gs q u ∧ ¬l.Open q := by
  obtain ⟨gs, q, u, hwindows, hfails⟩ := l.exists_windows p s
  refine ⟨gs, q, u, hwindows, fun hopen => ?_⟩
  obtain ⟨f, v, hwindow⟩ := hfails hopen
  exact hraises f (raises_of_window hwindow)

end Loop

theorem Tokenizer.not_raises_ofFunctions (encode : Text → List Nat) (decode : List Nat → Text)
    (f : Failure) : ¬(Tokenizer.ofFunctions (σ := σ) encode decode).Raises f := by
  rintro (⟨text, s, u, h⟩ | ⟨ids, s, u, h⟩) <;> simp [Tokenizer.ofFunctions] at h

/-- With more windows a split keeps every chunk that came from a window, and takes further windows
only from the tokens of what would else be the tail. -/
theorem split_more_windows (encode : Text → List Nat) (decode : List Nat → Text) (c : Config)
    (text : Text) {size : Int} (s : σ) {n : Nat} (hsize : 0 < size) (hn : c.maxWindows ≤ n) :
    ∃ fewer more u v,
      Splitter.run ⟨c, .ofFunctions encode decode⟩ text size s = (.ok fewer, u) ∧
      Splitter.run ⟨c.withWindows n (c.maxWindows_pos.trans_le hn), .ofFunctions encode decode⟩
        text size s = (.ok more, v) ∧
      fewer.dropLast <+: more ∧ (text.blank = true → fewer = [] ∧ more = []) ∧
      (text.blank = false → ∃ (l : Loop σ) (gs : List Segment) (p : Place) (w : σ),
        l.toSplitter = ⟨c, .ofFunctions encode decode⟩ ∧ (l.size : Int) = size ∧
        l.tokens = encode text ∧ l.Windows {} s gs p w ∧ ¬l.Open p ∧ c.chunks gs <+: more ∧
        (l.tokens.length ≤ p.start → fewer = c.chunks gs ∧ more = fewer) ∧
        (p.start < l.tokens.length → p.taken = c.maxWindows ∧ ∃ hs,
          ((l.withWindows n (c.maxWindows_pos.trans_le hn)).segments p).runIn w = (.ok hs, v) ∧
          fewer = c.chunks (gs ++ [.tail (decode (l.tokens.drop p.start))]) ∧
          more = c.chunks (gs ++ hs))) := by
  have n_pos : 0 < n := c.maxWindows_pos.trans_le hn
  rcases hb : text.blank with - | -
  · obtain ⟨k, rfl⟩ := Int.eq_ofNat_of_zero_le (Int.le_of_lt hsize)
    let l : Loop σ :=
      ⟨⟨c, .ofFunctions encode decode⟩, k, Int.natCast_pos.1 hsize, encode text⟩
    obtain ⟨gs, p, w, hwindows, hopen⟩ :=
      l.exists_end (Tokenizer.not_raises_ofFunctions encode decode) {} s
    have hmore : (l.withWindows n n_pos).Windows {} s gs p w := hwindows.withWindows hn
    by_cases hstart : p.start < l.tokens.length
    · have htail := Loop.segments_runIn_of_lt hopen hstart (s := w) rfl
      obtain ⟨hs, v, hfurther⟩ :
          ∃ hs v, ((l.withWindows n n_pos).segments p).runIn w = (.ok hs, v) := by
        obtain ⟨v, hrun, -⟩ := (Tokenizer.represents_ofFunctions encode decode).segments_runIn
          l.size_pos c.minCut (n - p.taken) (l.tokens.drop p.start) (s := w) trivial rfl
        exact ⟨_, v, hrun⟩
      refine ⟨_, _, w, v, hwindows.run_eq hb rfl htail, hmore.run_eq hb rfl hfurther,
        (c.dropLast_chunks_tail gs _).trans (c.chunks_prefix gs hs), by simp, fun _ =>
          ⟨l, gs, p, w, rfl, rfl, rfl, hwindows, hopen, c.chunks_prefix gs hs, ?_, fun _ => ?_⟩⟩
      · exact fun hle => absurd hstart (Nat.not_lt.2 hle)
      · exact ⟨hwindows.taken_eq_of_not_open hopen hstart, hs, hfurther, rfl, rfl⟩
    · have hle : l.tokens.length ≤ p.start := Nat.not_lt.1 hstart
      refine ⟨_, _, w, w, hwindows.run_eq hb rfl (Loop.segments_runIn_of_le hle),
        hmore.run_eq hb rfl (Loop.segments_runIn_of_le hle), List.dropLast_prefix _, by simp,
        fun _ => ⟨l, gs, p, w, rfl, rfl, rfl, hwindows, hopen, c.chunks_prefix gs [], fun _ => ?_,
          fun hlt => absurd hlt hstart⟩⟩
      rw [List.append_nil]
      exact ⟨rfl, rfl⟩
  · exact ⟨[], [], s, s, Splitter.run_of_blank _ text s hsize hb,
      Splitter.run_of_blank _ text s hsize hb, List.prefix_rfl, fun _ => ⟨rfl, rfl⟩, by simp⟩

/-- One window and a tail, and the same window and two further ones. -/
theorem split_more_windows_tail :
    (0 : Int) < 4 ∧ 1 ≤ 3 ∧ Text.blank "one two six".toList = false ∧ ∃ fewer more u v,
      Splitter.run ⟨{ minLength := 0, maxWindows := 1 }, .ofFunctions Tokenizer.codes
        (List.map Char.ofNat)⟩ "one two six".toList 4 () = (.ok fewer, u) ∧
      Splitter.run ⟨{ minLength := 0, maxWindows := 3 }, .ofFunctions Tokenizer.codes
        (List.map Char.ofNat)⟩ "one two six".toList 4 () = (.ok more, v) ∧
      fewer.dropLast <+: more ∧ ∃ (l : Loop Unit) (gs : List Segment) (p : Place) (w : Unit),
        l.tokens = "one two six".toList.map Char.toNat ∧ l.Windows {} () gs p w ∧ ¬l.Open p ∧
        Config.chunks { minLength := 0, maxWindows := 1 } gs <+: more ∧
        (p.start < 11 → p.taken = 1) := by
  have hsize : (0 : Int) < 4 := by decide
  have hn : 1 ≤ 3 := by decide
  have hblank : Text.blank "one two six".toList = false := by decide
  obtain ⟨fewer, more, u, v, hfewer, hmore, hprefix, -, hloop⟩ := split_more_windows
    Tokenizer.codes (List.map Char.ofNat) { minLength := 0, maxWindows := 1 } "one two six".toList
    () hsize hn
  obtain ⟨l, gs, p, w, -, -, htokens, hwindows, hopen, hchunks, -, hcap⟩ := hloop hblank
  refine ⟨hsize, hn, hblank, fewer, more, u, v, hfewer, hmore, hprefix, l, gs, p, w, htokens,
    hwindows, hopen, hchunks, fun hstart => (hcap ?_).1⟩
  rwa [htokens]

end TextChunks
