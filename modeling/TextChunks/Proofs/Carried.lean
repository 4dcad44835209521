import TextChunks.Proofs.Loop

namespace TextChunks

def Config.keep (c : Config) (chunks : List Text) (candidate : Text) : List Text :=
  if c.minLength < candidate.length then chunks ++ [candidate] else chunks

/-- The loop with all that it carries: the token that the next window starts at, the chunks so far, and
the number of windows that count. -/
def Loop.carry (l : Loop σ) (start : Nat) (chunks : List Text) (count : Nat) :
    Call σ (List Text) := do
  if start < l.tokens.length ∧ count < l.config.maxWindows then
    let window := (l.tokens.drop start).take l.size
    let text ← l.tokenizer.decode window
    if text.blank then l.carry (start + window.length) chunks count
    else
      let kept := text.cut l.config.minCut
      let candidate := if l.config.keepLines then kept.strip else kept.collapse.strip
      let used ← l.tokenizer.encode kept
      l.carry (start + used.length) (l.config.keep chunks candidate) (count + 1)
  else if start < l.tokens.length then
    let rest ← l.tokenizer.decode (l.tokens.drop start)
    return l.config.keep chunks rest.collapse.strip
  else return chunks
termination_by l.config.maxWindows - count + (l.tokens.length - start)
decreasing_by
  · have hsize := l.size_pos
    simp only [List.length_take, List.length_drop]
    omega
  · omega

theorem Config.keep_append (c : Config) (chunks : List Text) (g : Segment) (gs : List Segment) :
    c.keep chunks (g.normalised c.keepLines) ++ c.chunks gs = chunks ++ c.chunks (g :: gs) := by
  unfold keep Config.chunks
  rw [List.filterMap_cons, Segment.chunk?]
  split
  · exact List.append_assoc ..
  · rfl

namespace Loop

variable (l : Loop σ)

/-- From every place on, the loop puts the chunks of the segments that are left behind those it carries. -/
theorem carry_eq (start : Nat) (chunks : List Text) (count : Nat) :
    l.carry start chunks count =
      (do return chunks ++ l.config.chunks (← l.segments ⟨start, count⟩)) := by
  fun_induction Loop.carry l start chunks count with
  | case1 start chunks count hopen window ihBlank ihWindow =>
    have hplace : l.Open ⟨start, count⟩ := hopen
    rw [segments_of_open hplace, Loop.window]
    simp only [bind_assoc]
    refine bind_congr fun text => ?_
    by_cases hb : text.blank = true
    · simp only [if_pos hb, pure_bind]
      -- A blank window gives no chunk.
      rw [ihBlank]
      rfl
    · simp only [if_neg hb, pure_bind, bind_assoc]
      refine bind_congr fun used => ?_
      refine (ihWindow text used).trans ?_
      refine bind_congr fun gs => ?_
      exact congrArg pure (l.config.keep_append chunks (.window _) gs)
  | case2 start chunks count hopen hstart =>
    have hplace : ¬l.Open ⟨start, count⟩ := hopen
    rw [segments_of_not_open hplace, rest, if_pos hstart, bind_assoc]
    refine bind_congr fun text => ?_
    rw [pure_bind]
    exact congrArg pure ((List.append_nil _).symm.trans (l.config.keep_append chunks (.tail text) []))
  | case3 start chunks count hopen hstart =>
    have hplace : ¬l.Open ⟨start, count⟩ := hopen
    rw [segments_of_not_open hplace, rest, if_neg hstart, pure_bind]
    exact congrArg pure (List.append_nil chunks).symm

end Loop

/-- The chunks of a text are what the loop over its tokens gives, which starts with none. -/
theorem Tokenizer.chunksOf_eq_carry (t : Tokenizer σ) (c : Config) {size : Nat} (size_pos : 0 < size)
    (text : Text) : t.chunksOf c size size_pos text =
      if text.blank then pure []
      else t.encode text >>= fun tokens => Loop.carry ⟨⟨c, t⟩, size, size_pos, tokens⟩ 0 [] 0 := by
  unfold chunksOf segmentsOf
  by_cases hb : text.blank = true
  · rw [if_pos hb, if_pos hb, pure_bind]
    rfl
  · rw [if_neg hb, if_neg hb, bind_assoc]
    refine bind_congr fun tokens => ?_
    rw [Loop.carry_eq]
    rfl

end TextChunks
