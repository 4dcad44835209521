import TextChunks.Proofs.Reused
import TextChunks.Proofs.Segmentation

namespace TextChunks

namespace Tokenizer

def tick (m m' : Method) : Call Nat Unit := if m = m' then modify (· + 1) else pure ()

/-- The tokenizer of characters, with a count of the calls of one method. -/
def tallied (m : Method) : Tokenizer Nat where
  encode s := do tick m .encode; chars.encode s
  decode ts := do tick m .decode; chars.decode ts

end Tokenizer

def TokenizerUse.tally (m : Method) (use : TokenizerUse) : Nat := use.leaves (Tokenizer.tallied m) 0

def TokenizerUse.tallyAll (m : Method) : List TokenizerUse → Nat
  | [] => 0
  | use :: uses => use.tally m + tallyAll m uses

namespace Breaking

variable {b : Breaking} {n k : Nat}

def Allows (b : Breaking) (n : Nat) : Prop := n = 0 ∨ b.calls + n < b.start

instance : Decidable (b.Allows n) := inferInstanceAs (Decidable (_ ∨ _))

/-- The tokenizer after `n` more calls, or after the first of them that fails. -/
def spend (b : Breaking) (n : Nat) : Breaking :=
  { b with calls := if b.Allows n then b.calls + n else max b.start (b.calls + 1) }

/-- How `n` calls end that give `result` where none of them fails. -/
def outcome (b : Breaking) (result : Except Failure α) (n : Nat) : Except Failure α × Breaking :=
  (if b.Allows n then result else .error b.failure, b.spend n)

theorem allows_zero (b : Breaking) : b.Allows 0 := .inl rfl

theorem allows_iff (h : 0 < n) : b.Allows n ↔ b.calls + n < b.start :=
  or_iff_right (Nat.ne_of_gt h)

theorem spend_of_allows (h : b.Allows n) : b.spend n = { b with calls := b.calls + n } := by
  rw [spend, if_pos h]

theorem spend_of_not_allows (h : ¬b.Allows n) :
    b.spend n = { b with calls := max b.start (b.calls + 1) } := by
  rw [spend, if_neg h]

theorem spend_zero (b : Breaking) : b.spend 0 = b := spend_of_allows b.allows_zero

theorem outcome_zero (b : Breaking) (result : Except Failure α) : b.outcome result 0 = (result, b) := by
  rw [outcome, if_pos b.allows_zero, spend_zero]

theorem calls_le_spend (b : Breaking) (n : Nat) : b.calls ≤ (b.spend n).calls := by
  by_cases h : b.Allows n
  · rw [spend_of_allows h]
    exact Nat.le_add_right ..
  · rw [spend_of_not_allows h]
    exact Nat.le_trans (Nat.le_succ _) (Nat.le_max_right ..)

theorem start_le_spend (h : ¬b.Allows n) : b.start ≤ (b.spend n).calls := by
  rw [spend_of_not_allows h]
  exact Nat.le_max_left ..

theorem allows_add (h : b.Allows n) : (b.spend n).Allows k ↔ b.Allows (n + k) := by
  rw [spend_of_allows h]
  unfold Allows at h ⊢
  dsimp only
  omega

theorem not_allows_add (h : ¬b.Allows n) (k : Nat) : ¬b.Allows (n + k) := by
  unfold Allows at h ⊢
  omega

theorem spend_spend (h : b.Allows n) : (b.spend n).spend k = b.spend (n + k) := by
  by_cases hk : b.Allows (n + k)
  · rw [spend_of_allows ((allows_add h).2 hk), spend_of_allows hk, spend_of_allows h, Nat.add_assoc]
  · rw [spend_of_not_allows (mt (allows_add h).1 hk), spend_of_not_allows hk, spend_of_allows h]
    congr 1
    unfold Allows at h hk
    dsimp only
    omega

/-- A call that fails ends all that would have come after it. -/
theorem spend_add (h : ¬b.Allows n) (k : Nat) : b.spend (n + k) = b.spend n := by
  rw [spend_of_not_allows h, spend_of_not_allows (not_allows_add h k)]

theorem runIn_count (m : Method) (b : Breaking) :
    (count m).runIn b = b.outcome (.ok ()) (if b.method = m then 1 else 0) := by
  unfold count
  rw [Call.runIn_get_bind]
  by_cases hm : b.method = m
  · rw [if_pos hm, if_pos hm, Call.runIn_modify_bind, Call.runIn_get_bind, Call.runIn_get_bind]
    by_cases hstart : b.start ≤ b.calls + 1
    · have hnot : ¬b.Allows 1 := by unfold Allows; omega
      rw [if_pos hstart, outcome, if_neg hnot, spend_of_not_allows hnot, Nat.max_eq_right hstart]
      rfl
    · have hallows : b.Allows 1 := .inr (Nat.lt_of_not_le hstart)
      rw [if_neg hstart, outcome, if_pos hallows, spend_of_allows hallows]
      rfl
  · rw [if_neg hm, if_neg hm, outcome_zero]
    rfl

end Breaking

/-- The call `x` of a tokenizer that breaks ends as it has to by what the call `y` gives, and by how
many calls of the method `m` that counts. -/
def CutsOff (m : Method) (α : Type) (x : Call Breaking α) (y : Call Nat α) : Prop :=
  ∃ result n, (∀ k, y.runIn k = (result, k + n)) ∧
    ∀ b : Breaking, b.method = m → x.runIn b = b.outcome result n

/-- The call `y` gives what `x` gives, and counts as many calls wherever it starts to count. -/
def Tallies (α : Type) (x : Call Unit α) (y : Call Nat α) : Prop :=
  ∃ result n, x.runIn () = (result, ()) ∧ ∀ k, y.runIn k = (result, k + n)

theorem Tokenizer.runIn_tick (m m' : Method) (k : Nat) :
    (tick m m').runIn k = (.ok (), k + if m = m' then 1 else 0) := by
  unfold tick
  by_cases hm : m = m'
  · rw [if_pos hm, if_pos hm]
    rfl
  · rw [if_neg hm, if_neg hm]
    rfl

namespace CutsOff

variable {m : Method}

theorem ofExcept (e : Except Failure α) : CutsOff m α (Call.ofExcept e) (Call.ofExcept e) := by
  refine ⟨e, 0, fun k => rfl, fun b _ => ?_⟩
  rw [Breaking.outcome_zero]
  rfl

theorem count (m m' : Method) : CutsOff m Unit (Breaking.count m') (Tokenizer.tick m m') := by
  refine ⟨.ok (), if m = m' then 1 else 0, Tokenizer.runIn_tick m m', ?_⟩
  rintro b rfl
  exact Breaking.runIn_count m' b

theorem bind {x : Call Breaking α} {y : Call Nat α} {f : α → Call Breaking β}
    {g : α → Call Nat β} (hx : CutsOff m α x y) (hf : ∀ a, CutsOff m β (f a) (g a)) :
    CutsOff m β (x >>= f) (y >>= g) := by
  obtain ⟨first, n, hy, hx⟩ := hx
  cases first with
  | error e =>
    refine ⟨.error e, n, fun k => by rw [Call.runIn_bind, hy], fun b hb => ?_⟩
    rw [Call.runIn_bind, hx b hb, Breaking.outcome, Breaking.outcome]
    by_cases h : b.Allows n
    · rw [if_pos h, if_pos h]
    · rw [if_neg h, if_neg h]
  | ok a =>
    obtain ⟨result, n', hg, hf⟩ := hf a
    refine ⟨result, n + n', fun k => ?_, fun b hb => ?_⟩
    · rw [Call.runIn_bind_ok (hy k), hg, Nat.add_assoc]
    · rw [Call.runIn_bind, hx b hb, Breaking.outcome, Breaking.outcome]
      by_cases h : b.Allows n
      · rw [if_pos h]
        dsimp only
        rw [hf _ (by exact hb), Breaking.outcome, Breaking.spend_spend h]
        simp only [Breaking.allows_add h]
        rfl
      · rw [if_neg h, if_neg (Breaking.not_allows_add h n'), Breaking.spend_add h]

theorem parallel (m : Method) :
    Tokenizer.Parallel (CutsOff m) Breaking.tokenizer (Tokenizer.tallied m) where
  ofExcept := ofExcept
  bind := bind
  encode text := (count m .encode).bind fun _ => ofExcept (.ok (Tokenizer.codes text))
  decode ids := (count m .decode).bind fun _ => ofExcept (Tokenizer.ofCodes ids)

end CutsOff

namespace Tallies

theorem ofExcept (e : Except Failure α) : Tallies α (Call.ofExcept e) (Call.ofExcept e) :=
  ⟨e, 0, rfl, fun _ => rfl⟩

theorem tick (m m' : Method) {x : Call Unit α} {y : Call Nat α} (h : Tallies α x y) :
    Tallies α x (do Tokenizer.tick m m'; y) := by
  obtain ⟨result, n, hx, hy⟩ := h
  refine ⟨result, (if m = m' then 1 else 0) + n, hx, fun k => ?_⟩
  rw [Call.runIn_bind_ok (Tokenizer.runIn_tick m m' k), hy, Nat.add_assoc]

theorem bind {x : Call Unit α} {y : Call Nat α} {f : α → Call Unit β} {g : α → Call Nat β}
    (hx : Tallies α x y) (hf : ∀ a, Tallies β (f a) (g a)) : Tallies β (x >>= f) (y >>= g) := by
  obtain ⟨first, n, hx, hy⟩ := hx
  cases first with
  | error e => exact ⟨.error e, n, by rw [Call.runIn_bind, hx], fun k => by rw [Call.runIn_bind, hy]⟩
  | ok a =>
    obtain ⟨result, n', hf, hg⟩ := hf a
    refine ⟨result, n + n', by rw [Call.runIn_bind_ok hx, hf], fun k => ?_⟩
    rw [Call.runIn_bind_ok (hy k), hg, Nat.add_assoc]

theorem parallel (m : Method) :
    Tokenizer.Parallel Tallies Tokenizer.chars (Tokenizer.tallied m) where
  ofExcept := ofExcept
  bind := bind
  encode text := (ofExcept (.ok (Tokenizer.codes text))).tick m .encode
  decode ids := (ofExcept (Tokenizer.ofCodes ids)).tick m .decode

end Tallies

/-- What a tokenizer that breaks gives, from what the tokenizer of characters gives and how many calls
that makes. -/
theorem CutsOff.runIn_eq {x : Call Breaking α} {y : Call Nat α} {z : Call Unit α} {b : Breaking}
    (hx : CutsOff b.method α x y) (hz : Tallies α z y) :
    x.runIn b = b.outcome (z.runIn ()).1 (y.runIn 0).2 := by
  obtain ⟨result, n, hy, hx⟩ := hx
  obtain ⟨result', n', hz, hy'⟩ := hz
  have heq := (hy 0).symm.trans (hy' 0)
  rw [hx b rfl, hz, hy, (Prod.mk.inj heq).1, Nat.zero_add]

namespace Segment

def calls (gs : List Segment) : Method → Nat
  | .encode => gs.countP isWindow
  | .decode => gs.length

theorem calls_cons (g : Segment) (gs : List Segment) (m : Method) :
    calls (g :: gs) m = (if m = .decode ∨ g.isWindow = true then 1 else 0) + calls gs m := by
  cases m with
  | encode => simp [calls, List.countP_cons, Nat.add_comm]
  | decode => simp [calls, Nat.add_comm]

end Segment

namespace Tokenizer

variable {m : Method} {k k' : Nat}

theorem runIn_tallied_encode (m : Method) (text : Text) (k : Nat) :
    ((tallied m).encode text).runIn k = (.ok (codes text), k + if m = .encode then 1 else 0) :=
  Call.runIn_bind_ok (runIn_tick m .encode k) _

theorem runIn_tallied_decode (m : Method) (ids : List Nat) (k : Nat) :
    ((tallied m).decode ids).runIn k = (ofCodes ids, k + if m = .decode then 1 else 0) :=
  Call.runIn_bind_ok (runIn_tick m .decode k) _

/-- Each segment is decoded, and what is kept of a window is encoded anew. -/
theorem tally_segments {size : Nat} (size_pos : 0 < size) (minCut budget : Nat) (tokens : List Nat)
    {gs : List Segment}
    (h : ((tallied m).segments size size_pos minCut budget tokens).runIn k = (.ok gs, k')) :
    k' = k + Segment.calls gs m := by
  fun_induction Tokenizer.segments (tallied m) size size_pos minCut budget tokens
    generalizing k k' gs
  case case1 =>
    obtain ⟨hgs, rfl⟩ := Prod.mk.inj h
    obtain rfl := Except.ok.inj hgs
    cases m <;> rfl
  case case2 token rest =>
    obtain ⟨text, v, hdecode, h⟩ := Call.exists_of_runIn_bind h
    obtain ⟨-, rfl⟩ := Prod.mk.inj ((runIn_tallied_decode ..).symm.trans hdecode)
    obtain ⟨hgs, rfl⟩ := Prod.mk.inj h
    obtain rfl := Except.ok.inj hgs
    cases m <;> rfl
  case case3 budget token rest ihBlank ihWindow =>
    obtain ⟨window, v, hdecode, h⟩ := Call.exists_of_runIn_bind h
    obtain ⟨-, rfl⟩ := Prod.mk.inj ((runIn_tallied_decode ..).symm.trans hdecode)
    dsimp only at h
    split at h
    · obtain ⟨later, v, hlater, h⟩ := Call.exists_of_runIn_bind h
      obtain ⟨hgs, rfl⟩ := Prod.mk.inj h
      obtain rfl := Except.ok.inj hgs
      rw [ihBlank hlater, Segment.calls_cons, ← Nat.add_assoc]
      cases m <;> rfl
    · obtain ⟨used, v, hencode, h⟩ := Call.exists_of_runIn_bind h
      obtain ⟨-, rfl⟩ := Prod.mk.inj ((runIn_tallied_encode ..).symm.trans hencode)
      obtain ⟨later, v, hlater, h⟩ := Call.exists_of_runIn_bind h
      obtain ⟨hgs, rfl⟩ := Prod.mk.inj h
      obtain rfl := Except.ok.inj hgs
      rw [ihWindow used hlater, Segment.calls_cons, ← Nat.add_assoc]
      cases m <;> rfl

/-- Every chunk is encoded once for its record, up to the first one that has no hash or no identifier. -/
theorem tally_recordsFrom {c : Config} {document : Literal} {masked : Masked} {index : Nat}
    {chunks : List Text} (hchunks : ∀ s ∈ chunks, s ≠ []) {result : Except Failure (List ChunkRecord)}
    (h : ((tallied m).recordsFrom c document masked index chunks).runIn k = (result, k')) :
    k' = k + if m = .encode then (chunks.takeWhile (c.names document masked)).length else 0 := by
  induction chunks generalizing index k result with
  | nil =>
    obtain ⟨-, rfl⟩ := Prod.mk.inj h
    cases m <;> rfl
  | cons chunk rest ih =>
    obtain ⟨hchunk, hrest⟩ := List.forall_mem_cons.1 hchunks
    rw [recordsFrom, Call.runIn_ofExcept_bind] at h
    rw [List.takeWhile_cons]
    cases hname : nameOf c document index (masked.reveal chunk) with
    | error f =>
      have hnot : c.names document masked chunk = false := by
        rw [Bool.eq_false_iff, Ne, Config.names_iff index, hname]
        rintro ⟨name, hname⟩
        cases hname
      rw [hname] at h
      obtain ⟨-, rfl⟩ := Prod.mk.inj h
      rw [hnot]
      cases m <;> rfl
    | ok name =>
      have hcount : ((tallied m).count chunk).runIn k =
          (.ok (codes chunk).length, k + if m = .encode then 1 else 0) := by
        unfold Tokenizer.count
        rw [if_neg (by simpa using hchunk), Call.runIn_bind_ok (runIn_tallied_encode ..)]
        rfl
      rw [hname] at h
      dsimp only at h
      rw [Call.runIn_bind_ok hcount, Call.runIn_bind_pure] at h
      rw [ih hrest (Prod.ext rfl (Prod.mk.inj h).2), (Config.names_iff index).2 ⟨name, hname⟩]
      cases m with
      | encode => simp; omega
      | decode => rfl

variable {c : Config} {size : Nat} {size_pos : 0 < size} {text : Text} {gs : List Segment}

theorem tally_segmentsOf (hb : text.blank = false)
    (hgs : (chars.segmentsOf c size size_pos text).runIn () = (.ok gs, ())) :
    ((tallied m).segmentsOf c size size_pos text).runIn k =
      (.ok gs, k + (if m = .encode then 1 else 0) + Segment.calls gs m) := by
  obtain ⟨result, n, hchars, htallied⟩ := (Tallies.parallel m).segmentsOf c size_pos text
  obtain ⟨rfl, -⟩ := Prod.mk.inj (hchars.symm.trans hgs)
  have hrun := htallied k
  have hsplit := hrun
  unfold segmentsOf at hsplit
  rw [hb, if_neg (by decide), Call.runIn_bind_ok (runIn_tallied_encode ..)] at hsplit
  rw [hrun, ← tally_segments _ _ _ _ hsplit]

theorem tally_chunksOf (hb : text.blank = false)
    (hgs : (chars.segmentsOf c size size_pos text).runIn () = (.ok gs, ())) :
    ((tallied m).chunksOf c size size_pos text).runIn k =
      (.ok (c.chunks gs), k + (if m = .encode then 1 else 0) + Segment.calls gs m) := by
  rw [chunksOf, Call.runIn_bind_ok (tally_segmentsOf hb hgs)]
  rfl

theorem runIn_chunksOf_blank (t : Tokenizer σ) (hb : text.blank = true) (s : σ) :
    (t.chunksOf c size size_pos text).runIn s = (.ok [], s) := by
  unfold chunksOf segmentsOf
  rw [if_pos hb]
  rfl

end Tokenizer

/-- The tokenizer of characters never fails to segment a text, and a text that is not blank has a
segment. -/
theorem Tokenizer.exists_segmentsOf_chars (c : Config) {size : Nat} (size_pos : 0 < size)
    {text : Text} (hb : text.blank = false) :
    ∃ gs, (chars.segmentsOf c size size_pos text).runIn () = (.ok gs, ()) ∧ gs ≠ [] := by
  obtain ⟨_, hrun, -⟩ := represents_chars.segmentsOf_runIn c size_pos text (s := ()) trivial
  refine ⟨_, hrun, ?_⟩
  unfold segmentsOfBy
  rw [hb, if_neg Bool.false_ne_true]
  apply segmentsBy_ne_nil
  rintro hnil
  obtain rfl := List.map_eq_nil_iff.1 hnil
  exact Bool.noConfusion hb

namespace TokenizerUse

variable {m : Method} {c : Config} {text : Text} {gs : List Segment} (hb : text.blank = false)

include hb

theorem tally_split {size : Int} {hsize : 0 < size.toNat}
    (hgs : (Tokenizer.chars.segmentsOf c size.toNat hsize text).runIn () = (.ok gs, ())) :
    (split c (some text) size).tally m = (if m = .encode then 1 else 0) + Segment.calls gs m := by
  rw [tally, leaves_split_some _ _ _ hsize, Tokenizer.tally_chunksOf hb hgs, Nat.zero_add]

theorem tally_records (document : Literal) (mask : Option Mask)
    (hgs : (Tokenizer.chars.segmentsOf c c.windowSize c.windowSize_pos text).runIn () =
      (.ok gs, ())) : (records c document (some ⟨text, mask⟩)).tally m =
        (if m = .encode then
          1 + ((c.chunks gs).takeWhile (c.names document ⟨text, mask⟩)).length else 0) +
          Segment.calls gs m := by
  have hchunks : ∀ s ∈ c.chunks gs, s ≠ [] := by
    intro s hs
    obtain ⟨g, -, hg⟩ := Config.exists_of_mem_chunks hs
    exact List.ne_nil_of_length_pos (Nat.zero_lt_of_lt (Segment.of_chunk? hg).2)
  obtain ⟨result, n, -, hrun⟩ :=
    (Tallies.parallel m).recordsFrom c document ⟨text, mask⟩ 0 (c.chunks gs)
  have hn := Tokenizer.tally_recordsFrom hchunks (hrun 0)
  have htally : (records c document (some ⟨text, mask⟩)).tally m =
      (((Tokenizer.tallied m).chunksOf c c.windowSize c.windowSize_pos text >>=
        (Tokenizer.tallied m).recordsFrom c document ⟨text, mask⟩ 0).runIn 0).2 := rfl
  rw [htally, Call.runIn_bind_ok (Tokenizer.tally_chunksOf hb hgs), hrun]
  cases m with
  | encode => simp only [if_true] at hn ⊢; omega
  | decode => simp at hn ⊢; omega

theorem tally_split_pos {size : Int} (hsize : 0 < size) : 0 < (split c (some text) size).tally m := by
  have size_pos : 0 < size.toNat := by omega
  obtain ⟨gs, hgs, hne⟩ := Tokenizer.exists_segmentsOf_chars c size_pos hb
  rw [tally_split hb hgs]
  cases m with
  | encode => exact Nat.add_pos_left Nat.one_pos _
  | decode => exact Nat.add_pos_right _ (List.length_pos_iff.2 hne)

/-- Records make the calls of a split and encode the chunks that have a hash and an identifier once more. -/
theorem tally_records_of_split (document : Literal) (mask : Option Mask)
    (hgs : (Tokenizer.chars.segmentsOf c c.windowSize c.windowSize_pos text).runIn () =
      (.ok gs, ())) : (records c document (some ⟨text, mask⟩)).tally m =
        (split c (some text) c.windowSize).tally m + if m = .encode then
          ((c.chunks gs).takeWhile (c.names document ⟨text, mask⟩)).length else 0 := by
  have hsplit : (split c (some text) c.windowSize).tally m =
      (if m = .encode then 1 else 0) + Segment.calls gs m :=
    tally_split hb hgs
  rw [tally_records hb document mask hgs, hsplit]
  cases m with
  | encode => exact Nat.add_right_comm ..
  | decode => rfl

end TokenizerUse

inductive TokenizerUse.Asks : TokenizerUse → Prop where
  | split {c : Config} {text : Text} {size : Int} :
      0 < size → text.blank = false → Asks (.split c (some text) size)
  | records {c : Config} {document : Literal} {masked : Masked} :
      masked.text.blank = false → Asks (.records c document (some masked))

def TokenizerUse.FailsWith (t : Tokenizer σ) (s : σ) (f : Failure) : TokenizerUse → Prop
  | .split c text size => ((Splitter.split ⟨c, t⟩ text size).run.run s).1 = .error (.tokenizer f)
  | .records c document text => ((t.records c document text).runIn s).1 = .error f
  | .encode text => ((t.encode text).runIn s).1 = .error f
  | .decode ids => ((t.decode ids).runIn s).1 = .error f

namespace Breaking

def after (b : Breaking) (uses : List TokenizerUse) : Breaking :=
  uses.foldl (TokenizerUse.leaves tokenizer) b

theorem runIn_records (b : Breaking) (c : Config) (document : Literal) (text : Option Masked) :
    (tokenizer.records c document text).runIn b =
      b.outcome ((Tokenizer.chars.records c document text).runIn ()).1
        ((TokenizerUse.records c document text).tally b.method) :=
  ((CutsOff.parallel b.method).records c document text).runIn_eq
    ((Tallies.parallel b.method).records c document text)

theorem run_split_some (b : Breaking) (c : Config) (text : Text) {size : Int}
    (hsize : 0 < size.toNat) : (Splitter.split ⟨c, tokenizer⟩ (some text) size).run.run b =
      Prod.map (Except.mapError .tokenizer) id
        (b.outcome ((Tokenizer.chars.chunksOf c size.toNat hsize text).runIn ()).1
          ((TokenizerUse.split c (some text) size).tally b.method)) := by
  rw [Splitter.run_split_some _ _ hsize, TokenizerUse.tally, TokenizerUse.leaves_split_some _ _ _ hsize]
  exact congrArg _ (((CutsOff.parallel b.method).chunksOf c hsize text).runIn_eq
    ((Tallies.parallel b.method).chunksOf c hsize text))

/-- Every use spends the calls that it would make of the tokenizer of characters. -/
theorem leaves_eq (b : Breaking) (use : TokenizerUse) :
    use.leaves tokenizer b = b.spend (use.tally b.method) := by
  cases use with
  | split c text size =>
    by_cases hsize : 0 < size.toNat
    · cases text with
      | some text =>
        change ((Splitter.split ⟨c, tokenizer⟩ (some text) size).run.run b).2 = _
        rw [run_split_some b c text hsize]
        rfl
      | none =>
        rw [TokenizerUse.tally, TokenizerUse.leaves_split_none _ _ _ hsize,
          TokenizerUse.leaves_split_none _ _ _ hsize, spend_zero]
    · rw [TokenizerUse.tally, TokenizerUse.leaves_split_size _ _ _ hsize,
        TokenizerUse.leaves_split_size _ _ _ hsize, spend_zero]
  | records c document text => exact congrArg Prod.snd (b.runIn_records c document text)
  | encode text =>
    exact congrArg Prod.snd (((CutsOff.parallel b.method).encode text).runIn_eq
      ((Tallies.parallel b.method).encode text))
  | decode ids =>
    exact congrArg Prod.snd (((CutsOff.parallel b.method).decode ids).runIn_eq
      ((Tallies.parallel b.method).decode ids))

/-- What a tokenizer that breaks gives next: the failure, if the call that fails first is among those
that the tokenizer of characters would have to answer, and else what that gives. -/
structure Gives (b : Breaking) : Prop where
  no_size : ∀ c text size, size ≤ 0 →
    (Splitter.split ⟨c, tokenizer⟩ text size).run.run b = (.error (.windowSize size), b)
  no_text : ∀ c (text : Option Text) size, 0 < size → text.all Text.blank = true →
    (Splitter.split ⟨c, tokenizer⟩ text size).run.run b = (.ok [], b)
  split : ∀ c text size, 0 < size → Text.blank text = false → ∃ chunks,
    (Splitter.split ⟨c, Tokenizer.chars⟩ (some text) size).run.run () = (.ok chunks, ()) ∧
    (Splitter.split ⟨c, tokenizer⟩ (some text) size).run.run b =
      let n := (TokenizerUse.split c (some text) size).tally b.method
      if b.calls + n < b.start then (.ok chunks, { b with calls := b.calls + n })
      else (.error (.tokenizer b.failure), { b with calls := max b.start (b.calls + 1) })
  no_records : ∀ c document (text : Option Masked), text.all (Text.blank ·.text) = true →
    (tokenizer.records c document text).runIn b = (.ok [], b)
  records : ∀ c document (masked : Masked), masked.text.blank = false → ∃ result,
    (Tokenizer.chars.records c document (some masked)).runIn () = (result, ()) ∧
    (tokenizer.records c document (some masked)).runIn b =
      let n := (TokenizerUse.records c document (some masked)).tally b.method
      if b.calls + n < b.start then (result, { b with calls := b.calls + n })
      else (.error b.failure, { b with calls := max b.start (b.calls + 1) })

theorem outcome_of_pos (b : Breaking) (result : Except Failure α) (hn : 0 < n) :
    b.outcome result n = if b.calls + n < b.start then (result, { b with calls := b.calls + n })
      else (.error b.failure, { b with calls := max b.start (b.calls + 1) }) := by
  rw [outcome]
  by_cases h : b.Allows n
  · rw [if_pos h, if_pos ((allows_iff hn).1 h), spend_of_allows h]
  · rw [if_neg h, if_neg (mt (allows_iff hn).2 h), spend_of_not_allows h]

theorem gives (b : Breaking) : b.Gives where
  no_size c text size hsize := Splitter.run_split_size _ b (by omega) text
  no_text c text size hsize hb := by
    have size_pos : 0 < size.toNat := by omega
    cases text with
    | none => exact Splitter.run_split_none _ b size_pos
    | some text =>
      rw [Splitter.run_split_some _ b size_pos, Tokenizer.runIn_chunksOf_blank _ hb]
      rfl
  split c text size hsize hb := by
    have size_pos : 0 < size.toNat := by omega
    obtain ⟨_, hchars, -⟩ :=
      Tokenizer.represents_chars.chunksOf_runIn c size_pos text (s := ()) trivial
    refine ⟨c.chunks (segmentsOfBy Text.singletons List.flatten c size.toNat size_pos text), ?_, ?_⟩
    · rw [Splitter.run_split_some _ _ size_pos, hchars]
      rfl
    · rw [b.run_split_some c text size_pos, hchars,
        b.outcome_of_pos _ (TokenizerUse.tally_split_pos hb hsize)]
      dsimp only
      split <;> rfl
  no_records c document text hb := by
    cases text with
    | none => rfl
    | some masked => exact Call.runIn_bind_ok (Tokenizer.runIn_chunksOf_blank _ hb b) _
  records c document masked hb := by
    obtain ⟨_, hchars, -⟩ :=
      Tokenizer.represents_chars.records_runIn c document masked (s := ()) trivial
    obtain ⟨gs, hgs, -⟩ := Tokenizer.exists_segmentsOf_chars c c.windowSize_pos hb
    have hpos : 0 < (TokenizerUse.records c document (some masked)).tally b.method := by
      rw [TokenizerUse.tally_records_of_split hb document masked.mask hgs]
      exact Nat.add_pos_left (TokenizerUse.tally_split_pos hb (Int.natCast_pos.2 c.windowSize_pos)) _
    exact ⟨_, hchars, by rw [b.runIn_records, hchars, b.outcome_of_pos _ hpos]⟩

/-- A use that has to call the tokenizer fails with it once its calls come to the first one that fails, and
else as it does under the tokenizer of characters. -/
theorem failsWith_iff {use : TokenizerUse} (h : use.Asks) {f : Failure} :
    use.FailsWith tokenizer b f ↔
      if b.calls + use.tally b.method < b.start then use.FailsWith Tokenizer.chars () f
      else f = b.failure := by
  cases h with
  | @split c text size hsize hb =>
    obtain ⟨chunks, hchars, hrun⟩ := b.gives.split c text size hsize hb
    change ((Splitter.split ⟨c, tokenizer⟩ (some text) size).run.run b).1 = _ ↔
      if _ then ((Splitter.split ⟨c, Tokenizer.chars⟩ (some text) size).run.run ()).1 = _ else _
    rw [hrun, hchars]
    by_cases h : b.calls + (TokenizerUse.split c (some text) size).tally b.method < b.start
    · simp [h]
    · simp [h, eq_comm]
  | @records c document masked hb =>
    obtain ⟨result, hchars, hrun⟩ := b.gives.records c document masked hb
    change ((tokenizer.records c document (some masked)).runIn b).1 = _ ↔
      if _ then ((Tokenizer.chars.records c document (some masked)).runIn ()).1 = _ else _
    rw [hrun, hchars]
    by_cases h : b.calls + (TokenizerUse.records c document (some masked)).tally b.method < b.start
    · simp [h]
    · simp [h, eq_comm]

/-- Uses change nothing but the count of calls, which they add to until one has to fail. -/
theorem exists_after (b : Breaking) (uses : List TokenizerUse) : ∃ calls,
    b.after uses = { b with calls := calls } ∧ b.calls ≤ calls ∧
      if b.calls + TokenizerUse.tallyAll b.method uses < b.start then
        calls = b.calls + TokenizerUse.tallyAll b.method uses
      else b.start ≤ calls := by
  induction uses generalizing b with
  | nil => exact ⟨b.calls, rfl, Nat.le_refl _, by simp [TokenizerUse.tallyAll]⟩
  | cons use uses ih =>
    obtain ⟨calls, hafter, hle, hcalls⟩ := ih (b.spend (use.tally b.method))
    refine ⟨calls, ?_, Nat.le_trans (b.calls_le_spend _) hle, ?_⟩
    · change (use.leaves tokenizer b).after uses = _
      rw [b.leaves_eq, hafter]
      rfl
    · change if (b.spend _).calls + TokenizerUse.tallyAll b.method uses < b.start then
        calls = (b.spend _).calls + TokenizerUse.tallyAll b.method uses
        else b.start ≤ calls at hcalls
      rw [TokenizerUse.tallyAll]
      by_cases h : b.Allows (use.tally b.method)
      · rw [spend_of_allows h, Nat.add_assoc] at hcalls
        exact hcalls
      · have hstart := start_le_spend h
        rw [if_neg (by omega)] at hcalls
        unfold Allows at h
        rwa [if_neg (by omega)]

theorem after_append_cons (b : Breaking) (history later : List TokenizerUse) (use : TokenizerUse) :
    b.after (history ++ use :: later) =
      ((b.after history).spend (use.tally (b.after history).method)).after later := by
  rw [← leaves_eq, after, List.foldl_append]
  rfl

/-- Once the tokenizer failed in a use, no later one succeeds that has to call it. -/
theorem failsWith_of_failsWith {b : Breaking} {use use' : TokenizerUse} (h : use.Asks)
    (h' : use'.Asks) {f : Failure} {history : List TokenizerUse}
    (hchars : ¬use.FailsWith Tokenizer.chars () f)
    (hf : use.FailsWith tokenizer (b.after history) f) (later : List TokenizerUse) :
    f = b.failure ∧ use'.FailsWith tokenizer (b.after (history ++ use :: later)) f := by
  obtain ⟨calls, hafter, -⟩ := b.exists_after history
  rw [failsWith_iff h] at hf
  have hstart : ¬(b.after history).calls + use.tally (b.after history).method <
      (b.after history).start := by
    intro hless
    rw [if_pos hless] at hf
    exact hchars hf
  rw [if_neg hstart] at hf
  obtain ⟨calls', hafter', hcalls', -⟩ :=
    exists_after ((b.after history).spend (use.tally (b.after history).method)) later
  -- The use that failed brought the count of calls to where they fail, and no later one takes any back.
  have hspend : (b.after history).start ≤
      ((b.after history).spend (use.tally (b.after history).method)).calls := by
    by_cases hallows : (b.after history).Allows (use.tally (b.after history).method)
    · rw [spend_of_allows hallows]
      exact Nat.le_of_not_lt hstart
    · exact start_le_spend hallows
  have hfailure : (b.after history).failure = b.failure := by rw [hafter]
  refine ⟨hf.trans hfailure, ?_⟩
  rw [after_append_cons, hafter', failsWith_iff h', if_neg]
  · exact hf
  · exact Nat.not_lt.2 (Nat.le_trans (Nat.le_trans hspend hcalls') (Nat.le_add_right ..))

end Breaking

namespace AnyTokenizer

/-- Among the tokenizers of any kind, the one that breaks makes the calls that it makes by itself. -/
theorem parallel_breaking : Tokenizer.Parallel
    (fun _ x y => ∀ b, y.runIn (.breaking b) = Prod.map id breaking (x.runIn b))
    Breaking.tokenizer tokenizer where
  ofExcept e b := rfl
  bind {_ _ x y f g} hx hf b := by
    rw [Call.runIn_bind, Call.runIn_bind, hx b]
    rcases x.runIn b with ⟨e | a, b'⟩
    · rfl
    · exact hf a b'
  encode text b := rfl
  decode ids b := rfl

theorem run_split_breaking (b : Breaking) (c : Config) (text : Option Text) (size : Int) :
    (Splitter.split ⟨c, tokenizer⟩ text size).run.run (.breaking b) =
      Prod.map id breaking ((Splitter.split ⟨c, Breaking.tokenizer⟩ text size).run.run b) := by
  by_cases hsize : 0 < size.toNat
  · cases text with
    | none => rw [Splitter.run_split_none _ _ hsize, Splitter.run_split_none _ _ hsize]; rfl
    | some text =>
      rw [Splitter.run_split_some _ _ hsize, Splitter.run_split_some _ _ hsize]
      dsimp only
      rw [parallel_breaking.chunksOf c hsize text b, Prod.map_map, Prod.map_map]
      rfl
  · rw [Splitter.run_split_size _ _ hsize, Splitter.run_split_size _ _ hsize]
    rfl

end AnyTokenizer

/-- Records of characters are those of all chunks, where each of them has a hash and an identifier, and
else the failure of the first that has none. -/
theorem Tokenizer.records_chars (c : Config) (document : Literal) {masked : Masked}
    (hb : masked.text.blank = false) : ∃ chunks result,
      (Splitter.split ⟨c, chars⟩ (some masked.text) c.windowSize).run.run () = (.ok chunks, ()) ∧
      (chars.records c document (some masked)).runIn () = (result, ()) ∧
      ((∃ records, result = .ok records) ↔
        ∀ chunk ∈ chunks, c.names document masked chunk = true) ∧
      (∀ f, result = .error f → ∃ before chunk later, chunks = before ++ chunk :: later ∧
        (∀ s ∈ before, c.names document masked s = true) ∧
        nameOf c document before.length (masked.reveal chunk) = .error f) ∧
      ∀ m, (TokenizerUse.records c document (some masked)).tally m =
        (TokenizerUse.split c (some masked.text) c.windowSize).tally m +
          if m = .encode then (chunks.takeWhile (c.names document masked)).length else 0 := by
  obtain ⟨gs, hgs, -⟩ := exists_segmentsOf_chars c c.windowSize_pos hb
  have hsize : 0 < (c.windowSize : Int).toNat := c.windowSize_pos
  have hchunks : (chars.chunksOf c _ hsize masked.text).runIn () = (.ok (c.chunks gs), ()) :=
    Call.runIn_bind_ok hgs _
  obtain ⟨_, hfrom, -⟩ :=
    represents_chars.recordsFrom_runIn c document masked (c.chunks gs) 0 (s := ()) trivial
  refine ⟨c.chunks gs, _, ?_, (Call.runIn_bind_ok hchunks _).trans hfrom, exists_recordsBy_iff, ?_,
    fun m => TokenizerUse.tally_records_of_split hb document masked.mask hgs⟩
  · rw [Splitter.run_split_some _ _ hsize, hchunks]
    rfl
  · intro f hf
    obtain ⟨before, chunk, later, hsplit, hbefore, herror⟩ := exists_of_recordsBy_error hf
    rw [Nat.zero_add] at herror
    exact ⟨before, chunk, later, hsplit, hbefore, herror⟩

/-- After any history of uses, a tokenizer that breaks gives what the tokenizer of characters gives, or
its failure once the calls so far and those to come reach the first that has to fail. Once it failed in a
use, it fails from then on. Records make the calls of a split and one more for each chunk, up to the first
chunk that has no hash or no identifier: there they fail by themselves. Among the tokenizers of any kind it
does the same. -/
theorem split_and_records_of_breaking (b : Breaking) (history : List TokenizerUse) :
    (b.after history).Gives ∧
    (∃ calls, b.after history = { b with calls := calls } ∧
      if b.calls + TokenizerUse.tallyAll b.method history < b.start then
        calls = b.calls + TokenizerUse.tallyAll b.method history
      else b.start ≤ calls) ∧
    (∀ (use use' : TokenizerUse) later f, use.Asks → use'.Asks →
      ¬use.FailsWith Tokenizer.chars () f →
      use.FailsWith Breaking.tokenizer (b.after history) f → f = b.failure ∧
        use'.FailsWith Breaking.tokenizer (b.after (history ++ use :: later)) f) ∧
    (∀ c document (masked : Masked), masked.text.blank = false → ∃ chunks result,
      (Splitter.split ⟨c, Tokenizer.chars⟩ (some masked.text) c.windowSize).run.run () =
        (.ok chunks, ()) ∧
      (Tokenizer.chars.records c document (some masked)).runIn () = (result, ()) ∧
      ((∃ records, result = .ok records) ↔
        ∀ chunk ∈ chunks, c.names document masked chunk = true) ∧
      (∀ f, result = .error f → ∃ before chunk later, chunks = before ++ chunk :: later ∧
        (∀ s ∈ before, c.names document masked s = true) ∧
        nameOf c document before.length (masked.reveal chunk) = .error f) ∧
      ∀ m, (TokenizerUse.records c document (some masked)).tally m =
        (TokenizerUse.split c (some masked.text) c.windowSize).tally m +
          if m = .encode then (chunks.takeWhile (c.names document masked)).length else 0) ∧
    (∀ b c text size,
      (Splitter.split ⟨c, AnyTokenizer.tokenizer⟩ text size).run.run (.breaking b) =
        Prod.map id .breaking ((Splitter.split ⟨c, Breaking.tokenizer⟩ text size).run.run b)) ∧
    ∀ b c document text, (AnyTokenizer.tokenizer.records c document text).runIn (.breaking b) =
      Prod.map id .breaking ((Breaking.tokenizer.records c document text).runIn b) := by
  refine ⟨(b.after history).gives, ?_, ?_, fun c document masked => Tokenizer.records_chars c document,
    AnyTokenizer.run_split_breaking,
    fun b c document text => AnyTokenizer.parallel_breaking.records c document text b⟩
  · obtain ⟨calls, hafter, -, hcalls⟩ := b.exists_after history
    exact ⟨calls, hafter, hcalls⟩
  · exact fun use use' later f h h' hchars hf =>
      Breaking.failsWith_of_failsWith h h' hchars hf later

/-- The third call to encode is the one for the record of the only chunk. -/
theorem split_and_records_of_breaking_third_call :
    let b : Breaking := ⟨.encode, 3, .raised .value "ValueError".toList "broken".toList, 0⟩
    let use := TokenizerUse.records {} (.text "d".toList) (some "One. Two".toList)
    ((Splitter.split ⟨{}, Breaking.tokenizer⟩ (some "One. Two".toList) 800).run.run b).1 =
      .ok ["One. Two".toList] ∧
    use.FailsWith Breaking.tokenizer b b.failure ∧
    (TokenizerUse.split {} (some "a".toList) 1).FailsWith Breaking.tokenizer
      (b.after (use :: [.decode [97], .split {} none 1])) b.failure := by
  intro b use
  have hfails : use.FailsWith Breaking.tokenizer b b.failure := by
    unfold TokenizerUse.FailsWith
    decide +kernel
  have hchars : ¬use.FailsWith Tokenizer.chars () b.failure := by
    unfold TokenizerUse.FailsWith
    decide +kernel
  refine ⟨by decide +kernel, hfails, ?_⟩
  exact ((split_and_records_of_breaking b []).2.2.1 use _ _ _ (.records (by decide))
    (.split (by decide) (by decide)) hchars hfails).2

/-- The third call to encode would be the one for the record of the only chunk, but this has a surrogate
and no hash. -/
theorem records_fail_before_third_call :
    let b : Breaking := ⟨.encode, 3, .raised .other "RuntimeError".toList "x".toList, 0⟩
    let masked := Masked.ofLiteral (.stray (.surrogate 0xD800 :: "bcdefgh".toList.map .scalar))
    ∃ chunk, ((Splitter.split ⟨{}, Tokenizer.chars⟩ (some masked.text) 800).run.run ()).1 =
        .ok [chunk] ∧
      b.start ≤ (TokenizerUse.split {} (some masked.text) 800).tally .encode + [chunk].length ∧
      ((Breaking.tokenizer.records {} (.text "d".toList) (some masked)).runIn b).1 =
        .error (.noUtf8 ⟨0, [.surrogate 0xD800]⟩) := by
  intro b masked
  exact ⟨masked.text, by decide +kernel, by decide +kernel, by decide +kernel⟩

end TextChunks
