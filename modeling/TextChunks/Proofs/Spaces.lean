import TextChunks.Proofs.Windows

namespace TextChunks.Encoding

variable {e : Encoding}

def goingOn (e : Encoding) (z : Bytes) : List Nat :=
  e.merges.zipIdx.filterMap fun p => if z.isPrefixOf p.1 && p.1 != z then some (256 + p.2) else none

theorem mem_goingOn {z d : Bytes} {j : Nat} (hz : z ≠ []) (hd : d ≠ [])
    (h : e.id? (z ++ d) = some j) :
    j ∈ e.goingOn z := by
  unfold id? at h
  split at h
  · next b hb =>
    have hlen := congrArg List.length hb
    have hz' := List.length_pos_iff.2 hz
    have hd' := List.length_pos_iff.2 hd
    rw [List.length_append, List.length_singleton] at hlen
    omega
  · obtain ⟨k, hk, rfl⟩ := Option.map_eq_some_iff.1 h
    obtain ⟨hlt, hget, -⟩ := List.idxOf?_eq_some_iff.1 hk
    have hmem : (z ++ d, k) ∈ e.merges.zipIdx :=
      List.mk_mem_zipIdx_iff_getElem?.2 (by rw [List.getElem?_eq_getElem hlt, hget])
    exact List.mem_filterMap.2 ⟨_, hmem, by simp [hd]⟩

def absorbs (e : Encoding) (m : Bytes) : Nat → List Bytes → Bool
  | 0, _ => false
  | n + 1, L =>
    match e.lowest? L, L.getLast? with
    | some i, some z => z != [] && (e.goingOn z).all (i ≤ ·) && e.absorbs m n (e.joinAt i L)
    | _, _ => m != [] && L == [m] && e.goingOn m == []

theorem absorbs_sound {m : Bytes} {n : Nat} {L : List Bytes} (h : e.absorbs m n L = true) :
    e.Absorbs m L := by
  induction n generalizing L with
  | zero => simp [absorbs] at h
  | succ n ih =>
    rw [absorbs] at h
    split at h
    · next i z hi hz =>
      simp only [Bool.and_eq_true, bne_iff_ne, ne_eq, List.all_eq_true, decide_eq_true_eq] at h
      obtain ⟨⟨hne, hall⟩, hrest⟩ := h
      obtain ⟨L, rfl⟩ := List.getLast?_eq_some_iff.1 hz
      exact .step hi (fun d j hd hj => hall j (mem_goingOn hne hd hj)) rfl (ih hrest)
    · simp only [Bool.and_eq_true, bne_iff_ne, ne_eq, beq_iff_eq] at h
      obtain ⟨⟨hne, rfl⟩, hnone⟩ := h
      apply Absorbs.single
      intro d hd
      cases hj : e.id? (m ++ d) with
      | none => rfl
      | some j =>
        have hmem := mem_goingOn hne hd hj
        simp [hnone] at hmem

theorem absorbs_the : cl100k.Absorbs [0x74, 0x68, 0x65] [[0x74], [0x68], [0x65]] :=
  absorbs_sound (n := 3) (by decide +kernel)

theorem absorbs_space_the :
    cl100k.Absorbs [0x20, 0x74, 0x68, 0x65] [[0x20], [0x74], [0x68], [0x65]] :=
  absorbs_sound (n := 4) (by decide +kernel)

theorem apart_t {v : UInt8} (hv : v ≠ 0x68) : cl100k.Apart 0x74 v := by
  have hall : ∀ p ∈ cl100k.neighbours, p.1 = 0x74 → p.2 = 0x68 :=
    forall_of_all (by rw [neighbours, merges_cl100k]; decide)
  exact fun hmem => hv (hall _ hmem rfl)

theorem apart_h {v : UInt8} (hv : v ≠ 0x65) : cl100k.Apart 0x68 v := by
  have hall : ∀ p ∈ cl100k.neighbours, p.1 = 0x68 → p.2 = 0x65 :=
    forall_of_all (by rw [neighbours, merges_cl100k]; decide)
  exact fun hmem => hv (hall _ hmem rfl)

/-- A space before `t` goes into the token of the `t`. -/
theorem length_parts_space_t (bs : Bytes) :
    (cl100k.parts (0x20 :: 0x74 :: bs)).length = (cl100k.parts (0x74 :: bs)).length := by
  have hmerge : ∀ m ∈ cl100k.merges, (cl100k.parts m).length = 1 := fun m hm => by
    rw [parts_merge _ mem_known_cl100k m hm, List.length_singleton]
  have hspacet : (cl100k.parts [0x20, 0x74]).length = 1 := hmerge _ (by rw [merges_cl100k]; decide)
  have hspaceth : (cl100k.parts [0x20, 0x74, 0x68]).length = 1 :=
    hmerge _ (by rw [merges_cl100k]; decide)
  have hth : (cl100k.parts [0x74, 0x68]).length = 1 := hmerge _ (by rw [merges_cl100k]; decide)
  have ht : (cl100k.parts [0x74]).length = 1 := by rw [parts_singleton, List.length_singleton]
  -- The merges that go on after `t` go on with `h`, and those after `th` with `e`.
  match bs with
  | [] => rw [hspacet, ht]
  | v :: bs =>
    by_cases hv : v = 0x68
    · subst hv
      match bs with
      | [] => rw [hspaceth, hth]
      | w :: bs =>
        by_cases hw : w = 0x65
        · subst hw
          have hne : ∀ p ∈ bs.map fun b => [b], p ≠ [] := by simp
          have hspace := absorbs_space_the.join_append hne
          have hplain := absorbs_the.join_append hne
          change (cl100k.join ([[0x20], [0x74], [0x68], [0x65]] ++ bs.map fun b => [b])).length =
            (cl100k.join ([[0x74], [0x68], [0x65]] ++ bs.map fun b => [b])).length
          rw [hspace, hplain, List.length_cons, List.length_cons]
        · have hspace := parts_append_of_apart (apart_h hw) [0x20, 0x74] bs
          have hplain := parts_append_of_apart (apart_h hw) [0x74] bs
          simp only [List.cons_append, List.nil_append] at hspace hplain
          rw [hspace, hplain, List.length_append, List.length_append, hspaceth, hth]
    · have hspace := parts_append_of_apart (apart_t hv) [0x20] bs
      have hplain := parts_append_of_apart (apart_t hv) [] bs
      simp only [List.cons_append, List.nil_append] at hspace hplain
      rw [hspace, hplain, List.length_append, List.length_append, hspacet, ht]

theorem absorbs_four_spaces :
    o200k.Absorbs [0x20, 0x20, 0x20, 0x20] [[0x20], [0x20], [0x20], [0x20]] :=
  absorbs_sound (n := 4) (by decide +kernel)

theorem DigitsApart.cons {c : Char} {s : Text} (h : e.DigitsApart s) (hc : c.isDigit = false) :
    e.DigitsApart (c :: s) := by
  intro a b hab ha hb
  rcases List.infix_cons_iff.1 hab with hpre | hinf
  · obtain ⟨rfl, -⟩ := List.cons_prefix_cons.1 hpre
    simp [hc] at ha
  · exact h a b hinf ha hb

theorem DigitsApart.append {x s : Text} (h : e.DigitsApart s) (hx : ∀ c ∈ x, c.isDigit = false) :
    e.DigitsApart (x ++ s) := by
  induction x with
  | nil => exact h
  | cons c x ih => exact (ih fun d hd => hx d (by simp [hd])).cons (hx c (by simp))

/-- A space before a text makes its tokens one more, or leaves their number as it is. -/
theorem length_tokens_space {s : Text} (h : cl100k.DigitsApart s) :
    (cl100k.tokens s).length ≤ (cl100k.tokens (' ' :: s)).length ∧
      (cl100k.tokens (' ' :: s)).length ≤ (cl100k.tokens s).length + 1 := by
  have hknown : cl100k ∈ known := mem_known_cl100k
  have hspace : (cl100k.tokens [' ']).length = 1 := length_tokens_of_ascii hknown (by decide)
  have hd : cl100k.DigitsApart (' ' :: s) := h.cons (by decide)
  cases s with
  | nil => rw [(tokens_eq_nil hknown).2 rfl, hspace]; simp
  | cons c s =>
    by_cases hc : c = 't'
    · subst hc
      have hletter : Text.isLetter 't' = true := by decide
      have hpos : 0 < Text.runLength Text.isLetter ('t' :: s) := by simp [Text.runLength, hletter]
      -- The run of letters is a piece by itself and with the space before it.
      generalize hn : Text.runLength Text.isLetter ('t' :: s) = n at hpos
      obtain ⟨n, rfl⟩ : ∃ k, n = k + 1 := ⟨n - 1, by omega⟩
      have hplain : cl100k.tokens ('t' :: s) =
          cl100k.parts (Text.toBytes ('t' :: s.take n)) ++ cl100k.tokensBy oneDigit (s.drop n) := by
        rw [tokens_cl100k h, tokensBy, Text.pieces_cons, oneDigit_of_isLetter hletter, hn]
        rfl
      have hafter : cl100k.tokens (' ' :: 't' :: s) =
          cl100k.parts (Text.toBytes (' ' :: 't' :: s.take n)) ++
            cl100k.tokensBy oneDigit (s.drop n) := by
        rw [tokens_cl100k hd, tokensBy, Text.pieces_cons, oneDigit_space, hn]
        rfl
      have hparts := length_parts_space_t (Text.toBytes (s.take n))
      rw [hplain, hafter, List.length_append, List.length_append]
      change (cl100k.parts (0x74 :: Text.toBytes (s.take n))).length + _ ≤
        (cl100k.parts (0x20 :: 0x74 :: Text.toBytes (s.take n))).length + _ ∧ _
      change _ ∧ (cl100k.parts (0x20 :: 0x74 :: Text.toBytes (s.take n))).length + _ ≤
        (cl100k.parts (0x74 :: Text.toBytes (s.take n))).length + _ + 1
      omega
    · -- A space is joined with no character but `t`.
      have hall : ∀ p ∈ cl100k.neighbours, p.1 = 0x20 → p.2 = 0x74 :=
        forall_of_all (by rw [neighbours, merges_cl100k]; decide)
      have happ := tokens_append_of_pairs hknown (s := []) hd fun p hp hlast hhead => by
        have hp' := hall p hp (Option.some.inj hlast).symm
        exact hc (Text.eq_of_head hhead (by rw [hp']; decide) |>.trans (by rw [hp']; decide))
      rw [List.nil_append, List.singleton_append] at happ
      rw [happ, List.length_append, hspace]
      omega

/-- The text `x` before another makes one token more at most. -/
def Light (e : Encoding) (x : Text) : Prop :=
  ∀ y, e.DigitsApart y → (e.tokens (x ++ y)).length ≤ (e.tokens y).length + 1

theorem light_space_cl100k : cl100k.Light [' '] := fun _ hy => (length_tokens_space hy).2

/-- A character that is not joined with what follows makes one token more. -/
theorem light_of_apart (he : e ∈ known) {c : Char} (hc : c.toNat < 0x80)
    (hdigit : c.isDigit = false) (h : ∀ p ∈ e.neighbours, p.1 ≠ c.toNat.toUInt8) :
    e.Light [c] := by
  have hone := length_tokens_of_ascii he hc
  intro y hy
  cases y with
  | nil => simp [hone]
  | cons d y =>
    have hbytes : Text.charBytes c = [c.toNat.toUInt8] := by rw [Text.charBytes, if_pos hc]
    have happ := tokens_append_of_pairs he (s := []) (hy.cons hdigit) fun p hp hlast => by
      rw [hbytes] at hlast
      exact absurd (Option.some.inj hlast).symm (h p hp)
    rw [List.nil_append, List.singleton_append] at happ
    rw [List.singleton_append, happ, List.length_append, hone, Nat.add_comm]

theorem toBytes_spaces (n : Nat) : Text.toBytes (List.replicate n ' ') = List.replicate n 0x20 := by
  induction n with
  | zero => rfl
  | succ n ih =>
    rw [List.replicate_succ, List.replicate_succ, Text.toBytes_cons, ih]
    rfl

/-- Spaces are one piece. -/
theorem tokens_spaces (n : Nat) :
    o200k.tokens (List.replicate n ' ') = o200k.parts (List.replicate n 0x20) := by
  cases n with
  | zero =>
    rw [List.replicate_zero, List.replicate_zero, parts_nil]
    exact (tokens_eq_nil mem_known_o200k).2 rfl
  | succ n =>
    have hpieces : o200k.pieces (List.replicate (n + 1) ' ') = [List.replicate (n + 1) ' '] := by
      change Text.pieces (runOf _) _ = _
      rw [List.replicate_succ, Text.pieces_cons]
      simp [runOf, Text.runLength, ← List.replicate_succ]
    rw [tokens, hpieces, List.flatMap_singleton, toBytes_spaces]

theorem tokens_four_spaces (n : Nat) : o200k.tokens (List.replicate (n + 4) ' ') =
    [0x20, 0x20, 0x20, 0x20] :: o200k.tokens (List.replicate n ' ') := by
  rw [tokens_spaces, tokens_spaces]
  exact absorbs_four_spaces.join_append (b := (List.replicate n 0x20).map fun b => [b]) (by simp)

theorem length_tokens_few_spaces : ∀ n < 4, ∀ k ∈ [1, 2, 4],
    (o200k.tokens (List.replicate (k + n) ' ')).length ≤
      (o200k.tokens (List.replicate n ' ')).length + 1 := by
  decide +kernel

theorem length_tokens_spaces_add_le {k : Nat} (hk : k = 1 ∨ k = 2 ∨ k = 4) :
    ∀ n, (o200k.tokens (List.replicate (k + n) ' ')).length ≤
      (o200k.tokens (List.replicate n ' ')).length + 1
  | 0 | 1 | 2 | 3 => length_tokens_few_spaces _ (by decide) k (by simpa using hk)
  | n + 4 => by
    have ih := length_tokens_spaces_add_le hk n
    rw [← Nat.add_assoc, tokens_four_spaces, tokens_four_spaces, List.length_cons, List.length_cons]
    omega

theorem tokens_spaces_append {n : Nat} {z : Text} (h : o200k.DigitsApart z)
    (hz : z.head? ≠ some ' ') :
    o200k.tokens (List.replicate n ' ' ++ z) =
      o200k.tokens (List.replicate n ' ') ++ o200k.tokens z := by
  have hknown : o200k ∈ known := mem_known_o200k
  have hnil : o200k.tokens [] = [] := (tokens_eq_nil hknown).2 rfl
  cases n with
  | zero => rw [List.replicate_zero, hnil]; rfl
  | succ n =>
    cases z with
    | nil => rw [hnil]; simp
    | cons c z =>
      have hall : ∀ p ∈ o200k.neighbours, p.1 = 0x20 → p.2 = 0x20 :=
        forall_of_all (by rw [neighbours, merges_o200k]; decide)
      have hd : o200k.DigitsApart (List.replicate n ' ' ++ [' '] ++ c :: z) := by
        rw [← List.replicate_succ']
        apply h.append
        intro d hd
        rw [List.eq_of_mem_replicate hd]
        decide
      rw [List.replicate_succ']
      refine tokens_append_of_pairs hknown hd fun p hp hlast hhead => hz ?_
      have hp' := hall p hp (Option.some.inj hlast).symm
      rw [List.head?_cons, Text.eq_of_head hhead (by rw [hp']; decide), hp']
      decide

theorem light_spaces_o200k {k : Nat} (hk : k = 1 ∨ k = 2 ∨ k = 4) :
    o200k.Light (List.replicate k ' ') := by
  intro y hy
  -- The spaces go before those that `y` starts with, and what is left of `y` is encoded apart.
  have hspaces : y.takeWhile (· == ' ') = List.replicate (y.takeWhile (· == ' ')).length ' ' :=
    List.eq_replicate_of_mem fun c hc => by simpa using List.mem_takeWhile_imp hc
  have hz : (y.dropWhile (· == ' ')).head? ≠ some ' ' := by
    intro h
    have hnot := List.head?_dropWhile_not (· == ' ') y
    rw [h] at hnot
    simp at hnot
  have hd : o200k.DigitsApart (y.dropWhile (· == ' ')) :=
    hy.of_isInfix (List.dropWhile_suffix _).isInfix
  have hle := length_tokens_spaces_add_le hk (y.takeWhile (· == ' ')).length
  conv_lhs => rw [← List.takeWhile_append_dropWhile (p := (· == ' ')) (l := y), hspaces,
    ← List.append_assoc, List.replicate_append_replicate, tokens_spaces_append hd hz]
  conv_rhs => rw [← List.takeWhile_append_dropWhile (p := (· == ' ')) (l := y), hspaces,
    tokens_spaces_append hd hz]
  rw [List.length_append, List.length_append]
  omega

end TextChunks.Encoding
