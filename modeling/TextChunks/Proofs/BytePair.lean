import Mathlib.Data.List.Infix
import TextChunks.Tokenizer.BytePair

namespace TextChunks.Encoding

variable {e : Encoding}

def Done (e : Encoding) (parts : List Bytes) : Prop :=
  ∀ a b, [a, b] <:+: parts → e.id? (a ++ b) = none

/-- In `l ++ a :: b :: r` the neighbours `a` and `b` are joined first: they have the lowest id, and
are the leftmost with that id. -/
def First (e : Encoding) (l : List Bytes) (a b : Bytes) (r : List Bytes) : Prop :=
  ∃ i, e.id? (a ++ b) = some i ∧
    (∀ x y j, [x, y] <:+: l ++ a :: b :: r → e.id? (x ++ y) = some j → i ≤ j) ∧
    ∀ x y, [x, y] <:+: l ++ [a] → e.id? (x ++ y) ≠ some i

theorem pair_infix_cons {x y a b : Bytes} {r : List Bytes} :
    [x, y] <:+: a :: b :: r ↔ (x = a ∧ y = b) ∨ [x, y] <:+: b :: r := by
  rw [List.infix_cons_iff]
  simp

theorem not_pair_infix_single {x y a : Bytes} : ¬[x, y] <:+: [a] := fun h => by
  have := h.length_le
  simp at this

theorem Done.of_isInfix {parts parts' : List Bytes} (h : e.Done parts) (hp : parts' <:+: parts) :
    e.Done parts' := fun a b hab => h a b (hab.trans hp)

def IsLowest (e : Encoding) (parts : List Bytes) : Option Nat → Prop
  | some i => (∃ a b, [a, b] <:+: parts ∧ e.id? (a ++ b) = some i) ∧
      ∀ x y j, [x, y] <:+: parts → e.id? (x ++ y) = some j → i ≤ j
  | none => e.Done parts

theorem lowest?_spec (parts : List Bytes) : e.IsLowest parts (e.lowest? parts) := by
  -- The first pair has an id and so does one after it, it alone has one, it has none, or no pair.
  fun_induction lowest? e parts with
  | case1 a b rest i j hj hi ih =>
    rw [hj] at ih
    obtain ⟨⟨c, d, hcd, hid⟩, hmin⟩ := ih
    refine ⟨?_, fun x y k hxy hk => ?_⟩
    · rcases Nat.le_total i j with hle | hle
      · exact ⟨a, b, pair_infix_cons.2 (.inl ⟨rfl, rfl⟩), by rw [hi, Nat.min_eq_left hle]⟩
      · exact ⟨c, d, pair_infix_cons.2 (.inr hcd), by rw [hid, Nat.min_eq_right hle]⟩
    · rcases pair_infix_cons.1 hxy with ⟨rfl, rfl⟩ | hxy
      · obtain rfl : i = k := by simpa [hi] using hk
        exact Nat.min_le_left i j
      · exact (Nat.min_le_right i j).trans (hmin x y k hxy hk)
  | case2 a b rest i hj hi ih =>
    rw [hj] at ih
    refine ⟨⟨a, b, pair_infix_cons.2 (.inl ⟨rfl, rfl⟩), hi⟩, fun x y k hxy hk => ?_⟩
    rcases pair_infix_cons.1 hxy with ⟨rfl, rfl⟩ | hxy
    · simp_all
    · simp [ih x y hxy] at hk
  | case3 a b rest hnone ih =>
    cases hrest : e.lowest? (b :: rest) with
    | none =>
      rw [hrest] at ih
      intro x y hxy
      rcases pair_infix_cons.1 hxy with ⟨rfl, rfl⟩ | hxy
      · exact hnone
      · exact ih x y hxy
    | some i =>
      rw [hrest] at ih
      obtain ⟨⟨c, d, hcd, hid⟩, hmin⟩ := ih
      refine ⟨⟨c, d, pair_infix_cons.2 (.inr hcd), hid⟩, fun x y k hxy hk => ?_⟩
      rcases pair_infix_cons.1 hxy with ⟨rfl, rfl⟩ | hxy
      · simp [hnone] at hk
      · exact hmin x y k hxy hk
  | case4 parts hparts =>
    intro x y hxy
    exfalso
    cases parts with
    | nil => simp at hxy
    | cons a parts =>
      cases parts with
      | nil => exact not_pair_infix_single hxy
      | cons b rest => exact hparts a b rest rfl

theorem joinAt_of_first {i : Nat} {a b : Bytes} (hab : e.id? (a ++ b) = some i) (r : List Bytes) :
    ∀ {l : List Bytes}, (∀ x y, [x, y] <:+: l ++ [a] → e.id? (x ++ y) ≠ some i) →
      e.joinAt i (l ++ a :: b :: r) = l ++ (a ++ b) :: r
  | [], _ => by simp [joinAt, hab]
  | [c], h => by
    have hc := h c a (List.infix_rfl)
    simp [joinAt, hab, hc]
  | c :: d :: l, h => by
    have hc := h c d (pair_infix_cons.2 (.inl ⟨rfl, rfl⟩))
    have ih := joinAt_of_first hab r (l := d :: l) fun x y hxy =>
      h x y (pair_infix_cons.2 (.inr hxy))
    simp only [List.cons_append] at ih ⊢
    rw [joinAt, if_neg hc, ih]

theorem exists_leftmost {i : Nat} : ∀ {parts : List Bytes},
    (∃ a b, [a, b] <:+: parts ∧ e.id? (a ++ b) = some i) →
      ∃ l a b r, parts = l ++ a :: b :: r ∧ e.id? (a ++ b) = some i ∧
        ∀ x y, [x, y] <:+: l ++ [a] → e.id? (x ++ y) ≠ some i
  | [], h => by simp at h
  | [c], ⟨a, b, h, _⟩ => absurd h not_pair_infix_single
  | c :: d :: rest, ⟨a, b, h, hab⟩ => by
    by_cases hcd : e.id? (c ++ d) = some i
    · exact ⟨[], c, d, rest, rfl, hcd, fun x y hxy => absurd hxy not_pair_infix_single⟩
    · have hrest : [a, b] <:+: d :: rest := by
        rcases pair_infix_cons.1 h with ⟨rfl, rfl⟩ | h
        · exact absurd hab hcd
        · exact h
      obtain ⟨l, a', b', r, hparts, hid, hleft⟩ := exists_leftmost ⟨a, b, hrest, hab⟩
      refine ⟨c :: l, a', b', r, by rw [hparts]; rfl, hid, fun x y hxy => ?_⟩
      cases l with
      | nil =>
        obtain ⟨rfl, -⟩ : d = a' ∧ rest = b' :: r := by simpa using hparts
        rcases pair_infix_cons.1 hxy with ⟨rfl, rfl⟩ | hxy
        · exact hcd
        · exact absurd hxy not_pair_infix_single
      | cons d' l =>
        obtain ⟨rfl, -⟩ : d = d' ∧ rest = l ++ a' :: b' :: r := by simpa using hparts
        rcases pair_infix_cons.1 hxy with ⟨rfl, rfl⟩ | hxy
        · exact hcd
        · exact hleft x y hxy

theorem join_of_done {parts : List Bytes} (h : e.Done parts) : e.join parts = parts := by
  have hspec := lowest?_spec (e := e) parts
  rw [join]
  split
  · next i hi =>
    rw [hi] at hspec
    obtain ⟨⟨a, b, hab, hid⟩, -⟩ := hspec
    simp [h a b hab] at hid
  · rfl

theorem First.join_eq {l : List Bytes} {a b : Bytes} {r : List Bytes} (h : e.First l a b r) :
    e.join (l ++ a :: b :: r) = e.join (l ++ (a ++ b) :: r) := by
  obtain ⟨i, hid, hmin, hleft⟩ := h
  have hspec := lowest?_spec (e := e) (l ++ a :: b :: r)
  have hpair : [a, b] <:+: l ++ a :: b :: r := ⟨l, r, by simp⟩
  conv_lhs => rw [join]
  split
  · next j hj =>
    rw [hj] at hspec
    obtain ⟨⟨x, y, hxy, hxyid⟩, hmin'⟩ := hspec
    obtain rfl : i = j := Nat.le_antisymm (hmin x y j hxy hxyid) (hmin' a b i hpair hid)
    rw [joinAt_of_first hid r hleft]
  · next hn =>
    rw [hn] at hspec
    simp [hspec a b hpair] at hid

/-- Either nothing is left to join, or some two neighbours are joined first. -/
theorem done_or_first (parts : List Bytes) :
    e.Done parts ∨ ∃ l a b r, parts = l ++ a :: b :: r ∧ e.First l a b r := by
  have hspec := lowest?_spec (e := e) parts
  cases hlow : e.lowest? parts with
  | none => exact .inl (by rwa [hlow] at hspec)
  | some i =>
    rw [hlow] at hspec
    obtain ⟨hex, hmin⟩ := hspec
    obtain ⟨l, a, b, r, rfl, hid, hleft⟩ := exists_leftmost hex
    exact .inr ⟨l, a, b, r, rfl, i, hid, hmin, hleft⟩

/-- What is joined first is joined first in every part of the row that holds it. -/
theorem First.of_append {p l : List Bytes} {a b : Bytes} {r q : List Bytes}
    (h : e.First (p ++ l) a b (r ++ q)) : e.First l a b r := by
  obtain ⟨i, hid, hmin, hleft⟩ := h
  refine ⟨i, hid, fun x y j hxy => hmin x y j (hxy.trans ⟨p, q, by simp⟩), fun x y hxy => ?_⟩
  exact hleft x y (hxy.trans ⟨p, [], by simp⟩)

/-- Rows of parts by the way they are joined: from those with nothing left to join, a join at a
time. -/
theorem joining {P : List Bytes → Prop} (done : ∀ parts, e.Done parts → P parts)
    (step : ∀ l a b r, e.First l a b r → P (l ++ (a ++ b) :: r) → P (l ++ a :: b :: r))
    (parts : List Bytes) : P parts := by
  induction hn : parts.length using Nat.strongRecOn generalizing parts with
  | _ n ih =>
    rcases done_or_first (e := e) parts with hd | ⟨l, a, b, r, rfl, hf⟩
    · exact done parts hd
    · exact step l a b r hf (ih _ (by rw [← hn]; simp) _ rfl)

theorem flatten_join (parts : List Bytes) : (e.join parts).flatten = parts.flatten := by
  induction parts using joining (e := e) with
  | done parts hd => rw [join_of_done hd]
  | step l a b r hf ih => rw [hf.join_eq, ih]; simp

theorem done_join (parts : List Bytes) : e.Done (e.join parts) := by
  induction parts using joining (e := e) with
  | done parts hd => rwa [join_of_done hd]
  | step l a b r hf ih => rwa [hf.join_eq]

/-- What holds of all parts of a row, and of every sequence of the vocabulary, holds of what is left
in the end. -/
theorem forall_mem_join {P : Bytes → Prop} (hid : ∀ bs i, e.id? bs = some i → P bs)
    {parts : List Bytes} (h : ∀ p ∈ parts, P p) : ∀ p ∈ e.join parts, P p := by
  induction parts using joining (e := e) with
  | done parts hd => rwa [join_of_done hd]
  | step l a b r hf ih =>
    rw [hf.join_eq]
    obtain ⟨i, hi, -⟩ := hf
    apply ih
    intro p hp
    rcases List.mem_append.1 hp with hp | hp
    · exact h p (by simp [hp])
    · rcases List.mem_cons.1 hp with rfl | hp
      · exact hid _ i hi
      · exact h p (by simp [hp])

/-- Two neighbours in a row of two parts lie in the first, or in the second, or between them. -/
theorem append_eq_pair {p q l r : List Bytes} {a b : Bytes} (h : p ++ q = l ++ a :: b :: r) :
    (∃ m, p = l ++ a :: b :: m ∧ r = m ++ q) ∨ (p = l ++ [a] ∧ q = b :: r) ∨
      ∃ m, l = p ++ m ∧ q = m ++ a :: b :: r := by
  rcases List.append_eq_append_iff.1 h with ⟨m, hl, hq⟩ | ⟨m, hp, hm⟩
  · exact .inr (.inr ⟨m, hl, hq⟩)
  · match m, hp, hm with
    | [], hp, hm => exact .inr (.inr ⟨[], by simpa using hp.symm, by simpa using hm.symm⟩)
    | [x], hp, hm =>
      obtain ⟨rfl, hq⟩ : a = x ∧ b :: r = q := by simpa using hm
      exact .inr (.inl ⟨hp, hq.symm⟩)
    | x :: y :: m, hp, hm =>
      obtain ⟨rfl, rfl, hr⟩ : a = x ∧ b = y ∧ r = m ++ q := by simpa using hm
      exact .inl ⟨m, hp, hr⟩

/-- A place between two parts that are left in the end splits the row into two that are joined
apart. -/
theorem exists_of_join_eq_append {parts P Q : List Bytes} (h : e.join parts = P ++ Q) :
    ∃ p q, parts = p ++ q ∧ e.join p = P ∧ e.join q = Q := by
  induction parts using joining (e := e) with
  | done parts hd =>
    rw [join_of_done hd] at h
    subst h
    exact ⟨P, Q, rfl, join_of_done (hd.of_isInfix (List.prefix_append P Q).isInfix),
      join_of_done (hd.of_isInfix (List.suffix_append P Q).isInfix)⟩
  | step l a b r hf ih =>
    rw [hf.join_eq] at h
    obtain ⟨p, q, hpq, hp, hq⟩ := ih h
    -- The joined pair lies on one side of the place, where it is joined first as well.
    rcases List.append_eq_append_iff.1 hpq with ⟨m, rfl, hm⟩ | ⟨m, rfl, rfl⟩
    · cases m with
      | nil =>
        rw [List.nil_append] at hm
        subst hm
        refine ⟨l, a :: b :: r, by simp, by simpa using hp, ?_⟩
        rw [← hq]
        exact First.join_eq (l := []) (First.of_append (p := l) (q := []) (by simpa using hf))
      | cons x m =>
        obtain ⟨rfl, rfl⟩ : a ++ b = x ∧ r = m ++ q := by simpa using hm
        refine ⟨l ++ a :: b :: m, q, by simp, ?_, hq⟩
        rw [← hp]
        exact First.join_eq (First.of_append (p := []) (by simpa using hf))
    · refine ⟨p, m ++ a :: b :: r, by simp, hp, ?_⟩
      rw [← hq]
      exact First.join_eq (First.of_append (p := p) (q := []) (by simpa using hf))

def neighbours (e : Encoding) : List (UInt8 × UInt8) := e.merges.flatMap fun m => m.zip m.tail

theorem mem_neighbours {m : Bytes} (hm : m ∈ e.merges) {u v : UInt8} (h : [u, v] <:+: m) :
    (u, v) ∈ e.neighbours := by
  refine List.mem_flatMap.2 ⟨m, hm, ?_⟩
  obtain ⟨x, y, rfl⟩ := h
  clear hm
  induction x with
  | nil => simp
  | cons c x ih => cases x <;> simp_all

/-- No merge holds `u` with `v` right after it. -/
def Apart (e : Encoding) (u v : UInt8) : Prop := (u, v) ∉ e.neighbours

theorem mem_merges {bs : Bytes} {i : Nat} (h : e.id? bs = some i) :
    (∃ b, bs = [b]) ∨ bs ∈ e.merges := by
  unfold id? at h
  split at h
  · next b => exact .inl ⟨b, rfl⟩
  · obtain ⟨k, hk, -⟩ := Option.map_eq_some_iff.1 h
    obtain ⟨hlt, hget, -⟩ := List.idxOf?_eq_some_iff.1 hk
    exact .inr (hget ▸ List.getElem_mem hlt)

theorem ne_nil_of_joined {l r : List Bytes} {a c : Bytes} (h : ∀ p ∈ l ++ a :: c :: r, p ≠ []) :
    ∀ p ∈ l ++ (a ++ c) :: r, p ≠ [] := by
  intro p hp
  rcases List.mem_append.1 hp with hp | hp
  · exact h p (by simp [hp])
  · rcases List.mem_cons.1 hp with rfl | hp
    · simp [h a (by simp)]
    · exact h p (by simp [hp])

/-- Rows are joined apart where the bytes at the place between them never stand together in a
merge. -/
theorem join_append_of_apart {u v : UInt8} (huv : e.Apart u v) {row : List Bytes} :
    ∀ {p q : List Bytes} {x y : Bytes}, row = p ++ q → (∀ b ∈ row, b ≠ []) →
      p.flatten = x ++ [u] → q.flatten = v :: y → e.join row = e.join p ++ e.join q := by
  -- On the joins of the whole row: each lies on one side of the place, and the place stays.
  induction row using joining (e := e) with
  | done row hd =>
    rintro p q x y rfl - - -
    rw [join_of_done hd, join_of_done (hd.of_isInfix (List.prefix_append p q).isInfix),
      join_of_done (hd.of_isInfix (List.suffix_append p q).isInfix)]
  | step l a b r hf ih =>
    intro p q x y hrow hne hp hq
    have hne' := ne_nil_of_joined hne
    rw [hf.join_eq]
    rcases append_eq_pair hrow.symm with ⟨m, rfl, rfl⟩ | ⟨rfl, rfl⟩ | ⟨m, rfl, rfl⟩
    · rw [ih (p := l ++ (a ++ b) :: m) (by simp) hne' (by simpa using hp) hq]
      rw [First.join_eq (l := l) (r := m) (First.of_append (p := []) (by simpa using hf))]
    · -- A merge of the two neighbours would hold `u` with `v` right after it.
      exfalso
      obtain ⟨i, hi, -⟩ := hf
      have ha := hne a (by simp)
      have hb := hne b (by simp)
      obtain ⟨a', u', rfl⟩ : ∃ a' u', a = a' ++ [u'] :=
        ⟨_, _, (List.dropLast_concat_getLast ha).symm⟩
      obtain ⟨v', b', rfl⟩ := List.exists_cons_of_ne_nil hb
      obtain ⟨-, rfl⟩ : l.flatten ++ a' = x ∧ u' = u := by
        simpa [← List.append_assoc] using hp
      obtain ⟨rfl, -⟩ : v' = v ∧ b' ++ r.flatten = y := by simpa using hq
      rcases mem_merges hi with ⟨c, hc⟩ | hm
      · have := congrArg List.length hc
        simp only [List.length_append, List.length_cons, List.length_nil] at this
        omega
      · exact huv (mem_neighbours hm ⟨a', b', by simp⟩)
    · rw [ih (q := m ++ (a ++ b) :: r) (by simp) hne' hp (by simpa using hq)]
      rw [First.join_eq (l := m) (r := r) (First.of_append (p := p) (q := []) (by simpa using hf))]

/-- The row `L` is joined into `m`, which goes on with nothing, by joins that no join of its last
part with what may follow comes before. -/
inductive Absorbs (e : Encoding) (m : Bytes) : List Bytes → Prop where
  | single : (∀ d, d ≠ [] → e.id? (m ++ d) = none) → Absorbs e m [m]
  | step {L L' : List Bytes} {z : Bytes} {i : Nat} : e.lowest? (L ++ [z]) = some i →
      (∀ d j, d ≠ [] → e.id? (z ++ d) = some j → i ≤ j) → e.joinAt i (L ++ [z]) = L' →
      Absorbs e m L' → Absorbs e m (L ++ [z])

/-- What a row is joined into does not depend on what follows, if the row absorbs it. -/
theorem Absorbs.join_append {m : Bytes} {L : List Bytes} (h : e.Absorbs m L) {b : List Bytes}
    (hne : ∀ p ∈ b, p ≠ []) : e.join (L ++ b) = m :: e.join b := by
  induction h generalizing b with
  | single hnone =>
    -- What follows is joined on by itself, and gets shorter.
    induction hn : b.length using Nat.strongRecOn generalizing b with
    | _ n ih =>
      rcases done_or_first (e := e) ([m] ++ b) with hd | ⟨l, a, c, r, hrow, hf⟩
      · rw [join_of_done hd, join_of_done (hd.of_isInfix (List.suffix_append [m] b).isInfix)]
        rfl
      · rcases append_eq_pair hrow with ⟨x, hx, -⟩ | ⟨hm, rfl⟩ | ⟨x, rfl, rfl⟩
        · have := congrArg List.length hx
          simp at this
          omega
        · -- The row goes on with nothing.
          obtain ⟨i, hi, -⟩ := hf
          obtain ⟨rfl, rfl⟩ : l = [] ∧ m = a := by
            cases l with
            | nil => exact ⟨rfl, by simpa using hm⟩
            | cons x l => simp at hm
          simp [hnone c (hne c (by simp))] at hi
        · have hb : e.First x a c r := First.of_append (p := [m]) (q := []) (by simpa using hf)
          rw [hrow, hf.join_eq, List.append_assoc,
            ih _ (by rw [← hn]; simp) (ne_nil_of_joined hne) rfl, hb.join_eq]
  | @step L L' z i hlow hlast hjoinAt hrest ih =>
    -- The next join is the one of the step, or it lies in what follows.
    obtain ⟨⟨x, y, hxy, hid⟩, hmin⟩ := (hlow ▸ lowest?_spec (L ++ [z]) :)
    induction hn : b.length using Nat.strongRecOn generalizing b with
    | _ n ihb =>
      have hxy' : [x, y] <:+: L ++ [z] ++ b := hxy.trans (List.prefix_append _ _).isInfix
      rcases done_or_first (e := e) (L ++ [z] ++ b) with hd | ⟨l, a, c, r, hrow, hf⟩
      · simp [hd x y hxy'] at hid
      · rcases append_eq_pair hrow with ⟨t, hL, rfl⟩ | ⟨hL, rfl⟩ | ⟨t, rfl, rfl⟩
        · have hjoin := hf.join_eq
          obtain ⟨j, hj, hminj, hleft⟩ := hf
          have hac : [a, c] <:+: L ++ [z] := ⟨l, t, by rw [hL]; simp⟩
          obtain rfl : i = j := Nat.le_antisymm (hmin a c j hac hj) (hminj x y i (hrow ▸ hxy') hid)
          rw [hL, joinAt_of_first hj t hleft] at hjoinAt
          rw [hrow, hjoin, ← ih hne, ← hjoinAt, List.append_assoc, List.cons_append]
        · -- A join over the end of the row would come after one inside it, which lies to its left.
          obtain ⟨j, hj, hminj, hleft⟩ := hf
          obtain ⟨-, hza⟩ := List.append_inj' hL rfl
          obtain rfl : z = a := by simpa using hza
          obtain rfl : i = j :=
            Nat.le_antisymm (hlast c j (hne c (by simp)) hj) (hminj x y i (hrow ▸ hxy') hid)
          exact absurd hid (hleft x y (hL ▸ hxy))
        · have hb : e.First t a c r := First.of_append (p := L ++ [z]) (q := []) (by simpa using hf)
          rw [hrow, hf.join_eq, List.append_assoc,
            ihb _ (by rw [← hn]; simp) (ne_nil_of_joined hne) rfl, hb.join_eq]

end TextChunks.Encoding
