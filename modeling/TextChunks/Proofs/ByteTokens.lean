import TextChunks.Proofs.BytePair
import TextChunks.Proofs.PieceTables
import TextChunks.Proofs.Rows
import TextChunks.Proofs.Utf8

namespace TextChunks

namespace Encoding

variable {e : Encoding}

def parts (e : Encoding) (bs : Bytes) : List Bytes := e.join (bs.map fun b => [b])

def tokens (e : Encoding) (s : Text) : List Bytes := (e.pieces s).flatMap fun p => e.parts p.toBytes

@[simp] theorem flatten_parts (bs : Bytes) : (e.parts bs).flatten = bs := by
  rw [parts, flatten_join, ← List.flatMap_def, List.flatMap_singleton']

theorem parts_nil : e.parts [] = [] := join_of_done fun a b h => by simp at h

theorem parts_singleton (b : UInt8) : e.parts [b] = [[b]] :=
  join_of_done fun _ _ h => absurd h not_pair_infix_single

theorem flatten_flatMap_parts (ps : List Text) :
    (ps.flatMap fun p => e.parts p.toBytes).flatten = Text.toBytes ps.flatten := by
  induction ps with
  | nil => rfl
  | cons p ps ih => simp [ih]

theorem ne_nil_of_id? {bs : Bytes} {i : Nat} (hm : [] ∉ e.merges) (h : e.id? bs = some i) :
    bs ≠ [] := by
  rcases mem_merges h with ⟨b, rfl⟩ | h
  · simp
  · rintro rfl
    exact hm h

theorem ne_nil_of_mem_parts (hm : [] ∉ e.merges) {bs p : Bytes} (h : p ∈ e.parts bs) : p ≠ [] := by
  refine forall_mem_join (fun _ _ hi => ne_nil_of_id? hm hi) ?_ p h
  simp

theorem exists_id?_of_mem_parts {bs p : Bytes} (h : p ∈ e.parts bs) : ∃ i, e.id? p = some i := by
  refine forall_mem_join (P := fun p => ∃ i, e.id? p = some i) (fun _ i hi => ⟨i, hi⟩) ?_ p h
  rintro q hq
  obtain ⟨b, -, rfl⟩ := List.mem_map.1 hq
  exact ⟨b.toNat, rfl⟩

theorem parts_of_append {bs : Bytes} {P Q : List Bytes} (h : e.parts bs = P ++ Q) :
    e.parts P.flatten = P ∧ e.parts Q.flatten = Q := by
  obtain ⟨p, q, hpq, hp, hq⟩ := exists_of_join_eq_append h
  obtain ⟨x, y, rfl, rfl, rfl⟩ := List.map_eq_append_iff.1 hpq
  have hx : P.flatten = x := by rw [← hp]; exact flatten_parts x
  have hy : Q.flatten = y := by rw [← hq]; exact flatten_parts y
  exact ⟨by rw [hx]; exact hp, by rw [hy]; exact hq⟩

/-- Bytes that never stand together in a merge split what is joined. -/
theorem parts_append_of_apart {u v : UInt8} (h : e.Apart u v) (x y : Bytes) :
    e.parts ((x ++ [u]) ++ v :: y) = e.parts (x ++ [u]) ++ e.parts (v :: y) := by
  refine join_append_of_apart h (x := x) (y := y) (List.map_append ..) ?_ ?_ ?_
  · intro b hb
    obtain ⟨c, -, rfl⟩ := List.mem_map.1 hb
    simp
  · rw [← List.flatMap_def, List.flatMap_singleton']
  · rw [← List.flatMap_def, List.flatMap_singleton']

theorem bytes?_of_id? {bs : Bytes} {i : Nat} (h : e.id? bs = some i) : e.bytes? i = some bs := by
  unfold id? at h
  split at h
  · next b =>
    obtain rfl : b.toNat = i := by simpa using h
    simp [bytes?, b.toNat_lt]
  · obtain ⟨k, hk, rfl⟩ := Option.map_eq_some_iff.1 h
    obtain ⟨hlt, hget, -⟩ := List.idxOf?_eq_some_iff.1 hk
    rw [bytes?, if_neg (by omega), if_neg (by omega), Nat.add_sub_cancel_left,
      List.getElem?_eq_getElem hlt,
      hget]

theorem map_bytes?_filterMap_id? {ps : List Bytes} (h : ∀ p ∈ ps, ∃ i, e.id? p = some i) :
    (ps.filterMap e.id?).map e.bytes? = ps.map some := by
  induction ps with
  | nil => rfl
  | cons p ps ih =>
    obtain ⟨i, hi⟩ := h p (by simp)
    rw [List.filterMap_cons_some hi, List.map_cons, bytes?_of_id? hi,
      ih fun q hq => h q (by simp [hq])]
    rfl

/-- Where every merge is joined again from its bytes, the ids of a text stand for its tokens. -/
theorem map_bytes?_ids (hwhole : ∀ m ∈ e.merges, e.parts m = [m]) (s : Text) :
    (e.ids s).map e.bytes? = (e.tokens s).map some := by
  have hpiece : ∀ p : Text, (e.pieceIds p).map e.bytes? = (e.parts p.toBytes).map some := by
    intro p
    unfold pieceIds
    dsimp only
    split
    · next i hi =>
      have hparts : e.parts p.toBytes = [p.toBytes] := by
        rcases mem_merges hi with ⟨b, hb⟩ | hm
        · rw [hb, parts_singleton]
        · exact hwhole _ hm
      rw [hparts, List.map_singleton, bytes?_of_id? hi]
      rfl
    · exact map_bytes?_filterMap_id? fun q hq => exists_id?_of_mem_parts hq
  simp only [ids, tokens, List.flatMap_def, List.map_flatten, List.map_map]
  congr 1
  exact List.map_congr_left fun p _ => hpiece p

theorem allBytes_eq_flatten {is : List Nat} {ps : List Bytes} (h : is.map e.bytes? = ps.map some) :
    e.allBytes is = .ok ps.flatten := by
  induction is generalizing ps with
  | nil => simp_all [allBytes]
  | cons i is ih =>
    cases ps with
    | nil => simp at h
    | cons p ps =>
      simp only [List.map_cons, List.cons.injEq] at h
      simp [allBytes, h.1, ih h.2, Except.map]

def read (ts : List Bytes) : Text := Bytes.toText ts.flatten

theorem represents (hwhole : ∀ m ∈ e.merges, e.parts m = [m]) (l : LoadedEncoding)
    (hl : l.encoding = e) :
    Represents AnyTokenizer.tokenizer (· = .loaded l) (fun _ => e.bytes?) e.tokens read where
  encode_runIn := by
    rintro _ rfl text
    subst hl
    exact ⟨_, _, rfl, rfl, map_bytes?_ids hwhole text, fun _ _ h => h⟩
  decode_runIn := by
    rintro _ rfl ts as h
    subst hl
    change ((l.encoding.allBytes ts).map Bytes.toText, AnyTokenizer.loaded l) = _
    rw [allBytes_eq_flatten h]
    rfl

theorem length_ids (hwhole : ∀ m ∈ e.merges, e.parts m = [m]) (s : Text) :
    (e.ids s).length = (e.tokens s).length := by
  simpa using congrArg List.length (map_bytes?_ids hwhole s)

def tokensBy (e : Encoding) (next : Text → Nat) (s : Text) : List Bytes :=
  (s.pieces next).flatMap fun p => e.parts p.toBytes

section Divided

variable {next : Text → Nat}

theorem flatten_tokensBy (s : Text) : (e.tokensBy next s).flatten = s.toBytes := by
  rw [tokensBy, flatten_flatMap_parts, Text.flatten_pieces]

theorem ne_nil_of_mem_tokensBy (hm : [] ∉ e.merges) {s : Text} {p : Bytes}
    (h : p ∈ e.tokensBy next s) :
    p ≠ [] := by
  obtain ⟨q, -, hp⟩ := List.mem_flatMap.1 h
  exact ne_nil_of_mem_parts hm hp

/-- Two texts are encoded apart if that holds of every piece that the place between them may
divide. -/
theorem tokensBy_append (h : Text.Divisible next) {s t : Text}
    (hparts : ∀ p q : Text, p <:+ s → q <+: t → p ≠ [] → q ≠ [] →
      e.parts (p.toBytes ++ q.toBytes) = e.parts p.toBytes ++ e.parts q.toBytes) :
    e.tokensBy next (s ++ t) = e.tokensBy next s ++ e.tokensBy next t := by
  unfold tokensBy
  rcases h.pieces_append s t with heq | ⟨P, p, q, Q, hs, ht, heq⟩
  · rw [heq, List.flatMap_append]
  · have hp : p <:+ s := ⟨P.flatten, by rw [← @Text.flatten_pieces next s, hs]; simp⟩
    have hq : q <+: t := ⟨Q.flatten, by rw [← @Text.flatten_pieces next t, ht]; simp⟩
    have hp' : p ≠ [] := @Text.ne_nil_of_mem_pieces next s p (by rw [hs]; simp)
    have hq' : q ≠ [] := @Text.ne_nil_of_mem_pieces next t q (by rw [ht]; simp)
    rw [heq, hs, ht]
    simp [hparts p q hp hq hp' hq']

theorem tokensBy_append_of_apart (h : Text.Divisible next) {s t : Text} {x y : Bytes} {u v : UInt8}
    (huv : e.Apart u v) (hs : s.toBytes = x ++ [u]) (ht : t.toBytes = v :: y) :
    e.tokensBy next (s ++ t) = e.tokensBy next s ++ e.tokensBy next t := by
  apply tokensBy_append h
  rintro p q ⟨s', rfl⟩ ⟨t', rfl⟩ hp hq
  obtain ⟨x', u', hx⟩ : ∃ x' u', p.toBytes = x' ++ [u'] :=
    ⟨_, _, (List.dropLast_concat_getLast (mt Text.toBytes_eq_nil.1 hp)).symm⟩
  obtain ⟨v', y', hy⟩ := List.exists_cons_of_ne_nil (mt Text.toBytes_eq_nil.1 hq)
  rw [Text.toBytes_append, hx, ← List.append_assoc] at hs
  obtain ⟨-, hu⟩ := List.append_inj' hs rfl
  obtain rfl : u' = u := by simpa using hu
  obtain ⟨rfl, -⟩ : v' = v ∧ y' ++ Text.toBytes t' = y := by simpa [hy] using ht
  rw [hx, hy, parts_append_of_apart huv]

/-- A place between two tokens that falls between two characters splits the text there. -/
theorem tokensBy_of_append (hm : [] ∉ e.merges) (h : Text.Divisible next) {s t : Text}
    {B C : List Bytes} (hBC : e.tokensBy next (s ++ t) = B ++ C) (hB : B.flatten = s.toBytes) :
    e.tokensBy next s = B ∧ e.tokensBy next t = C := by
  have hne : ∀ {r : Text}, ∀ p ∈ e.tokensBy next r, p ≠ [] :=
    fun p hp => ne_nil_of_mem_tokensBy hm hp
  rcases h.pieces_append s t with heq | ⟨P, p, q, Q, hs, ht, heq⟩
  · have hst : e.tokensBy next s ++ e.tokensBy next t = B ++ C := by
      rw [← hBC, tokensBy, tokensBy, tokensBy, heq, List.flatMap_append]
    obtain ⟨rfl, rfl⟩ := eq_of_flatten_eq hne (fun b hb => hne b (by rw [hBC]; simp [hb])) hst
      (by rw [hB, flatten_tokensBy])
    exact ⟨rfl, rfl⟩
  · have hflat : s.toBytes = (P.flatMap fun p => e.parts p.toBytes).flatten ++ p.toBytes := by
      rw [← @flatten_tokensBy e next s, tokensBy, hs]
      simp
    have hall : (P.flatMap fun p => e.parts p.toBytes) ++
        (e.parts (p ++ q).toBytes ++ Q.flatMap fun p => e.parts p.toBytes) = B ++ C := by
      rw [← hBC, tokensBy, heq]
      simp
    -- The place lies among the tokens of the piece that it divides.
    obtain ⟨B', rfl, hB', hflat'⟩ := exists_append_of_flatten
      (fun b hb => by
        obtain ⟨r, -, hr⟩ := List.mem_flatMap.1 hb
        exact ne_nil_of_mem_parts hm hr) hall (hB.trans hflat)
    obtain ⟨C', hC', rfl, hflat''⟩ := exists_append_of_flatten
      (fun b hb => hne b (by rw [hBC]; simp [hb])) hB'.symm (x := q.toBytes) (by simp [hflat'])
    obtain ⟨hp, hq⟩ := parts_of_append hC'
    rw [hflat'] at hp
    rw [hflat''] at hq
    exact ⟨by rw [tokensBy, hs]; simp [hp], by rw [tokensBy, ht]; simp [hq]⟩

end Divided

end Encoding

end TextChunks
