import TextChunks.Tokenizer.Pieces

namespace TextChunks

/-- The ids from 256 on belong to the sequences of `merges`, in their order, and the one after them to
the special marker; the ids below are the single bytes. -/
structure Encoding where
  name : Text
  pieces : Text → List Text
  merges : List Bytes
  special : Text

namespace Encoding

def id? (e : Encoding) : Bytes → Option Nat
  | [b] => some b.toNat
  | bs => (e.merges.idxOf? bs).map (256 + ·)

def lowest? (e : Encoding) : List Bytes → Option Nat
  | a :: b :: rest =>
    match e.id? (a ++ b), e.lowest? (b :: rest) with
    | some i, some j => some (min i j)
    | some i, none => some i
    | none, j => j
  | _ => none

def joinAt (e : Encoding) (i : Nat) : List Bytes → List Bytes
  | a :: b :: rest =>
    if e.id? (a ++ b) = some i then (a ++ b) :: rest else a :: e.joinAt i (b :: rest)
  | parts => parts

theorem length_joinAt_lt (e : Encoding) {i : Nat} {parts : List Bytes}
    (h : e.lowest? parts = some i) : (e.joinAt i parts).length < parts.length := by
  fun_induction lowest? e parts generalizing i with
  | case1 a b rest j k hk hj ih =>
    simp only [joinAt]
    split
    · simp
    · next hne =>
      obtain rfl : min j k = i := Option.some.inj h
      have hlt : k < j := by
        by_cases hjk : j ≤ k
        · exact absurd (by rw [hj, Nat.min_eq_left hjk]) hne
        · omega
      have := ih (i := min j k) (by rw [hk, Nat.min_eq_right (Nat.le_of_lt hlt)])
      simpa using this
  | case2 a b rest j hk hj ih =>
    obtain rfl : j = i := Option.some.inj h
    simp [joinAt, hj]
  | case3 a b rest hnone ih =>
    simp only [joinAt, hnone]
    simpa using ih h
  | case4 => simp at h

def join (e : Encoding) (parts : List Bytes) : List Bytes :=
  match _h : e.lowest? parts with
  | some i => e.join (e.joinAt i parts)
  | none => parts
termination_by parts.length
decreasing_by exact e.length_joinAt_lt _h

/-- The ids of one piece: that of the whole if it has one, else those of its joined bytes. -/
def pieceIds (e : Encoding) (piece : Text) : List Nat :=
  let bs := piece.toBytes
  match e.id? bs with
  | some i => [i]
  | none => (e.join (bs.map fun b => [b])).filterMap e.id?

def ids (e : Encoding) (s : Text) : List Nat := (e.pieces s).flatMap e.pieceIds

def bytes? (e : Encoding) (i : Nat) : Option Bytes :=
  if i < 256 then some [i.toUInt8]
  else if i = 256 + e.merges.length then some e.special.toBytes
  else e.merges[i - 256]?

def allBytes (e : Encoding) : List Nat → Except Failure Bytes
  | [] => .ok []
  | i :: rest =>
    match e.bytes? i with
    | some bs => (e.allBytes rest).map (bs ++ ·)
    | none => .error (.unknownToken i)

def tokenizer (e : Encoding) : Tokenizer σ where
  encode s := pure (e.ids s)
  decode is := Call.ofExcept ((e.allBytes is).map Bytes.toText)

end Encoding

end TextChunks
