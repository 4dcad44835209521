import TextChunks.Proofs.Windows

namespace TextChunks

namespace Encoding

def specialId (e : Encoding) : Nat := 256 + e.merges.length

variable {e : Encoding}

theorem bytes?_specialId : e.bytes? e.specialId = some e.special.toBytes := by
  unfold bytes? specialId
  rw [if_neg (by omega), if_pos rfl]

theorem lt_specialId_of_id? {bs : Bytes} {i : Nat} (h : e.id? bs = some i) : i < e.specialId := by
  unfold id? at h
  unfold specialId
  split at h
  · next b =>
    obtain rfl := Option.some.inj h
    exact Nat.lt_of_lt_of_le b.toNat_lt (Nat.le_add_right ..)
  · obtain ⟨k, hk, rfl⟩ := Option.map_eq_some_iff.1 h
    obtain ⟨hlt, -⟩ := List.idxOf?_eq_some_iff.1 hk
    exact Nat.add_lt_add_left hlt 256

/-- All tokens of a text are bytes or merges. -/
theorem lt_specialId_of_mem_ids {s : Text} {i : Nat} (h : i ∈ e.ids s) : i < e.specialId := by
  obtain ⟨p, -, hi⟩ := List.mem_flatMap.1 h
  unfold pieceIds at hi
  dsimp only at hi
  split at hi
  · next j hj =>
    rw [List.mem_singleton.1 hi]
    exact lt_specialId_of_id? hj
  · obtain ⟨bs, -, hbs⟩ := List.mem_filterMap.1 hi
    exact lt_specialId_of_id? hbs

theorem specialId_notMem_ids (s : Text) : e.specialId ∉ e.ids s :=
  fun h => Nat.lt_irrefl _ (lt_specialId_of_mem_ids h)

theorem allBytes_ids (he : e ∈ known) (s : Text) : e.allBytes (e.ids s) = .ok s.toBytes := by
  rw [allBytes_eq_flatten (map_bytes?_ids (parts_merge e he) s), flatten_tokens he]

theorem length_ids_eq_zero (he : e ∈ known) {s : Text} : (e.ids s).length = 0 ↔ s = [] := by
  rw [length_ids (parts_merge e he), List.length_eq_zero_iff, tokens_eq_nil he]

end Encoding

namespace LoadedEncoding

open AnyTokenizer

variable (l : LoadedEncoding)

theorem encode_runIn (s : Text) :
    (tokenizer.encode s).runIn (.loaded l) = (.ok (l.encoding.ids s), .loaded l) := rfl

theorem decode_runIn {ids : List Nat} {bs : Bytes} (h : l.encoding.allBytes ids = .ok bs) :
    (tokenizer.decode ids).runIn (.loaded l) = (.ok bs.toText, .loaded l) := by
  change ((l.encoding.allBytes ids).map Bytes.toText, AnyTokenizer.loaded l) = _
  rw [h]
  rfl

theorem decode_specialId :
    (tokenizer.decode [l.encoding.specialId]).runIn (.loaded l) =
      (.ok l.encoding.special, .loaded l) := by
  have hbytes : l.encoding.allBytes [l.encoding.specialId] = .ok l.encoding.special.toBytes := by
    rw [Encoding.allBytes, Encoding.bytes?_specialId]
    exact congrArg Except.ok (List.append_nil _)
  rw [decode_runIn l hbytes, Text.toText_toBytes]

variable {l} (hl : l.encoding ∈ Encoding.known)

include hl

theorem decode_ids (s : Text) :
    (tokenizer.decode (l.encoding.ids s)).runIn (.loaded l) = (.ok s, .loaded l) := by
  rw [decode_runIn l (Encoding.allBytes_ids hl s), Text.toText_toBytes]

theorem count_runIn (s : Text) :
    (tokenizer.count s).runIn (.loaded l) = (.ok (l.encoding.ids s).length, .loaded l) := by
  unfold Tokenizer.count
  split
  · next hs =>
    rw [List.isEmpty_iff.1 hs, (Encoding.length_ids_eq_zero hl).2 rfl]
    rfl
  · rw [Call.runIn_bind_pure, encode_runIn]
    rfl

end LoadedEncoding

end TextChunks
