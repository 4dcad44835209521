import TextChunks.Identifier
import TextChunks.Proofs.Utf8
import TextChunks.Proofs.Written

namespace TextChunks

/-- A character that what comes first does not hold stands after it. -/
theorem Text.exists_append_of_notMem {c : Char} {a s u v : Text} (ha : c ∉ a)
    (h : a ++ s = u ++ c :: v) : ∃ w, u = a ++ w ∧ s = w ++ c :: v := by
  rcases List.append_eq_append_iff.1 h with hw | ⟨w, rfl, hw⟩
  · exact hw
  · cases w with
    | nil => exact ⟨[], by simp, hw.symm⟩
    | cons d w =>
      obtain ⟨rfl, -⟩ := List.cons.inj hw
      simp at ha

/-- Where a brace stands in an escaped text, the quote right after the brace closes the text. -/
theorem Json.Escaped.eq_comma {a e r u v : Text} {c : Char} (he : Escaped e) (ha : '{' ∉ a)
    (hr : '{' ∉ r) (h : a ++ (e ++ '"' :: ',' :: r) = u ++ '{' :: '"' :: c :: v) : c = ',' := by
  obtain ⟨w, -, hw⟩ := Text.exists_append_of_notMem ha h
  rcases List.append_eq_append_iff.1 hw with ⟨x, -, hx⟩ | ⟨x, hx, hy⟩
  · have hmem : '{' ∈ '"' :: ',' :: r := by
      rw [hx]
      exact List.mem_append_right _ List.mem_cons_self
    simp [hr] at hmem
  · cases x with
    | nil => exact absurd (List.cons.inj hy).1 (by decide)
    | cons d x =>
      obtain ⟨rfl, hquote⟩ := List.cons.inj hy
      cases x with
      | nil => exact (List.cons.inj (List.cons.inj hquote).2).1
      | cons d x =>
        -- Inside the text the quote would have the brace before it, and no backslash.
        obtain ⟨rfl, -⟩ := List.cons.inj hquote
        have hlast := he (w ++ ['{']) x (by simpa using hx)
        simp at hlast

namespace Config

variable (c : Config)

def laterFields : List (Literal × Json) :=
  [("keep_separator", .bool c.keepLines), ("max_num_chunks", .int c.maxWindows),
    ("min_chunk_length_to_embed", .int c.minLength), ("min_chunk_size_chars", .int c.minCut)]

def canonicalFields : List (Literal × Json) :=
  ("chunk_size", .int c.windowSize) :: ("encoding", .ofText c.encoding) :: c.laterFields

theorem canonical_eq : c.canonical = '{' :: (Json.writeFields c.canonicalFields ++ ['}']) := rfl

/-- Every field is written once, in the order of the names. -/
theorem canonical_sorted : ∃ fs, c.canonical = Json.write (.record fs) ∧ fs.Perm c.fields ∧
    fs.Pairwise fun f g => f.1 < g.1 := by
  have hnames : ["chunk_size", "encoding", "keep_separator", "max_num_chunks",
      "min_chunk_length_to_embed", "min_chunk_size_chars"].Pairwise (· < ·) := by decide
  exact ⟨_, rfl, .cons _ (List.reverse_perm c.fields.tail), List.pairwise_map.1 hnames⟩

theorem canonical_injective : Function.Injective canonical := by
  intro c d h
  have hfields : c.canonicalFields = d.canonicalFields := by
    rw [canonical_eq, canonical_eq] at h
    refine Json.eq_of_writeFields ?_ (List.cons.inj h).2
    unfold canonicalFields laterFields
    exact .cons ⟨rfl, Json.separable_nat _ _⟩ (.cons ⟨rfl, Json.separable_text _ _⟩
      (.cons ⟨rfl, Json.separable_bool _ _⟩ (.cons ⟨rfl, Json.separable_nat _ _⟩
        (.cons ⟨rfl, Json.separable_nat _ _⟩ (.cons ⟨rfl, Json.separable_nat _ _⟩ .nil)))))
  cases c
  cases d
  simp only [canonicalFields, laterFields, List.cons.injEq, Prod.mk.injEq, Json.int.injEq,
    Json.bool.injEq, Json.ofText, Json.str.injEq, Literal.text.injEq, Int.natCast_inj, true_and,
    and_true] at hfields
  obtain ⟨rfl, rfl, rfl, rfl, rfl, rfl⟩ := hfields
  rfl

theorem brace_notMem_quote : ∀ k ∈ fieldNames, '{' ∉ Json.quote (.ofString k) := by decide

theorem brace_notMem_later : '{' ∉ Json.writeFields c.laterFields := by
  refine Json.brace_notMem_writeFields fun f hf => ?_
  simp only [laterFields, List.mem_cons, List.not_mem_nil, or_false] at hf
  rcases hf with rfl | rfl | rfl | rfl
  · exact ⟨brace_notMem_quote "keep_separator" (by decide), Json.brace_notMem_write_bool _⟩
  · exact ⟨brace_notMem_quote "max_num_chunks" (by decide), Json.brace_notMem_write_nat _⟩
  · exact ⟨brace_notMem_quote "min_chunk_length_to_embed" (by decide),
      Json.brace_notMem_write_nat _⟩
  · exact ⟨brace_notMem_quote "min_chunk_size_chars" (by decide), Json.brace_notMem_write_nat _⟩

/-- Inside the braces only the name of the encoding can hold a brace. -/
theorem exists_canonical_eq : ∃ a r : Text, '{' ∉ a ∧ '{' ∉ r ∧
    c.canonical = '{' :: (a ++ (c.encoding.flatMap Json.writeChar ++ '"' :: ',' :: r)) := by
  refine ⟨Json.quote "chunk_size" ++ ':' :: ' ' :: (Json.write (.int c.windowSize) ++
    ',' :: ' ' :: (Json.quote "encoding" ++ [':', ' ', '"'])),
    ' ' :: (Json.writeFields c.laterFields ++ ['}']), ?_, ?_, ?_⟩
  · have hsize := brace_notMem_quote "chunk_size" (by decide)
    have hencoding := brace_notMem_quote "encoding" (by decide)
    simp [hsize, hencoding, Json.brace_notMem_write_nat]
  · simp [c.brace_notMem_later]
  · have hlater : Json.writeFields (("encoding", .ofText c.encoding) :: c.laterFields) =
        Json.quote "encoding" ++ ':' :: ' ' :: (Json.write (.ofText c.encoding) ++
          ',' :: ' ' :: Json.writeFields c.laterFields) := Json.writeFields_cons _ _ _ _
    rw [canonical_eq, canonicalFields, Json.writeFields_cons, hlater, Json.write_ofText]
    simp only [List.append_assoc, List.cons_append, List.nil_append]

theorem exists_canonical_eq_cons : ∃ s, c.canonical = '{' :: '"' :: 'c' :: s := by
  have hname : Json.quote "chunk_size" = '"' :: 'c' :: (Json.quote "chunk_size").drop 2 := by decide
  rw [canonical_eq, canonicalFields, Json.writeFields_cons, hname]
  exact ⟨_, rfl⟩

/-- No written configuration ends in another one. -/
theorem eq_of_isSuffix {c d : Config} (h : c.canonical <:+ d.canonical) : c = d := by
  obtain ⟨m, hm⟩ := h
  cases m with
  | nil => exact canonical_injective hm
  | cons x m =>
    obtain ⟨a, r, ha, hr, hd⟩ := d.exists_canonical_eq
    obtain ⟨s, hc⟩ := c.exists_canonical_eq_cons
    rw [hd, hc, List.cons_append] at hm
    have hcomma := (Json.escaped_written d.encoding).eq_comma ha hr (List.cons.inj hm).2.symm
    exact absurd hcomma (by decide)

end Config

def Sha256.Collide (x y : Bytes) : Prop := x ≠ y ∧ hash x = hash y

theorem Sha256.hexOfText_inj {s t : Text} :
    hexOfText s = hexOfText t ↔ s = t ∨ Collide s.toBytes t.toBytes := by
  rw [hexOfText, hexOfText, Hex.ofBytes_injective.eq_iff, Collide, Text.toBytes_injective.ne_iff]
  constructor
  · exact fun h => (eq_or_ne s t).imp_right fun hne => ⟨hne, h⟩
  · rintro (rfl | ⟨-, h⟩)
    · rfl
    · exact h

theorem hashPayload_inj {c d : Config} {s t : Text} :
    hashPayload c s = hashPayload d t ↔ s = t ∧ c = d := by
  constructor
  · intro h
    have hc : c.canonical <:+ hashPayload d t := h ▸ List.suffix_append _ _
    have hd : d.canonical <:+ hashPayload d t := List.suffix_append _ _
    -- Both written configurations end the payload, so that one of them ends the other. Where the
    -- separators stand is of no use, since the texts and the names of encodings can hold them too.
    obtain rfl : c = d := by
      rcases List.suffix_or_suffix_of_suffix hc hd with hcd | hdc
      · exact Config.eq_of_isSuffix hcd
      · exact (Config.eq_of_isSuffix hdc).symm
    exact ⟨List.append_cancel_right (List.append_cancel_right h), rfl⟩
  · rintro ⟨rfl, rfl⟩
    rfl

/-- The payload of a chunk and its bytes determine the chunk's text and its configuration, and so
does the hash, unless SHA-256 collides on the two payloads. -/
theorem chunkHash_inj (c d : Config) (s t : Text) :
    (hashPayload c s = hashPayload d t ↔ s = t ∧ c = d) ∧
    ((hashPayload c s).toBytes = (hashPayload d t).toBytes ↔ s = t ∧ c = d) ∧
    (chunkHash c s = chunkHash d t ↔ (s = t ∧ c = d) ∨
      Sha256.Collide (hashPayload c s).toBytes (hashPayload d t).toBytes) := by
  refine ⟨hashPayload_inj, ?_, ?_⟩
  · rw [Text.toBytes_injective.eq_iff, hashPayload_inj]
  · rw [chunkHash, chunkHash, Sha256.hexOfText_inj, hashPayload_inj]

end TextChunks
