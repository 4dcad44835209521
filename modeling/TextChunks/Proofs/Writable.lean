import Mathlib.Algebra.Group.Nat.Defs
import TextChunks.Document
import TextChunks.Proofs.Runs
import TextChunks.Record

namespace TextChunks

namespace Text

theorem length_ofNat_le_iff {n : Nat} : (ofNat n).length ≤ maxDigits ↔ n < 10 ^ maxDigits :=
  Nat.length_toDigits_le_iff (by decide) (by decide)

theorem isShort_iff {n : Nat} : isShort n = true ↔ n < 10 ^ maxDigits := by
  rw [isShort, decide_eq_true_iff, length_ofNat_le_iff]

theorem isShort_of_lt {n : Nat} (h : n < 10 ^ 100) : isShort n = true :=
  isShort_iff.2 (Nat.lt_of_lt_of_le h (Nat.pow_le_pow_right (by decide) (by decide)))

end Text

/-- No number has more digits than are read and written. -/
def Config.Short (c : Config) : Prop := ∀ n ∈ c.numbers, n < 10 ^ Text.maxDigits

namespace Config

variable {c : Config}

theorem all_isShort_iff : c.numbers.all Text.isShort = true ↔ c.Short := by
  rw [List.all_eq_true]
  exact forall₂_congr fun n _ => Text.isShort_iff

theorem short_of_lt (h : ∀ n ∈ c.numbers, n < 10 ^ 100) : c.Short :=
  fun n hn => Text.isShort_iff.1 (Text.isShort_of_lt (h n hn))

theorem written_of_short (h : c.Short) : c.written = .ok c.canonical :=
  if_pos (all_isShort_iff.2 h)

theorem written_of_not_short (h : ¬c.Short) : c.written = .error .longNumber :=
  if_neg (mt all_isShort_iff.1 h)

end Config

namespace Literal

theorem mapM_utf8_texts (texts : List Text) : (texts.map text).mapM utf8 = .ok texts := by
  induction texts with
  | nil => rfl
  | cons s rest ih =>
    rw [List.map_cons, List.mapM_cons, ih]
    rfl

theorem mapM_utf8_stray (texts : List Text) (points : List CodePoint) (later : List Literal) :
    (texts.map text ++ stray points :: later).mapM utf8 = .error (.of points) := by
  induction texts with
  | nil =>
    rw [List.map_nil, List.nil_append, List.mapM_cons]
    rfl
  | cons s rest ih =>
    rw [List.map_cons, List.cons_append, List.mapM_cons, ih]
    rfl

/-- Strings are texts up to the first one with a surrogate, if there is one. -/
theorem texts_or_stray (strings : List Literal) : (∃ texts : List Text, strings = texts.map text) ∨
    ∃ (texts : List Text) (points : List CodePoint) (later : List Literal),
      strings = texts.map text ++ stray points :: later := by
  induction strings with
  | nil => exact .inl ⟨[], rfl⟩
  | cons first rest ih =>
    cases first with
    | stray points => exact .inr ⟨[], points, rest, rfl⟩
    | text s =>
      rcases ih with ⟨texts, rfl⟩ | ⟨texts, points, later, rfl⟩
      · exact .inl ⟨s :: texts, rfl⟩
      · exact .inr ⟨s :: texts, points, later, rfl⟩

theorem mapM_char?_scalars (s : Text) : (s.map CodePoint.scalar).mapM CodePoint.char? = some s := by
  induction s with
  | nil => rfl
  | cons c s ih =>
    rw [List.map_cons, List.mapM_cons, ih]
    rfl

theorem mapM_char?_of_surrogate {points : List CodePoint} {n : Nat}
    (h : CodePoint.surrogate n ∈ points) : points.mapM CodePoint.char? = none := by
  induction points with
  | nil => exact absurd h List.not_mem_nil
  | cons p points ih =>
    rw [List.mapM_cons]
    rcases List.mem_cons.1 h with rfl | h
    · rfl
    · rw [ih h]
      cases p <;> rfl

end Literal

namespace Masked

variable {t : Masked} {piece : Text}

theorem reveal_of_isClear (h : t.isClear piece = true) : t.reveal piece = .text piece := by
  obtain ⟨text, mask | m⟩ := t
  · rfl
  · have hscalars : piece.map m.reveal = piece.map CodePoint.scalar := by
      apply List.map_congr_left
      intro c hc
      have hfree : m.contains c = false := by
        have hall := List.any_eq_false.1 (Bool.not_eq_true' _ ▸ h : piece.any m.contains = false) c hc
        exact Bool.eq_false_iff.2 hall
      rw [Mask.reveal, hfree]
      rfl
    change Literal.ofCodePoints (piece.map m.reveal) = _
    rw [hscalars, Literal.ofCodePoints, Literal.mapM_char?_scalars]

theorem exists_reveal_eq_stray (h : t.isClear piece = false) :
    ∃ points, t.reveal piece = .stray points := by
  obtain ⟨text, mask | m⟩ := t
  · exact nomatch h
  · obtain ⟨c, hc, hmasked⟩ := List.any_eq_true.1 (Bool.not_eq_false' _ ▸ h : piece.any m.contains = true)
    have hmem : CodePoint.surrogate (0xD800 + (c.toNat - m.start)) ∈ piece.map m.reveal := by
      refine List.mem_map.2 ⟨c, hc, ?_⟩
      rw [Mask.reveal, if_pos hmasked]
    refine ⟨piece.map m.reveal, ?_⟩
    change Literal.ofCodePoints (piece.map m.reveal) = _
    rw [Literal.ofCodePoints, Literal.mapM_char?_of_surrogate hmem]

theorem reveal_eq_text_iff {s : Text} :
    t.reveal piece = .text s ↔ t.isClear piece = true ∧ s = piece := by
  cases h : t.isClear piece with
  | true =>
    rw [reveal_of_isClear h, Literal.text.injEq]
    exact ⟨fun heq => ⟨rfl, heq.symm⟩, fun heq => heq.2.symm⟩
  | false =>
    obtain ⟨points, hreveal⟩ := exists_reveal_eq_stray h
    rw [hreveal]
    exact iff_of_false (fun heq => nomatch heq) fun heq => nomatch heq.1

end Masked

theorem hashOf_text {c : Config} (hc : c.Short) (s : Text) : hashOf c (.text s) = .ok (chunkHash c s) := by
  unfold hashOf
  rw [Config.written_of_short hc]
  rfl

theorem hashOf_eq_ok_iff {c : Config} {l : Literal} {hash : Text} :
    hashOf c l = .ok hash ↔ c.Short ∧ ∃ s, l = .text s ∧ hash = chunkHash c s := by
  by_cases hc : c.Short
  · cases l with
    | text s =>
      rw [hashOf_text hc, Except.ok.injEq]
      simp [hc, eq_comm]
    | stray points =>
      unfold hashOf
      rw [Config.written_of_short hc]
      exact iff_of_false (fun h => nomatch h) fun h => nomatch h.2.choose_spec.1
  · unfold hashOf
    rw [Config.written_of_not_short hc]
    exact iff_of_false (fun h => nomatch h) fun h => hc h.1

theorem nameOf_eq_ok_iff {c : Config} {document chunk : Literal} {index : Int} {name : ChunkName} :
    nameOf c document index chunk = .ok name ↔ c.Short ∧ ∃ d s, document = .text d ∧ chunk = .text s ∧
      name = ⟨chunkHash c s, chunkId d index (chunkHash c s)⟩ := by
  constructor
  · intro h
    obtain ⟨hash, hhash, h⟩ := exists_of_bind_ok h
    obtain ⟨hc, s, rfl, rfl⟩ := hashOf_eq_ok_iff.1 hhash
    cases document with
    | text d => exact ⟨hc, d, s, rfl, rfl, (Except.ok.inj h).symm⟩
    | stray points => exact nomatch h
  · rintro ⟨hc, d, s, rfl, rfl, rfl⟩
    rw [nameOf, hashOf_text hc]
    rfl

/-- Whether a chunk has a hash and an identifier. -/
def Config.names (c : Config) (document : Literal) (masked : Masked) (chunk : Text) : Bool :=
  c.numbers.all Text.isShort && !document.isStray && masked.isClear chunk

theorem Config.names_iff {c : Config} {document : Literal} {masked : Masked} {chunk : Text}
    (index : Int) : c.names document masked chunk = true ↔
      ∃ name, nameOf c document index (masked.reveal chunk) = .ok name := by
  simp only [nameOf_eq_ok_iff, Masked.reveal_eq_text_iff, names, Bool.and_eq_true, all_isShort_iff]
  constructor
  · rintro ⟨⟨hc, hdocument⟩, hclear⟩
    cases document with
    | text d => exact ⟨_, hc, d, chunk, rfl, ⟨hclear, rfl⟩, rfl⟩
    | stray points => exact nomatch hdocument
  · rintro ⟨name, hc, d, s, rfl, ⟨hclear, -⟩, -⟩
    exact ⟨⟨hc, rfl⟩, hclear⟩

theorem Config.names_text {c : Config} (hc : c.Short) (document text chunk : Text) :
    c.names document text chunk = true := by
  rw [names, all_isShort_iff.2 hc]
  rfl

end TextChunks
