import Mathlib.Data.List.Nodup
import TextChunks.Document
import TextChunks.Proofs.Calls
import TextChunks.Proofs.Payload
import TextChunks.Proofs.Runs
import TextChunks.Proofs.Writable

namespace TextChunks

/-- The last place of a character divides a text in one way only. -/
theorem Text.append_cons_inj {c : Char} {a b u v : Text} (ha : c ∉ a) (hb : c ∉ b) :
    u ++ c :: a = v ++ c :: b ↔ u = v ∧ a = b := by
  have hnil : ∀ {w a b : Text}, c ∉ a → c :: a = w ++ c :: b → w = [] := by
    intro w a b ha h
    cases w with
    | nil => rfl
    | cons x w =>
      rw [(List.cons.inj h).2] at ha
      exact absurd (List.mem_append_right w List.mem_cons_self) ha
  constructor
  · intro h
    rcases List.append_eq_append_iff.1 h with ⟨w, rfl, hw⟩ | ⟨w, rfl, hw⟩
    · obtain rfl := hnil ha hw
      exact ⟨(List.append_nil u).symm, (List.cons.inj hw).2⟩
    · obtain rfl := hnil hb hw
      exact ⟨List.append_nil v, (List.cons.inj hw).2.symm⟩
  · rintro ⟨rfl, rfl⟩
    rfl

namespace Text

theorem notMem_ofNat {c : Char} (hc : c.isDigit = false) (n : Nat) : c ∉ ofNat n := by
  intro hmem
  have hdigit := Nat.isDigit_of_mem_toDigits (by decide) (by decide) hmem
  rw [hc] at hdigit
  exact absurd hdigit (by decide)

theorem colon_notMem_ofInt (i : Int) : ':' ∉ ofInt i := by
  cases i with
  | ofNat n => exact notMem_ofNat (by decide) n
  | negSucc n =>
    rw [ofInt, List.mem_cons, not_or]
    exact ⟨by decide, notMem_ofNat (by decide) (n + 1)⟩

theorem ofInt_injective : Function.Injective ofInt := by
  have hsign : ∀ m n : Nat, ofNat m ≠ '-' :: ofNat n := by
    intro m n h
    exact notMem_ofNat (c := '-') (by decide) m (h ▸ List.mem_cons_self)
  intro i j h
  cases i with
  | ofNat m =>
    cases j with
    | ofNat n => rw [ofNat_injective h]
    | negSucc n => exact absurd h (hsign m (n + 1))
  | negSucc m =>
    cases j with
    | ofNat n => exact absurd h.symm (hsign n (m + 1))
    | negSucc n =>
      have hmn := ofNat_injective (List.cons.inj h).2
      rw [Nat.succ.inj hmn]

end Text

namespace Hex

theorem digit_ne_colon : ∀ n < 16, digit n ≠ ':' := by decide

theorem colon_notMem_padded (width n : Nat) : ':' ∉ padded width n := by
  induction width generalizing n with
  | zero => exact List.not_mem_nil
  | succ width ih =>
    rw [padded, List.mem_append, List.mem_singleton, not_or]
    exact ⟨ih _, (digit_ne_colon _ (Nat.mod_lt _ (by decide))).symm⟩

theorem colon_notMem_ofBytes (bs : Bytes) : ':' ∉ ofBytes bs := by
  rw [ofBytes, List.mem_flatMap]
  rintro ⟨b, -, hb⟩
  exact colon_notMem_padded 2 b.toNat hb

end Hex

theorem Sha256.colon_notMem_hexOfText (s : Text) : ':' ∉ hexOfText s := Hex.colon_notMem_ofBytes _

/-- Two messages that differ and whose digests begin with the same `n` digits. -/
def Sha256.CollideWithin (n : Nat) (x y : Bytes) : Prop :=
  x ≠ y ∧ (Hex.ofBytes (hash x)).take n = (Hex.ofBytes (hash y)).take n

section Payload

variable {d d' h h' : Text} {i i' : Int} (hh : ':' ∉ h) (hh' : ':' ∉ h')

include hh hh'

theorem idPayload_inj : idPayload d i h = idPayload d' i' h' ↔ d = d' ∧ i = i' ∧ h = h' := by
  unfold idPayload
  rw [Text.append_cons_inj hh hh',
    Text.append_cons_inj (Text.colon_notMem_ofInt i) (Text.colon_notMem_ofInt i'),
    Text.ofInt_injective.eq_iff, and_assoc]

theorem chunkId_inj : chunkId d i h = chunkId d' i' h' ↔ (d = d' ∧ i = i' ∧ h = h') ∨
    Sha256.CollideWithin idDigits (idPayload d i h).toBytes (idPayload d' i' h').toBytes := by
  rw [← idPayload_inj hh hh', chunkId, chunkId, List.append_cancel_left_eq, Sha256.CollideWithin,
    Text.toBytes_injective.ne_iff]
  constructor
  · exact fun heq => (eq_or_ne _ _).imp_right fun hne => ⟨hne, heq⟩
  · rintro (heq | ⟨-, heq⟩)
    · rw [heq]
    · exact heq

end Payload

namespace Document

def chunkPayload (d : Document) (index : Nat) (text : Text) : Text :=
  idPayload d.id index (Sha256.hexOfText text)

/-- Two chunks among the documents have payloads that differ and whose digests begin alike. -/
def Collide (out : List Document) : Prop :=
  ∃ (d d' : Document) (i i' : Nat) (s s' : Text), d.chunk i s ∈ out ∧ d'.chunk i' s' ∈ out ∧
    Sha256.CollideWithin idDigits (d.chunkPayload i s).toBytes (d'.chunkPayload i' s').toBytes

variable {d d' : Document} {i i' : Nat} {s s' : Text} {out docs : List Document}

theorem chunk_id_ne (hout : ¬Collide out) (h : d.chunk i s ∈ out) (h' : d'.chunk i' s' ∈ out)
    (hne : d.id ≠ d'.id ∨ i ≠ i') : (d.chunk i s).id ≠ (d'.chunk i' s').id := by
  intro heq
  rcases (chunkId_inj (Sha256.colon_notMem_hexOfText s) (Sha256.colon_notMem_hexOfText s')).1 heq with
    ⟨hid, hindex, -⟩ | hcollide
  · rcases hne with hne | hne
    · exact hne hid
    · exact hne (Int.ofNat.inj hindex)
  · exact hout ⟨d, d', i, i', s, s', h, h', hcollide⟩

def gather (parts : List (Document × List Text)) : List Document :=
  parts.flatMap fun part => part.2.mapIdx part.1.chunk

theorem nodup_gather {parts : List (Document × List Text)}
    (hdocs : (parts.map fun part => part.1.id).Nodup) (hout : ¬Collide (gather parts)) :
    ((gather parts).map Document.id).Nodup := by
  have hmem : ∀ part ∈ parts, ∀ x ∈ part.2.mapIdx part.1.chunk, x ∈ gather parts :=
    fun part hpart x hx => List.mem_flatMap.2 ⟨part, hpart, hx⟩
  unfold List.Nodup
  rw [List.pairwise_map, gather, List.pairwise_flatMap]
  constructor
  · intro part hpart
    rw [List.pairwise_iff_getElem]
    intro i j hi hj hij
    have hxi := hmem part hpart _ (List.getElem_mem hi)
    have hxj := hmem part hpart _ (List.getElem_mem hj)
    rw [List.getElem_mapIdx] at hxi hxj ⊢
    rw [List.getElem_mapIdx]
    exact chunk_id_ne hout hxi hxj (.inr hij.ne)
  · refine (List.pairwise_map.1 hdocs).imp_of_mem ?_
    intro part part' hpart hpart' hne x hx y hy
    have hxout := hmem part hpart x hx
    have hyout := hmem part' hpart' y hy
    obtain ⟨i, hi, rfl⟩ := List.mem_mapIdx.1 hx
    obtain ⟨j, hj, rfl⟩ := List.mem_mapIdx.1 hy
    exact chunk_id_ne hout hxout hyout (.inl hne)

theorem chunks_texts (d : Document) (texts : List Text) :
    d.chunks (texts.map .text) = .ok (texts.mapIdx d.chunk) := by
  rw [chunks, Literal.mapM_utf8_texts]
  rfl

theorem chunks_stray (d : Document) (texts : List Text) (points : List CodePoint)
    (later : List Literal) :
    d.chunks (texts.map .text ++ .stray points :: later) = .error (.of points) := by
  rw [chunks, Literal.mapM_utf8_stray]
  rfl

variable {σ ε : Type} {split : Literal → ExceptT (DocumentError ε) (StateM σ) (List Literal)} {u v : σ}

theorem run_splitAll_of_error {d : Document} {rest : List Document} {e : DocumentError ε}
    (h : (split d.content).run.run u = (.error e, v)) :
    (splitAll split (d :: rest)).run.run u = (.error e, v) := run_bind_error h _

theorem run_splitAll_of_stray {d : Document} {rest : List Document} {texts : List Text}
    {points : List CodePoint} {later : List Literal}
    (h : (split d.content).run.run u = (.ok (texts.map .text ++ .stray points :: later), v)) :
    (splitAll split (d :: rest)).run.run u = (.error (.noUtf8 (.of points)), v) := by
  rw [splitAll, run_bind_ok h, chunks_stray]
  rfl

theorem run_splitAll_of_texts {d : Document} {rest : List Document} {texts : List Text}
    (h : (split d.content).run.run u = (.ok (texts.map .text), v)) :
    (splitAll split (d :: rest)).run.run u =
      let (later, w) : Except _ _ × σ := (splitAll split rest).run.run v
      (later.map (texts.mapIdx d.chunk ++ ·), w) := by
  rw [splitAll, run_bind_ok h, chunks_texts]
  change (splitAll split rest >>= fun later => pure (texts.mapIdx d.chunk ++ later) :
    ExceptT _ (StateM σ) _).run.run v = _
  rcases hrest : (splitAll split rest).run.run v with ⟨e | later, w⟩
  · rw [run_bind_error hrest]
    rfl
  · rw [run_bind_ok hrest]
    rfl

/-- A run that succeeds gathers what the splitter gave for each document. -/
theorem exists_gather_of_splitAll (h : (splitAll split docs).run.run u = (.ok out, v)) :
    ∃ parts : List (Document × List Text), parts.map Prod.fst = docs ∧ out = gather parts := by
  induction docs generalizing u v out with
  | nil =>
    obtain rfl := Except.ok.inj (Prod.mk.inj h).1
    exact ⟨[], rfl, rfl⟩
  | cons d rest ih =>
    rcases hsplit : (split d.content).run.run u with ⟨e | strings, u₁⟩
    · rw [run_splitAll_of_error hsplit] at h
      exact nomatch h
    · rcases Literal.texts_or_stray strings with ⟨texts, rfl⟩ | ⟨texts, points, later, rfl⟩
      · rw [run_splitAll_of_texts hsplit] at h
        obtain ⟨hlater, hout⟩ := Prod.mk.inj h
        obtain ⟨later, hrest, rfl⟩ := exists_of_map_ok hlater
        obtain ⟨parts, rfl, rfl⟩ := ih (Prod.ext hrest rfl)
        exact ⟨(d, texts) :: parts, rfl, rfl⟩
      · rw [run_splitAll_of_stray hsplit] at h
        exact nomatch h

/-- Where all chunks are texts, documents are split. -/
theorem exists_run_splitAll_pure (f : Literal → List Text) (docs : List Document) (u : σ) :
    ∃ out, (splitAll (fun s =>
      (pure ((f s).map .text) : ExceptT (DocumentError ε) (StateM σ) _)) docs).run.run u =
        (.ok out, u) := by
  induction docs with
  | nil => exact ⟨[], rfl⟩
  | cons d rest ih =>
    obtain ⟨later, hrest⟩ := ih
    have hfirst : (pure ((f d.content).map Literal.text) : ExceptT (DocumentError ε) (StateM σ)
      _).run.run u = (.ok ((f d.content).map Literal.text), u) := rfl
    rw [run_splitAll_of_texts hfirst, hrest]
    exact ⟨_, rfl⟩

theorem nodup_ids_of_splitAll (hdocs : (docs.map Document.id).Nodup)
    (h : (splitAll split docs).run.run u = (.ok out, v)) :
    (out.map Document.id).Nodup ∨ Collide out := by
  obtain ⟨parts, rfl, rfl⟩ := exists_gather_of_splitAll h
  rw [List.map_map] at hdocs
  exact or_iff_not_imp_right.2 fun hout => nodup_gather hdocs hout

end Document

namespace Tokenizer

variable {t : Tokenizer σ} {c : Config} {document : Text} {masked : Masked} {s u : σ}
  {records : List ChunkRecord}

theorem ids_recordsFrom {index : Nat} {chunks : List Text}
    (h : (t.recordsFrom c document masked index chunks).runIn s = (.ok records, u)) :
    ∀ r ∈ records, r.hash = chunkHash c r.text ∧ r.id = chunkId document r.index r.hash := by
  induction chunks generalizing index s u records with
  | nil =>
    obtain ⟨rfl, -⟩ := recordsFrom_nil_eq_ok_iff.1 h
    exact fun r hr => absurd hr List.not_mem_nil
  | cons chunk rest ih =>
    obtain ⟨name, count, v, later, hname, -, hlater, rfl⟩ := recordsFrom_cons_eq_ok_iff.1 h
    obtain ⟨-, d, text, hd, htext, rfl⟩ := nameOf_eq_ok_iff.1 hname
    obtain ⟨-, rfl⟩ := Masked.reveal_eq_text_iff.1 htext
    obtain rfl := Literal.text.inj hd
    intro r hr
    rcases List.mem_cons.1 hr with rfl | hr
    · exact ⟨rfl, rfl⟩
    · exact ih hlater r hr

theorem ids_records {text : Option Masked}
    (h : (t.records c document text).runIn s = (.ok records, u)) :
    ∀ r ∈ records, r.hash = chunkHash c r.text ∧ r.id = chunkId document r.index r.hash := by
  cases text with
  | none =>
    obtain rfl := Except.ok.inj (Prod.mk.inj h).1
    exact fun r hr => absurd hr List.not_mem_nil
  | some masked =>
    obtain ⟨chunks, s₁, -, h⟩ := Call.exists_of_runIn_bind h
    exact ids_recordsFrom h

end Tokenizer

/-- The payload of an identifier determines what it is made of, whatever a document is called.
So the chunks of documents that are called differently have different identifiers, and so have
records that differ in their document, index, text or configuration, unless digests collide. -/
theorem chunk_ids_unique :
    (∀ s, ':' ∉ Sha256.hexOfText s) ∧
    (∀ (d d' : Text) (i i' : Int) (h h' : Text), ':' ∉ h → ':' ∉ h' →
      (idPayload d i h = idPayload d' i' h' ↔ d = d' ∧ i = i' ∧ h = h')) ∧
    (∀ {σ ε : Type} (split : Literal → ExceptT (DocumentError ε) (StateM σ) (List Literal))
      (docs out : List Document) (u v : σ), (docs.map Document.id).Nodup →
        (Document.splitAll split docs).run.run u = (.ok out, v) →
          (out.map Document.id).Nodup ∨ Document.Collide out) ∧
    (∀ {σ ε : Type} (f : Literal → List Text) (docs : List Document) (u : σ),
      ∃ out, (Document.splitAll (fun s =>
        (pure ((f s).map .text) : ExceptT (DocumentError ε) (StateM σ) _)) docs).run.run u =
          (.ok out, u)) ∧
    ∀ {σ τ : Type} (t : Tokenizer σ) (t' : Tokenizer τ) (c c' : Config) (d d' : Text)
      (text text' : Option Masked) (s u : σ) (s' u' : τ) (rs rs' : List ChunkRecord),
      (t.records c d text).runIn s = (.ok rs, u) → (t'.records c' d' text').runIn s' = (.ok rs', u') →
        ∀ r ∈ rs, ∀ r' ∈ rs', r.id = r'.id →
          (d = d' ∧ r.index = r'.index ∧ r.text = r'.text ∧ c = c') ∨
          Sha256.CollideWithin idDigits (idPayload d r.index r.hash).toBytes
            (idPayload d' r'.index r'.hash).toBytes ∨
          Sha256.Collide (hashPayload c r.text).toBytes (hashPayload c' r'.text).toBytes := by
  refine ⟨Sha256.colon_notMem_hexOfText, fun d d' i i' h h' => idPayload_inj,
    fun split docs out u v => Document.nodup_ids_of_splitAll,
    fun f docs u => Document.exists_run_splitAll_pure f docs u, ?_⟩
  intro σ τ t t' c c' d d' text text' s u s' u' rs rs' hrun hrun' r hr r' hr' heq
  obtain ⟨hhash, hid⟩ := Tokenizer.ids_records hrun r hr
  obtain ⟨hhash', hid'⟩ := Tokenizer.ids_records hrun' r' hr'
  have hcolon : ':' ∉ r.hash := hhash ▸ Sha256.colon_notMem_hexOfText _
  have hcolon' : ':' ∉ r'.hash := hhash' ▸ Sha256.colon_notMem_hexOfText _
  rw [hid, hid', chunkId_inj hcolon hcolon'] at heq
  rcases heq with ⟨hd, hindex, hsame⟩ | hcollide
  · rw [hhash, hhash', (chunkHash_inj c c' r.text r'.text).2.2] at hsame
    rcases hsame with ⟨htext, hc⟩ | hcollide
    · exact .inl ⟨hd, Int.ofNat.inj hindex, htext, hc⟩
    · exact .inr (.inr hcollide)
  · exact .inr (.inl hcollide)

/-- The first document's identifier and the index of its chunk read like the second one's identifier. -/
theorem chunk_ids_unique_same_contents :
    ([⟨"a:0".toList, "x", []⟩, ⟨"a".toList, "x", []⟩].map Document.id).Nodup ∧
      ∃ out, (Document.splitAll (fun s =>
          (pure ([s.replaced].map .text) : ExceptT (DocumentError SplitError) (StateM Unit) _))
        [⟨"a:0".toList, "x", []⟩, ⟨"a".toList, "x", []⟩]).run.run () = (.ok out, ()) ∧
        ((out.map Document.id).Nodup ∨ Document.Collide out) := by
  have hdocs : ([⟨"a:0".toList, "x", []⟩, ⟨"a".toList, "x", []⟩].map Document.id).Nodup := by decide
  obtain ⟨-, -, hnodup, hpure, -⟩ := chunk_ids_unique
  obtain ⟨out, hrun⟩ := hpure (fun s => [s.replaced]) _ ()
  exact ⟨hdocs, out, hrun, hnodup _ _ out () () hdocs hrun⟩

end TextChunks
