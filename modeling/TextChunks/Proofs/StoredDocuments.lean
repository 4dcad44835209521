import TextChunks.Proofs.Dictionaries
import TextChunks.Proofs.Identity
import TextChunks.Proofs.PieceTables
import TextChunks.TextSplitter

namespace TextChunks

namespace Store

variable {store : Store}

theorem read_append {address : Nat} (h : address < store.length) (added : Store) :
    read (store ++ added) address = read store address := by
  unfold read
  rw [List.getElem?_append_left h]

theorem read_append_length (metadata : Json.Fields) (added : Store) :
    read (store ++ metadata :: added) store.length = metadata := by
  unfold read
  rw [List.getElem?_append_right (Nat.le_refl _), Nat.sub_self]
  rfl

theorem modify_append_length (metadata : Json.Fields) (f : Json.Fields → Json.Fields) :
    (store ++ [metadata]).modify store.length f = store ++ [f metadata] := by
  induction store with
  | nil => rfl
  | cons first rest ih => exact congrArg (first :: ·) ih

end Store

namespace Document

/-- At every other key, the metadata of a chunk are those of the document. -/
theorem get?_metadata_chunk (d : Document) (index : Nat) (s : Text) (k : Literal) :
    Dictionary.get? (d.chunk index s).metadata k =
      if k = indexKey then some (.int index)
      else if k = parentKey then some (.ofText d.id)
      else Dictionary.get? d.metadata k := by
  rw [chunk, Dictionary.get?_put, Dictionary.get?_put]
  simp only [eq_comm (a := k)]

theorem splitAll_append {ε : Type} {m : Type → Type} [Monad m] [LawfulMonad m]
    [MonadExcept (DocumentError ε) m] (split : Literal → m (List Literal)) (xs ys : List Document) :
    splitAll split (xs ++ ys) = do return (← splitAll split xs) ++ (← splitAll split ys) := by
  induction xs with
  | nil => simp [splitAll]
  | cons d xs ih =>
    rw [List.cons_append, splitAll, splitAll, ih]
    simp only [bind_assoc, pure_bind, List.append_assoc]

section Pure

variable {ε : Type} {f : Literal → Except ε (List Literal)} {d : Document} {docs out : List Document}

def splitBy (f : Literal → Except ε (List Literal)) (docs : List Document) :
    Except (DocumentError ε) (List Document) :=
  splitAll (fun s => (f s).mapError .splitter) docs

/-- The document is not split: its content is not, or a chunk of it has no UTF-8 form. -/
inductive Refused (f : Literal → Except ε (List Literal)) (d : Document) : DocumentError ε → Prop where
  | unsplit {e : ε} (h : f d.content = .error e) : Refused f d (.splitter e)
  | stray {texts : List Text} {points : List CodePoint} {later : List Literal}
      (h : f d.content = .ok (texts.map .text ++ .stray points :: later)) :
      Refused f d (.noUtf8 (.of points))

theorem texts_or_refused (f : Literal → Except ε (List Literal)) (d : Document) :
    (∃ texts : List Text, f d.content = .ok (texts.map .text)) ∨ ∃ e, d.Refused f e := by
  cases hchunks : f d.content with
  | error e => exact .inr ⟨_, .unsplit hchunks⟩
  | ok strings =>
    rcases Literal.texts_or_stray strings with ⟨texts, rfl⟩ | ⟨texts, points, later, rfl⟩
    · exact .inl ⟨texts, rfl⟩
    · exact .inr ⟨_, .stray hchunks⟩

theorem splitBy_of_texts {texts : List Text} (h : f d.content = .ok (texts.map .text)) :
    splitBy f (d :: docs) = (splitBy f docs).map (texts.mapIdx d.chunk ++ ·) := by
  rw [splitBy, splitAll, h]
  change (MonadExcept.ofExcept ((d.chunks (texts.map .text)).mapError _) >>= _ : Except _ _) = _
  rw [chunks_texts]
  rfl

theorem splitBy_of_refused {e : DocumentError ε} (h : d.Refused f e) :
    splitBy f (d :: docs) = .error e := by
  cases h with
  | unsplit h =>
    rw [splitBy, splitAll, h]
    rfl
  | stray h =>
    rw [splitBy, splitAll, h]
    change (MonadExcept.ofExcept ((d.chunks (_ ++ _ :: _)).mapError _) >>= _ : Except _ _) = _
    rw [chunks_stray]
    rfl

/-- The documents of all chunks are there where each content has chunks that are texts. -/
theorem splitBy_eq_ok_iff : splitBy f docs = .ok out ↔
    ∃ parts : List (Document × List Text), parts.map Prod.fst = docs ∧
      (∀ part ∈ parts, f part.1.content = .ok (part.2.map .text)) ∧ out = gather parts := by
  constructor
  · intro h
    induction docs generalizing out with
    | nil => exact ⟨[], rfl, fun _ hpart => absurd hpart List.not_mem_nil, (Except.ok.inj h).symm⟩
    | cons d docs ih =>
      rcases texts_or_refused f d with ⟨texts, htexts⟩ | ⟨e, hrefused⟩
      · rw [splitBy_of_texts htexts] at h
        obtain ⟨later, hlater, rfl⟩ := exists_of_map_ok h
        obtain ⟨parts, rfl, hparts, rfl⟩ := ih hlater
        exact ⟨(d, texts) :: parts, rfl, List.forall_mem_cons.2 ⟨htexts, hparts⟩, rfl⟩
      · rw [splitBy_of_refused hrefused] at h
        exact nomatch h
  · rintro ⟨parts, rfl, hparts, rfl⟩
    induction parts with
    | nil => rfl
    | cons part parts ih =>
      obtain ⟨hfirst, hlater⟩ := List.forall_mem_cons.1 hparts
      rw [List.map_cons, splitBy_of_texts hfirst, ih hlater]
      rfl

/-- Documents are not split because of the first one that is not. -/
theorem splitBy_eq_error_iff {e : DocumentError ε} : splitBy f docs = .error e ↔
    ∃ before d later, docs = before ++ d :: later ∧
      (∀ b ∈ before, ∃ texts : List Text, f b.content = .ok (texts.map .text)) ∧ d.Refused f e := by
  constructor
  · intro h
    induction docs with
    | nil => exact nomatch h
    | cons d docs ih =>
      rcases texts_or_refused f d with ⟨texts, htexts⟩ | ⟨e', hrefused⟩
      · rw [splitBy_of_texts htexts] at h
        cases hdocs : splitBy f docs with
        | ok out =>
          rw [hdocs] at h
          exact nomatch h
        | error e' =>
          rw [hdocs] at h
          obtain rfl := Except.error.inj h
          obtain ⟨before, d', later, rfl, hbefore, hrefused⟩ := ih hdocs
          exact ⟨d :: before, d', later, rfl,
            List.forall_mem_cons.2 ⟨⟨texts, htexts⟩, hbefore⟩, hrefused⟩
      · rw [splitBy_of_refused hrefused] at h
        obtain rfl := Except.error.inj h
        exact ⟨[], d, docs, rfl, fun b hb => absurd hb List.not_mem_nil, hrefused⟩
  · rintro ⟨before, d, later, rfl, hbefore, hrefused⟩
    induction before with
    | nil => exact splitBy_of_refused hrefused
    | cons b before ih =>
      obtain ⟨⟨texts, htexts⟩, hbefore⟩ := List.forall_mem_cons.1 hbefore
      rw [List.cons_append, splitBy_of_texts htexts, ih hbefore]
      rfl

end Pure

end Document

namespace StoredDocument

variable {store : Store}

def Held (store : Store) (ds : List StoredDocument) : Prop := ∀ d ∈ ds, d.metadata < store.length

theorem held_append {xs ys : List StoredDocument} :
    Held store (xs ++ ys) ↔ Held store xs ∧ Held store ys := List.forall_mem_append

theorem held_cons {d : StoredDocument} {ds : List StoredDocument} :
    Held store (d :: ds) ↔ d.metadata < store.length ∧ Held store ds := List.forall_mem_cons

theorem Held.append {ds : List StoredDocument} (h : Held store ds) (added : Store) :
    Held (store ++ added) ds := by
  intro d hd
  rw [List.length_append]
  exact Nat.lt_add_right _ (h d hd)

theorem read_append {d : StoredDocument} (h : d.metadata < store.length) (added : Store) :
    d.read (store ++ added) = d.read store := by
  unfold read
  rw [Store.read_append h]

theorem map_read_append {ds : List StoredDocument} (h : Held store ds) (added : Store) :
    ds.map (read (store ++ added)) = ds.map (read store) :=
  List.map_congr_left fun d hd => read_append (h d hd) added

theorem atAddresses_cons (base : Nat) (d : Document) (ds : List Document) :
    atAddresses base (d :: ds) = ⟨d.id, d.content, base⟩ :: atAddresses (base + 1) ds := by
  simp only [atAddresses, List.mapIdx_cons, Nat.add_zero, Nat.add_assoc, Nat.add_comm 1]

theorem atAddresses_append (base : Nat) (xs ys : List Document) :
    atAddresses base (xs ++ ys) = atAddresses base xs ++ atAddresses (base + xs.length) ys := by
  simp only [atAddresses, List.mapIdx_append, Nat.add_assoc, Nat.add_comm xs.length]

theorem length_atAddresses (base : Nat) (ds : List Document) :
    (atAddresses base ds).length = ds.length := List.length_mapIdx

theorem metadata_atAddresses (base : Nat) (ds : List Document) :
    (atAddresses base ds).map metadata = List.range' base ds.length := by
  induction ds generalizing base with
  | nil => rfl
  | cons d ds ih => rw [atAddresses_cons, List.map_cons, ih, List.length_cons, List.range'_succ]

/-- Documents are read back where their dictionaries have been added to the store. -/
theorem read_atAddresses (store : Store) (ds : List Document) :
    (atAddresses store.length ds).map (read (store ++ ds.map Document.metadata)) = ds := by
  induction ds generalizing store with
  | nil => rfl
  | cons d ds ih =>
    have hlater := ih (store ++ [d.metadata])
    rw [List.length_append, List.length_singleton, List.append_assoc, List.singleton_append] at hlater
    rw [atAddresses_cons, List.map_cons, List.map_cons, hlater, read, Store.read_append_length]

theorem run_chunk_text (d : StoredDocument) (index : Nat) (s : Text) (store : Store) :
    (d.chunk index (.text s)).run.run store =
      (.ok ⟨((d.read store).chunk index s).id, .text s, store.length⟩,
        store ++ [((d.read store).chunk index s).metadata]) := by
  -- Both keys are put into the copy that stands last in the store.
  change (_, ((store ++ [Store.read store d.metadata]).modify store.length _).modify store.length _) = _
  rw [Store.modify_append_length, Store.modify_append_length]
  rfl

theorem exists_run_chunk_stray (d : StoredDocument) (index : Nat) (points : List CodePoint)
    (store : Store) :
    ∃ added, (d.chunk index (.stray points)).run.run store = (.error (.of points), store ++ added) := by
  refine ⟨[((Store.read store d.metadata).put Document.parentKey (.ofText d.id)).put
    Document.indexKey (.int index)], ?_⟩
  change (_, ((store ++ [Store.read store d.metadata]).modify store.length _).modify store.length _) = _
  rw [Store.modify_append_length, Store.modify_append_length]

theorem run_chunksFrom {d : StoredDocument} (hd : d.metadata < store.length) (index : Nat)
    (texts : List Text) :
    (d.chunksFrom index (texts.map .text)).run.run store =
      (.ok (atAddresses store.length (texts.mapIdx fun i s => (d.read store).chunk (index + i) s)),
        store ++ (texts.mapIdx fun i s => (d.read store).chunk (index + i) s).map
          Document.metadata) := by
  induction texts generalizing store index with
  | nil => exact congrArg (Prod.mk (Except.ok [])) (List.append_nil store).symm
  | cons s rest ih =>
    have hhere : d.metadata < (store ++ [((d.read store).chunk index s).metadata]).length := by
      rw [List.length_append]
      omega
    have hlater := ih hhere (index + 1)
    rw [read_append hd, List.length_append, List.length_singleton, List.append_assoc] at hlater
    simp only [Nat.add_assoc, Nat.add_comm 1] at hlater
    rw [List.map_cons, chunksFrom, run_bind_ok (run_chunk_text d index s store), run_bind_ok hlater,
      List.mapIdx_cons, atAddresses_cons]
    rfl

theorem exists_run_chunksFrom_stray (d : StoredDocument) (index : Nat) (texts : List Text)
    (points : List CodePoint) (later : List Literal) (store : Store) :
    ∃ added, (d.chunksFrom index (texts.map .text ++ .stray points :: later)).run.run store =
      (.error (.of points), store ++ added) := by
  induction texts generalizing store index with
  | nil =>
    obtain ⟨added, hchunk⟩ := d.exists_run_chunk_stray index points store
    exact ⟨added, run_bind_error hchunk _⟩
  | cons s rest ih =>
    obtain ⟨added, hlater⟩ := ih (index + 1) (store ++ [((d.read store).chunk index s).metadata])
    refine ⟨((d.read store).chunk index s).metadata :: added, ?_⟩
    rw [List.map_cons, List.cons_append, chunksFrom, run_bind_ok (run_chunk_text d index s store),
      run_bind_error hlater, List.append_assoc]
    rfl

end StoredDocument

open StoredDocument

namespace TextSplitter

variable {σ ε : Type} {S : TextSplitter σ ε} {inv : σ → Prop} {f : Literal → Except ε (List Literal)}
  {u v w : σ} {store : Store} {ds xs ys : List StoredDocument}

/-- In the states that `inv` allows, the splitter gives what `f` gives, and leaves such a state. -/
def SplitsAs (S : TextSplitter σ ε) (inv : σ → Prop) (f : Literal → Except ε (List Literal)) : Prop :=
  ∀ u, inv u → ∀ s, ∃ v, (S.splitText s).run.run u = (f s, v) ∧ inv v

section Calls

variable (S) (u : σ) (store : Store) (ds : List StoredDocument)

def outputs : Except (DocumentError ε) (List Document) :=
  let run := (S.splitDocuments ds).run.run (u, store)
  run.1.map fun out => out.map (·.read run.2.2)

def stateAfter : σ := ((S.splitDocuments ds).run.run (u, store)).2.1

def storeAfter : Store := ((S.splitDocuments ds).run.run (u, store)).2.2

end Calls

/-- Splitting documents, where the splitter does to strings what `f` does. -/
structure SplitsDocuments (S : TextSplitter σ ε) (inv : σ → Prop)
    (f : Literal → Except ε (List Literal)) : Prop where
  /-- Two lists together give what they give one after the other, whatever the state that a call
  starts in. -/
  append : ∀ u v w, inv u → inv v → inv w → ∀ store xs ys, Held store (xs ++ ys) →
    S.outputs u store (xs ++ ys) = do
      return (← S.outputs v store xs) ++ (← S.outputs w (S.storeAfter v store xs) ys)
  /-- A call gives one document for each chunk, in order, and it does so where every source has chunks
  and they are texts. -/
  gathers : ∀ u, inv u → ∀ store ds, Held store ds → ∀ out, S.outputs u store ds = .ok out ↔
    ∃ parts : List (Document × List Text), parts.map Prod.fst = ds.map (read store) ∧
      (∀ part ∈ parts, f part.1.content = .ok (part.2.map .text)) ∧ out = Document.gather parts
  /-- A call fails because of the first source that is not split. -/
  fails : ∀ u, inv u → ∀ store ds, Held store ds → ∀ e, S.outputs u store ds = .error e ↔
    ∃ before d later, ds.map (read store) = before ++ d :: later ∧
      (∀ b ∈ before, ∃ texts : List Text, f b.content = .ok (texts.map .text)) ∧
      Document.Refused f d e
  /-- A call that fails leaves the documents in the store alone, too. -/
  unchanged : ∀ u store ds, Held store ds → ∀ d : StoredDocument, d.metadata < store.length →
    d.read (S.storeAfter u store ds) = d.read store
  /-- Each document that a call gives has a dictionary of its own, one that was not there before. -/
  own : ∀ u store ds, Held store ds → ∀ out v left,
    (S.splitDocuments ds).run.run (u, store) = (.ok out, v, left) →
      (out.map StoredDocument.metadata).Nodup ∧
        ∀ d ∈ out, store.length ≤ d.metadata ∧ d.metadata < left.length
  state : ∀ u, inv u → ∀ store ds, Held store ds → inv (S.stateAfter u store ds)
  call : ∀ ds, S.call ds = S.splitDocuments ds

def strings (S : TextSplitter σ ε) (s : Literal) : ExceptT (DocumentError ε) (StateM σ) (List Literal) :=
  ExceptT.adapt .splitter (S.splitText s)

theorem run_strings {s : Literal} {result : Except ε (List Literal)}
    (h : (S.splitText s).run.run u = (result, v)) :
    (S.strings s).run.run u = (result.mapError .splitter, v) :=
  congrArg (fun run : Except ε (List Literal) × σ => (run.1.mapError DocumentError.splitter, run.2)) h

theorem run_besideStore {s : Literal} {result : Except ε (List Literal)}
    (h : (S.splitText s).run.run u = (result, v)) (store : Store) :
    (besideStore (S.splitText s)).run.run (u, store) = (result.mapError .splitter, v, store) :=
  congrArg (fun run : Except ε (List Literal) × σ =>
    (run.1.mapError DocumentError.splitter, run.2, store)) h

/-- The documents of the chunks of a source stand last in the store. -/
theorem run_onStore_chunksFrom {d : StoredDocument} (hd : d.metadata < store.length)
    (texts : List Text) (u : σ) :
    (onStore (d.chunksFrom 0 (texts.map .text)) :
      ExceptT (DocumentError ε) (StateM (σ × Store)) _).run.run (u, store) =
      (.ok (atAddresses store.length (texts.mapIdx (d.read store).chunk)), u,
        store ++ (texts.mapIdx (d.read store).chunk).map Document.metadata) := by
  have hrun := run_chunksFrom hd 0 texts
  simp only [Nat.zero_add] at hrun
  exact congrArg (fun run : Except Utf8Fault (List StoredDocument) × Store =>
    (run.1.mapError DocumentError.noUtf8, u, run.2)) hrun

theorem exists_run_onStore_chunksFrom_stray (d : StoredDocument) (texts : List Text)
    (points : List CodePoint) (later : List Literal) (u : σ) (store : Store) :
    ∃ added, (onStore (d.chunksFrom 0 (texts.map .text ++ .stray points :: later)) :
      ExceptT (DocumentError ε) (StateM (σ × Store)) _).run.run (u, store) =
      (.error (.noUtf8 (.of points)), u, store ++ added) := by
  obtain ⟨added, hrun⟩ := d.exists_run_chunksFrom_stray 0 texts points later store
  exact ⟨added, congrArg (fun run : Except Utf8Fault (List StoredDocument) × Store =>
    (run.1.mapError DocumentError.noUtf8, u, run.2)) hrun⟩

/-- Documents in a store are split as plain documents are. Whatever a call does, it only adds to the store;
where it succeeds, it adds the dictionaries of the documents that it gives. -/
theorem run_splitDocuments (u : σ) (hds : Held store ds) :
    ∃ added, (S.splitDocuments ds).run.run (u, store) =
        Prod.map (Except.map (atAddresses store.length)) (·, store ++ added)
          ((Document.splitAll S.strings (ds.map (read store))).run.run u) ∧
      ∀ out v, (Document.splitAll S.strings (ds.map (read store))).run.run u = (.ok out, v) →
        added = out.map Document.metadata := by
  induction ds generalizing u store with
  | nil =>
    refine ⟨[], ?_, ?_⟩
    · rw [List.append_nil]
      rfl
    · intro out v hout
      rw [← Except.ok.inj (Prod.mk.inj hout).1]
      rfl
  | cons d ds ih =>
    obtain ⟨hd, hds⟩ := held_cons.1 hds
    rw [List.map_cons, splitDocuments]
    rcases hsplit : (S.splitText (d.read store).content).run.run u with ⟨e | chunks, v⟩
    · have hbeside : (besideStore (S.splitText d.content)).run.run (u, store) =
          (.error (.splitter e), v, store) := run_besideStore hsplit store
      rw [Document.run_splitAll_of_error (run_strings hsplit), run_bind_error hbeside]
      refine ⟨[], ?_, ?_⟩
      · rw [List.append_nil]
        rfl
      · intro out w hout
        exact nomatch hout
    · have hbeside : (besideStore (S.splitText d.content)).run.run (u, store) =
          (.ok chunks, v, store) := run_besideStore hsplit store
      rw [run_bind_ok hbeside]
      rcases Literal.texts_or_stray chunks with ⟨texts, rfl⟩ | ⟨texts, points, later, rfl⟩
      · let first := texts.mapIdx (d.read store).chunk
        -- The later documents are split in the store that the first one's chunks are in.
        have hheld : Held (store ++ first.map Document.metadata) ds := hds.append _
        obtain ⟨added, hlater, hadded⟩ := ih v hheld
        rw [map_read_append hds] at hlater hadded
        rw [run_bind_ok (run_onStore_chunksFrom hd texts v),
          Document.run_splitAll_of_texts (run_strings hsplit)]
        refine ⟨first.map Document.metadata ++ added, ?_⟩
        rw [← List.append_assoc]
        rcases hdocs : (Document.splitAll S.strings (ds.map (read store))).run.run v with
          ⟨e | later, w⟩
        · rw [hdocs] at hlater
          rw [run_bind_error hlater]
          refine ⟨rfl, ?_⟩
          intro out w hout
          exact nomatch hout
        · rw [hdocs] at hlater
          have hall : atAddresses store.length (first ++ later) = atAddresses store.length first ++
              atAddresses (store ++ first.map Document.metadata).length later := by
            rw [atAddresses_append, List.length_append, List.length_map]
          rw [run_bind_ok hlater]
          constructor
          · exact congrArg (fun out => (Except.ok out, w, _)) hall.symm
          · intro out w' hout
            rw [← Except.ok.inj (Prod.mk.inj hout).1, hadded later w hdocs]
            exact List.map_append.symm
      · obtain ⟨added, hfirst⟩ := exists_run_onStore_chunksFrom_stray d texts points later v store
        rw [run_bind_error hfirst, Document.run_splitAll_of_stray (run_strings hsplit)]
        refine ⟨added, rfl, ?_⟩
        intro out w hout
        exact nomatch hout

theorem exists_storeAfter (u : σ) (hds : Held store ds) :
    ∃ added, S.storeAfter u store ds = store ++ added := by
  obtain ⟨added, hrun, -⟩ := run_splitDocuments (S := S) u hds
  exact ⟨added, congrArg (fun run => run.2.2) hrun⟩

theorem own_metadata (hds : Held store ds) {out : List StoredDocument} {left : σ × Store}
    (hrun : (S.splitDocuments ds).run.run (u, store) = (.ok out, left)) :
    out.map StoredDocument.metadata = List.range' store.length out.length ∧
      left.2.length = store.length + out.length := by
  obtain ⟨added, hsplit, hadded⟩ := run_splitDocuments (S := S) u hds
  rcases hdocs : (Document.splitAll S.strings (ds.map (read store))).run.run u with ⟨result, v⟩
  rw [hrun, hdocs] at hsplit
  obtain ⟨hout, rfl⟩ := Prod.mk.inj hsplit
  obtain ⟨docs, rfl, rfl⟩ := exists_of_map_ok hout.symm
  rw [metadata_atAddresses, hadded docs v hdocs, List.length_append, List.length_map,
    length_atAddresses]
  exact ⟨rfl, rfl⟩

theorem outputs_eq (u : σ) (hds : Held store ds) : S.outputs u store ds =
    ((Document.splitAll S.strings (ds.map (read store))).run.run u).1 := by
  obtain ⟨added, hrun, hadded⟩ := run_splitDocuments (S := S) u hds
  rcases hdocs : (Document.splitAll S.strings (ds.map (read store))).run.run u with ⟨result, v⟩
  unfold outputs
  rw [hrun, hdocs]
  cases result with
  | error e => rfl
  | ok out =>
    rw [hadded out v hdocs]
    exact congrArg Except.ok (read_atAddresses store out)

theorem stateAfter_eq (u : σ) (hds : Held store ds) : S.stateAfter u store ds =
    ((Document.splitAll S.strings (ds.map (read store))).run.run u).2 := by
  obtain ⟨added, hrun, -⟩ := run_splitDocuments (S := S) u hds
  exact congrArg (fun run => run.2.1) hrun

theorem SplitsAs.splitAll (h : S.SplitsAs inv f) (hu : inv u) (docs : List Document) :
    ∃ v, (Document.splitAll S.strings docs).run.run u = (Document.splitBy f docs, v) ∧ inv v := by
  induction docs generalizing u with
  | nil => exact ⟨u, rfl, hu⟩
  | cons d docs ih =>
    obtain ⟨v, hfirst, hv⟩ := h u hu d.content
    rcases Document.texts_or_refused f d with ⟨texts, htexts⟩ | ⟨e, hrefused⟩
    · obtain ⟨w, hlater, hw⟩ := ih hv
      refine ⟨w, ?_, hw⟩
      rw [htexts] at hfirst
      rw [Document.run_splitAll_of_texts (run_strings hfirst), Document.splitBy_of_texts htexts, hlater]
    · refine ⟨v, ?_, hv⟩
      rw [Document.splitBy_of_refused hrefused]
      cases hrefused with
      | unsplit hchunks =>
        rw [hchunks] at hfirst
        exact Document.run_splitAll_of_error (run_strings hfirst)
      | stray hchunks =>
        rw [hchunks] at hfirst
        exact Document.run_splitAll_of_stray (run_strings hfirst)

theorem SplitsAs.outputs_eq (h : S.SplitsAs inv f) (hu : inv u) (hds : Held store ds) :
    S.outputs u store ds = Document.splitBy f (ds.map (read store)) := by
  obtain ⟨v, hrun, -⟩ := h.splitAll hu (ds.map (read store))
  rw [TextSplitter.outputs_eq u hds, hrun]

theorem SplitsAs.outputs_append (h : S.SplitsAs inv f) (hu : inv u) (hv : inv v) (hw : inv w)
    (hheld : Held store (xs ++ ys)) : S.outputs u store (xs ++ ys) = do
      return (← S.outputs v store xs) ++ (← S.outputs w (S.storeAfter v store xs) ys) := by
  obtain ⟨hxs, hys⟩ := held_append.1 hheld
  obtain ⟨added, hafter⟩ := exists_storeAfter (S := S) v hxs
  have hys' : Held (store ++ added) ys := hys.append added
  rw [hafter, h.outputs_eq hu hheld, h.outputs_eq hv hxs, h.outputs_eq hw hys', map_read_append hys,
    List.map_append, Document.splitBy, Document.splitAll_append]
  rfl

theorem SplitsAs.splitsDocuments (h : S.SplitsAs inv f) : S.SplitsDocuments inv f where
  append u v w hu hv hw store xs ys hheld := h.outputs_append hu hv hw hheld
  gathers u hu store ds hds out := by rw [h.outputs_eq hu hds, Document.splitBy_eq_ok_iff]
  fails u hu store ds hds e := by rw [h.outputs_eq hu hds, Document.splitBy_eq_error_iff]
  unchanged u store ds hds d hd := by
    obtain ⟨added, hafter⟩ := exists_storeAfter (S := S) u hds
    rw [hafter, read_append hd]
  own u store ds hds out v left hrun := by
    obtain ⟨hmetadata, hlength⟩ := own_metadata hds hrun
    rw [hmetadata]
    refine ⟨List.nodup_range', ?_⟩
    intro d hd
    have hmem := List.mem_map_of_mem (f := StoredDocument.metadata) hd
    rw [hmetadata, List.mem_range'_1] at hmem
    exact ⟨hmem.1, hlength ▸ hmem.2⟩
  state u hu store ds hds := by
    obtain ⟨v, hrun, hv⟩ := h.splitAll hu (ds.map (read store))
    rwa [stateAfter_eq u hds, hrun]
  call _ := rfl

/-- What a splitter by tokens makes of a string is what it makes of its masked text. -/
theorem run_ofTokens (c : Config) (s : Literal) (u : AnyTokenizer) :
    ((ofTokens ⟨c, AnyTokenizer.tokenizer⟩).splitText s).run.run u =
      let (result, v) : Except SplitError (List Text) × AnyTokenizer :=
        ((⟨c, AnyTokenizer.tokenizer⟩ : Splitter AnyTokenizer).splitText
          (some (u.masked s).text)).run.run u
      (result.map (List.map (u.masked s).reveal), v) := by
  rw [ofTokens, run_get_bind]
  rcases hrun : ((⟨c, AnyTokenizer.tokenizer⟩ : Splitter AnyTokenizer).splitText
    (some (u.masked s).text)).run.run u with ⟨e | chunks, v⟩
  · rw [run_bind_error hrun]
    rfl
  · rw [run_bind_ok hrun]
    rfl

theorem splitsAs_of_represents {α : Type} {inv : AnyTokenizer → Prop}
    {view : AnyTokenizer → Nat → Option α} {encode : Text → List α} {decode : List α → Text}
    (h : Represents AnyTokenizer.tokenizer inv view encode decode)
    (hmasked : ∀ u, inv u → ∀ s, u.masked s = .ofLiteral s) (c : Config) :
    (ofTokens ⟨c, AnyTokenizer.tokenizer⟩).SplitsAs inv fun s =>
      .ok ((c.chunks (segmentsOfBy encode decode c c.windowSize c.windowSize_pos
        (Masked.ofLiteral s).text)).map (Masked.ofLiteral s).reveal) := by
  intro u hu s
  obtain ⟨v, hrun, hv⟩ := h.chunksOf_runIn c c.windowSize_pos (Masked.ofLiteral s).text hu
  refine ⟨v, ?_, hv⟩
  rw [run_ofTokens, hmasked u hu, Splitter.run_splitText_some, Tokenizer.chunks, hrun]
  rfl

/-- A text that is not blank cannot be cut into slices without characters. -/
theorem splitsAs_slices_zero (c : Config) :
    (ofTokens ⟨c, AnyTokenizer.tokenizer⟩).SplitsAs (fun t => ∃ seen, t = .slices 0 seen) fun s =>
      if (Masked.ofLiteral s).text.blank then .ok [] else .error (.tokenizer .emptySlices) := by
  rintro _ ⟨seen, rfl⟩ s
  refine ⟨.slices 0 seen, ?_, seen, rfl⟩
  have hencode : (AnyTokenizer.tokenizer.encode (Masked.ofLiteral s).text).runIn (.slices 0 seen) =
      (.error .emptySlices, .slices 0 seen) := rfl
  have hmasked : (AnyTokenizer.slices 0 seen).masked s = .ofLiteral s := rfl
  rw [run_ofTokens, hmasked, Splitter.run_splitText_some, Tokenizer.chunks,
    Tokenizer.chunksOf, Call.runIn_bind, Tokenizer.segmentsOf]
  by_cases hb : (Masked.ofLiteral s).text.blank = true
  · simp only [if_pos hb]
    rfl
  · simp only [if_neg hb]
    rw [Call.runIn_bind, hencode]
    rfl

/-- Documents are split one by one, and chunks get their metadata one by one, where a splitter does to
strings what a function does. Those by words and by slices do, whatever pieces their tables hold, and
cut a text into texts. -/
theorem splits_documents_one_by_one :
    (∀ {σ ε : Type} (S : TextSplitter σ ε) (inv : σ → Prop) (f : Literal → Except ε (List Literal)),
      S.SplitsAs inv f → S.SplitsDocuments inv f) ∧
    (∀ (d : Document) (i : Nat) (s : Text), (d.chunk i s).id = chunkId d.id i (Sha256.hexOfText s) ∧
      (d.chunk i s).content = .text s ∧
      ∀ k, Dictionary.get? (d.chunk i s).metadata k =
        if k = Document.indexKey then some (.int i)
        else if k = Document.parentKey then some (.ofText d.id)
        else Dictionary.get? d.metadata k) ∧
    (∀ c : Config, ∃ f : Literal → List Literal,
      let S := ofTokens ⟨c, AnyTokenizer.tokenizer⟩
      S.SplitsAs (fun t => ∃ seen, t = .words seen) (fun s => .ok (f s)) ∧
        S.SplitsDocuments (fun t => ∃ seen, t = .words seen) (fun s => .ok (f s)) ∧
        ∀ s : Text, ∃ texts : List Text, f (.text s) = texts.map .text) ∧
    ∀ (c : Config) (n : Int), ∃ f : Literal → Except SplitError (List Literal),
      let S := ofTokens ⟨c, AnyTokenizer.tokenizer⟩
      S.SplitsAs (fun t => ∃ seen, t = .slices n seen) f ∧
        S.SplitsDocuments (fun t => ∃ seen, t = .slices n seen) f ∧
        (n ≠ 0 → ∀ s, ∃ chunks, f s = .ok chunks) ∧
        (n ≠ 0 → ∀ s : Text, ∃ texts : List Text, f (.text s) = .ok (texts.map .text)) := by
  refine ⟨fun S inv f h => h.splitsDocuments, ?_, ?_, ?_⟩
  · exact fun d i s => ⟨rfl, rfl, d.get?_metadata_chunk i s⟩
  · intro c
    have hmasked : ∀ u, (∃ seen, u = AnyTokenizer.words seen) → ∀ s, u.masked s = .ofLiteral s := by
      rintro _ ⟨seen, rfl⟩ s
      rfl
    have hwords := splitsAs_of_represents AnyTokenizer.represents_words hmasked c
    exact ⟨_, hwords, hwords.splitsDocuments, fun s => ⟨_, rfl⟩⟩
  · intro c n
    by_cases hn : n = 0
    · subst hn
      have hslices := splitsAs_slices_zero c
      exact ⟨_, hslices, hslices.splitsDocuments, fun hne => absurd rfl hne, fun hne => absurd rfl hne⟩
    · have hmasked : ∀ u, (∃ seen, u = AnyTokenizer.slices n seen) →
          ∀ s, u.masked s = .ofLiteral s := by
        rintro _ ⟨seen, rfl⟩ s
        rfl
      have hslices := splitsAs_of_represents (AnyTokenizer.represents_slices_of_ne_zero hn) hmasked c
      exact ⟨_, hslices, hslices.splitsDocuments, fun _ s => ⟨_, rfl⟩, fun _ s => ⟨_, rfl⟩⟩

/-- The sources share a dictionary, which has a parent in it already. -/
theorem splits_documents_one_by_one_shared :
    (atSeparator ",").SplitsAs (fun _ => True) (splitAtSeparator ",") ∧
    Held [[(Document.parentKey, .null)]] [⟨['a'], "x,,y", 0⟩, ⟨['b'], "", 0⟩, ⟨['a'], "x", 0⟩] ∧
    ∃ out, (atSeparator ",").outputs () [[(Document.parentKey, .null)]]
        [⟨['a'], "x,,y", 0⟩, ⟨['b'], "", 0⟩, ⟨['a'], "x", 0⟩] = .ok out ∧
      out.map Document.content = ["x", "y", "x"] ∧
      out.map Document.metadata =
        [[(Document.parentKey, .ofText ['a']), (Document.indexKey, .int 0)],
          [(Document.parentKey, .ofText ['a']), (Document.indexKey, .int 1)],
          [(Document.parentKey, .ofText ['a']), (Document.indexKey, .int 0)]] := by
  have hsplits : (atSeparator ",").SplitsAs (fun _ => True) (splitAtSeparator ",") :=
    fun u hu s => ⟨u, rfl, hu⟩
  have hheld : Held [[(Document.parentKey, .null)]]
      [⟨['a'], "x,,y", 0⟩, ⟨['b'], "", 0⟩, ⟨['a'], "x", 0⟩] := by
    unfold Held
    decide
  obtain ⟨hall, -⟩ := splits_documents_one_by_one
  have hgathers := (hall _ _ _ hsplits).gathers () trivial _ _ hheld
  refine ⟨hsplits, hheld, _,
    (hgathers _).2 ⟨[(_, [['x'], ['y']]), (_, []), (_, [['x']])], rfl, ?_, rfl⟩, rfl, rfl⟩
  simp only [List.forall_mem_cons]
  exact ⟨rfl, rfl, rfl, fun part hpart => absurd hpart List.not_mem_nil⟩

/-- A chunk with a surrogate that stands alone has no digest, and so no document. -/
theorem stray_content_not_split :
    let content := Literal.stray (.surrogate 0xD800 :: "bcdefgh".toList.map .scalar)
    splitAtSeparator "|" content = .ok [content] ∧
      (atSeparator "|").outputs () [[]] [⟨['d'], content, 0⟩] =
        .error (.noUtf8 ⟨0, [.surrogate 0xD800]⟩) := by
  exact ⟨rfl, rfl⟩

end TextSplitter

end TextChunks
