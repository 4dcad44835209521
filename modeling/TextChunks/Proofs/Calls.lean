import TextChunks.Record

namespace TextChunks

namespace Call

@[simp] theorem runIn_pure (a : α) (s : σ) : (pure a : Call σ α).runIn s = (.ok a, s) := rfl

theorem runIn_get_bind (f : σ → Call σ α) (s : σ) : (get >>= f).runIn s = (f s).runIn s := rfl

theorem runIn_modify_bind (g : σ → σ) (f : Unit → Call σ α) (s : σ) :
    ((modify g : Call σ Unit) >>= f).runIn s = (f ()).runIn (g s) := rfl

theorem runIn_bind_ok {x : Call σ α} {s s' : σ} {a : α} (h : x.runIn s = (.ok a, s'))
    (f : α → Call σ β) : (x >>= f).runIn s = (f a).runIn s' := by
  have hx : (x s : Except Failure α × σ) = (.ok a, s') := h
  change (ExceptT.bindCont f (x s).1 (x s).2 : Except Failure β × σ) = _
  rw [hx]
  rfl

theorem runIn_bind (x : Call σ α) (f : α → Call σ β) (s : σ) :
    (x >>= f).runIn s = match x.runIn s with
      | (.ok a, s') => (f a).runIn s'
      | (.error e, s') => (.error e, s') := by
  rcases h : x.runIn s with ⟨a | e, s'⟩
  · have hx : (x s : Except Failure α × σ) = (.error a, s') := h
    change (ExceptT.bindCont f (x s).1 (x s).2 : Except Failure β × σ) = _
    rw [hx]
    rfl
  · exact runIn_bind_ok h f

theorem runIn_bind_pure (x : Call σ α) (f : α → β) (s : σ) :
    (x >>= fun a => pure (f a)).runIn s = Prod.map (Except.map f) id (x.runIn s) := by
  rw [runIn_bind]
  rcases x.runIn s with ⟨a | e, s'⟩ <;> rfl

theorem runIn_ofExcept_bind (e : Except Failure α) (f : α → Call σ β) (s : σ) :
    (ofExcept e >>= f).runIn s = match e with
      | .ok a => (f a).runIn s
      | .error x => (.error x, s) := by
  cases e <;> rfl

theorem exists_of_runIn_bind {x : Call σ α} {f : α → Call σ β} {s s' : σ} {b : β}
    (h : (x >>= f).runIn s = (.ok b, s')) :
    ∃ a u, x.runIn s = (.ok a, u) ∧ (f a).runIn u = (.ok b, s') := by
  rw [runIn_bind] at h
  split at h
  · next a u hx => exact ⟨a, u, hx, h⟩
  · simp at h

theorem exists_of_runIn_bind_error {x : Call σ α} {f : α → Call σ β} {s s' : σ} {e : Failure}
    (h : (x >>= f).runIn s = (.error e, s')) : x.runIn s = (.error e, s') ∨
      ∃ a u, x.runIn s = (.ok a, u) ∧ (f a).runIn u = (.error e, s') := by
  rw [runIn_bind] at h
  split at h
  · next a u hx => exact .inr ⟨a, u, hx, h⟩
  · next e' u hx =>
    obtain ⟨he, rfl⟩ := Prod.mk.inj h
    exact .inl (Except.error.inj he ▸ hx)

/-- A property of what a run gives is one of its result, where that is known. -/
theorem exists_ok_iff {run : Except ε α × σ} {a : α} {s : σ} (h : run = (.ok a, s))
    {P : α → Prop} : (∃ b s', run = (.ok b, s') ∧ P b) ↔ P a := by
  constructor
  · rintro ⟨b, s', hb, hP⟩
    rw [h] at hb
    obtain ⟨heq, -⟩ := Prod.mk.inj hb
    obtain rfl := Except.ok.inj heq
    exact hP
  · exact fun hP => ⟨a, s, h, hP⟩

end Call

namespace Tokenizer

variable {t : Tokenizer σ} {c : Config} {document : Literal} {masked : Masked} {index : Nat}
  {s u : σ} {records : List ChunkRecord}

theorem recordsFrom_nil_eq_ok_iff :
    (t.recordsFrom c document masked index []).runIn s = (.ok records, u) ↔ records = [] ∧ u = s := by
  constructor
  · intro h
    obtain ⟨hrecords, rfl⟩ := Prod.mk.inj h
    exact ⟨(Except.ok.inj hrecords).symm, rfl⟩
  · rintro ⟨rfl, rfl⟩
    rfl

/-- A chunk has a record where it has a name and its tokens are counted; then come the later ones. -/
theorem recordsFrom_cons_eq_ok_iff {chunk : Text} {rest : List Text} :
    (t.recordsFrom c document masked index (chunk :: rest)).runIn s = (.ok records, u) ↔
      ∃ name count v later, nameOf c document index (masked.reveal chunk) = .ok name ∧
        (t.count chunk).runIn s = (.ok count, v) ∧
        (t.recordsFrom c document masked (index + 1) rest).runIn v = (.ok later, u) ∧
        records = ⟨name.id, index, chunk, count, name.hash⟩ :: later := by
  rw [recordsFrom, Call.runIn_ofExcept_bind]
  cases nameOf c document index (masked.reveal chunk) with
  | error f =>
    constructor
    · intro h
      cases (Prod.mk.inj h).1
    · rintro ⟨name, count, v, later, hname, -⟩
      cases hname
  | ok name =>
    dsimp only
    constructor
    · intro h
      obtain ⟨count, v, hcount, h⟩ := Call.exists_of_runIn_bind h
      obtain ⟨later, w, hlater, h⟩ := Call.exists_of_runIn_bind h
      obtain ⟨hrecords, rfl⟩ := Prod.mk.inj h
      exact ⟨name, count, v, later, rfl, hcount, hlater, (Except.ok.inj hrecords).symm⟩
    · rintro ⟨name', count, v, later, hname, hcount, hlater, rfl⟩
      obtain rfl := Except.ok.inj hname
      rw [Call.runIn_bind_ok hcount, Call.runIn_bind_ok hlater]
      rfl

end Tokenizer

namespace Splitter

variable (S : Splitter σ) {size : Int} (s : σ)

theorem run_split_some (hsize : 0 < size.toNat) (text : Text) :
    (S.split (some text) size).run.run s = Prod.map (Except.mapError .tokenizer) id
      ((S.tokenizer.chunksOf S.config size.toNat hsize text).runIn s) := by
  unfold split
  rw [dif_pos hsize]
  rfl

theorem run_splitText_some (text : Text) :
    (S.splitText (some text)).run.run s = Prod.map (Except.mapError .tokenizer) id
      ((S.tokenizer.chunks S.config text).runIn s) :=
  S.run_split_some s (show 0 < (S.config.windowSize : Int).toNat from S.config.windowSize_pos) text

theorem run_split_none (hsize : 0 < size.toNat) : (S.split none size).run.run s = (.ok [], s) := by
  unfold split
  rw [dif_pos hsize]
  rfl

theorem run_split_size (hsize : ¬0 < size.toNat) (text : Option Text) :
    (S.split text size).run.run s = (.error (.windowSize size), s) := by
  unfold split
  rw [dif_neg hsize]
  rfl

end Splitter

end TextChunks
