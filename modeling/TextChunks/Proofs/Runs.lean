namespace TextChunks

variable {σ ε α β : Type}

theorem exists_of_bind_ok {x : Except ε α} {f : α → Except ε β} {b : β} (h : x >>= f = .ok b) :
    ∃ a, x = .ok a ∧ f a = .ok b := by
  cases x with
  | error e => exact nomatch h
  | ok a => exact ⟨a, rfl, h⟩

theorem mapError_eq_ok_iff {ε' : Type} {x : Except ε α} {f : ε → ε'} {a : α} :
    x.mapError f = .ok a ↔ x = .ok a := by
  cases x with
  | error e => exact iff_of_false (fun h => nomatch h) fun h => nomatch h
  | ok b =>
    change Except.ok b = Except.ok a ↔ _
    rw [Except.ok.injEq, Except.ok.injEq]

theorem exists_of_map_ok {x : Except ε α} {f : α → β} {b : β} (h : x.map f = .ok b) :
    ∃ a, x = .ok a ∧ f a = b := by
  cases x with
  | error e => exact nomatch h
  | ok a => exact ⟨a, rfl, Except.ok.inj h⟩

theorem run_bind_ok {x : ExceptT ε (StateM σ) α} {s s' : σ} {a : α}
    (h : x.run.run s = (.ok a, s')) (f : α → ExceptT ε (StateM σ) β) :
    (x >>= f).run.run s = (f a).run.run s' := by
  have hx : (x s : Except ε α × σ) = (.ok a, s') := h
  change (ExceptT.bindCont f (x s).1 (x s).2 : Except ε β × σ) = _
  rw [hx]
  rfl

theorem run_bind_error {x : ExceptT ε (StateM σ) α} {s s' : σ} {e : ε}
    (h : x.run.run s = (.error e, s')) (f : α → ExceptT ε (StateM σ) β) :
    (x >>= f).run.run s = (.error e, s') := by
  have hx : (x s : Except ε α × σ) = (.error e, s') := h
  change (ExceptT.bindCont f (x s).1 (x s).2 : Except ε β × σ) = _
  rw [hx]
  rfl

theorem run_state_bind (x : StateM σ α) (f : α → StateM σ β) (s : σ) :
    (x >>= f).run s = (f (x.run s).1).run (x.run s).2 := rfl

theorem run_state_get_bind (f : σ → StateM σ α) (s : σ) : (get >>= f).run s = (f s).run s := rfl

theorem run_get_bind (f : σ → ExceptT ε (StateM σ) α) (s : σ) :
    (get >>= f).run.run s = (f s).run.run s := rfl

/-- A part that only changes the state does not fail. -/
theorem run_lift_bind {x : StateM σ α} {s s' : σ} {a : α} (h : x.run s = (a, s'))
    (f : α → ExceptT ε (StateM σ) β) : (liftM x >>= f).run.run s = (f a).run.run s' := by
  apply run_bind_ok
  have hx : (x s : α × σ) = (a, s') := h
  change ((Except.ok (x s).1, (x s).2) : Except ε α × σ) = _
  rw [hx]

theorem run_lift_bind_eq (x : StateM σ α) (f : α → ExceptT ε (StateM σ) β) (s : σ) :
    (liftM x >>= f).run.run s = (f (x.run s).1).run.run (x.run s).2 := run_lift_bind rfl f

end TextChunks
