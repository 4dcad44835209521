import TextChunks.Proofs.Calls

namespace TextChunks.Tokenizer

/-- Both calls of the tokenizers are related, by a relation that sequences of calls keep. -/
structure Parallel (R : (α : Type) → Call σ α → Call τ α → Prop) (t : Tokenizer σ)
    (u : Tokenizer τ) : Prop where
  ofExcept : ∀ {α : Type} (e : Except Failure α), R α (Call.ofExcept e) (Call.ofExcept e)
  bind : ∀ {α β : Type} {x : Call σ α} {y : Call τ α} {f : α → Call σ β} {g : α → Call τ β},
    R α x y → (∀ a, R β (f a) (g a)) → R β (x >>= f) (y >>= g)
  encode : ∀ text, R (List Nat) (t.encode text) (u.encode text)
  decode : ∀ ids, R Text (t.decode ids) (u.decode ids)

namespace Parallel

variable {R : (α : Type) → Call σ α → Call τ α → Prop} {t : Tokenizer σ} {u : Tokenizer τ}
  (h : Parallel R t u)

include h

theorem pure (a : α) : R α (Pure.pure a) (Pure.pure a) := h.ofExcept (.ok a)

theorem segments {size : Nat} (size_pos : 0 < size) (minCut budget : Nat) (tokens : List Nat) :
    R _ (t.segments size size_pos minCut budget tokens)
      (u.segments size size_pos minCut budget tokens) := by
  fun_induction Tokenizer.segments t size size_pos minCut budget tokens with
  | case1 => rw [Tokenizer.segments]; exact h.pure _
  | case2 token rest => rw [Tokenizer.segments]; exact h.bind (h.decode _) fun _ => h.pure _
  | case3 budget token rest ihBlank ihWindow =>
    rw [Tokenizer.segments]
    apply h.bind (h.decode _)
    intro window
    dsimp only
    split
    · exact h.bind ihBlank fun _ => h.pure _
    · exact h.bind (h.encode _) fun used => h.bind (ihWindow used) fun _ => h.pure _

theorem segmentsOf (c : Config) {size : Nat} (size_pos : 0 < size) (text : Text) :
    R _ (t.segmentsOf c size size_pos text) (u.segmentsOf c size size_pos text) := by
  unfold Tokenizer.segmentsOf
  split
  · exact h.pure _
  · exact h.bind (h.encode text) fun _ => h.segments size_pos _ _ _

theorem chunksOf (c : Config) {size : Nat} (size_pos : 0 < size) (text : Text) :
    R _ (t.chunksOf c size size_pos text) (u.chunksOf c size size_pos text) :=
  h.bind (h.segmentsOf c size_pos text) fun _ => h.pure _

theorem count (text : Text) : R _ (t.count text) (u.count text) := by
  unfold Tokenizer.count
  split
  · exact h.pure _
  · exact h.bind (h.encode text) fun _ => h.pure _

theorem recordsFrom (c : Config) (document : Literal) (masked : Masked) (index : Nat)
    (chunks : List Text) : R _ (t.recordsFrom c document masked index chunks)
      (u.recordsFrom c document masked index chunks) := by
  induction chunks generalizing index with
  | nil => exact h.pure _
  | cons chunk rest ih =>
    refine h.bind (h.ofExcept _) fun name => ?_
    exact h.bind (h.count chunk) fun _ => h.bind (ih (index + 1)) fun _ => h.pure _

theorem records (c : Config) (document : Literal) (text : Option Masked) :
    R _ (t.records c document text) (u.records c document text) := by
  cases text with
  | none => exact h.pure _
  | some masked =>
    exact h.bind (h.chunksOf c c.windowSize_pos masked.text) fun chunks =>
      h.recordsFrom c document masked 0 chunks

end Parallel

end TextChunks.Tokenizer
