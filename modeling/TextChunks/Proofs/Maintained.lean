import TextChunks.Proofs.Parallel

namespace TextChunks

namespace Call

def Maintains (inv : σ → Prop) (x : Call σ α) : Prop := ∀ s, inv s → inv (x.runIn s).2

variable {inv : σ → Prop}

theorem maintains_ofExcept (e : Except Failure α) : Maintains inv (ofExcept e) := fun _ hs => hs

theorem maintains_pure (a : α) : Maintains inv (pure a : Call σ α) := maintains_ofExcept (.ok a)

theorem Maintains.bind {x : Call σ α} {f : α → Call σ β} (hx : Maintains inv x)
    (hf : ∀ a, Maintains inv (f a)) : Maintains inv (x >>= f) := by
  intro s hs
  have hu := hx s hs
  rw [runIn_bind]
  rcases h : x.runIn s with ⟨e | a, u⟩
  · rwa [h] at hu
  · rw [h] at hu
    exact hf a u hu

end Call

namespace Tokenizer

structure Maintains (t : Tokenizer σ) (inv : σ → Prop) : Prop where
  encode : ∀ text, (t.encode text).Maintains inv
  decode : ∀ ids, (t.decode ids).Maintains inv

namespace Maintains

variable {t : Tokenizer σ} {inv : σ → Prop}

theorem parallel (h : t.Maintains inv) : Parallel (fun _ x _ => x.Maintains inv) t t where
  ofExcept := Call.maintains_ofExcept
  bind := Call.Maintains.bind
  encode := h.encode
  decode := h.decode

theorem split (h : t.Maintains inv) (c : Config) (text : Option Text) (size : Int) {s : σ}
    (hs : inv s) : inv ((Splitter.split ⟨c, t⟩ text size).run.run s).2 := by
  by_cases hsize : 0 < size.toNat
  · cases text with
    | none => rwa [Splitter.run_split_none _ s hsize]
    | some text =>
      rw [Splitter.run_split_some _ s hsize]
      exact h.parallel.chunksOf c hsize text s hs
  · rwa [Splitter.run_split_size _ s hsize]

end Maintains

end Tokenizer

end TextChunks
