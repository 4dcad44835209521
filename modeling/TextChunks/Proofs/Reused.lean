import TextChunks.Proofs.Maintained
import TextChunks.Proofs.PieceTables

namespace TextChunks

inductive TokenizerUse where
  | split (c : Config) (text : Option Text) (size : Int)
  | records (c : Config) (document : Literal) (text : Option Masked)
  | encode (text : Text)
  | decode (ids : List Nat)

def TokenizerUse.leaves (t : Tokenizer σ) (s : σ) : TokenizerUse → σ
  | .split c text size => ((Splitter.split ⟨c, t⟩ text size).run.run s).2
  | .records c document text => ((t.records c document text).runIn s).2
  | .encode text => ((t.encode text).runIn s).2
  | .decode ids => ((t.decode ids).runIn s).2

namespace TokenizerUse

variable (t : Tokenizer σ) (s : σ) (c : Config) {size : Int}

theorem leaves_split_some (hsize : 0 < size.toNat) (text : Text) :
    (split c (some text) size).leaves t s = ((t.chunksOf c size.toNat hsize text).runIn s).2 :=
  congrArg Prod.snd (Splitter.run_split_some ⟨c, t⟩ s hsize text)

theorem leaves_split_none (hsize : 0 < size.toNat) : (split c none size).leaves t s = s :=
  congrArg Prod.snd (Splitter.run_split_none ⟨c, t⟩ s hsize)

theorem leaves_split_size (hsize : ¬0 < size.toNat) (text : Option Text) :
    (split c text size).leaves t s = s :=
  congrArg Prod.snd (Splitter.run_split_size ⟨c, t⟩ s hsize text)

end TokenizerUse

variable {t : Tokenizer σ} {inv : σ → Prop}

theorem Tokenizer.Maintains.leaves (h : t.Maintains inv) {s : σ} (hs : inv s) (use : TokenizerUse) :
    inv (use.leaves t s) := by
  cases use with
  | split c text size => exact h.split c text size hs
  | records c document text => exact h.parallel.records c document text s hs
  | encode text => exact h.encode text s hs
  | decode ids => exact h.decode ids s hs

theorem Tokenizer.Maintains.foldl_leaves (h : t.Maintains inv) {s : σ} (hs : inv s)
    (uses : List TokenizerUse) : inv (uses.foldl (TokenizerUse.leaves t) s) := by
  induction uses generalizing s with
  | nil => exact hs
  | cons use uses ih => exact ih (h.leaves hs use)

namespace Represents

variable {view : σ → Nat → Option α} {encode : Text → List α} {decode : List α → Text} {s u : σ}

/-- Splits in two states give the same, although the tokens may differ. -/
theorem split_eq (h : Represents t inv view encode decode) (hs : inv s) (hu : inv u) (c : Config)
    (text : Option Text) (size : Int) :
    ((Splitter.split ⟨c, t⟩ text size).run.run s).1 =
      ((Splitter.split ⟨c, t⟩ text size).run.run u).1 := by
  by_cases hsize : 0 < size.toNat
  · cases text with
    | none => rw [Splitter.run_split_none _ s hsize, Splitter.run_split_none _ u hsize]
    | some text =>
      obtain ⟨s', hrun, -⟩ := h.split_run c hsize text hs
      obtain ⟨u', hrun', -⟩ := h.split_run c hsize text hu
      rw [hrun, hrun']
  · rw [Splitter.run_split_size _ s hsize, Splitter.run_split_size _ u hsize]

theorem exists_split (h : Represents t inv view encode decode) (hs : inv s) (c : Config)
    (text : Option Text) {size : Int} (hsize : 0 < size) :
    ∃ chunks, ((Splitter.split ⟨c, t⟩ text size).run.run s).1 = .ok chunks := by
  have hsize' : 0 < size.toNat := by omega
  cases text with
  | none => exact ⟨[], by rw [Splitter.run_split_none _ s hsize']⟩
  | some text =>
    obtain ⟨s', hrun, -⟩ := h.split_run c hsize' text hs
    exact ⟨_, congrArg Prod.fst hrun⟩

/-- Records in two states are the same, or fail alike. -/
theorem records_eq (h : Represents t inv view encode decode) (hs : inv s) (hu : inv u) (c : Config)
    (document : Literal) (text : Option Masked) :
    ((t.records c document text).runIn s).1 = ((t.records c document text).runIn u).1 := by
  cases text with
  | none => rfl
  | some masked =>
    obtain ⟨s', hrun, -⟩ := h.records_runIn c document masked hs
    obtain ⟨u', hrun', -⟩ := h.records_runIn c document masked hu
    rw [hrun, hrun']

end Represents

namespace AnyTokenizer

theorem maintains_words : tokenizer.Maintains fun t => ∃ seen, t = .words seen where
  encode text := by
    rintro _ ⟨seen, rfl⟩
    exact ⟨_, rfl⟩
  decode ids := by
    rintro _ ⟨seen, rfl⟩
    exact ⟨_, rfl⟩

theorem maintains_slices (n : Int) : tokenizer.Maintains fun t => ∃ seen, t = .slices n seen where
  encode text := by
    rintro _ ⟨seen, rfl⟩
    exact ⟨_, rfl⟩
  decode ids := by
    rintro _ ⟨seen, rfl⟩
    exact ⟨_, rfl⟩

inductive Unused : AnyTokenizer → Prop where
  | words : Unused (.words [])
  | slices {n : Int} : 1 ≤ n → Unused (.slices n [])

/-- What a tokenizer of pieces was used for is not to be told from what it is used for next. -/
theorem Unused.exists_represents {t : AnyTokenizer} (h : t.Unused) :
    ∃ (inv : AnyTokenizer → Prop) (encode : Text → List Text), inv t ∧ tokenizer.Maintains inv ∧
      Represents tokenizer inv piece? encode List.flatten := by
  cases h with
  | words => exact ⟨_, _, ⟨[], rfl⟩, maintains_words, represents_words⟩
  | @slices n hn => exact ⟨_, _, ⟨[], rfl⟩, maintains_slices n, represents_slices (by omega)⟩

end AnyTokenizer

/-- Whatever a tokenizer of pieces was used for, splits and records are those of an unused one. Every
text has records under every configuration that can be written. -/
theorem split_and_records_of_used {t : AnyTokenizer} (ht : t.Unused) (uses : List TokenizerUse) :
    (∀ c text size,
      ((Splitter.split ⟨c, AnyTokenizer.tokenizer⟩ text size).run.run
        (uses.foldl (TokenizerUse.leaves AnyTokenizer.tokenizer) t)).1 =
      ((Splitter.split ⟨c, AnyTokenizer.tokenizer⟩ text size).run.run t).1) ∧
    (∀ c text size, 0 < size →
      ∃ chunks, ((Splitter.split ⟨c, AnyTokenizer.tokenizer⟩ text size).run.run t).1 = .ok chunks) ∧
    (∀ c document text,
      ((AnyTokenizer.tokenizer.records c document text).runIn
        (uses.foldl (TokenizerUse.leaves AnyTokenizer.tokenizer) t)).1 =
      ((AnyTokenizer.tokenizer.records c document text).runIn t).1) ∧
    ∀ c : Config, c.Short → ∀ (document : Text) (text : Text), ∃ records u,
      (AnyTokenizer.tokenizer.records c document (some text)).runIn t = (.ok records, u) := by
  obtain ⟨inv, encode, hinv, hmaintains, hrepresents⟩ := ht.exists_represents
  have hused := hmaintains.foldl_leaves hinv uses
  exact ⟨hrepresents.split_eq hused hinv, fun c text size => hrepresents.exists_split hinv c text,
    hrepresents.records_eq hused hinv,
    fun c hc document text => hrepresents.exists_records_of_short hc document text hinv⟩

/-- Here the used tokenizer gives `ab` another token than the unused one does. -/
theorem split_and_records_of_used_slices :
    AnyTokenizer.Unused (.slices 2 []) ∧
      ((AnyTokenizer.encode "ab".toList).runIn
        ([TokenizerUse.encode "xyab".toList, .split {} (some "ab".toList) 0].foldl
          (TokenizerUse.leaves AnyTokenizer.tokenizer) (.slices 2 []))).1 = .ok [1] ∧
      ((AnyTokenizer.encode "ab".toList).runIn (.slices 2 [])).1 = .ok [0] ∧
      ((Splitter.split ⟨{}, AnyTokenizer.tokenizer⟩ (some "ab".toList) 800).run.run
        ([TokenizerUse.encode "xyab".toList, .split {} (some "ab".toList) 0].foldl
          (TokenizerUse.leaves AnyTokenizer.tokenizer) (.slices 2 []))).1 =
        ((Splitter.split ⟨{}, AnyTokenizer.tokenizer⟩ (some "ab".toList) 800).run.run
          (.slices 2 [])).1 :=
  ⟨.slices (by decide), by decide +kernel, by decide +kernel, (split_and_records_of_used (.slices (by decide)) _).1 _ _ _⟩

end TextChunks
