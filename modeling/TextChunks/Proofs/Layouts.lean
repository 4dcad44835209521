import TextChunks.Proofs.Dictionaries
import TextChunks.Proofs.Written

namespace TextChunks.Json

/-- Nothing at the start of the text goes on with a number. -/
def Closed (rest : Text) : Prop :=
  ∀ c ∈ rest.head?, c.isDigit = false ∧ c ≠ '.' ∧ c ≠ 'e' ∧ c ≠ 'E'

def Gap (g : Text) : Prop := ∀ c ∈ g, isSpace c = true

theorem skip_gap {g : Text} (hg : Gap g) (s : Text) : skip (g ++ s) = skip s :=
  List.dropWhile_append_of_pos hg

theorem skip_cons {c : Char} (hc : isSpace c = false) (s : Text) : skip (c :: s) = c :: s :=
  List.dropWhile_cons_of_neg (by simp [hc])

theorem isSpace_iff {c : Char} :
    isSpace c = true ↔ c = ' ' ∨ c = '\t' ∨ c = '\n' ∨ c = '\r' := by
  simp [isSpace, or_assoc]

theorem closed_nil : Closed [] := nofun

theorem closed_cons {c : Char} {s : Text} (hc : c = ',' ∨ c = '}' ∨ isSpace c = true) :
    Closed (c :: s) := by
  rintro _ ⟨⟩
  rw [isSpace_iff] at hc
  rcases hc with rfl | rfl | rfl | rfl | rfl | rfl <;> decide

theorem closed_gap {g : Text} (hg : Gap g) {s : Text} (hs : Closed s) : Closed (g ++ s) := by
  cases g with
  | nil => exact hs
  | cons c g => exact closed_cons (.inr (.inr (hg c List.mem_cons_self)))

section Numbers

def starters : List Char := ['"', '{', '[', 'n', 't', 'f', 'N', 'I', '-']

theorem value_eq_number {c : Char} (hc : c ∉ starters) (depth fuel : Nat) (s : Text) :
    value depth (fuel + 1) (c :: s) = number (c :: s) := by
  simp only [starters, List.mem_cons, List.not_mem_nil, or_false, not_or] at hc
  obtain ⟨hquote, hbrace, hbracket, hn, ht, hf, hN, hI, hminus⟩ := hc
  rw [value] <;> simp_all

theorem isDigit_notMem_starters {c : Char} (hc : c.isDigit = true) : c ∉ starters := by
  intro h
  have hnone : starters.all (fun d => !d.isDigit) = true := by decide
  have hdigit := List.all_eq_true.1 hnone c h
  rw [hc] at hdigit
  cases hdigit

/-- Only zero starts with a zero. -/
theorem ofNat_cases (n : Nat) : n = 0 ∨ ∃ c s, Text.ofNat n = c :: s ∧ c ≠ '0' := by
  induction n using Nat.strongRecOn with
  | ind n ih =>
    by_cases hn : n < 10
    · have hdigit : ∀ n < 10, n = 0 ∨ n.digitChar ≠ '0' := by decide
      refine (hdigit n hn).imp_right fun h => ⟨n.digitChar, [], ?_, h⟩
      exact Nat.toDigits_of_lt_base hn
    · rcases ih (n / 10) (by omega) with hzero | ⟨c, s, hs, hc⟩
      · omega
      · refine .inr ⟨c, s ++ [(n % 10).digitChar], ?_, hc⟩
        rw [Text.ofNat, Nat.toDigits_of_base_le (by decide) (by omega), ← Text.ofNat, hs,
          List.cons_append]

theorem isDigit_of_mem_ofNat {n : Nat} {c : Char} (hc : c ∈ Text.ofNat n) : c.isDigit = true :=
  Nat.isDigit_of_mem_toDigits (by decide) (by decide) hc

theorem exists_ofNat_eq_cons (n : Nat) : ∃ c s, Text.ofNat n = c :: s ∧ c.isDigit = true := by
  have hne : Text.ofNat n ≠ [] := Nat.toDigits_ne_nil
  obtain ⟨c, s, h⟩ := List.exists_cons_of_ne_nil hne
  exact ⟨c, s, h, isDigit_of_mem_ofNat (n := n) (h ▸ List.mem_cons_self)⟩

theorem digitsValue_ofNat (n : Nat) : Text.digitsValue (Text.ofNat n) = n := by
  have hvalue : Nat.ofDigitChars 10 (Text.ofNat n) 0 = n := Nat.ofDigitChars_ten_toDigits
  simpa only [Text.digitsValue, Nat.ofDigitChars_eq_foldl, Nat.mul_comm 10] using hvalue

variable {rest : Text} (hrest : Closed rest)

include hrest

theorem digits_ofNat (n : Nat) : Text.digits (Text.ofNat n ++ rest) = (Text.ofNat n, rest) := by
  have hdigits : ∀ c ∈ Text.ofNat n, c.isDigit = true := fun c => isDigit_of_mem_ofNat
  unfold Text.digits
  rw [List.takeWhile_append_of_pos hdigits, List.dropWhile_append_of_pos hdigits]
  cases rest with
  | nil => simp
  | cons c rest =>
    have hc : ¬c.isDigit = true := by simp [(hrest c rfl).1]
    rw [List.takeWhile_cons_of_neg hc, List.dropWhile_cons_of_neg hc, List.append_nil]

theorem whole?_ofNat (n : Nat) :
    Text.whole? (Text.ofNat n ++ rest) = some (Text.ofNat n, rest) := by
  have hdigits := digits_ofNat hrest n
  rcases ofNat_cases n with rfl | ⟨c, s, hs, hc⟩
  · rfl
  · have hdigit : c.isDigit = true := isDigit_of_mem_ofNat (n := n) (hs ▸ List.mem_cons_self)
    rw [hs, List.cons_append] at hdigits ⊢
    rw [Text.whole?, if_pos hdigit, hdigits]
    exact fun h => hc h

theorem fractionPart_of_closed : fractionPart rest = ([], rest) := by
  unfold fractionPart
  split
  · next rest => exact absurd rfl (hrest '.' rfl).2.1
  · rfl

theorem exponentPart?_of_closed : exponentPart? rest = none := by
  unfold exponentPart?
  split
  · next c rest =>
    obtain ⟨-, -, he, hE⟩ := hrest c rfl
    rw [if_neg (by simp [he, hE])]
  · rfl

theorem number_ofNat (n : Nat) : number (Text.ofNat n ++ rest) =
    if Text.maxDigits < (Text.ofNat n).length then .error (.digits (Text.ofNat n).length)
    else .ok (.int n, rest) := by
  obtain ⟨c, s, hs, hc⟩ := exists_ofNat_eq_cons n
  have hsign : Text.sign (Text.ofNat n ++ rest) = (false, Text.ofNat n ++ rest) := by
    rw [hs, List.cons_append, Text.sign]
    intro _ hminus
    rw [(List.cons.inj hminus).1] at hc
    cases hc
  unfold number
  rw [hsign]
  dsimp only
  rw [whole?_ofNat hrest]
  dsimp only
  rw [fractionPart_of_closed hrest]
  dsimp only
  rw [exponentPart?_of_closed hrest]
  simp [Text.signedValue, digitsValue_ofNat]

end Numbers

section Strings

theorem exists_of_prepend {p : CodePoint} {r : Reading (List CodePoint)} {ps : List CodePoint}
    {rest : Text} (h : prepend p r = .ok (ps, rest)) : ∃ qs, r = .ok (qs, rest) ∧ ps = p :: qs := by
  rcases r with e | ⟨qs, rest'⟩
  · cases h
  · obtain ⟨rfl, rfl⟩ := Prod.mk.inj (Except.ok.inj h)
    exact ⟨qs, rfl, rfl⟩

theorem exists_of_codePoints {opening s rest : Text} {ps : List CodePoint}
    (h : codePoints opening s = .ok (ps, rest)) : ∃ w, s = w ++ '"' :: rest ∧
      ∀ opening' rest', codePoints opening' (w ++ '"' :: rest') = .ok (ps, rest') := by
  fun_induction codePoints opening s generalizing ps with
  | case1 => cases h
  | case2 t =>
    obtain ⟨rfl, rfl⟩ := Prod.mk.inj (Except.ok.inj h)
    exact ⟨[], rfl, fun _ _ => rfl⟩
  | case3 => cases h
  | case4 a b c d e t n hn ih =>
    obtain ⟨qs, hqs, rfl⟩ := exists_of_prepend h
    obtain ⟨w, hw, hread⟩ := ih hqs
    refine ⟨'\\' :: 'u' :: a :: b :: c :: d :: w, by rw [hw]; rfl, ?_⟩
    intro opening' rest'
    obtain ⟨f, u, hu⟩ := List.exists_cons_of_ne_nil (l := w ++ '"' :: rest') (by simp)
    change codePoints opening' ('\\' :: 'u' :: a :: b :: c :: d :: (w ++ '"' :: rest')) = _
    rw [hu, codePoints, hn, ← hu, hread]
    rfl
  | case5 => cases h
  | case6 => cases h
  | case7 c t hne hu x hx ih =>
    obtain ⟨qs, hqs, rfl⟩ := exists_of_prepend h
    obtain ⟨w, rfl, hread⟩ := ih hqs
    have hcu : c ≠ 'u' := by
      rintro rfl
      cases hx
    refine ⟨'\\' :: c :: w, rfl, fun opening' rest' => ?_⟩
    rw [List.cons_append, List.cons_append, codePoints_escape hcu hx, hread]
    rfl
  | case8 => cases h
  | case9 => cases h
  | case10 c t h1 h2 h3 h4 h5 hc ih =>
    obtain ⟨qs, hqs, rfl⟩ := exists_of_prepend h
    obtain ⟨w, rfl, hread⟩ := ih hqs
    have hslash : c ≠ '\\' := by
      intro hc
      obtain ⟨d, u, hu⟩ := List.exists_cons_of_ne_nil (l := w ++ '"' :: rest) (by simp)
      exact h5 d u hc hu
    refine ⟨c :: w, rfl, fun opening' rest' => ?_⟩
    rw [List.cons_append, codePoints_cons h1 hslash (Nat.le_of_not_lt hc), hread]
    rfl

/-- The text reads as the string where a quote follows it. -/
def Spells (w : Text) (l : Literal) : Prop :=
  ∃ opening rest, literal opening (w ++ '"' :: rest) = .ok (l, rest)

theorem spells_written (s : Text) : Spells (s.flatMap writeChar) (.text s) :=
  ⟨[], [], literal_written s⟩

theorem literal_eq_ok_iff {opening s rest : Text} {l : Literal} :
    literal opening s = .ok (l, rest) ↔ ∃ ps, codePoints opening s = .ok (ps, rest) ∧
      Literal.ofCodePoints (CodePoint.joinPairs ps) = l := by
  unfold literal
  constructor
  · intro h
    split at h
    · next ps rest' hps =>
      obtain ⟨rfl, rfl⟩ := Prod.mk.inj (Except.ok.inj h)
      exact ⟨ps, hps, rfl⟩
    · cases h
  · rintro ⟨ps, hps, rfl⟩
    rw [hps]

/-- What a text spells at one place it spells everywhere. -/
theorem Spells.literal_eq {w : Text} {l : Literal} (h : Spells w l) (opening rest : Text) :
    literal opening (w ++ '"' :: rest) = .ok (l, rest) := by
  obtain ⟨opening', rest', hread⟩ := h
  obtain ⟨ps, hps, rfl⟩ := literal_eq_ok_iff.1 hread
  obtain ⟨w', hw, hall⟩ := exists_of_codePoints hps
  obtain rfl : w = w' := List.append_cancel_right hw
  exact literal_eq_ok_iff.2 ⟨ps, hall opening rest, rfl⟩

theorem Spells.unique {w : Text} {l l' : Literal} (h : Spells w l) (h' : Spells w l') : l = l' := by
  have heq := (h.literal_eq [] []).symm.trans (h'.literal_eq [] [])
  exact (Prod.mk.inj (Except.ok.inj heq)).1

end Strings

/-- The text reads as the value wherever it stands, if `depth` more collections may be opened. -/
def Reads (depth : Nat) (t : Text) (v : Json) : Prop :=
  ∀ fuel rest, t.length ≤ fuel → Closed rest → value depth fuel (t ++ rest) = .ok (v, rest)

/-- A number in the text is too long to be read, wherever the text stands. -/
def Overlong (depth : Nat) (t : Text) : Prop :=
  ∀ fuel rest, t.length ≤ fuel → Closed rest →
    ∃ n, Text.maxDigits < n ∧ value depth fuel (t ++ rest) = .error (.digits n)

section Scalars

variable (depth : Nat)

theorem reads_string {w : Text} {l : Literal} (h : Spells w l) :
    Reads depth ('"' :: (w ++ ['"'])) (.str l) := by
  intro fuel rest hfuel _
  obtain ⟨fuel, rfl⟩ := Nat.exists_eq_add_one_of_ne_zero (Nat.ne_of_gt (Nat.lt_of_lt_of_le
    (Nat.succ_pos _) hfuel))
  rw [List.cons_append, List.append_assoc, value]
  rw [List.singleton_append, h.literal_eq]

theorem reads_bool (b : Bool) : Reads depth (write (.bool b)) (.bool b) := by
  intro fuel rest hfuel _
  rw [write_bool] at hfuel ⊢
  cases fuel with
  | zero => cases b <;> cases hfuel
  | succ fuel => cases b <;> simp [value]

theorem value_ofNat {fuel n : Nat} {rest : Text} (hfuel : (Text.ofNat n).length ≤ fuel)
    (hrest : Closed rest) : value depth fuel (Text.ofNat n ++ rest) =
      if Text.maxDigits < (Text.ofNat n).length then .error (.digits (Text.ofNat n).length)
      else .ok (.int n, rest) := by
  obtain ⟨c, s, hs, hc⟩ := exists_ofNat_eq_cons n
  obtain ⟨fuel, rfl⟩ : ∃ k, fuel = k + 1 := by
    rw [hs, List.length_cons] at hfuel
    exact ⟨fuel - 1, by omega⟩
  rw [← number_ofNat hrest, hs, List.cons_append, value_eq_number (isDigit_notMem_starters hc)]

theorem reads_nat {n : Nat} (hn : (Text.ofNat n).length ≤ Text.maxDigits) :
    Reads depth (write (.int n)) (.int n) := by
  intro fuel rest hfuel hrest
  exact (value_ofNat depth hfuel hrest).trans (if_neg (Nat.not_lt.2 hn))

theorem overlong_nat {n : Nat} (hn : Text.maxDigits < (Text.ofNat n).length) :
    Overlong depth (write (.int n)) := by
  intro fuel rest hfuel hrest
  exact ⟨_, hn, (value_ofNat depth hfuel hrest).trans (if_pos hn)⟩

end Scalars

/-- A field as it is laid out: what is written between the quotes of its name and as its value, and the
white space around them. -/
structure Entry where
  before : Text := []
  key : Text
  beforeColon : Text := []
  afterColon : Text := []
  written : Text
  after : Text := []

namespace Entry

def body (e : Entry) : Text :=
  '"' :: (e.key ++ '"' :: (e.beforeColon ++ ':' :: (e.afterColon ++ (e.written ++ e.after))))

def fields : List Entry → Text
  | [] => []
  | [e] => e.before ++ e.body
  | e :: e' :: es => e.before ++ (e.body ++ ',' :: fields (e' :: es))

def object (es : List Entry) : Text := '{' :: (fields es ++ ['}'])

structure Fits (e : Entry) (k : Literal) : Prop where
  before : Gap e.before
  key : Spells e.key k
  beforeColon : Gap e.beforeColon
  afterColon : Gap e.afterColon
  after : Gap e.after

end Entry

/-- White space starts no value. -/
theorem skip_of_value (depth fuel : Nat) {s : Text}
    (h : ∀ f rest, value depth fuel s ≠ .error (.fault f rest)) : skip s = s := by
  cases s with
  | nil => rfl
  | cons c s =>
    apply skip_cons
    rw [Bool.eq_false_iff]
    intro hc
    rw [isSpace_iff] at hc
    cases fuel with
    | zero => exact h _ _ rfl
    | succ fuel =>
      apply h .value (c :: s)
      rcases hc with rfl | rfl | rfl | rfl <;> exact value_eq_number (by decide) depth fuel s

section Members

variable {e : Entry} {k : Literal} {depth fuel : Nat} {fields : Fields} {rest : Text}

theorem members_body (he : e.Fits k) : members depth (fuel + 1) fields (e.body ++ rest) =
    match value depth fuel (skip (e.written ++ (e.after ++ rest))) with
    | .error x => .error x
    | .ok (v, rest) =>
      match skip rest with
      | '}' :: rest => .ok (.object (fields.put k v), rest)
      | ',' :: rest => members depth fuel (fields.put k v) (skip rest)
      | rest => .error (.fault .comma rest) := by
  have hbody : e.body ++ rest = '"' :: (e.key ++ '"' :: (e.beforeColon ++ ':' ::
      (e.afterColon ++ (e.written ++ (e.after ++ rest))))) := by
    simp only [Entry.body, List.cons_append, List.append_assoc]
  rw [hbody, members, he.key.literal_eq, ← skip_gap he.afterColon (e.written ++ (e.after ++ rest))]
  dsimp only
  rw [skip_gap he.beforeColon, skip_cons (by decide)]
  rfl

theorem members_of_error (he : e.Fits k) {n : Nat}
    (h : value depth fuel (e.written ++ (e.after ++ rest)) = .error (.digits n)) :
    members depth (fuel + 1) fields (e.body ++ rest) = .error (.digits n) := by
  have hskip := skip_of_value depth fuel fun f t heq => nomatch h.symm.trans heq
  rw [members_body he, hskip, h]

variable {v : Json}

theorem members_last (he : e.Fits k)
    (h : value depth fuel (e.written ++ (e.after ++ '}' :: rest)) = .ok (v, e.after ++ '}' :: rest)) :
    members depth (fuel + 1) fields (e.body ++ '}' :: rest) =
      .ok (.object (fields.put k v), rest) := by
  have hskip := skip_of_value depth fuel fun f t heq => nomatch h.symm.trans heq
  rw [members_body he, hskip, h]
  dsimp only
  rw [skip_gap he.after, skip_cons (by decide)]
  rfl

theorem members_next (he : e.Fits k)
    (h : value depth fuel (e.written ++ (e.after ++ ',' :: rest)) = .ok (v, e.after ++ ',' :: rest)) :
    members depth (fuel + 1) fields (e.body ++ ',' :: rest) =
      members depth fuel (fields.put k v) (skip rest) := by
  have hskip := skip_of_value depth fuel fun f t heq => nomatch h.symm.trans heq
  rw [members_body he, hskip, h]
  dsimp only
  rw [skip_gap he.after, skip_cons (by decide)]
  rfl

end Members

section Objects

variable {depth : Nat} {es : List Entry}

theorem Entry.length_written_lt (e : Entry) : e.written.length < e.body.length := by
  simp only [body, List.length_cons, List.length_append]
  omega

theorem Entry.skip_body (e : Entry) (s : Text) : skip (e.body ++ s) = e.body ++ s :=
  skip_cons (by decide) _

theorem Entry.exists_skip_fields {e : Entry} {k : Literal} (he : e.Fits k) (es : List Entry) (s : Text) :
    ∃ t, skip (fields (e :: es) ++ s) = '"' :: t := by
  cases es with
  | nil =>
    rw [fields, List.append_assoc, skip_gap he.before, skip_body]
    exact ⟨_, rfl⟩
  | cons e' es =>
    rw [fields, List.append_assoc, skip_gap he.before, List.append_assoc, skip_body]
    exact ⟨_, rfl⟩

/-- Fields are read one by one, and the last of a name counts. -/
theorem members_fields {kvs : Fields}
    (h : List.Forall₂ (fun e kv => e.Fits kv.1 ∧ Reads depth e.written kv.2) es kvs) (hne : es ≠ [])
    {fuel : Nat} (hfuel : (Entry.fields es).length ≤ fuel) (fields : Fields) (rest : Text) :
    members depth fuel fields (skip (Entry.fields es ++ '}' :: rest)) =
      .ok (.object (fields.putAll kvs), rest) := by
  induction h generalizing fuel fields with
  | nil => exact absurd rfl hne
  | @cons e kv es kvs hfirst hlater ih =>
    obtain ⟨he, hread⟩ := hfirst
    have hwritten := e.length_written_lt
    cases hlater with
    | nil =>
      rw [Entry.fields, List.length_append] at hfuel
      obtain ⟨fuel, rfl⟩ : ∃ m, fuel = m + 1 := ⟨fuel - 1, by omega⟩
      rw [Entry.fields, List.append_assoc, skip_gap he.before, Entry.skip_body]
      exact members_last he (hread fuel _ (by omega) (closed_gap he.after (closed_cons (by simp))))
    | @cons e' kv' es kvs hsecond hlater =>
      rw [Entry.fields, List.length_append, List.length_append, List.length_cons] at hfuel
      obtain ⟨fuel, rfl⟩ : ∃ m, fuel = m + 1 := ⟨fuel - 1, by omega⟩
      rw [Entry.fields, List.append_assoc, List.append_assoc, List.cons_append,
        skip_gap he.before, Entry.skip_body, members_next he (hread fuel _ (by omega)
          (closed_gap he.after (closed_cons (by simp))))]
      exact ih (List.cons_ne_nil _ _) (by omega) _

/-- The first number that is too long ends the reading. -/
theorem members_overlong
    (h : ∀ e ∈ es, ∃ k, e.Fits k ∧ ((∃ v, Reads depth e.written v) ∨ Overlong depth e.written))
    (hlong : ∃ e ∈ es, Overlong depth e.written)
    {fuel : Nat} (hfuel : (Entry.fields es).length ≤ fuel) (fields : Fields) (rest : Text) :
    ∃ n, Text.maxDigits < n ∧ members depth fuel fields (skip (Entry.fields es ++ '}' :: rest)) =
      .error (.digits n) := by
  induction es generalizing fuel fields with
  | nil => exact nomatch hlong.choose_spec.1
  | cons e es ih =>
    obtain ⟨k, he, hvalue⟩ := h e List.mem_cons_self
    have hwritten := e.length_written_lt
    cases es with
    | nil =>
      have hover : Overlong depth e.written := by simpa using hlong
      rw [Entry.fields, List.length_append] at hfuel
      obtain ⟨fuel, rfl⟩ : ∃ m, fuel = m + 1 := ⟨fuel - 1, by omega⟩
      obtain ⟨n, hn, hread⟩ := hover fuel (e.after ++ '}' :: rest) (by omega)
        (closed_gap he.after (closed_cons (by simp)))
      rw [Entry.fields, List.append_assoc, skip_gap he.before, Entry.skip_body]
      exact ⟨n, hn, members_of_error he hread⟩
    | cons e' es =>
      rw [Entry.fields, List.length_append, List.length_append, List.length_cons] at hfuel
      obtain ⟨fuel, rfl⟩ : ∃ m, fuel = m + 1 := ⟨fuel - 1, by omega⟩
      have hclosed : Closed (e.after ++ ',' :: (Entry.fields (e' :: es) ++ '}' :: rest)) :=
        closed_gap he.after (closed_cons (by simp))
      rw [Entry.fields, List.append_assoc, List.append_assoc, List.cons_append,
        skip_gap he.before, Entry.skip_body]
      by_cases hover : Overlong depth e.written
      · obtain ⟨n, hn, hread⟩ := hover fuel _ (by omega) hclosed
        exact ⟨n, hn, members_of_error he hread⟩
      · obtain ⟨v, hread⟩ := hvalue.resolve_right hover
        obtain ⟨e'', hmem, hlater⟩ := hlong
        have hrest : e'' ∈ e' :: es := by
          rcases List.mem_cons.1 hmem with rfl | hrest
          · exact absurd hlater hover
          · exact hrest
        rw [members_next he (hread fuel _ (by omega) hclosed)]
        exact ih (fun e he => h e (List.mem_cons_of_mem _ he)) ⟨e'', hrest, hlater⟩ (by omega) _

theorem value_object {fuel : Nat} {e : Entry} {k : Literal} (he : e.Fits k) (es : List Entry)
    (rest : Text) : value (depth + 1) (fuel + 1) (Entry.object (e :: es) ++ rest) =
      members depth fuel [] (skip (Entry.fields (e :: es) ++ '}' :: rest)) := by
  obtain ⟨t, ht⟩ := Entry.exists_skip_fields he es ('}' :: rest)
  rw [Entry.object, List.cons_append, List.append_assoc, List.singleton_append, value, ht]
  rfl

theorem Entry.length_object (es : List Entry) :
    (object es).length = (fields es).length + 2 := by
  simp [object]

theorem reads_object {kvs : Fields}
    (h : List.Forall₂ (fun e kv => e.Fits kv.1 ∧ Reads depth e.written kv.2) es kvs) (hne : es ≠ []) :
    Reads (depth + 1) (Entry.object es) (.object (Dictionary.putAll [] kvs)) := by
  intro fuel rest hfuel _
  rw [Entry.length_object] at hfuel
  obtain ⟨fuel, rfl⟩ : ∃ m, fuel = m + 1 := ⟨fuel - 1, by omega⟩
  have hfields : (Entry.fields es).length ≤ fuel := by omega
  have hmembers := members_fields h hne hfields [] rest
  cases h with
  | nil => exact absurd rfl hne
  | cons hfirst _ => rw [value_object hfirst.1, hmembers]

theorem overlong_object
    (h : ∀ e ∈ es, ∃ k, e.Fits k ∧ ((∃ v, Reads depth e.written v) ∨ Overlong depth e.written))
    (hlong : ∃ e ∈ es, Overlong depth e.written) : Overlong (depth + 1) (Entry.object es) := by
  intro fuel rest hfuel _
  rw [Entry.length_object] at hfuel
  obtain ⟨fuel, rfl⟩ : ∃ m, fuel = m + 1 := ⟨fuel - 1, by omega⟩
  have hfields : (Entry.fields es).length ≤ fuel := by omega
  obtain ⟨n, hn, hmembers⟩ := members_overlong h hlong hfields [] rest
  cases es with
  | nil => exact nomatch hlong.choose_spec.1
  | cons e es =>
    obtain ⟨k, he, -⟩ := h e List.mem_cons_self
    exact ⟨n, hn, by rw [value_object he, hmembers]⟩

end Objects

section Records

theorem gap_nil : Gap [] := fun _ h => nomatch h

theorem gap_space : Gap [' '] := by
  intro c hc
  rw [List.mem_singleton.1 hc]
  rfl

def Entry.spaced (kv : String × Json) : Entry where
  before := [' ']
  key := kv.1.toList.flatMap writeChar
  afterColon := [' ']
  written := write kv.2

def Entry.spacedAll : List (String × Json) → List Entry
  | [] => []
  | kv :: kvs => { spaced kv with before := [] } :: kvs.map spaced

theorem Entry.space_writeFields (kv : String × Json) (kvs : List (String × Json)) :
    ' ' :: writeFields ((kv :: kvs).map fun kv => (Literal.ofString kv.1, kv.2)) =
      fields ((kv :: kvs).map spaced) := by
  induction kvs generalizing kv with
  | nil => simp [writeFields, fields, spaced, body, quote, quoteText, Literal.ofString]
  | cons kv' kvs ih =>
    have hwritten := writeFields_cons (Literal.ofString kv.1) kv.2 (Literal.ofString kv'.1, kv'.2)
      (kvs.map fun kv => (Literal.ofString kv.1, kv.2))
    change ' ' :: writeFields (_ :: _ :: _) =
      [' '] ++ ((spaced kv).body ++ ',' :: fields ((kv' :: kvs).map spaced))
    rw [hwritten, ← ih]
    simp [body, spaced, quote, quoteText, Literal.ofString]

theorem write_record (kvs : List (String × Json)) :
    write (.record kvs) = Entry.object (Entry.spacedAll kvs) := by
  cases kvs with
  | nil => rfl
  | cons kv kvs =>
    have hfields := Entry.space_writeFields kv kvs
    have htail : writeFields ((kv :: kvs).map fun kv => (Literal.ofString kv.1, kv.2)) =
        Entry.fields (Entry.spacedAll (kv :: kvs)) := by
      cases kvs <;> exact (List.cons.inj hfields).2
    exact congrArg (fun s => '{' :: (s ++ ['}'])) htail

theorem Entry.fits_spaced (kv : String × Json) : (spaced kv).Fits (Literal.ofString kv.1) :=
  ⟨gap_space, spells_written _, gap_nil, gap_space, gap_nil⟩

theorem Entry.forall₂_spacedAll {R : String × Json → Entry → Prop}
    (h : ∀ kv e, e.Fits (Literal.ofString kv.1) → e.written = write kv.2 → R kv e)
    (kvs : List (String × Json)) : List.Forall₂ R kvs (spacedAll kvs) := by
  cases kvs with
  | nil => exact .nil
  | cons kv kvs =>
    have hfits := fits_spaced kv
    refine .cons (h kv _ ⟨gap_nil, hfits.key, gap_nil, gap_space, gap_nil⟩ rfl) ?_
    rw [List.forall₂_map_right_iff, List.forall₂_same]
    exact fun kv _ => h kv _ (fits_spaced kv) rfl

variable {depth : Nat} {kvs : List (String × Json)}

theorem reads_record (hne : kvs ≠ []) (h : ∀ kv ∈ kvs, Reads depth (write kv.2) kv.2) :
    Reads (depth + 1) (write (.record kvs))
      (.object (Dictionary.putAll [] (kvs.map fun kv => (Literal.ofString kv.1, kv.2)))) := by
  have hentries : List.Forall₂ (fun (kv : String × Json) (e : Entry) =>
      Reads depth (write kv.2) kv.2 ∧ e.Fits (Literal.ofString kv.1) ∧ e.written = write kv.2)
      kvs (Entry.spacedAll kvs) :=
    (List.forall₂_and_left _ _).2 ⟨h, Entry.forall₂_spacedAll (fun _ _ he hw => ⟨he, hw⟩) kvs⟩
  rw [write_record]
  apply reads_object
  · rw [List.forall₂_map_right_iff]
    apply hentries.flip.imp
    rintro e kv ⟨hread, he, hwritten⟩
    exact ⟨he, hwritten ▸ hread⟩
  · cases kvs with
    | nil => exact absurd rfl hne
    | cons kv kvs => exact List.cons_ne_nil _ _

theorem exists_of_forall₂ {α β : Type} {R : α → β → Prop} {l : List α} {u : List β}
    (h : List.Forall₂ R l u) {a : α} (ha : a ∈ l) : ∃ b ∈ u, R a b := by
  induction h with
  | nil => cases ha
  | @cons a' b l u hab _ ih =>
    rcases List.mem_cons.1 ha with rfl | ha
    · exact ⟨b, List.mem_cons_self, hab⟩
    · obtain ⟨b', hb', hR⟩ := ih ha
      exact ⟨b', List.mem_cons_of_mem _ hb', hR⟩

theorem overlong_record
    (h : ∀ kv ∈ kvs, Reads depth (write kv.2) kv.2 ∨ Overlong depth (write kv.2))
    (hlong : ∃ kv ∈ kvs, Overlong depth (write kv.2)) :
    Overlong (depth + 1) (write (.record kvs)) := by
  have hentries := Entry.forall₂_spacedAll (fun _ _ he hw => And.intro he hw) kvs
  rw [write_record]
  apply overlong_object
  · intro e he
    obtain ⟨kv, hkv, hfits, hwritten⟩ := exists_of_forall₂ hentries.flip he
    rw [hwritten]
    exact ⟨_, hfits, (h kv hkv).imp_left fun hread => ⟨_, hread⟩⟩
  · obtain ⟨kv, hkv, hover⟩ := hlong
    obtain ⟨e, he, -, hwritten⟩ := exists_of_forall₂ hentries hkv
    exact ⟨e, he, hwritten ▸ hover⟩

end Records

section Files

variable {t g g' : Text} (hg : Gap g) (hg' : Gap g')

include hg hg'

theorem read_of_reads {v : Json} (h : Reads maxDepth t v) : read (g ++ (t ++ g')) = .ok v := by
  have hvalue : value maxDepth (2 * (g ++ (t ++ g')).length + 2) (t ++ g') = .ok (v, g') := by
    apply h
    · simp only [List.length_append]
      omega
    · simpa using closed_gap hg' closed_nil
  have hskip : skip (t ++ g') = t ++ g' :=
    skip_of_value _ _ fun f rest heq => nomatch hvalue.symm.trans heq
  have hend : skip g' = [] := by simpa [skip] using skip_gap hg' []
  rw [read, readWithin, skip_gap hg, hskip, hvalue]
  dsimp only
  rw [hend]

theorem read_of_overlong (h : Overlong maxDepth t) :
    ∃ n, Text.maxDigits < n ∧ read (g ++ (t ++ g')) = .error (.digits n) := by
  obtain ⟨n, hn, hvalue⟩ := h (2 * (g ++ (t ++ g')).length + 2) g'
    (by simp only [List.length_append]; omega) (by simpa using closed_gap hg' closed_nil)
  have hskip : skip (t ++ g') = t ++ g' :=
    skip_of_value _ _ fun f rest heq => nomatch hvalue.symm.trans heq
  refine ⟨n, hn, ?_⟩
  rw [read, readWithin, skip_gap hg, hskip, hvalue]
  rfl

end Files

end TextChunks.Json
