import Mathlib.Data.List.Dedup
import Mathlib.Data.List.Perm.Subperm
import TextChunks.Proofs.Dictionaries
import TextChunks.Tokenizer.Encodings

namespace TextChunks

theorem Encoding.of_load {name : Text} {e : Encoding} (h : load name = .ok e) :
    e ∈ known ∧ e.name = name := by
  unfold load at h
  split at h
  next f hfind =>
    obtain rfl := Except.ok.inj h
    exact ⟨List.mem_of_find?_eq_some hfind, by simpa using List.find?_some hfind⟩
  next => split at h <;> cases h

namespace EncodingCache

def nameOf (request : Option Text) : Text := request.getD Encoding.defaultName

def isLoadable (request : Option Text) : Bool := (Encoding.load (nameOf request)).isOk

def after (cache : EncodingCache) (requests : List (Option Text)) : EncodingCache :=
  requests.foldl (fun cache r => (cache.get r).2) cache

def history (cache : EncodingCache) :
    List (Option Text) → List (Option Text × Except Failure LoadedEncoding)
  | [] => []
  | r :: rs => (r, (cache.get r).1) :: history (cache.get r).2 rs

/-- An answer that is in the cache, a load that puts one there, or a load that fails and leaves no trace. -/
inductive Step (cache : EncodingCache) (r : Option Text) :
    Except Failure LoadedEncoding → EncodingCache → Prop
  | found {l : LoadedEncoding} : cache.loaded.get? r = some l → Step cache r (.ok l) cache
  | loads {e : Encoding} : cache.loaded.get? r = none → Encoding.load (nameOf r) = .ok e →
    Step cache r (.ok ⟨cache.loads, e⟩)
      ⟨cache.loaded ++ [(r, ⟨cache.loads, e⟩)], cache.loads + 1⟩
  | fails {f : Failure} : cache.loaded.get? r = none → Encoding.load (nameOf r) = .error f →
    Step cache r (.error f) cache

theorem step_get (cache : EncodingCache) (r : Option Text) :
    Step cache r (cache.get r).1 (cache.get r).2 := by
  cases hget : cache.loaded.get? r with
  | some l =>
    have hfound : cache.get r = (.ok l, cache) := by simp only [get, hget]
    rw [hfound]
    exact .found hget
  | none =>
    cases hload : Encoding.load (r.getD Encoding.defaultName) with
    | ok e =>
      have hloads : cache.get r =
          (.ok ⟨cache.loads, e⟩, ⟨cache.loaded ++ [(r, ⟨cache.loads, e⟩)], cache.loads + 1⟩) := by
        simp only [get, hget, hload, Dictionary.put_of_get?_eq_none _ hget]
      rw [hloads]
      exact .loads hget hload
    | error f =>
      have hfails : cache.get r = (.error f, cache) := by simp only [get, hget, hload]
      rw [hfails]
      exact .fails hget hload

/-- Every argument has one place, every place holds one load of the encoding that its argument asks for,
and the loads are numbered in their order. -/
structure Sound (cache : EncodingCache) : Prop where
  named : ∀ kv ∈ cache.loaded, Encoding.load (nameOf kv.1) = .ok kv.2.encoding
  nodup : (cache.loaded.map Prod.fst).Nodup
  serials : cache.loaded.map (fun kv => kv.2.serial) = List.range cache.loads

theorem sound_empty : Sound {} where
  named _ h := absurd h List.not_mem_nil
  nodup := List.nodup_nil
  serials := rfl

namespace Sound

variable {cache : EncodingCache} (hc : Sound cache)

include hc

theorem load_of_get? {r : Option Text} {l : LoadedEncoding} (h : cache.loaded.get? r = some l) :
    Encoding.load (nameOf r) = .ok l.encoding :=
  hc.named (r, l) (Dictionary.mem_of_get? h)

/-- Two arguments that have one load are the same. -/
theorem eq_of_serial {r r' : Option Text} {l l' : LoadedEncoding}
    (hl : cache.loaded.get? r = some l) (hl' : cache.loaded.get? r' = some l')
    (hserial : l.serial = l'.serial) : r = r' := by
  have hnodup : (cache.loaded.map fun kv => kv.2.serial).Nodup := by
    rw [hc.serials]
    exact List.nodup_range
  have hpair := List.inj_on_of_nodup_map hnodup (Dictionary.mem_of_get? hl)
    (Dictionary.mem_of_get? hl') hserial
  exact congrArg Prod.fst hpair

theorem loads_eq : cache.loads = (cache.loaded.map Prod.fst).length := by
  have hlength := congrArg List.length hc.serials
  rw [List.length_map, List.length_range] at hlength
  rw [List.length_map, hlength]

end Sound

namespace Step

variable {cache next : EncodingCache} {r : Option Text} {a : Except Failure LoadedEncoding}
  (h : Step cache r a next)

include h

theorem isPrefix : cache.loaded <+: next.loaded := by
  cases h with
  | found _ => exact List.prefix_refl _
  | loads _ _ => exact List.prefix_append ..
  | fails _ _ => exact List.prefix_refl _

theorem sound (hc : Sound cache) : Sound next := by
  cases h with
  | found _ => exact hc
  | fails _ _ => exact hc
  | loads hget hload =>
    refine ⟨?_, ?_, ?_⟩
    · intro kv hkv
      rcases List.mem_append.1 hkv with hold | hnew
      · exact hc.named kv hold
      · rw [List.mem_singleton.1 hnew]
        exact hload
    · rw [List.map_append, List.nodup_append]
      refine ⟨hc.nodup, List.nodup_singleton _, ?_⟩
      rintro k hk _ hr rfl
      rw [List.mem_singleton.1 hr] at hk
      exact Dictionary.get?_eq_none_iff.1 hget hk
    · rw [List.map_append, hc.serials, List.range_succ]
      rfl

/-- The answer is a load of the encoding that is asked for, or says why there is none. -/
theorem map_encoding (hc : Sound cache) :
    a.map LoadedEncoding.encoding = Encoding.load (nameOf r) := by
  cases h with
  | found hget => exact (hc.load_of_get? hget).symm
  | loads _ hload => exact hload.symm
  | fails _ hload => exact hload.symm

theorem get?_next {l : LoadedEncoding} (hl : a = .ok l) : next.loaded.get? r = some l := by
  cases h with
  | found hget => exact hget.trans (congrArg some (Except.ok.inj hl))
  | loads hget _ =>
    obtain rfl := Except.ok.inj hl
    rw [← Dictionary.put_of_get?_eq_none _ hget, Dictionary.get?_put, if_pos rfl]
  | fails _ _ => cases hl

theorem mem_keys_next {k : Option Text} :
    k ∈ next.loaded.map Prod.fst ↔
      k ∈ cache.loaded.map Prod.fst ∨ k = r ∧ isLoadable r = true := by
  cases h with
  | found hget =>
    have hr := Dictionary.mem_keys_of_get? hget
    exact ⟨.inl, fun hk => hk.elim id fun hk => hk.1 ▸ hr⟩
  | loads _ hload => simp [isLoadable, hload, Except.isOk, Except.toBool]
  | fails _ hload => simp [isLoadable, hload, Except.isOk, Except.toBool]

theorem next_eq (hr : isLoadable r = false) : next = cache := by
  cases h with
  | found _ => rfl
  | fails _ _ => rfl
  | loads _ hload =>
    rw [isLoadable, hload] at hr
    cases hr

end Step

section Runs

variable {cache : EncodingCache}

theorem sound_after (hc : Sound cache) (rs : List (Option Text)) : Sound (cache.after rs) := by
  induction rs generalizing cache with
  | nil => exact hc
  | cons r rs ih => exact ih ((step_get cache r).sound hc)

theorem isPrefix_after (cache : EncodingCache) (rs : List (Option Text)) :
    cache.loaded <+: (cache.after rs).loaded := by
  induction rs generalizing cache with
  | nil => exact List.prefix_refl _
  | cons r rs ih => exact (step_get cache r).isPrefix.trans (ih _)

/-- What a request got is still there when all requests have been answered. -/
theorem get?_after {rs : List (Option Text)} {r : Option Text} {l : LoadedEncoding}
    (h : (r, .ok l) ∈ cache.history rs) : (cache.after rs).loaded.get? r = some l := by
  induction rs generalizing cache with
  | nil => cases h
  | cons r' rs ih =>
    rcases List.mem_cons.1 h with heq | hrest
    · obtain ⟨rfl, ha⟩ := Prod.mk.inj heq
      exact Dictionary.get?_of_isPrefix (isPrefix_after _ rs) ((step_get cache r).get?_next ha.symm)
    · exact ih hrest

theorem map_fst_history (cache : EncodingCache) (rs : List (Option Text)) :
    (cache.history rs).map Prod.fst = rs := by
  induction rs generalizing cache with
  | nil => rfl
  | cons r rs ih => exact congrArg (r :: ·) (ih _)

theorem mem_of_mem_history {rs : List (Option Text)} {r : Option Text}
    {a : Except Failure LoadedEncoding} (h : (r, a) ∈ cache.history rs) : r ∈ rs := by
  have hfst := List.mem_map_of_mem (f := Prod.fst) h
  rwa [map_fst_history] at hfst

theorem map_encoding_of_mem (hc : Sound cache) {rs : List (Option Text)}
    {p : Option Text × Except Failure LoadedEncoding} (h : p ∈ cache.history rs) :
    p.2.map LoadedEncoding.encoding = Encoding.load (nameOf p.1) := by
  induction rs generalizing cache with
  | nil => cases h
  | cons r rs ih =>
    rcases List.mem_cons.1 h with rfl | hrest
    · exact (step_get cache r).map_encoding hc
    · exact ih ((step_get cache r).sound hc) hrest

theorem exists_mem_history (hc : Sound cache) {rs : List (Option Text)} {r : Option Text}
    (h : r ∈ rs) (hr : isLoadable r = true) : ∃ l, (r, .ok l) ∈ cache.history rs := by
  rw [← map_fst_history cache rs] at h
  obtain ⟨⟨_, a⟩, ha, rfl⟩ := List.mem_map.1 h
  have hload := map_encoding_of_mem hc ha
  cases a with
  | ok l => exact ⟨l, ha⟩
  | error f =>
    rw [isLoadable, ← hload] at hr
    cases hr

theorem mem_keys_after {rs : List (Option Text)} {k : Option Text} :
    k ∈ (cache.after rs).loaded.map Prod.fst ↔
      k ∈ cache.loaded.map Prod.fst ∨ k ∈ rs.filter isLoadable := by
  induction rs generalizing cache with
  | nil => simp [after]
  | cons r rs ih =>
    change k ∈ ((cache.get r).2.after rs).loaded.map Prod.fst ↔ _
    rw [ih, (step_get cache r).mem_keys_next, or_assoc, List.mem_filter, List.mem_filter,
      List.mem_cons]
    constructor
    · rintro (h | ⟨rfl, h⟩ | h)
      · exact .inl h
      · exact .inr ⟨.inl rfl, h⟩
      · exact .inr ⟨.inr h.1, h.2⟩
    · rintro (h | ⟨rfl | h, hk⟩)
      · exact .inl h
      · exact .inr (.inl ⟨rfl, hk⟩)
      · exact .inr (.inr ⟨h, hk⟩)

/-- Requests that fail could as well not have been made. -/
theorem filter_history (cache : EncodingCache) (rs : List (Option Text)) :
    (cache.history rs).filter (fun p => isLoadable p.1) = cache.history (rs.filter isLoadable) ∧
      cache.after (rs.filter isLoadable) = cache.after rs := by
  induction rs generalizing cache with
  | nil => exact ⟨rfl, rfl⟩
  | cons r rs ih =>
    obtain ⟨ihistory, iafter⟩ := ih (cache.get r).2
    rw [history, List.filter_cons, List.filter_cons, ihistory]
    by_cases hr : isLoadable r = true
    · rw [if_pos hr, if_pos hr]
      exact ⟨rfl, iafter⟩
    · have hnext := (step_get cache r).next_eq (Bool.eq_false_iff.2 hr)
      rw [hnext] at iafter
      rw [if_neg hr, if_neg hr, hnext]
      exact ⟨rfl, iafter.trans (congrArg (·.after rs) hnext).symm⟩

end Runs

section FromNothing

variable (rs : List (Option Text))

/-- As many loads as different arguments that name an encoding. -/
theorem loads_after : (after {} rs).loads = (rs.filter isLoadable).dedup.length := by
  have hsound := sound_after sound_empty rs
  have hperm : ((after {} rs).loaded.map Prod.fst).Perm (rs.filter isLoadable).dedup := by
    rw [List.perm_ext_iff_of_nodup hsound.nodup (List.nodup_dedup _)]
    intro k
    rw [mem_keys_after, List.mem_dedup]
    exact or_iff_right List.not_mem_nil
  rw [hsound.loads_eq, hperm.length_eq]

theorem eq_of_mem_history {r r' : Option Text} {l l' : LoadedEncoding}
    (h : (r, .ok l) ∈ history {} rs) (h' : (r', .ok l') ∈ history {} rs) : l = l' ↔ r = r' := by
  have hl := get?_after h
  have hl' := get?_after h'
  constructor
  · rintro rfl
    exact (sound_after sound_empty rs).eq_of_serial hl hl' rfl
  · rintro rfl
    exact Option.some.inj (hl.symm.trans hl')

end FromNothing

def AskedBothWays (rs : List (Option Text)) : Prop :=
  none ∈ rs ∧ some Encoding.defaultName ∈ rs

instance (rs : List (Option Text)) : Decidable (AskedBothWays rs) :=
  inferInstanceAs (Decidable (_ ∧ _))

theorem askedBothWays_filter {rs : List (Option Text)} :
    AskedBothWays (rs.filter isLoadable) ↔ AskedBothWays rs := by
  have hnone : isLoadable none = true := rfl
  have hsome : isLoadable (some Encoding.defaultName) = true := rfl
  simp only [AskedBothWays, List.mem_filter, hnone, hsome, and_true]

theorem eq_or_of_nameOf {r r' : Option Text} (h : nameOf r = nameOf r') :
    r = r' ∨ r = none ∧ r' = some Encoding.defaultName ∨
      r = some Encoding.defaultName ∧ r' = none := by
  cases r with
  | none =>
    cases r' with
    | none => exact .inl rfl
    | some n => exact .inr (.inl ⟨rfl, congrArg some h.symm⟩)
  | some n =>
    cases r' with
    | none => exact .inr (.inr ⟨congrArg some h, rfl⟩)
    | some n' => exact .inl (congrArg some h)

theorem length_dedup_map_nameOf {rs qs : List (Option Text)} (hqs : qs.Nodup)
    (hboth : ¬AskedBothWays qs) (hnames : ∀ n, n ∈ qs.map nameOf ↔ n ∈ rs.map nameOf) :
    (rs.map nameOf).dedup.length = qs.length := by
  have hinj : ∀ r ∈ qs, ∀ r' ∈ qs, nameOf r = nameOf r' → r = r' := by
    intro r hr r' hr' hname
    rcases eq_or_of_nameOf hname with heq | ⟨rfl, rfl⟩ | ⟨rfl, rfl⟩
    · exact heq
    · exact absurd ⟨hr, hr'⟩ hboth
    · exact absurd ⟨hr', hr⟩ hboth
  have hperm : (rs.map nameOf).dedup.Perm (qs.map nameOf) := by
    rw [List.perm_ext_iff_of_nodup (List.nodup_dedup _) (hqs.map_on hinj)]
    intro n
    rw [List.mem_dedup, hnames]
  rw [hperm.length_eq, List.length_map]

/-- One argument more than there are names, if the default is asked for both ways. -/
theorem length_dedup_eq (rs : List (Option Text)) : rs.dedup.length =
    (rs.map nameOf).dedup.length + if AskedBothWays rs then 1 else 0 := by
  by_cases hboth : AskedBothWays rs
  · -- Without the request that gives no name, each name has one argument.
    have hnone : none ∈ rs.dedup := List.mem_dedup.2 hboth.1
    have hmem : ∀ r, r ∈ rs.dedup.erase none ↔ r ≠ none ∧ r ∈ rs := by
      intro r
      rw [(List.nodup_dedup rs).mem_erase_iff, List.mem_dedup]
    have hnames : ∀ n, n ∈ (rs.dedup.erase none).map nameOf ↔ n ∈ rs.map nameOf := by
      intro n
      simp only [List.mem_map, hmem]
      constructor
      · rintro ⟨r, hr, rfl⟩
        exact ⟨r, hr.2, rfl⟩
      · rintro ⟨r, hr, rfl⟩
        cases r with
        | none => exact ⟨_, ⟨Option.some_ne_none _, hboth.2⟩, rfl⟩
        | some n => exact ⟨some n, ⟨Option.some_ne_none _, hr⟩, rfl⟩
    rw [if_pos hboth, length_dedup_map_nameOf ((List.nodup_dedup rs).erase none)
      (fun h => ((hmem none).1 h.1).1 rfl) hnames, List.length_erase_of_mem hnone]
    have hpos := List.length_pos_of_mem hnone
    omega
  · rw [if_neg hboth, length_dedup_map_nameOf (List.nodup_dedup rs)]
    · rfl
    · simpa only [AskedBothWays, List.mem_dedup] using hboth
    · simp only [List.mem_map, List.mem_dedup, implies_true]

/-- Requests that get an encoding of one name get one load of it. -/
def OncePerName (rs : List (Option Text)) : Prop :=
  ∀ r l r' l', (r, .ok l) ∈ history {} rs → (r', .ok l') ∈ history {} rs →
    nameOf r = nameOf r' → l = l'

theorem oncePerName_iff (rs : List (Option Text)) : OncePerName rs ↔ ¬AskedBothWays rs := by
  constructor
  · rintro honce ⟨hnone, hsome⟩
    obtain ⟨l, hl⟩ := exists_mem_history sound_empty hnone rfl
    obtain ⟨l', hl'⟩ := exists_mem_history sound_empty hsome rfl
    have hsame : l = l' := honce _ _ _ _ hl hl' rfl
    exact nomatch (eq_of_mem_history rs hl hl').1 hsame
  · intro hboth r l r' l' h h' hname
    rw [eq_of_mem_history rs h h']
    have hr := mem_of_mem_history h
    have hr' := mem_of_mem_history h'
    rcases eq_or_of_nameOf hname with heq | ⟨rfl, rfl⟩ | ⟨rfl, rfl⟩
    · exact heq
    · exact absurd ⟨hr, hr'⟩ hboth
    · exact absurd ⟨hr', hr⟩ hboth

/-- A cache holds few encodings: each under its name, and the default once more. -/
theorem loads_after_le (rs : List (Option Text)) :
    (after {} rs).loads ≤ Encoding.known.length + 1 := by
  have hsub : ((rs.filter isLoadable).map nameOf).dedup ⊆ Encoding.known.map Encoding.name := by
    intro n hn
    obtain ⟨r, hr, rfl⟩ := List.mem_map.1 (List.mem_dedup.1 hn)
    obtain ⟨l, hl⟩ := exists_mem_history sound_empty hr (List.mem_filter.1 hr).2
    obtain ⟨hknown, hname⟩ := Encoding.of_load (map_encoding_of_mem sound_empty hl).symm
    exact List.mem_map.2 ⟨l.encoding, hknown, hname⟩
  have hnames := ((List.nodup_dedup _).subperm hsub).length_le
  rw [List.length_map] at hnames
  have hone : (if AskedBothWays (rs.filter isLoadable) then 1 else 0) ≤ 1 := by split <;> decide
  rw [loads_after, length_dedup_eq]
  omega

/-- Requests with one argument, and no others, get the same load, so that a name is loaded once unless
it is the default's and is asked for both ways. What fails is not in the cache, and changes no other
answer. -/
theorem loaded_once_per_argument (rs : List (Option Text)) :
    (OncePerName rs ↔ ¬AskedBothWays rs) ∧
      (∀ r l r' l', (r, .ok l) ∈ history {} rs → (r', .ok l') ∈ history {} rs →
        (l = l' ↔ r = r')) ∧
      (∀ p ∈ history {} rs, p.2.map LoadedEncoding.encoding = Encoding.load (nameOf p.1)) ∧
      (after {} rs).loads = ((rs.filter isLoadable).map nameOf).dedup.length +
        (if AskedBothWays rs then 1 else 0) ∧
      (history {} rs).filter (fun p => isLoadable p.1) = history {} (rs.filter isLoadable) ∧
      after {} rs = after {} (rs.filter isLoadable) := by
  obtain ⟨hhistory, hafter⟩ := filter_history {} rs
  refine ⟨oncePerName_iff rs, fun r l r' l' => eq_of_mem_history rs,
    fun p hp => map_encoding_of_mem sound_empty hp, ?_, hhistory, hafter.symm⟩
  rw [loads_after, length_dedup_eq]
  simp only [askedBothWays_filter]

/-- The default, and then the default by its name. -/
theorem default_loaded_twice : ¬OncePerName [none, some "cl100k_base".toList] ∧
    history {} [none, some "cl100k_base".toList] =
      [(none, .ok ⟨0, Encoding.cl100k⟩),
        (some "cl100k_base".toList, .ok ⟨1, Encoding.cl100k⟩)] := by
  refine ⟨fun h => ?_, rfl⟩
  have hsame : LoadedEncoding.mk 0 Encoding.cl100k = ⟨1, Encoding.cl100k⟩ :=
    h none _ (some "cl100k_base".toList) _ List.mem_cons_self
      (List.mem_cons_of_mem _ List.mem_cons_self) rfl
  exact absurd (congrArg LoadedEncoding.serial hsame) (by decide)

end EncodingCache

end TextChunks
