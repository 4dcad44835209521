import TextChunks.Proofs.Dictionaries
import TextChunks.Service.Request

namespace TextChunks

theorem Literal.ofString_injective : Function.Injective Literal.ofString := by
  intro s t h
  exact String.toList_injective (Literal.text.inj h)

namespace Json.Fields

def present (fields : List (String × Option Json)) : Fields :=
  fields.filterMap fun kv => kv.2.map fun v => (Literal.ofString kv.1, v)

theorem mem_keys_present {fields : List (String × Option Json)} {k : Literal}
    (h : k ∈ (present fields).map Prod.fst) : ∃ n ∈ fields.map Prod.fst, Literal.ofString n = k := by
  obtain ⟨kv, hkv, rfl⟩ := List.mem_map.1 h
  obtain ⟨f, hf, hsome⟩ := List.mem_filterMap.1 hkv
  obtain ⟨v, -, rfl⟩ := Option.map_eq_some_iff.1 hsome
  exact ⟨f.1, List.mem_map_of_mem hf, rfl⟩

theorem present_cons (name : String) (v : Option Json) (fields : List (String × Option Json)) :
    present ((name, v) :: fields) =
      v.elim (present fields) fun v => (Literal.ofString name, v) :: present fields := by
  cases v <;> rfl

variable {fields : List (String × Option Json)} (h : (fields.map Prod.fst).Nodup)

include h

theorem nodup_keys_present : ((present fields).map Prod.fst).Nodup := by
  induction fields with
  | nil => exact List.nodup_nil
  | cons f fields ih =>
    obtain ⟨name, v⟩ := f
    rw [List.map_cons, List.nodup_cons] at h
    rw [present_cons]
    cases v with
    | none => exact ih h.2
    | some v =>
      refine List.nodup_cons.2 ⟨fun hmem => h.1 ?_, ih h.2⟩
      obtain ⟨n, hn, heq⟩ := mem_keys_present hmem
      rwa [Literal.ofString_injective heq] at hn

theorem get?_present {name : String} {v : Option Json} (hmem : (name, v) ∈ fields) :
    Dictionary.get? (present fields) (Literal.ofString name) = v := by
  induction fields with
  | nil => exact absurd hmem List.not_mem_nil
  | cons f fields ih =>
    obtain ⟨n, w⟩ := f
    rw [List.map_cons, List.nodup_cons] at h
    rw [present_cons]
    rcases List.mem_cons.1 hmem with heq | hrest
    · obtain ⟨rfl, rfl⟩ := Prod.mk.inj heq
      have hnone : Dictionary.get? (present fields) (Literal.ofString name) = none := by
        apply Dictionary.get?_eq_none_iff.2
        intro hk
        obtain ⟨m, hm, hmk⟩ := mem_keys_present hk
        rw [Literal.ofString_injective hmk] at hm
        exact h.1 hm
      cases v with
      | none => exact hnone
      | some v => exact (Dictionary.get?_cons ..).trans (if_pos rfl)
    · have hne : n ≠ name := by
        rintro rfl
        exact h.1 (List.mem_map.2 ⟨_, hrest, rfl⟩)
      cases w with
      | none => exact ih h.2 hrest
      | some w =>
        exact ((Dictionary.get?_cons ..).trans
          (if_neg fun heq => hne (Literal.ofString_injective heq))).trans (ih h.2 hrest)

end Json.Fields

namespace Reader

theorem atLeast_int {least n : Nat} (h : least ≤ n) :
    atLeast least (.int n) = .ok ⟨n, h⟩ := by
  have hn : least ≤ (n : Int).toNat ∧ (0 : Int) ≤ n := ⟨by simpa using h, Int.natCast_nonneg n⟩
  change (if h : least ≤ (n : Int).toNat ∧ (0 : Int) ≤ n then _ else _ : Except _ _) = _
  rw [dif_pos hn]
  rfl

theorem nonEmpty_ofText {s : Text} (h : s ≠ []) : nonEmpty (.ofText s) = .ok ⟨s, h⟩ := dif_pos h

end Reader

namespace Json.Fields

theorem optional_of_get? {fields : Fields} {name : String} (default : α) {a : α} {read : Reader α}
    {v : Json} (hget : fields.get? (Literal.ofString name) = some v) (hread : read v = .ok a) :
    fields.optional name default read = .ok a := by
  simp only [optional, hget, hread]

theorem only_of_forall {fields : Fields} {names : List String}
    (h : ∀ k ∈ fields.map Prod.fst, ∃ n ∈ names, Literal.ofString n = k) :
    fields.only names = .ok () := by
  have hnone : fields.filter (fun kv => !names.any fun n => Literal.ofString n = kv.1) = [] := by
    rw [List.filter_eq_nil_iff]
    intro kv hkv
    obtain ⟨n, hn, heq⟩ := h kv.1 (List.mem_map_of_mem hkv)
    have hany : (names.any fun n => Literal.ofString n = kv.1) = true :=
      List.any_eq_true.2 ⟨n, hn, decide_eq_true heq⟩
    simp [hany]
  simp only [only, hnone]

end Json.Fields

namespace Config

/-- Fields that look up as those of a configuration, and no others, describe it. -/
theorem ofJson_of_fields (c : Config) {fields : Json.Fields}
    (hget : ∀ kv ∈ c.fields, fields.get? (Literal.ofString kv.1) = some kv.2)
    (hkeys : ∀ k ∈ fields.map Prod.fst, ∃ n ∈ fieldNames, Literal.ofString n = k) :
    ofJson (.object fields) = .ok c := by
  have hstray : fields.find? (fun kv => kv.1.isStray) = none := by
    rw [List.find?_eq_none]
    intro kv hkv
    obtain ⟨n, -, heq⟩ := hkeys kv.1 (List.mem_map_of_mem hkv)
    simp [← heq, Literal.ofString, Literal.isStray]
  have hsize := Json.Fields.optional_of_get? ⟨800, by decide⟩
    (hget ("chunk_size", .int c.windowSize) (by simp [Config.fields]))
    (Reader.atLeast_int (show 1 ≤ c.windowSize from c.windowSize_pos))
  have hcut := Json.Fields.optional_of_get? ⟨350, by decide⟩
    (hget ("min_chunk_size_chars", .int c.minCut) (by simp [Config.fields]))
    (Reader.atLeast_int (Nat.zero_le c.minCut))
  have hlength := Json.Fields.optional_of_get? ⟨5, by decide⟩
    (hget ("min_chunk_length_to_embed", .int c.minLength) (by simp [Config.fields]))
    (Reader.atLeast_int (Nat.zero_le c.minLength))
  have hmost := Json.Fields.optional_of_get? ⟨10000, by decide⟩
    (hget ("max_num_chunks", .int c.maxWindows) (by simp [Config.fields]))
    (Reader.atLeast_int (show 1 ≤ c.maxWindows from c.maxWindows_pos))
  have hkeep := Json.Fields.optional_of_get? true
    (hget ("keep_separator", .bool c.keepLines) (by simp [Config.fields]))
    (show Reader.boolean (.bool c.keepLines) = .ok c.keepLines from rfl)
  have hencoding := Json.Fields.optional_of_get? ⟨"cl100k_base".toList, by decide⟩
    (hget ("encoding", .ofText c.encoding) (by simp [Config.fields]))
    (Reader.nonEmpty_ofText c.encoding_ne_nil)
  simp only [ofJson, hstray, ofFields, hsize, hcut, hlength, hmost, hkeep, hencoding,
    Json.Fields.only_of_forall hkeys]
  rfl

end Config

namespace SplitRequest

def applied (r : SplitRequest) (c : Config) : Config where
  windowSize := r.windowSize.elim c.windowSize Subtype.val
  minCut := r.minCut.elim c.minCut Subtype.val
  minLength := r.minLength.elim c.minLength Subtype.val
  maxWindows := r.maxWindows.elim c.maxWindows Subtype.val
  keepLines := r.keepLines.getD c.keepLines
  encoding := c.encoding
  windowSize_pos := by
    cases r.windowSize with
    | none => exact c.windowSize_pos
    | some n => exact n.2
  maxWindows_pos := by
    cases r.maxWindows with
    | none => exact c.maxWindows_pos
    | some n => exact n.2
  encoding_ne_nil := c.encoding_ne_nil

variable (r : SplitRequest) (c : Config)

def settable : List (String × Option Json) :=
  [("chunk_size", r.windowSize.map fun n => Json.int n.1),
    ("min_chunk_size_chars", r.minCut.map fun n => .int n.1),
    ("min_chunk_length_to_embed", r.minLength.map fun n => .int n.1),
    ("max_num_chunks", r.maxWindows.map fun n => .int n.1),
    ("keep_separator", r.keepLines.map .bool)]

theorem overrides_eq : r.overrides = Json.Fields.present r.settable := rfl

theorem nodup_settable : (r.settable.map Prod.fst).Nodup :=
  (by decide : ["chunk_size", "min_chunk_size_chars", "min_chunk_length_to_embed", "max_num_chunks",
    "keep_separator"].Nodup)

def merged : Json.Fields :=
  Dictionary.putAll (c.fields.map fun kv => (Literal.ofString kv.1, kv.2)) r.overrides

theorem inlined_eq (h : r.overrides ≠ []) : r.inlined c = .object (r.merged c) :=
  if_neg (by simpa using h)

theorem get?_merged (name : String) : Dictionary.get? (r.merged c) (Literal.ofString name) =
    (Dictionary.get? r.overrides (Literal.ofString name)).or
      (Dictionary.get? (c.fields.map fun kv => (Literal.ofString kv.1, kv.2))
        (Literal.ofString name)) :=
  Dictionary.get?_putAll _ _ (Json.Fields.nodup_keys_present r.nodup_settable) _

theorem get?_field {name : String} {v : Json} (h : (name, v) ∈ c.fields) :
    Dictionary.get? (c.fields.map fun kv => (Literal.ofString kv.1, kv.2))
      (Literal.ofString name) = some v := by
  have hnodup : ((c.fields.map fun kv => (kv.1, some kv.2)).map Prod.fst).Nodup :=
    (by decide : Config.fieldNames.Nodup)
  exact Json.Fields.get?_present hnodup (List.mem_map_of_mem (f := fun kv => (kv.1, some kv.2)) h)

theorem get?_merged_settable {name : String} {v w : Json} {o : Option Json}
    (hset : (name, o) ∈ r.settable) (hfield : (name, w) ∈ c.fields) (hv : o.getD w = v) :
    Dictionary.get? (r.merged c) (Literal.ofString name) = some v := by
  rw [get?_merged, overrides_eq, Json.Fields.get?_present r.nodup_settable hset,
    get?_field c hfield, ← hv]
  cases o <;> rfl

theorem get?_merged_encoding :
    Dictionary.get? (r.merged c) (Literal.ofString "encoding") = some (.ofText c.encoding) := by
  have hnone : Dictionary.get? r.overrides (Literal.ofString "encoding") = none := by
    apply Dictionary.get?_eq_none_iff.2
    intro h
    obtain ⟨n, hn, heq⟩ := Json.Fields.mem_keys_present h
    rw [Literal.ofString_injective heq] at hn
    exact absurd hn (by decide : "encoding" ∉ ["chunk_size", "min_chunk_size_chars",
      "min_chunk_length_to_embed", "max_num_chunks", "keep_separator"])
  rw [get?_merged, hnone, get?_field c (v := .ofText c.encoding) (by simp [Config.fields])]
  rfl

theorem inlined_isFalsy (h : r.overrides ≠ []) : (r.inlined c).isFalsy = false := by
  rw [inlined_eq r c h]
  have hne : r.merged c ≠ [] := by
    intro hnil
    have hencoding := r.get?_merged_encoding c
    rw [hnil] at hencoding
    exact absurd hencoding (by simp [Dictionary.get?])
  exact List.isEmpty_eq_false_iff.2 hne

theorem getD_number {least : Nat} (o : Option { n : Nat // least ≤ n }) (n : Nat) :
    (o.map fun m => Json.int m.1).getD (.int n) = .int (o.elim n Subtype.val : Nat) := by
  cases o <;> rfl

/-- The values of a request are read back from the merged fields as they are. -/
theorem ofJson_inlined (h : r.overrides ≠ []) :
    Config.ofJson (r.inlined c) = .ok (r.applied c) := by
  rw [inlined_eq r c h]
  apply Config.ofJson_of_fields
  · intro kv hkv
    simp only [Config.fields, List.mem_cons, List.not_mem_nil, or_false] at hkv
    rcases hkv with rfl | rfl | rfl | rfl | rfl | rfl
    · exact r.get?_merged_settable c (o := r.windowSize.map fun n => .int n.1)
        (w := .int c.windowSize) (by simp [settable]) (by simp [Config.fields]) (getD_number ..)
    · exact r.get?_merged_settable c (o := r.minCut.map fun n => .int n.1)
        (w := .int c.minCut) (by simp [settable]) (by simp [Config.fields]) (getD_number ..)
    · exact r.get?_merged_settable c (o := r.minLength.map fun n => .int n.1)
        (w := .int c.minLength) (by simp [settable]) (by simp [Config.fields]) (getD_number ..)
    · exact r.get?_merged_settable c (o := r.maxWindows.map fun n => .int n.1)
        (w := .int c.maxWindows) (by simp [settable]) (by simp [Config.fields]) (getD_number ..)
    · exact r.get?_merged_settable c (o := r.keepLines.map .bool)
        (w := .bool c.keepLines) (by simp [settable]) (by simp [Config.fields])
        (Option.getD_map Json.bool c.keepLines r.keepLines)
    · exact r.get?_merged_encoding c
  · intro k hk
    rcases Dictionary.mem_keys_putAll hk with hk | hk
    · obtain ⟨n, hn, rfl⟩ := Json.Fields.mem_keys_present hk
      have hsub : ∀ n ∈ r.settable.map Prod.fst, n ∈ Config.fieldNames :=
        (by decide : ∀ n ∈ ["chunk_size", "min_chunk_size_chars", "min_chunk_length_to_embed",
          "max_num_chunks", "keep_separator"], n ∈ Config.fieldNames)
      exact ⟨n, hsub n hn, rfl⟩
    · obtain ⟨kv, hkv, rfl⟩ := List.mem_map.1 hk
      obtain ⟨f, hf, rfl⟩ := List.mem_map.1 hkv
      exact ⟨f.1, List.mem_map_of_mem (f := Prod.fst) hf, rfl⟩

theorem present_eq_nil {fields : List (String × Option Json)}
    (h : Json.Fields.present fields = []) {n : String} {v : Option Json}
    (hmem : (n, v) ∈ fields) : v = none := by
  have hnone := List.filterMap_eq_nil_iff.1 h _ hmem
  exact Option.map_eq_none_iff.1 hnone

/-- A request that sets nothing leaves the configuration as it is. -/
theorem applied_of_nil (h : r.overrides = []) : r.applied c = c := by
  rw [overrides_eq] at h
  have hsize : r.windowSize = none := Option.map_eq_none_iff.1
    (present_eq_nil h (n := "chunk_size")
      (v := r.windowSize.map fun n => .int n.1) (by simp [settable]))
  have hcut : r.minCut = none := Option.map_eq_none_iff.1
    (present_eq_nil h (n := "min_chunk_size_chars")
      (v := r.minCut.map fun n => .int n.1) (by simp [settable]))
  have hlength : r.minLength = none := Option.map_eq_none_iff.1
    (present_eq_nil h (n := "min_chunk_length_to_embed")
      (v := r.minLength.map fun n => .int n.1) (by simp [settable]))
  have hmost : r.maxWindows = none := Option.map_eq_none_iff.1
    (present_eq_nil h (n := "max_num_chunks")
      (v := r.maxWindows.map fun n => .int n.1) (by simp [settable]))
  have hkeep : r.keepLines = none := Option.map_eq_none_iff.1
    (present_eq_nil h (n := "keep_separator") (v := r.keepLines.map .bool) (by simp [settable]))
  cases c
  simp only [applied, hsize, hcut, hlength, hmost, hkeep, Option.elim_none, Option.getD_none]

end SplitRequest

end TextChunks
