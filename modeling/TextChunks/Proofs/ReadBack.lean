import TextChunks.Proofs.Layouts
import TextChunks.Proofs.Overrides
import TextChunks.Proofs.Payload
import TextChunks.Proofs.Prepared
import TextChunks.Proofs.Writable

namespace TextChunks

namespace Config

variable (c : Config)

def sortedFields : List (String × Json) :=
  [("chunk_size", .int c.windowSize), ("encoding", .ofText c.encoding),
    ("keep_separator", .bool c.keepLines), ("max_num_chunks", .int c.maxWindows),
    ("min_chunk_length_to_embed", .int c.minLength), ("min_chunk_size_chars", .int c.minCut)]

theorem canonical_eq_write : c.canonical = Json.write (.record c.sortedFields) := rfl

theorem forall_sortedFields {P : Json → Prop} (hnat : ∀ n ∈ c.numbers, P (.int n))
    (htext : P (.ofText c.encoding)) (hbool : P (.bool c.keepLines)) :
    ∀ kv ∈ c.sortedFields, P kv.2 := by
  intro kv hkv
  simp only [sortedFields, List.mem_cons, List.not_mem_nil, or_false] at hkv
  rcases hkv with rfl | rfl | rfl | rfl | rfl | rfl
  · exact hnat _ (by simp [numbers])
  · exact htext
  · exact hbool
  · exact hnat _ (by simp [numbers])
  · exact hnat _ (by simp [numbers])
  · exact hnat _ (by simp [numbers])

theorem exists_field_of_mem_numbers {n : Nat} (hn : n ∈ c.numbers) :
    ∃ name, (name, Json.int n) ∈ c.sortedFields := by
  simp only [numbers, List.mem_cons, List.not_mem_nil, or_false] at hn
  rcases hn with rfl | rfl | rfl | rfl
  · exact ⟨"chunk_size", by simp [sortedFields]⟩
  · exact ⟨"max_num_chunks", by simp [sortedFields]⟩
  · exact ⟨"min_chunk_length_to_embed", by simp [sortedFields]⟩
  · exact ⟨"min_chunk_size_chars", by simp [sortedFields]⟩

def readFields : Json.Fields :=
  Dictionary.putAll [] (c.sortedFields.map fun kv => (Literal.ofString kv.1, kv.2))

theorem sortedFields_perm : c.sortedFields.Perm c.fields :=
  .cons _ (List.reverse_perm c.fields.tail)

variable {c} in
theorem reads_canonical (hc : c.Short) (depth : Nat) :
    Json.Reads (depth + 1) c.canonical (.object c.readFields) := by
  rw [canonical_eq_write]
  apply Json.reads_record (List.cons_ne_nil _ _)
  apply c.forall_sortedFields (P := fun v => Json.Reads depth (Json.write v) v)
  · intro n hn
    exact Json.reads_nat depth (Text.length_ofNat_le_iff.2 (hc n hn))
  · exact Json.reads_string depth (Json.spells_written c.encoding)
  · exact Json.reads_bool depth c.keepLines

variable {c} in
theorem overlong_canonical (hc : ¬c.Short) (depth : Nat) :
    Json.Overlong (depth + 1) c.canonical := by
  have hnat (n : Nat) (hn : ¬n < 10 ^ Text.maxDigits) :
      Json.Overlong depth (Json.write (.int n)) :=
    Json.overlong_nat depth (Nat.lt_of_not_le fun h => hn (Text.length_ofNat_le_iff.1 h))
  rw [canonical_eq_write]
  apply Json.overlong_record
  · apply c.forall_sortedFields
      (P := fun v => Json.Reads depth (Json.write v) v ∨ Json.Overlong depth (Json.write v))
    · intro n _
      by_cases hn : n < 10 ^ Text.maxDigits
      · exact .inl (Json.reads_nat depth (Text.length_ofNat_le_iff.2 hn))
      · exact .inr (hnat n hn)
    · exact .inl (Json.reads_string depth (Json.spells_written c.encoding))
    · exact .inl (Json.reads_bool depth c.keepLines)
  · simp only [Short, not_forall] at hc
    obtain ⟨n, hn, hlong⟩ := hc
    obtain ⟨name, hfield⟩ := c.exists_field_of_mem_numbers hn
    exact ⟨_, hfield, hnat n hlong⟩

theorem nodup_sortedFields :
    ((c.sortedFields.map fun kv => (Literal.ofString kv.1, kv.2)).map Prod.fst).Nodup :=
  (by decide : (["chunk_size", "encoding", "keep_separator", "max_num_chunks",
    "min_chunk_length_to_embed", "min_chunk_size_chars"].map Literal.ofString).Nodup)

theorem ofJson_readFields : ofJson (.object c.readFields) = .ok c := by
  apply ofJson_of_fields
  · intro kv hkv
    have hsorted := c.sortedFields_perm.mem_iff.2 hkv
    have hget := Dictionary.get?_of_mem c.nodup_sortedFields
      (List.mem_map_of_mem (f := fun kv => (Literal.ofString kv.1, kv.2)) hsorted)
    rw [readFields, Dictionary.get?_putAll _ _ c.nodup_sortedFields, hget]
    rfl
  · intro k hk
    rcases Dictionary.mem_keys_putAll hk with hk | hk
    · obtain ⟨kv, hkv, rfl⟩ := List.mem_map.1 hk
      obtain ⟨f, hf, rfl⟩ := List.mem_map.1 hkv
      exact ⟨f.1, List.mem_map_of_mem (f := Prod.fst) (c.sortedFields_perm.mem_iff.1 hf), rfl⟩
    · cases hk

/-- The canonical form is read exactly if it has no number that is too long. -/
theorem read_canonical_iff :
    (∃ v, Json.read c.canonical = .ok v ∧ ofJson v = .ok c) ↔ c.Short := by
  have hpad : c.canonical = [] ++ (c.canonical ++ []) := by rw [List.append_nil, List.nil_append]
  by_cases hc : c.Short
  · refine iff_of_true ⟨_, ?_, c.ofJson_readFields⟩ hc
    rw [hpad]
    exact Json.read_of_reads Json.gap_nil Json.gap_nil (reads_canonical hc _)
  · refine iff_of_false ?_ hc
    rintro ⟨v, hread, -⟩
    obtain ⟨n, -, hlong⟩ :=
      Json.read_of_overlong Json.gap_nil Json.gap_nil (overlong_canonical hc (Json.maxDepth - 1))
    rw [hpad, hlong] at hread
    cases hread

end Config

theorem Reading.resolve_of_one {fields : Json.Fields} {name : Literal} {v : Json} {c : Config}
    (hmarker : Dictionary.get? fields Profiles.activeName = some (.str name))
    (hprofiles : Dictionary.get? fields "profiles" = some (.object [(name, v)]))
    (hv : Config.ofJson v = .ok c) :
    Reading.resolve (.ok (.object fields)) (.str Profiles.activeName) = .ok c ∧
      Reading.resolve (.ok (.object fields)) (.str name) = .ok c := by
  have hmark : Reading.marker (.ok (.object fields)) = .ok (.str name) := by
    change Except.ok ((Dictionary.get? fields Profiles.activeName).getD _) = _
    rw [hmarker]
    rfl
  have hload : Profiles.ofContent fields = .ok [(name, c)] := by
    simp only [Profiles.ofContent, hprofiles, Option.getD_some, Profiles.validate, hv]
  have hfind : Reading.find (.ok (.object fields)) (.str name) = .ok (some c) := by
    change Profiles.ofContent fields >>= (Reading.lookUp · (.str name)) = _
    rw [hload]
    exact congrArg Except.ok ((Dictionary.get?_cons ..).trans (if_pos rfl))
  have hactive : Reading.resolve (.ok (.object fields)) (.str Profiles.activeName) = .ok c := by
    rw [Reading.resolve_eq_of_expand (Reading.expand_active.trans hmark), hfind]
    rfl
  refine ⟨hactive, ?_⟩
  rw [← hactive]
  exact Reading.resolve_of_expand (Reading.expand_active.trans hmark)

namespace Profiles

/-- How a file with one profile is laid out: the white space around its object, the fields of the object,
and among these the one that marks the active profile, with what is between the quotes of its value, and
the one that holds the profile. -/
structure OneProfile where
  before : Text
  fields : List Json.Entry
  after : Text
  marker : Json.Entry
  marked : Text
  profiles : Json.Entry
  profile : Json.Entry

/-- The file is laid out in this way. Its only profile has this name and this text, and is marked as
active; fields of other names can hold anything that can be read. -/
structure OneProfile.Fits (f : OneProfile) (name : Literal) (written file : Text) : Prop where
  file_eq : file.unifyLines = f.before ++ (Json.Entry.object f.fields ++ f.after)
  before : Json.Gap f.before
  after : Json.Gap f.after
  marker_mem : f.marker ∈ f.fields
  marker : f.marker.Fits activeName
  marked_eq : f.marker.written = '"' :: (f.marked ++ ['"'])
  marked : Json.Spells f.marked name
  profiles_mem : f.profiles ∈ f.fields
  profiles : f.profiles.Fits "profiles"
  profiles_eq : f.profiles.written = Json.Entry.object [f.profile]
  profile : f.profile.Fits name
  profile_eq : f.profile.written = written
  others : ∀ e ∈ f.fields, e = f.marker ∨ e = f.profiles ∨ ∃ k v, e.Fits k ∧
    Json.Reads (Json.maxDepth - 1) e.written v ∧ k ≠ activeName ∧ k ≠ "profiles"

namespace OneProfile.Fits

variable {f : OneProfile} {name : Literal} {written file : Text} (h : f.Fits name written file)

include h

theorem readFile_eq :
    readFile file = Json.read (f.before ++ (Json.Entry.object f.fields ++ f.after)) := by
  have hmark : ∀ s, file.unifyLines ≠ '\uFEFF' :: s := by
    intro s hs
    rw [h.file_eq] at hs
    cases hbefore : f.before with
    | nil =>
      rw [hbefore] at hs
      exact absurd (List.cons.inj hs).1 (by decide)
    | cons c g =>
      have hc := h.before c (by rw [hbefore]; exact List.mem_cons_self)
      rw [hbefore] at hs
      rw [(List.cons.inj hs).1] at hc
      cases hc
  rw [← h.file_eq]
  unfold readFile
  split
  · next s hs => exact absurd hs (hmark s)
  · rfl

theorem reads_marker (depth : Nat) : Json.Reads depth f.marker.written (.str name) :=
  h.marked_eq ▸ Json.reads_string depth h.marked

/-- Every field that can be read has a value; that of the profiles depends on the text of the profile. -/
theorem exists_of_reads {v : Json} (hread : Json.Reads (Json.maxDepth - 2) written v) :
    ∃ fields, readFile file = .ok (.object fields) ∧
      Dictionary.get? fields activeName = some (.str name) ∧
      Dictionary.get? fields "profiles" = some (.object [(name, v)]) := by
  have hprofiles : Json.Reads (Json.maxDepth - 1) f.profiles.written (.object [(name, v)]) := by
    have hentry : List.Forall₂ (fun (e : Json.Entry) (kv : Literal × Json) =>
        e.Fits kv.1 ∧ Json.Reads (Json.maxDepth - 2) e.written kv.2) [f.profile] [(name, v)] :=
      .cons ⟨h.profile, h.profile_eq.symm ▸ hread⟩ .nil
    rw [h.profiles_eq]
    exact Json.reads_object hentry (List.cons_ne_nil _ _)
  have hne : activeName ≠ ("profiles" : Literal) := by decide
  have hfields : ∀ e ∈ f.fields, ∃ kv : Literal × Json, e.Fits kv.1 ∧
      Json.Reads (Json.maxDepth - 1) e.written kv.2 ∧ (kv.1 = activeName → kv.2 = .str name) ∧
      (kv.1 = "profiles" → kv.2 = .object [(name, v)]) := by
    intro e he
    rcases h.others e he with rfl | rfl | ⟨k, w, hfits, hreads, hactive, hother⟩
    · exact ⟨(activeName, .str name), h.marker, h.reads_marker _, fun _ => rfl,
        fun heq => absurd heq hne⟩
    · exact ⟨("profiles", .object [(name, v)]), h.profiles, hprofiles,
        fun heq => absurd heq.symm hne, fun _ => rfl⟩
    · exact ⟨(k, w), hfits, hreads, fun heq => absurd heq hactive, fun heq => absurd heq hother⟩
  choose! value hfits hreads hactive hother using hfields
  have hmarkerName := (hfits _ h.marker_mem).key.unique h.marker.key
  have hprofilesName := (hfits _ h.profiles_mem).key.unique h.profiles.key
  have hget {k : Literal} {w : Json} {e : Json.Entry} (he : e ∈ f.fields) (hname : (value e).1 = k)
      (hall : ∀ e ∈ f.fields, (value e).1 = k → (value e).2 = w) :
      Dictionary.get? (Dictionary.putAll [] (f.fields.map value)) k = some w := by
    apply Dictionary.get?_putAll_of_forall
    · intro kv hkv
      obtain ⟨e', he', rfl⟩ := List.mem_map.1 hkv
      exact hall e' he'
    · exact .inl (List.mem_map.2 ⟨_, List.mem_map_of_mem he, hname⟩)
  have hread := Json.reads_object (List.forall₂_map_right_iff.2
    (List.forall₂_same.2 fun e he => ⟨hfits e he, hreads e he⟩)) (List.ne_nil_of_mem h.marker_mem)
  exact ⟨_, h.readFile_eq.trans (Json.read_of_reads h.before h.after hread),
    hget h.marker_mem hmarkerName hactive, hget h.profiles_mem hprofilesName hother⟩

theorem exists_of_overlong (hlong : Json.Overlong (Json.maxDepth - 2) written) :
    ∃ n, readFile file = .error (.digits n) := by
  have hprofiles : Json.Overlong (Json.maxDepth - 1) f.profiles.written := by
    rw [h.profiles_eq]
    have hover : Json.Overlong (Json.maxDepth - 2) f.profile.written := h.profile_eq.symm ▸ hlong
    apply Json.overlong_object
    · intro e he
      rw [List.mem_singleton.1 he]
      exact ⟨name, h.profile, .inr hover⟩
    · exact ⟨f.profile, List.mem_singleton_self _, hover⟩
  have hobject : Json.Overlong Json.maxDepth (Json.Entry.object f.fields) := by
    apply Json.overlong_object
    · intro e he
      rcases h.others e he with rfl | rfl | ⟨k, v, hfits, hread, -, -⟩
      · exact ⟨activeName, h.marker, .inl ⟨_, h.reads_marker _⟩⟩
      · exact ⟨"profiles", h.profiles, .inr hprofiles⟩
      · exact ⟨k, hfits, .inl ⟨v, hread⟩⟩
    · exact ⟨f.profiles, h.profiles_mem, hprofiles⟩
  obtain ⟨n, -, hread⟩ := Json.read_of_overlong h.before h.after hobject
  exact ⟨n, h.readFile_eq.trans hread⟩

end OneProfile.Fits

/-- What a file with one profile gives under the active name and under the profile's own. -/
theorem OneProfile.Fits.resolve_iff {f : OneProfile} {name : Literal} {c : Config} {file : Text}
    (h : f.Fits name c.canonical file) :
    (Reading.resolve (readFile file) (.str activeName) = .ok c ↔ c.Short) ∧
      (Reading.resolve (readFile file) (.str name) = .ok c ↔ c.Short) := by
  by_cases hc : c.Short
  · obtain ⟨fields, hread, hmarker, hprofiles⟩ := h.exists_of_reads (Config.reads_canonical hc _)
    obtain ⟨hactive, hname⟩ := Reading.resolve_of_one hmarker hprofiles c.ofJson_readFields
    rw [hread]
    exact ⟨iff_of_true hactive hc, iff_of_true hname hc⟩
  · obtain ⟨n, hread⟩ := h.exists_of_overlong (Config.overlong_canonical hc _)
    have hnone : ∀ v, Reading.resolve (readFile file) v ≠ .ok c := by
      intro v hv
      obtain ⟨l, d, -, hd, -⟩ := Reading.exists_of_resolve hv
      rw [hread] at hd
      cases hd
    exact ⟨iff_of_false (hnone _) hc, iff_of_false (hnone _) hc⟩

def OneProfile.plain (name written : Text) : OneProfile :=
  let marker := { Json.Entry.spaced ("active", .ofText name) with before := [] }
  let profile :=
    { key := name.flatMap Json.writeChar, afterColon := [' '], written := written }
  let profiles := { Json.Entry.spaced ("profiles", .null) with written := Json.Entry.object [profile] }
  ⟨[], [marker, profiles], [], marker, name.flatMap Json.writeChar, profiles, profile⟩

theorem OneProfile.fits_plain {name written file : Text}
    (h : file.unifyLines = Json.Entry.object (plain name written).fields) :
    (plain name written).Fits (.text name) written file where
  file_eq := h.trans (List.append_nil _).symm
  before := Json.gap_nil
  after := Json.gap_nil
  marker_mem := List.mem_cons_self
  marker := ⟨Json.gap_nil, (Json.Entry.fits_spaced ("active", .ofText name)).key, Json.gap_nil,
    Json.gap_space, Json.gap_nil⟩
  marked_eq := rfl
  marked := Json.spells_written name
  profiles_mem := List.mem_cons_of_mem _ List.mem_cons_self
  profiles := ⟨Json.gap_space, (Json.Entry.fits_spaced ("profiles", .null)).key, Json.gap_nil,
    Json.gap_space, Json.gap_nil⟩
  profiles_eq := rfl
  profile := ⟨Json.gap_nil, Json.spells_written name, Json.gap_nil, Json.gap_space, Json.gap_nil⟩
  profile_eq := rfl
  others := by
    intro e he
    rcases List.mem_cons.1 he with rfl | he
    · exact .inl rfl
    · exact .inr (.inl (List.mem_singleton.1 he))

/-- A configuration whose numbers are short enough to be read comes back from its canonical form; and so
it does where a file has that form as its one profile, in any layout and under any name, from every state
of what is kept of that file. -/
theorem canonical_read_back (c : Config) :
    ((∃ v, Json.read c.canonical = .ok v ∧ Config.ofJson v = .ok c) ↔ c.Short) ∧
    ∀ (f : OneProfile) (name : Literal) (file : Text), f.Fits name c.canonical file →
      ∀ p : Profiles, p.Coherent → p.reading = readFile file →
        (((resolve (.str activeName) .null).runIn p).1 = .ok c ↔ c.Short) ∧
        (((resolve (.str name) .null).runIn p).1 = .ok c ↔ c.Short) := by
  refine ⟨c.read_canonical_iff, fun f name file hf p hp hread => ?_⟩
  rw [runIn_resolve hp, runIn_resolve hp, hread]
  exact hf.resolve_iff

theorem canonical_read_back_compact :
    ((resolve (.ofString "active") .null).runIn
      { file := "\x7b\"active\": \"dev\", \"profiles\": \x7b\"dev\": ".toList ++
          (Config.compact.canonical ++ "\x7d\x7d".toList) }).1 = .ok Config.compact := by
  have hfits : (OneProfile.plain "dev".toList Config.compact.canonical).Fits "dev"
      Config.compact.canonical ("\x7b\"active\": \"dev\", \"profiles\": \x7b\"dev\": ".toList ++
        (Config.compact.canonical ++ "\x7d\x7d".toList)) :=
    OneProfile.fits_plain (by decide +kernel)
  have hshort : Config.compact.Short := by
    intro n hn
    have hsmall : ∀ n ∈ Config.compact.numbers, n < 10 ^ 5 := by decide
    exact (hsmall n hn).trans_le (Nat.pow_le_pow_right (by decide) (by decide))
  exact ((canonical_read_back Config.compact).2 _ "dev" _ hfits _
    (coherent_of_file _) (reading_of_none rfl)).1.2 hshort

/-- A window of 10^4300 tokens is more than the canonical form can be read back with. -/
theorem long_number_not_read_back : ¬∃ v,
    Json.read (Config.canonical
        { windowSize := 10 ^ Text.maxDigits, windowSize_pos := Nat.pow_pos (by decide) }) = .ok v ∧
      Config.ofJson v =
        .ok { windowSize := 10 ^ Text.maxDigits, windowSize_pos := Nat.pow_pos (by decide) } := by
  rw [Config.read_canonical_iff]
  intro hshort
  exact Nat.lt_irrefl _ (hshort (10 ^ Text.maxDigits) List.mem_cons_self)

end Profiles

end TextChunks
