-- Saving a birth table and reading it back, up to the length that the reader takes; the
-- old layouts are read as the table that is then saved in the new one.
import Ottto.BirthLayouts

namespace ottto_service.claude_money_birth_store

open Words SortedVec Results Option Layout UrlSafe BirthStore String
open durable_tail_codec.Durable (as_bytes)
open claude_copy_removals (take times word_bytes len_bytes take_append take_key_append
  take_word_append times_forall len_bytes_length word_bytes_length)

variable {out : Outside}

/-! ## The old layouts -/

/-- The layout that a text says it is in. -/
def text_layout (encoded : String) : Option Layout := do
  let bytes ← UrlSafe.decode encoded.toList
  let (version, _) ← take 4 bytes
  of_version version

/-- The layouts that are read and never written. -/
def Layout.is_old (version : Layout) : Prop := version = .CMB1 ∨ version = .CMB2 ∨ version = .CMB3

/-- What the bytes behind a version are read as. -/
structure StoreRead (version : Layout) (input : Bytes) (store : BirthStore) : Prop where
  valid : store.valid = some store
  staged : store.staged = []
  generations : ∀ s ∈ store.sessions, ∀ o ∈ s.2.paths, o.2.generation ≤ MAX_GENERATION
  covered : 4 + (store.sessions.map session_len).sum ≤ version.cover * input.length
  unopened : version.is_tagged = false → ∀ s ∈ store.sessions, ∀ o ∈ s.2.paths, o.2.opened = {}
  unmarked : version.is_old → store.marks = {}

theorem valid_eq_some {s t : BirthStore} (h : s.valid = some t) : t = s ∧ s.valid = some s := by
  unfold BirthStore.valid at h ⊢
  split at h
  case isTrue hgood =>
    cases h
    exact ⟨rfl, if_pos hgood⟩
  case isFalse => cases h

variable {version : Layout}

theorem take_marks_old {input rest : Bytes} {marks : MoneyMarks}
    (hold : version.is_old) (h : take_marks version input = some (marks, rest)) : marks = {} := by
  unfold take_marks at h
  have hversion : version ≠ .CMB5 := by
    rcases hold with rfl | rfl | rfl <;> decide
  rw [if_neg hversion] at h
  cases h
  rfl

variable {store : BirthStore}

theorem take_store_read {input : Bytes}
    (h : take_store out version input = some store) : StoreRead version input store := by
  simp only [take_store, bind_eq_bind, bind_eq_some_iff] at h
  obtain ⟨⟨count, input₁⟩, hcount, ⟨sessions, input₂⟩, hsessions, ⟨marks, input₃⟩, hmarks, h⟩ := h
  obtain ⟨-, h⟩ := ite_none_left_eq_some.mp h
  obtain ⟨rfl, hvalid⟩ := valid_eq_some h
  have hcount := take_count_length hcount
  have hsum := @times_covered _ _ session_len _
    (fun _ _ _ hstep => (take_session_read hstep).covered) _ _ _ _ hsessions
  simp only at hcount hsum
  refine ⟨hvalid, rfl, ?_, ?_, ?_, fun hold => take_marks_old hold hmarks⟩
  · exact times_forall (P := fun s => ∀ o ∈ s.2.paths, o.2.generation ≤ MAX_GENERATION)
      (fun _ _ _ hstep => (take_session_read hstep).generations) hsessions
  · have hone : 1 ≤ version.cover := by cases version <;> decide
    have hlength : input.length = input₁.length + 4 := by omega
    have hfour := Nat.mul_le_mul_right 4 hone
    rw [hlength, Nat.mul_add]
    simp only
    omega
  · intro htagged
    exact times_forall (P := fun s => ∀ o ∈ s.2.paths, o.2.opened = {})
      (fun _ _ _ hstep => (take_session_read hstep).unopened htagged) hsessions

variable {text : String}

theorem decode_eq_some (h : decode out text = some store) :
    (as_bytes text).length ≤ ENCODED_LIMIT ∧ ∃ bytes version input layout,
      UrlSafe.decode text.toList = some bytes ∧ take 4 bytes = some (version, input) ∧
        of_version version = some layout ∧ take_store out layout input = some store := by
  unfold decode at h
  obtain ⟨hlength, h⟩ := ite_none_left_eq_some.mp h
  simp only [bind_eq_bind, bind_eq_some_iff] at h
  obtain ⟨bytes, hbytes, ⟨version, input⟩, htake, layout, hlayout, hstore⟩ := h
  exact ⟨Nat.not_lt.mp hlength, bytes, version, input, layout, hbytes, htake, hlayout, hstore⟩

/-- A table without marks whose generations the wire holds is written, as long as its records. -/
theorem serialize_unmarked {store : BirthStore} (hmarks : store.marks = {})
    (hgenerations : ∀ s ∈ store.sessions, ∀ o ∈ s.2.paths, o.2.generation ≤ MAX_GENERATION)
    (hfits : 14 + (store.sessions.map session_len).sum < 2 ^ 64) :
    ∃ text, store.serialize = .ok text ∧ (as_bytes text).length =
      ((8 + (store.sessions.map session_len).sum) * 4 + 2) / 3 := by
  obtain ⟨sessions, hsessions, hlength⟩ :=
    put_parts_come_through (fun s hs => put_session_comes_through (hgenerations s hs))
  have hmarked : store.marked = false := by
    unfold BirthStore.marked
    rw [hmarks]
    rfl
  have hbytes : store.put_bytes = .ok (as_bytes "CMB4" ++ claude_copy_removals.len_bytes
      store.sessions.length ++ sessions.flatten ++ []) := by
    unfold put_bytes BirthStore.trailer
    rw [hmarked]
    exact bind_eq_ok.mpr ⟨sessions, hsessions, rfl⟩
  have hlen : store.byte_len = some (8 + (store.sessions.map session_len).sum + 6) := by
    unfold byte_len durable_tail_codec.checked_add checked_mul
    rw [sessions_len_le (by omega), hmarks]
    simp only [bind_eq_bind, bind_some, List.length_nil, Nat.zero_mul]
    rw [if_pos (by decide)]
    simp only [bind_some, Nat.add_zero]
    exact if_pos (by omega)
  have htext : store.serialize = .ok (String.ofList (UrlSafe.encode (as_bytes "CMB4" ++
      claude_copy_removals.len_bytes store.sessions.length ++ sessions.flatten ++ []))) := by
    unfold BirthStore.serialize
    rw [hlen]
    exact bind_eq_ok.mpr ⟨_, hbytes, rfl⟩
  refine ⟨_, htext, ?_⟩
  have hfour : (as_bytes "CMB4").length = 4 := by decide
  rw [encoded_length]
  simp only [List.length_append, List.length_nil, hlength, hfour, len_bytes_length, Nat.add_zero]

theorem map_eq_self {α : Type} {f : α → α} {l : List α} (h : ∀ a ∈ l, f a = a) : l.map f = l :=
  (List.map_congr_left h).trans (List.map_id l)

/-- Without identities there is nothing to drop. -/
theorem saved_of_unopened (hstaged : store.staged = [])
    (h : ∀ s ∈ store.sessions, ∀ o ∈ s.2.paths, o.2.opened = {}) : store.saved = store := by
  have hsessions : store.sessions.map saved_session = store.sessions := by
    apply map_eq_self
    intro s hs
    have hpaths : s.2.paths.map saved_path = s.2.paths := by
      apply map_eq_self
      intro o ho
      have hsame : o.2.opened.saved = o.2.opened := by
        rw [h s hs o ho]
        rfl
      unfold saved_path
      rw [hsame]
    unfold saved_session
    rw [hpaths]
  unfold BirthStore.saved
  rw [hsessions, ← hstaged]

/-- What an old layout is read as can be saved; only the first layout takes less than the
new one. -/
theorem old_layout_serialize (hlayout : text_layout text = some version) (hold : version.is_old)
    (h : decode out text = some store) :
    ∃ again, store.serialize = .ok again ∧ store.valid = some store ∧
      (version ≠ .CMB1 → (as_bytes again).length ≤ ENCODED_LIMIT) ∧
      (version ≠ .CMB3 → store.saved = store) := by
  obtain ⟨hlength, bytes, head, input, layout, hbytes, htake, hversion, hstore⟩ := decode_eq_some h
  have hsame : layout = version := by
    unfold text_layout at hlayout
    rw [hbytes] at hlayout
    simp only [bind_eq_bind, bind_some, htake, hversion] at hlayout
    exact Option.some.inj hlayout
  subst hsame
  have hread := take_store_read hstore
  have hcovered := hread.covered
  have htaken := take_length htake
  have htext := text_length text
  have hdecoded := decoded_length hbytes
  unfold ENCODED_LIMIT at hlength
  have hcover : layout.cover ≤ 2 := by cases layout <;> decide
  have hbound := Nat.mul_le_mul_right input.length hcover
  obtain ⟨again, hagain, hwritten⟩ := serialize_unmarked (hread.unmarked hold) hread.generations
    (by omega)
  refine ⟨again, hagain, hread.valid, ?_, ?_⟩
  · intro hfirst
    have hone : layout.cover = 1 := by
      cases layout <;> first | rfl | exact absurd rfl hfirst
    rw [hone] at hcovered
    rw [hwritten]
    unfold ENCODED_LIMIT
    omega
  · intro hthird
    have htagged : layout.is_tagged = false := by
      rcases hold with rfl | rfl | rfl
      · rfl
      · rfl
      · exact absurd rfl hthird
    exact saved_of_unopened hread.staged (hread.unopened htagged)

/-- A saved table is read back when its text is no longer than the reader takes, and refused
otherwise. -/
theorem deserialize_serialize (hvalid : store.valid = some store) (h : store.serialize = .ok text) :
    deserialize out text = if (as_bytes text).length ≤ ENCODED_LIMIT then .ok store.saved
      else .error "invalid birth table" := by
  unfold deserialize
  by_cases hlength : (as_bytes text).length ≤ ENCODED_LIMIT
  · rw [decode_serialize hvalid h hlength, if_pos hlength]
  · rw [decode_of_long (Nat.not_le.mp hlength), if_neg hlength]

theorem deserialize_eq_ok :
    deserialize out text = .ok store ↔ decode out text = some store := by
  unfold deserialize
  cases decode out text <;> simp

/-- Every table that can be saved is read back, less its probes and the extents of unknown
objects, as far as the reader takes its text; a table of an old layout is saved as the
table that its new text is read as. -/
theorem saved_tables_are_read_back (out : Outside) :
    (∀ (store : BirthStore) (text : String), store.valid = some store →
      store.serialize = .ok text →
        deserialize out text = if (as_bytes text).length ≤ ENCODED_LIMIT then .ok store.saved
          else .error "invalid birth table") ∧
    ∀ (text : String) (version : Layout) (store : BirthStore),
      text_layout text = some version → version.is_old → deserialize out text = .ok store →
        ∃ again, store.serialize = .ok again ∧
          (version ≠ .CMB1 → (as_bytes again).length ≤ ENCODED_LIMIT) ∧
          (version ≠ .CMB3 → store.saved = store) ∧
          deserialize out again = if (as_bytes again).length ≤ ENCODED_LIMIT then .ok store.saved
            else .error "invalid birth table" := by
  refine ⟨fun store text => deserialize_serialize, ?_⟩
  intro text version store hlayout hold h
  obtain ⟨again, hagain, hvalid, hfits, hsame⟩ :=
    old_layout_serialize hlayout hold (deserialize_eq_ok.mp h)
  exact ⟨again, hagain, hfits, hsame, deserialize_serialize hvalid hagain⟩

/-! ## Texts -/

/-- Keys in the order of their numbers. -/
def numbered_key (i : Nat) : LocationKey :=
  ⟨List.replicate 13 0 ++ [UInt8.ofNat (i / 65536), UInt8.ofNat (i / 256), UInt8.ofNat i], rfl⟩

theorem numbered_key_lt {i j : Nat} (h : i < j) (hj : j < 2 ^ 24) :
    numbered_key i < numbered_key j := by
  change (numbered_key i).1.map UInt8.toNat < (numbered_key j).1.map UInt8.toNat
  simp only [numbered_key, List.replicate, List.cons_append, List.nil_append, List.map_cons,
    List.cons_lt_cons_iff, UInt8.toNat_ofNat', List.map_nil, lt_irrefl, false_or, true_and,
    and_false, or_false]
  omega

/-- One session with a birth at each of `n` paths. -/
def wide_session (n : Nat) : Session where
  owner := numbered_key 0
  cutoff := 1
  absent := 0
  paths := (List.range n).map (fun i => (numbered_key i, ⟨1, 0, {}⟩))

def wide_table (n : Nat) : BirthStore where
  sessions := [(numbered_key 0, wide_session n)]
  staged := []
  marks := {}

theorem wide_table_valid {n : Nat} (hpos : 0 < n) (hn : n < 2 ^ 24) :
    (wide_table n).valid = some (wide_table n) := by
  unfold BirthStore.valid
  apply if_pos
  simp only [Bool.and_eq_true]
  refine ⟨⟨⟨rfl, rfl⟩, rfl⟩, ?_⟩
  have hsorted : Sorted ((List.range n).map
      (fun i => (numbered_key i, (⟨1, 0, {}⟩ : Observation)))) := by
    apply List.pairwise_map.mpr
    apply List.pairwise_lt_range.imp_of_mem
    intro i j _ hj hlt
    have hj := List.mem_range.mp hj
    exact numbered_key_lt hlt (by omega)
  apply List.all_eq_true.mpr
  intro s hs
  rw [List.mem_singleton.mp hs]
  have hempty : List.range n ≠ [] := by
    intro hnone
    rw [List.range_eq_nil] at hnone
    omega
  simp only [valid_session, wide_session, (windows_ordered_iff _).mpr hsorted,
    Bool.and_eq_true]
  refine ⟨⟨⟨⟨by decide, ?_⟩, trivial⟩, ?_⟩, ?_⟩
  · simp [hempty]
  · simp
  · apply List.any_eq_true.mpr
    exact ⟨(numbered_key 0, ⟨1, 0, {}⟩), List.mem_map.mpr ⟨0, List.mem_range.mpr hpos, rfl⟩, by decide⟩

theorem wide_table_sum (n : Nat) :
    ((wide_table n).sessions.map session_len).sum = 52 + n * 28 := by
  simp [wide_table, wide_session, session_len, path_len, Function.comp_def, BirthIdentity.is_known]

theorem wide_table_generations (n : Nat) :
    ∀ s ∈ (wide_table n).sessions, ∀ o ∈ s.2.paths, o.2.generation ≤ MAX_GENERATION := by
  intro s hs o ho
  rw [List.mem_singleton.mp hs] at ho
  obtain ⟨i, -, rfl⟩ := List.mem_map.mp ho
  exact UInt64.zero_le

/-- The same table as the first layout has it. -/
def first_layout_bytes (n : Nat) : Bytes :=
  as_bytes "CMB1" ++ (len_bytes 1 ++ ((numbered_key 0).1 ++ ((numbered_key 0).1 ++
    (word_bytes 1 ++ (word_bytes 0 ++ (len_bytes n ++
      ((List.range n).flatMap (fun i => (numbered_key i).1 ++ word_bytes 1))))))))

theorem take_version (input : Bytes) :
    take 4 (as_bytes "CMB1" ++ input) = some (as_bytes "CMB1", input) :=
  take_append (by decide) input

theorem numbered_records_length (n : Nat) :
    ((List.range n).flatMap (fun i => (numbered_key i).1 ++ word_bytes 1)).length = n * 24 := by
  rw [List.length_flatMap, List.map_congr_left (g := fun _ => 24), List.map_const',
    List.sum_replicate, smul_eq_mul, List.length_range]
  intro i _
  rw [List.length_append, (numbered_key i).2, word_bytes_length]

theorem first_layout_length (n : Nat) : (first_layout_bytes n).length = 60 + n * 24 := by
  have hfour : (as_bytes "CMB1").length = 4 := by decide
  unfold first_layout_bytes
  simp only [List.length_append, numbered_records_length, hfour, len_bytes_length,
    word_bytes_length, (numbered_key 0).2]
  omega

theorem take_first_layout (out : Outside) {n : Nat} (hn : n < 2 ^ 24) :
    take_session out .CMB1 ((numbered_key 0).1 ++ ((numbered_key 0).1 ++ (word_bytes 1 ++
      (word_bytes 0 ++ (len_bytes n ++
        ((List.range n).flatMap (fun i => (numbered_key i).1 ++ word_bytes 1))))))) =
      some ((numbered_key 0, wide_session n), []) := by
  have hlength : ((List.range n).flatMap (fun i => (numbered_key i).1 ++ word_bytes 1)).length =
      n * 24 := numbered_records_length n
  have hcount := @take_count_append 24 n
    ((List.range n).flatMap (fun i => (numbered_key i).1 ++ word_bytes 1)) (by decide) (by omega)
    (by rw [hlength])
  have hpath : ∀ i ∈ List.range n, ∀ bytes,
      (.ok ((numbered_key i).1 ++ word_bytes 1) : Except String Bytes) = .ok bytes → ∀ rest,
        take_path out .CMB1 (bytes ++ rest) = some ((numbered_key i, ⟨1, 0, {}⟩), rest) := by
    intro i _ bytes hbytes rest
    cases hbytes
    unfold take_path
    rw [List.append_assoc, take_key_append]
    simp only [bind_eq_bind, bind_some, take_word_append]
    rfl
  have hparts : (List.range n).mapM (fun i =>
      (.ok ((numbered_key i).1 ++ word_bytes 1) : Except String Bytes)) =
        .ok ((List.range n).map (fun i => (numbered_key i).1 ++ word_bytes 1)) := List.mapM_pure
  have hpaths := times_put hparts hpath []
  rw [List.append_nil, List.length_range, ← List.flatMap_def] at hpaths
  unfold take_session
  rw [take_key_append]
  simp only [bind_eq_bind, bind_some, take_key_append, take_word_append, record_bytes, hcount, hpaths]
  rfl

theorem first_layout_is_read {n : Nat} (hpos : 0 < n) (hn : n ≤ 130000) :
    text_layout (String.ofList (UrlSafe.encode (first_layout_bytes n))) = some .CMB1 ∧
      ∀ out, deserialize out (String.ofList (UrlSafe.encode (first_layout_bytes n))) =
        .ok (wide_table n) := by
  have hlength : ¬ ENCODED_LIMIT <
      (as_bytes (String.ofList (UrlSafe.encode (first_layout_bytes n)))).length := by
    rw [encoded_length, first_layout_length]
    unfold ENCODED_LIMIT
    omega
  have hversion : of_version (as_bytes "CMB1") = some .CMB1 := by decide
  constructor
  · unfold text_layout
    rw [toList_ofList, decode_encode]
    simp only [first_layout_bytes, bind_eq_bind, bind_some, take_version, hversion]
  · intro out
    apply deserialize_eq_ok.mpr
    unfold decode
    rw [if_neg hlength, toList_ofList, decode_encode]
    simp only [first_layout_bytes, bind_eq_bind, bind_some, take_version, hversion]
    have hcount := @take_count_append 52 1
      ((numbered_key 0).1 ++ ((numbered_key 0).1 ++ (word_bytes 1 ++ (word_bytes 0 ++ (len_bytes n ++
        ((List.range n).flatMap (fun i => (numbered_key i).1 ++ word_bytes 1)))))))
      (by decide) (by decide) (by
        simp only [List.length_append, len_bytes_length, word_bytes_length, (numbered_key 0).2]
        omega)
    have hsession := take_first_layout out (by omega : n < 2 ^ 24)
    unfold take_store
    rw [hcount]
    simp only [bind_eq_bind, bind_some, times, hsession]
    exact wide_table_valid hpos (by omega)

/-- A path with the extent of an unknown object. -/
def extent_table : BirthStore where
  sessions := [(numbered_key 0, {
    owner := numbered_key 0
    cutoff := 1
    absent := 0
    paths := [(numbered_key 0, ⟨1, 0, ⟨0, 5⟩⟩)] })]
  staged := []
  marks := {}

/-- The same table as the third layout has it. -/
def third_layout_bytes : Bytes :=
  as_bytes "CMB3" ++ (len_bytes 1 ++ ((numbered_key 0).1 ++ (numbered_key 0).1 ++
    word_bytes 1 ++ word_bytes 0 ++ len_bytes 1 ++ (numbered_key 0).1 ++ word_bytes 1 ++
    word_bytes 1 ++ len_bytes 7 ++ len_bytes 5 ++ word_bytes 0))

theorem third_layout_is_read :
    text_layout (String.ofList (UrlSafe.encode third_layout_bytes)) = some .CMB3 ∧
      ∀ out, deserialize out (String.ofList (UrlSafe.encode third_layout_bytes)) =
        .ok extent_table := by
  have hlength : ¬ ENCODED_LIMIT <
      (as_bytes (String.ofList (UrlSafe.encode third_layout_bytes))).length := by
    rw [encoded_length]
    decide
  have htake : take 4 third_layout_bytes = some (as_bytes "CMB3", third_layout_bytes.drop 4) := by
    decide
  have hversion : of_version (as_bytes "CMB3") = some .CMB3 := by decide
  constructor
  · unfold text_layout
    rw [toList_ofList, decode_encode]
    simp only [bind_eq_bind, bind_some, htake, hversion]
  · intro out
    apply deserialize_eq_ok.mpr
    unfold decode
    rw [if_neg hlength, toList_ofList, decode_encode]
    simp only [bind_eq_bind, bind_some, htake, hversion]
    rfl

/-- The writer does not ask what the reader takes, and the first layout takes less. -/
theorem wide_table_is_refused : ∃ first text third,
    (wide_table 120000).valid = some (wide_table 120000) ∧
    (wide_table 120000).serialize = .ok text ∧
    (∀ out, deserialize out text = .error "invalid birth table") ∧
    text_layout first = some .CMB1 ∧ (∀ out, deserialize out first = .ok (wide_table 120000)) ∧
    text_layout third = some .CMB3 ∧ (∀ out, deserialize out third = .ok extent_table) ∧
    extent_table.saved ≠ extent_table := by
  have hvalid := wide_table_valid (by decide : 0 < 120000) (by decide)
  have hsum := wide_table_sum 120000
  have hfirst := first_layout_is_read (by decide : 0 < 120000) (by decide)
  have hthird := third_layout_is_read
  obtain ⟨text, htext, hlength⟩ := @serialize_unmarked (wide_table 120000) rfl
    (wide_table_generations _) (by rw [hsum]; decide)
  refine ⟨_, text, _, hvalid, htext, fun out => ?_, hfirst.1, hfirst.2, hthird.1, hthird.2,
    by decide⟩
  rw [deserialize_serialize hvalid htext, hlength, hsum]
  exact if_neg (by decide)

def no_digest : Outside where
  sha256 := fun _ => ⟨List.replicate 32 0, rfl⟩

theorem a_first_layout_table_is_kept : ∃ again, (wide_table 1).serialize = .ok again ∧
    deserialize no_digest again = (if (as_bytes again).length ≤ ENCODED_LIMIT then
      .ok (wide_table 1).saved else .error "invalid birth table") ∧
    (wide_table 1).saved = wide_table 1 := by
  obtain ⟨hlayout, hdecode⟩ := first_layout_is_read (by decide : 0 < 1) (by decide)
  obtain ⟨again, hagain, -, hsame, -⟩ := (saved_tables_are_read_back no_digest).2 _ _ _ hlayout
    (.inl rfl) (hdecode no_digest)
  exact ⟨again, hagain, (saved_tables_are_read_back no_digest).1 _ _
    (wide_table_valid (by decide) (by decide)) hagain, hsame (by decide)⟩

end ottto_service.claude_money_birth_store
