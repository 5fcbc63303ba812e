-- A saved birth table is read back as far as the reader's limit allows, and an old layout
-- is read as the table that its new form says (birth_store.rs).
import Ottto.BirthCodec
import Ottto.BirthRuns

namespace ottto_service.claude_money_birth_store

open Words SortedVec Results Option
open durable_tail_codec (checked_add)
open durable_tail_codec.Durable (as_bytes to_le_bytes from_le_bytes to_le_bytes_length
  from_le_bytes_to_le_bytes)
open claude_copy_removals (take take_key take_len take_word times word_bytes len_bytes take_append
  take_key_append take_len_append take_word_append len_bytes_length word_bytes_length)

/-! ## What is kept -/

/-- The extent of an unknown object is not written. -/
def BirthIdentity.saved (self : BirthIdentity) : BirthIdentity := if self.is_known then self else {}

def saved_path (o : LocationKey × Observation) : LocationKey × Observation :=
  (o.1, { o.2 with opened := o.2.opened.saved })

def saved_session (s : LocationKey × Session) : LocationKey × Session :=
  (s.1, { s.2 with paths := s.2.paths.map saved_path })

/-- The table that a saved one is read as: no probes, and no extents of unknown objects. -/
def BirthStore.saved (self : BirthStore) : BirthStore :=
  { sessions := self.sessions.map saved_session, staged := [], marks := self.marks }

/-! ## The generation word -/

/-- A generation that the wire holds keeps its value beside the tag. -/
theorem tagged_generation {generation : UInt64} (h : generation ≤ MAX_GENERATION) (known : Bool) :
    ((generation.toUInt32 * 2 + if known then 1 else 0).toUInt64 &&& 1 != 0) = known ∧
      (generation.toUInt32 * 2 + if known then 1 else 0).toUInt64 >>> 1 = generation := by
  have hbound : generation.toNat ≤ 2147483647 := h
  have htag : (if known then (1 : UInt32) else 0).toNat = if known then 1 else 0 := by
    cases known <;> rfl
  have hword : ((generation.toUInt32 * 2 + if known then 1 else 0).toUInt64).toNat =
      generation.toNat * 2 + if known then 1 else 0 := by
    rw [UInt32.toNat_toUInt64, UInt32.toNat_add, UInt32.toNat_mul, htag, UInt64.toNat_toUInt32]
    have htwo : (2 : UInt32).toNat = 2 := rfl
    rw [htwo]
    cases known
    · simp only [Bool.false_eq_true, if_false]
      omega
    · simp only [if_true]
      omega
  constructor
  · have hbit : ((generation.toUInt32 * 2 + if known then 1 else 0).toUInt64 &&& 1).toNat =
        if known then 1 else 0 := by
      rw [UInt64.toNat_and, hword]
      have hone : (1 : UInt64).toNat = 1 := rfl
      rw [hone, Nat.and_one_is_mod]
      cases known
      · simp
      · simp
    cases known
    · have hzero : ((generation.toUInt32 * 2 + if false then 1 else 0).toUInt64 &&& 1) = 0 :=
        UInt64.toNat_inj.mp hbit
      rw [hzero]
      rfl
    · have hone : ((generation.toUInt32 * 2 + if true then 1 else 0).toUInt64 &&& 1) = 1 :=
        UInt64.toNat_inj.mp hbit
      rw [hone]
      rfl
  · apply UInt64.toNat_inj.mp
    rw [UInt64.toNat_shiftRight, hword]
    have hone : (1 : UInt64).toNat % 64 = 1 := rfl
    rw [hone, Nat.shiftRight_one]
    cases known
    · simp
    · simp only [if_true]
      omega

/-! ## Records -/

theorem take_u32_append (n : UInt32) (rest : Bytes) :
    take_u32 (to_le_bytes 4 n.toNat ++ rest) = some (n, rest) := by
  have hlen : to_le_bytes 4 n.toNat = len_bytes n.toNat := by
    rw [len_bytes, Nat.mod_eq_of_lt n.toNat_lt]
  unfold take_u32
  rw [hlen, take_len_append]
  simp [Nat.mod_eq_of_lt n.toNat_lt]

/-- The layouts that are written. -/
def Layout.is_compact (version : Layout) : Prop := version = .CMB4 ∨ version = .CMB5

variable {version : Layout}

theorem take_generation_append (hversion : version.is_compact) (n : UInt32) (rest : Bytes) :
    take_generation version (to_le_bytes 4 n.toNat ++ rest) = some (n.toUInt64, rest) := by
  rcases hversion with rfl | rfl
  · rw [take_generation, take_u32_append]
    rfl
  · rw [take_generation, take_u32_append]
    rfl

theorem Layout.is_compact.is_tagged (h : version.is_compact) :
    version.is_tagged = true := by
  rcases h with rfl | rfl <;> rfl

theorem Layout.is_compact.record_bytes (h : version.is_compact) :
    version.record_bytes = 28 := by
  rcases h with rfl | rfl <;> rfl

theorem take_object_append (identity : BirthIdentity) (rest : Bytes) :
    take_object (word_bytes identity.object ++ to_le_bytes 4 identity.size.toNat ++ rest) =
      some (identity, rest) := by
  unfold take_object
  rw [List.append_assoc, take_word_append]
  simp [take_u32_append]

section

variable {out : Outside} {version : Layout}

variable {o : LocationKey × Observation} {bytes : Bytes}

theorem put_path_eq_ok (h : put_path o = .ok bytes) :
    o.2.generation ≤ MAX_GENERATION ∧
      bytes = o.1.1 ++ word_bytes o.2.birth ++
        to_le_bytes 4 (o.2.generation.toUInt32 * 2 + if o.2.opened.is_known then 1 else 0).toNat ++
        (if o.2.opened.is_known then
          word_bytes o.2.opened.object ++ to_le_bytes 4 o.2.opened.size.toNat else []) := by
  unfold put_path at h
  split at h
  · cases h
  case isFalse hgeneration =>
    exact ⟨UInt64.not_lt.mp hgeneration, (Except.ok.inj h).symm⟩

theorem take_path_put (hversion : version.is_compact) (h : put_path o = .ok bytes) (rest : Bytes) :
    take_path out version (bytes ++ rest) = some (saved_path o, rest) := by
  obtain ⟨hgeneration, rfl⟩ := put_path_eq_ok h
  obtain ⟨htag, hshift⟩ := tagged_generation hgeneration o.2.opened.is_known
  unfold take_path
  simp only [List.append_assoc, take_key_append, take_word_append,
    take_generation_append hversion, bind_eq_bind, bind_some, hversion.is_tagged,
    Bool.true_and, if_true, htag, hshift]
  have hopened : take_opened out version o.2.opened.is_known
      ((if o.2.opened.is_known then
        word_bytes o.2.opened.object ++ to_le_bytes 4 o.2.opened.size.toNat else []) ++ rest) =
      some (o.2.opened.saved, rest) := by
    unfold take_opened BirthIdentity.saved
    cases hknown : o.2.opened.is_known with
    | false => rfl
    | true =>
      have hcompact : version = .CMB4 ∨ version = .CMB5 := hversion
      simp only [if_true, if_pos hcompact]
      exact take_object_append _ rest
  rw [hopened]
  simp only [bind_some, if_neg (UInt64.not_lt.mpr hgeneration)]
  rfl

/-- A step that reads back each member as written reads back the list. -/
theorem times_put {α β : Type} {put : α → Except String Bytes} {step : Bytes → Option (β × Bytes)}
    {kept : α → β} {l : List α} {parts : List Bytes} (hput : l.mapM put = .ok parts)
    (hstep : ∀ a ∈ l, ∀ bytes, put a = .ok bytes → ∀ rest, step (bytes ++ rest) = some (kept a, rest))
    (rest : Bytes) : times step l.length (parts.flatten ++ rest) = some (l.map kept, rest) := by
  induction l generalizing parts with
  | nil =>
    cases hput
    rfl
  | cons a l ih =>
    rw [List.mapM_cons] at hput
    obtain ⟨first, hfirst, hput⟩ := bind_eq_ok.mp hput
    obtain ⟨others, hothers, hput⟩ := bind_eq_ok.mp hput
    cases hput
    obtain ⟨hhead, hrest⟩ := List.forall_mem_cons.mp hstep
    rw [List.flatten_cons, List.append_assoc, List.length_cons, times, hhead first hfirst]
    simp only [bind_eq_bind, bind_some, ih hothers hrest, List.map_cons]

theorem put_parts_length {α : Type} {put : α → Except String Bytes} {size : Nat} {l : List α}
    {parts : List Bytes} (hput : l.mapM put = .ok parts)
    (h : ∀ a ∈ l, ∀ bytes, put a = .ok bytes → size ≤ bytes.length) :
    l.length * size ≤ parts.flatten.length := by
  induction l generalizing parts with
  | nil => simp
  | cons a l ih =>
    rw [List.mapM_cons] at hput
    obtain ⟨first, hfirst, hput⟩ := bind_eq_ok.mp hput
    obtain ⟨others, hothers, hput⟩ := bind_eq_ok.mp hput
    cases hput
    obtain ⟨hhead, hrest⟩ := List.forall_mem_cons.mp h
    have hlong := hhead first hfirst
    have hlater := ih hothers hrest
    rw [List.flatten_cons, List.length_append, List.length_cons, Nat.add_mul]
    omega

theorem put_part_length {α : Type} {put : α → Except String Bytes} {l : List α} {parts : List Bytes}
    (hput : l.mapM put = .ok parts) {a : α} (ha : a ∈ l) {bytes : Bytes} (h : put a = .ok bytes) :
    bytes.length ≤ parts.flatten.length := by
  induction l generalizing parts with
  | nil => cases ha
  | cons head l ih =>
    rw [List.mapM_cons] at hput
    obtain ⟨first, hfirst, hput⟩ := bind_eq_ok.mp hput
    obtain ⟨others, hothers, hput⟩ := bind_eq_ok.mp hput
    cases hput
    rw [List.flatten_cons, List.length_append]
    rcases List.mem_cons.mp ha with rfl | ha
    · rw [h] at hfirst
      cases hfirst
      omega
    · have hlater := ih hothers ha
      omega

theorem put_path_length (h : put_path o = .ok bytes) :
    28 ≤ bytes.length := by
  obtain ⟨-, rfl⟩ := put_path_eq_ok h
  rw [List.length_append, List.length_append, List.length_append, o.1.2, word_bytes_length,
    to_le_bytes_length]
  omega

theorem take_count_append {record_bytes count : Nat} {bytes : Bytes} (hpos : 0 < record_bytes)
    (hcount : count < 2 ^ 32) (hroom : count * record_bytes ≤ bytes.length) :
    take_count record_bytes (len_bytes count ++ bytes) = some (count, bytes) := by
  unfold take_count
  rw [take_len_append]
  have hfits : ¬ bytes.length / record_bytes < count :=
    Nat.not_lt.mpr ((Nat.le_div_iff_mul_le hpos).mpr hroom)
  simp only [bind_eq_bind, bind_some, Nat.mod_eq_of_lt hcount, if_neg hfits]

theorem put_session_eq_ok {s : LocationKey × Session} (h : put_session s = .ok bytes) :
    ∃ paths, s.2.paths.mapM put_path = .ok paths ∧
      bytes = s.1.1 ++ s.2.owner.1 ++ word_bytes s.2.cutoff ++ word_bytes s.2.absent ++
        len_bytes s.2.paths.length ++ paths.flatten := by
  obtain ⟨paths, hpaths, h⟩ := bind_eq_ok.mp h
  exact ⟨paths, hpaths, (Except.ok.inj h).symm⟩

theorem put_session_length {s : LocationKey × Session} (h : put_session s = .ok bytes) :
    52 + s.2.paths.length * 28 ≤ bytes.length := by
  obtain ⟨paths, hpaths, rfl⟩ := put_session_eq_ok h
  have hroom := put_parts_length hpaths (fun _ _ _ hput => put_path_length hput)
  simp only [List.length_append, s.1.2, s.2.owner.2, word_bytes_length, len_bytes_length]
  omega

theorem take_session_put (hversion : version.is_compact) {s : LocationKey × Session} {bytes : Bytes}
    (h : put_session s = .ok bytes) (hshort : bytes.length < 2 ^ 32) (rest : Bytes) :
    take_session out version (bytes ++ rest) = some (saved_session s, rest) := by
  have hlength := put_session_length h
  obtain ⟨paths, hpaths, rfl⟩ := put_session_eq_ok h
  have hroom := put_parts_length hpaths (fun _ _ _ hput => put_path_length hput)
  have hcount : take_count 28 (len_bytes s.2.paths.length ++ (paths.flatten ++ rest)) =
      some (s.2.paths.length, paths.flatten ++ rest) := by
    apply take_count_append
    · omega
    · omega
    · rw [List.length_append]
      omega
  unfold take_session
  simp only [List.append_assoc, take_key_append, take_word_append, bind_eq_bind,
    bind_some, hversion.record_bytes, hcount]
  rw [times_put hpaths (fun o _ bytes hput rest => take_path_put hversion hput rest)]
  rfl

theorem take_mark_bytes (m : LocationKey × UInt8) (rest : Bytes) :
    take_mark (mark_bytes m ++ rest) = some (m, rest) := by
  unfold take_mark mark_bytes
  rw [List.append_assoc, take_key_append]
  simp only [bind_eq_bind, bind_some]
  rw [take_append (by rfl : [m.2].length = 1)]
  rfl

theorem mark_bytes_length (m : LocationKey × UInt8) : (mark_bytes m).length = 17 := by
  rw [mark_bytes, List.length_append, m.1.2]
  rfl

/-- The layout that a table is written in. -/
def BirthStore.layout (self : BirthStore) : Layout := if self.marked then .CMB5 else .CMB4

theorem BirthStore.layout_compact (self : BirthStore) : self.layout.is_compact := by
  unfold BirthStore.layout
  split
  · exact .inr rfl
  · exact .inl rfl

/-- The trailer ends the bytes. -/
theorem take_marks_trailer {store : BirthStore} (hshort : store.trailer.length < 2 ^ 32) :
    take_marks store.layout store.trailer = some (store.marks, []) := by
  unfold take_marks BirthStore.layout
  unfold BirthStore.trailer at hshort ⊢
  cases hmarked : store.marked with
  | false =>
    have hnone : store.marks = {} := by
      unfold BirthStore.marked at hmarked
      simp only [Bool.or_eq_false_iff, bne_eq_false_iff_eq, Bool.not_eq_eq_eq_not, Bool.not_false,
        List.isEmpty_iff] at hmarked
      obtain ⟨hversion, hpaths⟩ := hmarked
      cases hmarks : store.marks with
      | mk version paths =>
        rw [hmarks] at hversion hpaths
        simp only at hversion hpaths
        rw [hversion, hpaths]
    rw [hnone]
    rfl
  | true =>
    rw [hmarked] at hshort
    simp only [if_true, List.append_assoc, List.length_append, to_le_bytes_length,
      len_bytes_length] at hshort ⊢
    have hlength : (store.marks.paths.flatMap mark_bytes).length = store.marks.paths.length * 17 := by
      rw [List.length_flatMap, List.map_congr_left (fun m _ => mark_bytes_length m), List.map_const',
        List.sum_replicate, smul_eq_mul]
    have hcount : store.marks.paths.length < 2 ^ 32 := by omega
    have hversion : from_le_bytes (to_le_bytes 2 store.marks.version.toNat) =
        store.marks.version.toNat :=
      from_le_bytes_to_le_bytes 2 _ store.marks.version.toNat_lt
    have hmul : checked_mul store.marks.paths.length 17 =
        some (store.marks.paths.flatMap mark_bytes).length := by
      rw [hlength, checked_mul, if_pos (by omega)]
    have htimes := claude_copy_removals.times_append (l := store.marks.paths)
      (fun m _ rest => take_mark_bytes m rest) []
    rw [List.append_nil] at htimes
    rw [take_append (to_le_bytes_length 2 _)]
    simp only [bind_eq_bind, bind_some, take_len_append, Nat.mod_eq_of_lt hcount,
      hmul, ne_eq, not_true_eq_false, if_false, htimes, hversion, UInt16.ofNat_toNat]

theorem layout_version (store : BirthStore) :
    Layout.of_version (as_bytes (if store.marked then "CMB5" else "CMB4")) = some store.layout ∧
      (as_bytes (if store.marked then "CMB5" else "CMB4")).length = 4 := by
  unfold BirthStore.layout
  cases store.marked <;> decide

theorem put_bytes_eq_ok {store : BirthStore} (h : store.put_bytes = .ok bytes) :
    ∃ sessions, store.sessions.mapM put_session = .ok sessions ∧
      bytes = as_bytes (if store.marked then "CMB5" else "CMB4") ++ len_bytes store.sessions.length ++
        sessions.flatten ++ store.trailer := by
  obtain ⟨sessions, hsessions, h⟩ := bind_eq_ok.mp h
  exact ⟨sessions, hsessions, (Except.ok.inj h).symm⟩

/-- What was written is read behind its version. -/
theorem take_store_put {store : BirthStore} {bytes : Bytes} (h : store.put_bytes = .ok bytes)
    (hshort : bytes.length < 2 ^ 32) :
    ∃ version input, take 4 bytes = some (version, input) ∧
      Layout.of_version version = some store.layout ∧
      take_store out store.layout input = BirthStore.valid store.saved := by
  obtain ⟨sessions, hsessions, rfl⟩ := put_bytes_eq_ok h
  obtain ⟨hversion, hfour⟩ := layout_version store
  simp only [List.length_append, hfour, len_bytes_length] at hshort
  have hpart : ∀ s ∈ store.sessions, ∀ bytes, put_session s = .ok bytes → 52 ≤ bytes.length := by
    intro s _ bytes hput
    have := put_session_length hput
    omega
  have hroom := put_parts_length hsessions hpart
  refine ⟨_, len_bytes store.sessions.length ++ (sessions.flatten ++ store.trailer), ?_, hversion, ?_⟩
  · rw [List.append_assoc, List.append_assoc]
    exact take_append hfour _
  · have hcount : take_count 52 (len_bytes store.sessions.length ++
        (sessions.flatten ++ store.trailer)) =
          some (store.sessions.length, sessions.flatten ++ store.trailer) := by
      apply take_count_append
      · omega
      · omega
      · rw [List.length_append]
        omega
    have hshorter : ∀ s ∈ store.sessions, ∀ bytes, put_session s = .ok bytes →
        bytes.length < 2 ^ 32 := by
      intro s hs bytes hput
      have := put_part_length hsessions hs hput
      omega
    have htimes := times_put hsessions
      (fun s hs bytes hput rest => @take_session_put out _ store.layout_compact _ _ hput
        (hshorter s hs bytes hput) rest) store.trailer
    unfold take_store
    simp only [hcount, bind_eq_bind, bind_some, htimes,
      take_marks_trailer (by omega : store.trailer.length < 2 ^ 32)]
    rfl

end

end ottto_service.claude_money_birth_store
