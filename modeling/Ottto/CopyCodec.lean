-- The binary string of the copy removals reads back as the store that wrote it,
-- where every count fits the 32 bits that it is written in.
import Ottto.CopyEntries
import Ottto.TailRoundTrip

namespace ottto_service.claude_copy_removals

open Words SortedVec List Option
open SortedMap (lookupEntry insertEntry eraseEntry)
open claude_money_birth_store (LocationKey)
open durable_tail_codec.Durable (as_bytes to_le_bytes from_le_bytes to_le_bytes_length
  from_le_bytes_to_le_bytes)

/-! ## Reading what was written -/

variable {n : Nat}

theorem take_append {bytes : Bytes} (h : bytes.length = n) (rest : Bytes) :
    take n (bytes ++ rest) = some (bytes, rest) := by
  unfold take
  rw [if_pos (by rw [length_append]; omega), take_left' h, drop_left' h]

theorem take_key_append (key : LocationKey) (rest : Bytes) :
    take_key (key.1 ++ rest) = some (key, rest) := by
  unfold take_key
  have hlong : 16 ≤ (key.1 ++ rest).length := by
    rw [length_append, key.2]
    omega
  rw [dif_pos hlong]
  simp only [take_left' key.2, drop_left' key.2]
  rfl

theorem take_len_append (len : Nat) (rest : Bytes) :
    take_len (len_bytes len ++ rest) = some (len % 2 ^ 32, rest) := by
  unfold take_len len_bytes
  rw [take_append (to_le_bytes_length 4 _) rest]
  have hread : from_le_bytes (to_le_bytes 4 (len % 2 ^ 32)) = len % 2 ^ 32 :=
    from_le_bytes_to_le_bytes 4 _ (Nat.mod_lt _ (by decide))
  simp only [bind_eq_bind, bind_some, hread]

theorem take_word_append (word : UInt64) (rest : Bytes) :
    take_word (word_bytes word ++ rest) = some (word, rest) := by
  unfold take_word word_bytes
  rw [take_append (to_le_bytes_length 8 _) rest]
  have hread : from_le_bytes (to_le_bytes 8 word.toNat) = word.toNat :=
    from_le_bytes_to_le_bytes 8 _ word.toNat_lt
  simp only [bind_eq_bind, bind_some, hread, UInt64.ofNat_toNat]

variable {α : Type}

/-- A step that reads back each member reads back the list. -/
theorem times_append {step : Bytes → Option (α × Bytes)} {write : α → Bytes} {l : List α}
    (h : ∀ a ∈ l, ∀ rest, step (write a ++ rest) = some (a, rest)) (rest : Bytes) :
    times step l.length (l.flatMap write ++ rest) = some (l, rest) := by
  induction l with
  | nil => rfl
  | cons a l ih =>
    obtain ⟨hhead, hrest⟩ := forall_mem_cons.mp h
    rw [flatMap_cons, append_assoc, length_cons, times, hhead]
    simp only [bind_eq_bind, bind_some, ih hrest]

theorem ascending_iff (hashes : List UInt64) :
    ascending hashes = true ↔ hashes.Pairwise (· < ·) := by
  have hkeys := windows_ordered_iff (hashes.map (fun hash => (hash, ())))
  unfold windows_ordered Sorted at hkeys
  rw [List.pairwise_map] at hkeys
  rw [← hkeys]
  unfold ascending
  rw [← List.map_tail, List.zip_map, List.all_map]
  rfl

/-! ## Groups and files -/

/-- The counts that are written fit in 32 bits. -/
structure CopyRemovals.Fits (s : CopyRemovals) : Prop where
  files : s.files.length < 2 ^ 32
  groups : ∀ file ∈ s.files, file.2.2.length < 2 ^ 32
  hashes : ∀ file ∈ s.files, ∀ group ∈ file.2.2, group.2.length < 2 ^ 32

theorem flatMap_length_ge {write : α → Bytes} {size : Nat} {l : List α}
    (h : ∀ a ∈ l, size ≤ (write a).length) : l.length * size ≤ (l.flatMap write).length := by
  induction l with
  | nil => simp
  | cons a l ih =>
    obtain ⟨hhead, hrest⟩ := forall_mem_cons.mp h
    have hlater := ih hrest
    rw [flatMap_cons, length_append, length_cons, Nat.add_mul]
    omega

theorem len_bytes_length (len : Nat) : (len_bytes len).length = 4 := to_le_bytes_length 4 _

theorem word_bytes_length (word : UInt64) : (word_bytes word).length = 8 := to_le_bytes_length 8 _

theorem words_length (hashes : List UInt64) : hashes.length * 8 ≤ (hashes.flatMap word_bytes).length :=
  flatMap_length_ge (fun word _ => (word_bytes_length word).ge)

variable {group : LocationKey × List UInt64}

/-- A group with a hash takes 28 bytes at least. -/
theorem group_bytes_length (h : group.2 ≠ []) :
    28 ≤ (group_bytes group).length := by
  have hwords := words_length group.2
  have hpos := length_pos_of_ne_nil h
  unfold group_bytes
  rw [length_append, length_append, group.1.2, len_bytes_length]
  omega

theorem file_bytes_length (file : LocationKey × UInt64 × Groups) : 28 ≤ (file_bytes file).length := by
  unfold file_bytes
  rw [length_append, length_append, length_append, file.1.2, word_bytes_length,
    len_bytes_length]
  omega

theorem decode_group_append (hne : group.2 ≠ [])
    (hsorted : group.2.Pairwise (· < ·)) (hlen : group.2.length < 2 ^ 32) (rest : Bytes) :
    decode_group (group_bytes group ++ rest) = some (group, rest) := by
  have hwords := words_length group.2
  have hpos := length_pos_of_ne_nil hne
  have hroom : 0 < group.2.length ∧
      group.2.length ≤ (group.2.flatMap word_bytes ++ rest).length / 8 := by
    refine ⟨hpos, ?_⟩
    rw [length_append]
    omega
  unfold decode_group group_bytes count
  simp only [append_assoc, take_key_append, take_len_append, Nat.mod_eq_of_lt hlen,
    bind_eq_bind, bind_some, if_pos hroom]
  rw [times_append (fun word _ rest => take_word_append word rest)]
  simp only [bind_some, if_pos ((ascending_iff group.2).mpr hsorted)]

theorem decode_file_append {file : LocationKey × UInt64 × Groups} (hheld : file.2.1 < HOLD_PASSES)
    (hgroups : Groups.WellFormed file.2.2) (hnone : file.2.2 = [] → file.2.1 ≠ 0)
    (hlen : file.2.2.length < 2 ^ 32) (hhashes : ∀ group ∈ file.2.2, group.2.length < 2 ^ 32)
    (rest : Bytes) :
    decode_file false (file_bytes file ++ rest) = some (file, rest) := by
  have hbytes : file.2.2.length * 28 ≤ (file.2.2.flatMap group_bytes).length :=
    flatMap_length_ge (fun group hg => group_bytes_length (hgroups.hashes group hg).1)
  have hroom : ¬((file.2.2.flatMap group_bytes ++ rest).length / 28 < file.2.2.length ∨
      (file.2.2.length = 0 ∧ file.2.1 = 0)) := by
    rintro (hshort | ⟨hempty, hzero⟩)
    · rw [length_append] at hshort
      omega
    · exact hnone (length_eq_zero_iff.mp hempty) hzero
  unfold decode_file file_bytes
  simp only [append_assoc, take_key_append, take_word_append, take_len_append,
    Nat.mod_eq_of_lt hlen, bind_eq_bind, bind_some, Bool.false_eq_true, if_false,
    if_neg (UInt64.not_le.mpr hheld), if_neg hroom]
  rw [times_append (fun group hg rest => decode_group_append (hgroups.hashes group hg).1
    (hgroups.hashes group hg).2 (hhashes group hg) rest)]
  simp only [bind_some, if_pos ((windows_ordered_iff file.2.2).mpr hgroups.sorted)]

theorem decode_files_append {files : List (LocationKey × UInt64 × Groups)}
    (h : ∀ file ∈ files, ∀ rest, decode_file false (file_bytes file ++ rest) = some (file, rest))
    (before : List (LocationKey × UInt64 × Groups)) (hsorted : Sorted (before ++ files))
    (rest : Bytes) :
    decode_files false files.length before (files.flatMap file_bytes ++ rest) =
      some (before ++ files, rest) := by
  induction files generalizing before with
  | nil => simp [decode_files]
  | cons file files ih =>
    obtain ⟨hhead, hrest⟩ := forall_mem_cons.mp h
    have hlast : ¬(before.getLast?.any (fun last => decide (file.1 ≤ last.1)) = true) := by
      intro hany
      obtain ⟨last, hlast, hle⟩ := (any_eq_true _ _).mp hany
      have hbefore := (pairwise_append.mp hsorted).2.2 last (mem_of_getLast? hlast) file
        mem_cons_self
      exact not_le.mpr hbefore (of_decide_eq_true hle)
    rw [flatMap_cons, append_assoc, length_cons, decode_files, hhead]
    simp only [bind_eq_bind, bind_some, if_neg hlast]
    rw [ih hrest (before ++ [file]) (by rwa [append_assoc]), append_assoc,
      singleton_append]

/-- A valid store whose counts fit reads back. -/
theorem decode_bytes {s : CopyRemovals} (hs : s.Valid) (hfits : s.Fits) : decode s.bytes = some s := by
  have hbytes : s.files.length * 28 ≤ (s.files.flatMap file_bytes).length :=
    flatMap_length_ge (fun file _ => file_bytes_length file)
  have hroom : ¬((s.files.flatMap file_bytes).length / 28 < s.files.length) := by omega
  have hfiles : ∀ file ∈ s.files, ∀ rest,
      decode_file false (file_bytes file ++ rest) = some (file, rest) := by
    intro file hfile
    obtain ⟨hheld, hgroups, hnone⟩ := hs.held file.1 file.2 (hs.sorted.lookup_iff.mpr hfile)
    exact decode_file_append hheld hgroups hnone (hfits.groups file hfile) (hfits.hashes file hfile)
  have hread := decode_files_append hfiles [] hs.sorted []
  rw [append_nil, nil_append] at hread
  have hversion : (as_bytes "CCR2").length = 4 := by decide
  have hlost : ∀ rest, decode_lost (as_bytes "CCR2")
      ([if s.metadata_lost then (1 : UInt8) else 0] ++ rest) = some (s.metadata_lost, rest) := by
    intro rest
    unfold decode_lost
    rw [if_pos rfl, take_append (length_singleton) rest]
    cases s.metadata_lost <;> rfl
  have hknown : ¬(as_bytes "CCR2" ≠ as_bytes "CCR1" ∧ as_bytes "CCR2" ≠ as_bytes "CCR2") :=
    fun h => h.2 rfl
  have hnew : decide (as_bytes "CCR2" = as_bytes "CCR1") = false := by decide
  unfold decode CopyRemovals.bytes
  simp only [append_assoc, take_append hversion, bind_eq_bind, bind_some,
    if_neg hknown, hlost, take_len_append, Nat.mod_eq_of_lt hfits.files, if_neg hroom, hnew, hread,
    isEmpty_nil, if_true]

/-! ## What a reading gives -/

theorem from_le_bytes_lt (bytes : Bytes) : from_le_bytes bytes < 256 ^ bytes.length := by
  induction bytes with
  | nil => simp [from_le_bytes]
  | cons b rest ih =>
    have hb := b.toNat_lt
    rw [from_le_bytes, length_cons, Nat.pow_succ]
    omega

variable {input rest : Bytes}

theorem take_len_lt (h : take_len input = some (n, rest)) :
    n < 2 ^ 32 := by
  unfold take_len take at h
  split_ifs at h with hlong
  · simp only [bind_eq_bind, bind_some, Option.some.injEq, Prod.mk.injEq] at h
    have hlt := from_le_bytes_lt (input.take 4)
    rw [length_take, Nat.min_eq_left hlong, h.1] at hlt
    exact hlt
  · cases h

theorem times_length {step : Bytes → Option (α × Bytes)}
    {l : List α} (h : times step n input = some (l, rest)) : l.length = n := by
  induction n generalizing input l with
  | zero =>
    cases h
    rfl
  | succ n ih =>
    rw [times, bind_eq_bind, bind_eq_some_iff] at h
    obtain ⟨⟨a, input'⟩, -, h⟩ := h
    simp only [bind_eq_bind, bind_eq_some_iff] at h
    obtain ⟨⟨l', rest'⟩, hrest, h⟩ := h
    cases h
    rw [length_cons, ih hrest]

theorem times_forall {step : Bytes → Option (α × Bytes)} {P : α → Prop}
    (hstep : ∀ input a rest, step input = some (a, rest) → P a)
    {l : List α} (h : times step n input = some (l, rest)) : ∀ a ∈ l, P a := by
  induction n generalizing input l with
  | zero =>
    cases h
    simp
  | succ n ih =>
    rw [times, bind_eq_bind, bind_eq_some_iff] at h
    obtain ⟨⟨a, input'⟩, hfirst, h⟩ := h
    simp only [bind_eq_bind, bind_eq_some_iff] at h
    obtain ⟨⟨l', rest'⟩, hrest, h⟩ := h
    cases h
    exact forall_mem_cons.mpr ⟨hstep _ _ _ hfirst, ih hrest⟩

theorem decode_group_fits
    (h : decode_group input = some (group, rest)) : group.2.length < 2 ^ 32 := by
  unfold decode_group count at h
  simp only [bind_eq_bind, bind_eq_some_iff] at h
  obtain ⟨⟨holder, input1⟩, -, ⟨n, input2⟩, ⟨⟨n', input2'⟩, hlen, hcount⟩, ⟨hashes, input3⟩,
    htimes, h⟩ := h
  have hlt := take_len_lt hlen
  have hn : n = n' := by
    dsimp only at hcount
    split_ifs at hcount
    exact (Prod.mk.inj (Option.some.inj hcount)).1.symm
  dsimp only at h htimes
  split_ifs at h
  cases h
  rw [times_length htimes, hn]
  exact hlt

theorem decode_file_fits {old : Bool} {file : LocationKey × UInt64 × Groups}
    (h : decode_file old input = some (file, rest)) :
    file.2.2.length < 2 ^ 32 ∧ ∀ group ∈ file.2.2, group.2.length < 2 ^ 32 := by
  unfold decode_file at h
  simp only [bind_eq_bind, bind_eq_some_iff] at h
  obtain ⟨⟨key, input1⟩, -, ⟨seq, input2⟩, -, h⟩ := h
  dsimp only at h
  generalize (if old = true then (0 : UInt64) else seq) = held at h
  split_ifs at h
  simp only [bind_eq_some_iff] at h
  obtain ⟨⟨n, input3⟩, hlen, h⟩ := h
  have hlt := take_len_lt hlen
  dsimp only at h
  split_ifs at h
  simp only [bind_eq_some_iff] at h
  obtain ⟨⟨groups, input4⟩, htimes, h⟩ := h
  dsimp only at h htimes
  split_ifs at h
  cases h
  rw [times_length htimes]
  exact ⟨hlt, times_forall (fun _ _ _ hgroup => decode_group_fits hgroup) htimes⟩

theorem decode_files_fits {old : Bool} {before files : List (LocationKey × UInt64 × Groups)}
    (h : decode_files old n before input = some (files, rest)) :
    files.length = before.length + n ∧
      ((∀ file ∈ before, file.2.2.length < 2 ^ 32 ∧ ∀ group ∈ file.2.2, group.2.length < 2 ^ 32) →
        ∀ file ∈ files, file.2.2.length < 2 ^ 32 ∧ ∀ group ∈ file.2.2, group.2.length < 2 ^ 32) := by
  induction n generalizing before input with
  | zero =>
    cases h
    exact ⟨rfl, id⟩
  | succ n ih =>
    rw [decode_files, bind_eq_bind, bind_eq_some_iff] at h
    obtain ⟨⟨file, input'⟩, hfile, h⟩ := h
    dsimp only at h
    split_ifs at h
    obtain ⟨hlength, hfits⟩ := ih h
    refine ⟨?_, fun hbefore => hfits ?_⟩
    · rw [hlength, length_append, length_singleton]
      omega
    · intro other hother
      rcases mem_append.mp hother with hother | hother
      · exact hbefore other hother
      · obtain rfl := mem_singleton.mp hother
        exact decode_file_fits hfile

/-- What is read back has counts that fit. -/
theorem decode_fits {bytes : Bytes} {s : CopyRemovals} (h : decode bytes = some s) : s.Fits := by
  unfold decode at h
  simp only [bind_eq_bind, bind_eq_some_iff] at h
  obtain ⟨⟨version, input1⟩, -, h⟩ := h
  dsimp only at h
  split_ifs at h
  simp only [bind_eq_some_iff] at h
  obtain ⟨⟨lost, input2⟩, -, ⟨n, input3⟩, hlen, h⟩ := h
  have hlt := take_len_lt hlen
  dsimp only at h
  split_ifs at h
  simp only [bind_eq_some_iff] at h
  obtain ⟨⟨files, input4⟩, hfiles, h⟩ := h
  obtain ⟨hlength, hfits⟩ := decode_files_fits hfiles
  have hfits := hfits (by simp)
  dsimp only at h
  split_ifs at h
  cases h
  refine ⟨?_, fun file hfile => (hfits file hfile).1, fun file hfile => (hfits file hfile).2⟩
  rw [hlength, length_nil, Nat.zero_add]
  exact hlt

namespace CopyRemovals

variable {s : CopyRemovals}

/-- A store reads back as itself exactly where its counts fit. -/
theorem deserialize_serialize (hs : s.Valid) :
    deserialize s.serialize = some s ↔ s.Fits := by
  unfold deserialize serialize
  rw [String.toList_ofList, UrlSafe.decode_encode, bind_eq_bind, bind_some]
  exact ⟨decode_fits, decode_bytes hs⟩

end CopyRemovals

end ottto_service.claude_copy_removals
