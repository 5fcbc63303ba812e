-- What the rows of the Tail store hold over a run of writes, and what is left of them
-- when a file's rows are deleted (snapshots/state_v2/tail.rs).
import Ottto.TailRows

namespace ottto_service.state_v2.tail

open Results List RecordKey Records SortedMap Takes

/-! ## Keys -/

namespace RecordKey

theorem ext_columns {a b : RecordKey} (hkind : a.kind = b.kind) (hbytes : a.key_bytes = b.key_bytes)
    (hposition : a.position = b.position) : a = b := by
  cases a
  cases b
  simp_all

theorem record_eq_ok {kind : String} {key : Bytes} {position : Nat} {k : RecordKey} :
    record kind key position = .ok k ↔
      k.kind = kind ∧ k.key_bytes = key ∧ k.position = position := by
  unfold record
  constructor
  · intro h
    split at h
    · cases h
      simp
    · cases h
  · rintro ⟨rfl, rfl, rfl⟩
    rw [dif_pos k.fits]

theorem of_record_key_iff {kind : String} {key_bytes : Bytes} {after : Option Nat} {k : RecordKey} :
    of_record_key kind key_bytes after k = true ↔
      k.kind = kind ∧ k.key_bytes = key_bytes ∧ ∀ position ∈ after, position < k.position := by
  unfold of_record_key
  simp only [Bool.and_eq_true, decide_eq_true_eq, and_assoc]
  cases after with
  | none => simp
  | some position => simp

end RecordKey

theorem Collection.owner_lt (c : Collection) : c.owner < 256 ^ 8 := by cases c <;> decide

theorem Collection.kind_mem (c : Collection) : c.kind ∈ TAIL_KINDS := by cases c <;> decide

theorem Collection.kind_ne (c : Collection) : c.kind ≠ FRAG ∧ c.kind ≠ SET_ASIDE ∧ c.kind ≠ HEAD := by
  cases c <;> decide

theorem Collection.kind_injective {c d : Collection} (h : c.kind = d.kind) : c = d := by
  have hall : ∀ c ∈ Collection.ALL, ∀ d ∈ Collection.ALL, c.kind = d.kind → c = d := by decide
  exact hall c c.mem_all d d.mem_all h

theorem Place.owner_lt (place : Place) : place.owner < 256 ^ 8 := by
  cases place with
  | head => decide
  | page collection position => exact collection.owner_lt

theorem Place.kind_mem (place : Place) : place.kind ∈ TAIL_KINDS := by
  cases place with
  | head => decide
  | page collection position => exact collection.kind_mem

theorem Place.kind_ne (place : Place) : place.kind ≠ FRAG ∧ place.kind ≠ SET_ASIDE := by
  cases place with
  | head => decide
  | page collection position => exact ⟨collection.kind_ne.1, collection.kind_ne.2.1⟩

theorem Place.kind_eq_revision (place : Place) :
    place.kind = REVISION ↔ place.owner = Collection.Revisions.owner := by
  cases place with
  | head => decide
  | page collection position =>
    show collection.kind = REVISION ↔ collection.owner = Collection.Revisions.owner
    cases collection <;> decide

variable {a b : Place}

/-- A kind and a position name one place. -/
theorem Place.eq_of_kind (hkind : a.kind = b.kind) (hposition : a.position = b.position) :
    a = b := by
  cases a with
  | head =>
    cases b with
    | head => rfl
    | page collection position => exact absurd hkind.symm collection.kind_ne.2.2
  | page c p =>
    cases b with
    | head => exact absurd hkind c.kind_ne.2.2
    | page d q =>
      have hposition : p = q := hposition
      rw [Collection.kind_injective hkind, hposition]

theorem Place.eq_of_owner (howner : a.owner = b.owner)
    (hposition : a.position = b.position) : a = b := by
  have h := placeOf_place a
  rw [howner, hposition, placeOf_place] at h
  exact (Option.some.inj h).symm

theorem to_be_bytes_inj {m n : Nat} (hm : m < 256 ^ 8) (hn : n < 256 ^ 8)
    (h : to_be_bytes 8 m = to_be_bytes 8 n) : m = n := by
  rw [← from_be_bytes_to_be_bytes hm, h, from_be_bytes_to_be_bytes hn]

theorem frag_file_length (file : Bytes) : (frag_file file).length = 32 := Sha256.digest_length _

/-- Two places have one fragment key only if their files share a digest. -/
theorem frag_key_inj {f g : Bytes} (ha : a.position < 2 ^ 63) (hb : b.position < 2 ^ 63)
    (h : a.frag_key f = b.frag_key g) : frag_file f = frag_file g ∧ a = b := by
  unfold Place.frag_key frag_key at h
  rw [append_assoc, append_assoc] at h
  obtain ⟨hdigest, h⟩ := append_inj h (by rw [frag_file_length, frag_file_length])
  obtain ⟨howner, hposition⟩ := append_inj h
    (by rw [to_be_bytes_length, to_be_bytes_length])
  have hwide : (2 : Nat) ^ 63 < 256 ^ 8 := by decide
  refine ⟨hdigest, Place.eq_of_owner (to_be_bytes_inj a.owner_lt b.owner_lt howner) ?_⟩
  exact to_be_bytes_inj (ha.trans hwide) (hb.trans hwide) hposition

/-! ## One write -/

section

variable {out : Outside Bytes} {rows after : Records} {file : Bytes} {place : Place} {value : Bytes}

theorem put_fragments_get {numbers : List Nat}
    (h : numbers.foldlM (fun rows number => put_fragment out rows file place value number)
      rows = .ok after) (k : RecordKey) :
    after.get? k = if k.kind = FRAG ∧ k.key_bytes = place.frag_key file ∧ k.position ∈ numbers then
        some (inline out (chunk value k.position))
      else rows.get? k := by
  induction numbers generalizing rows with
  | nil =>
    cases h
    simp
  | cons first numbers ih =>
    rw [foldlM_cons] at h
    obtain ⟨next, hput, hrest⟩ := bind_eq_ok.mp h
    obtain ⟨key, hkey, hput⟩ := bind_eq_ok.mp hput
    cases hput
    obtain ⟨hkind, hbytes, hposition⟩ := record_eq_ok.mp hkey
    rw [ih hrest, get?_insert]
    by_cases hfrag : k.kind = FRAG ∧ k.key_bytes = place.frag_key file
    · by_cases hfirst : k.position = first
      · have hk : k = key := ext_columns (hfrag.1.trans hkind.symm)
          (hfrag.2.trans hbytes.symm) (hfirst.trans hposition.symm)
        simp [hk, hkind, hbytes, hposition]
      · have hk : k ≠ key := by
          rintro rfl
          exact hfirst hposition
        simp [hfrag, hk, hfirst]
    · have hk : k ≠ key := by
        rintro rfl
        exact hfrag ⟨hkind, hbytes⟩
      have h1 : ¬ (k.kind = FRAG ∧ k.key_bytes = place.frag_key file ∧ k.position ∈ numbers) :=
        fun hall => hfrag ⟨hall.1, hall.2.1⟩
      have h2 : ¬ (k.kind = FRAG ∧ k.key_bytes = place.frag_key file ∧
          k.position ∈ first :: numbers) := fun hall => hfrag ⟨hall.1, hall.2.1⟩
      rw [if_neg h1, if_neg h2, if_neg hk]

theorem header_page_pos : 0 < HEADER_PAGE := by decide

theorem delete_fragments_key (start : Nat) (k : RecordKey) :
    (rows.delete_fragments file place start).get? k =
      if k.kind = FRAG ∧ k.key_bytes = place.frag_key file ∧ start ≤ k.position then none
      else rows.get? k := by
  have hafter : (∀ position ∈ (if start = 0 then none else some (start - 1)), position < k.position) ↔
      start ≤ k.position := by
    by_cases hzero : start = 0
    · simp [hzero]
    · simp only [hzero, if_false, Option.mem_def, Option.some.injEq, forall_eq']
      omega
  unfold delete_fragments
  rw [paging.drain_eq header_page_pos, get?_filterKeys]
  by_cases hgone : k.kind = FRAG ∧ k.key_bytes = place.frag_key file ∧ start ≤ k.position
  · have hscan := of_record_key_iff.mpr ⟨hgone.1, hgone.2.1, hafter.mpr hgone.2.2⟩
    simp [hscan, hgone]
  · have hscan : of_record_key FRAG (place.frag_key file)
        (if start = 0 then none else some (start - 1)) k = false := by
      by_contra hscan
      obtain ⟨hkind, hbytes, hposition⟩ :=
        of_record_key_iff.mp (Bool.eq_true_of_not_eq_false hscan)
      exact hgone ⟨hkind, hbytes, hafter.mp hposition⟩
    simp [hscan, hgone]

/-- What one write does to each row. -/
theorem write_value_get (h : write_value out rows file place value = .ok after)
    (k : RecordKey) :
    after.get? k =
      if k.kind = place.kind ∧ k.key_bytes = file ∧ k.position = place.position then
        some (stored out value)
      else if k.kind = FRAG ∧ k.key_bytes = place.frag_key file then
        fragmentRow out k.position value
      else rows.get? k := by
  obtain ⟨written, hfragments, h⟩ := bind_eq_ok.mp h
  obtain ⟨key, hkey, h⟩ := bind_eq_ok.mp h
  cases h
  obtain ⟨hkind, hbytes, hposition⟩ := record_eq_ok.mp hkey
  rw [get?_insert, delete_fragments_key, put_fragments_get hfragments]
  by_cases hrow : k.kind = place.kind ∧ k.key_bytes = file ∧ k.position = place.position
  · have hk : k = key := ext_columns (hrow.1.trans hkind.symm)
      (hrow.2.1.trans hbytes.symm) (hrow.2.2.trans hposition.symm)
    rw [if_pos hk, if_pos hrow]
  · have hk : k ≠ key := by
      rintro rfl
      exact hrow ⟨hkind, hbytes, hposition⟩
    rw [if_neg hk, if_neg hrow]
    by_cases hfrag : k.kind = FRAG ∧ k.key_bytes = place.frag_key file
    · rw [if_pos hfrag, fragmentRow]
      by_cases hnumber : k.position < fragments value
      · simp [hfrag, hnumber, Nat.not_le.mpr hnumber]
      · simp [hfrag, hnumber, Nat.not_lt.mp hnumber]
    · have h1 : ¬ (k.kind = FRAG ∧ k.key_bytes = place.frag_key file ∧
          fragments value ≤ k.position) := fun hall => hfrag ⟨hall.1, hall.2.1⟩
      have h2 : ¬ (k.kind = FRAG ∧ k.key_bytes = place.frag_key file ∧
          k.position ∈ List.range (fragments value)) := fun hall => hfrag ⟨hall.1, hall.2.1⟩
      rw [if_neg hfrag, if_neg h1, if_neg h2]

theorem write_value_fits (h : write_value out rows file place value = .ok after) :
    Fits place value := by
  obtain ⟨written, hfragments, h⟩ := bind_eq_ok.mp h
  obtain ⟨key, hkey, h⟩ := bind_eq_ok.mp h
  obtain ⟨-, -, hposition⟩ := record_eq_ok.mp hkey
  refine ⟨hposition ▸ key.fits, ?_⟩
  have hall : ∀ numbers : List Nat, ∀ {rows written : Records},
      numbers.foldlM (fun rows number => put_fragment out rows file place value number) rows =
        .ok written → ∀ number ∈ numbers, number < 2 ^ 63 := by
    intro numbers
    induction numbers with
    | nil => simp
    | cons first numbers ih =>
      intro rows written hrun
      rw [foldlM_cons] at hrun
      obtain ⟨next, hput, hrest⟩ := bind_eq_ok.mp hrun
      obtain ⟨first_key, hfirst, -⟩ := bind_eq_ok.mp hput
      obtain ⟨-, -, hnumber⟩ := record_eq_ok.mp hfirst
      exact forall_mem_cons.mpr ⟨hnumber ▸ first_key.fits, ih hrest⟩
  by_contra hmany
  exact absurd (hall _ hfragments (2 ^ 63) (mem_range.mpr (by omega))) (lt_irrefl _)

theorem put_fragments_key_ok {numbers : List Nat} (h : ∀ number ∈ numbers, number < 2 ^ 63)
    (rows : Records) : ∃ after, numbers.foldlM
      (fun rows number => put_fragment out rows file place value number) rows = .ok after := by
  induction numbers generalizing rows with
  | nil => exact ⟨rows, rfl⟩
  | cons first numbers ih =>
    obtain ⟨hfirst, hrest⟩ := forall_mem_cons.mp h
    have hkey : RecordKey.record FRAG (place.frag_key file) first =
        .ok ⟨FRAG, place.frag_key file, first, hfirst⟩ := record_eq_ok.mpr ⟨rfl, rfl, rfl⟩
    obtain ⟨after, hafter⟩ := ih hrest (rows.insert ⟨FRAG, place.frag_key file, first, hfirst⟩
      (inline out (chunk value first)))
    refine ⟨after, ?_⟩
    rw [foldlM_cons]
    exact bind_eq_ok.mpr ⟨_, bind_eq_ok.mpr ⟨_, hkey, rfl⟩, hafter⟩

/-- A value that fits is written. -/
theorem write_value_row_ok (h : Fits place value) (rows : Records) (file : Bytes) :
    ∃ after, write_value out rows file place value = .ok after := by
  have hnumbers : ∀ number ∈ List.range (fragments value), number < 2 ^ 63 := by
    intro number hnumber
    have := mem_range.mp hnumber
    have := h.2
    omega
  have hkey : place.key file = .ok ⟨place.kind, file, place.position, h.1⟩ :=
    record_eq_ok.mpr ⟨rfl, rfl, rfl⟩
  obtain ⟨written, hwritten⟩ := put_fragments_key_ok hnumbers rows
  exact ⟨_, bind_eq_ok.mpr ⟨written, hwritten, bind_eq_ok.mpr ⟨_, hkey, rfl⟩⟩⟩

end

/-! ## A run of writes -/

/-- The rows hold the values of the files, in fragments where these are long. -/
structure Holds (out : Outside Bytes) (files : List Bytes) (rows : Records)
    (values : Bytes → Content) : Prop where
  row : ∀ file place k, place.key file = .ok k →
    rows.get? k = ((values file).get place).map (stored out)
  frag : ∀ file ∈ files, ∀ place : Place, place.position < 2 ^ 63 → ∀ k : RecordKey, k.kind = FRAG →
    k.key_bytes = place.frag_key file →
      rows.get? k = ((values file).get place).bind (fragmentRow out k.position)
  owned : ∀ k ∈ rows.keys, k.kind = FRAG → ∃ file ∈ files, ∃ place : Place, place.position < 2 ^ 63 ∧
    k.key_bytes = place.frag_key file
  fits : ∀ file place value, (values file).get place = some value → Fits place value

/-- The digests of these files tell them apart. -/
def CollisionFree (files : List Bytes) : Prop :=
  ∀ f ∈ files, ∀ g ∈ files, frag_file f = frag_file g → f = g

def written (values : Bytes → Content) (write : Bytes × Place × Bytes) : Bytes → Content :=
  Function.update values write.1 ((values write.1).set write.2.1 write.2.2)

theorem get_written (values : Bytes → Content) (write : Bytes × Place × Bytes) (file : Bytes)
    (place : Place) : (written values write file).get place =
      if file = write.1 ∧ place = write.2.1 then some write.2.2 else (values file).get place := by
  unfold written
  by_cases hfile : file = write.1
  · subst hfile
    rw [Function.update_self, Content.get_set]
    simp
  · rw [Function.update_of_ne hfile]
    simp [hfile]

theorem Holds.write {out : Outside Bytes} {files : List Bytes} {rows after : Records}
    {values : Bytes → Content} (hs : Holds out files rows values) (hfree : CollisionFree files)
    {file : Bytes} {place : Place} {value : Bytes} (hfile : file ∈ files)
    (h : write_value out rows file place value = .ok after) :
    Holds out files after (written values (file, place, value)) := by
  have hget := write_value_get h
  have hfits := write_value_fits h
  constructor
  · intro f p k hk
    obtain ⟨hkind, hbytes, hposition⟩ := record_eq_ok.mp hk
    rw [hget, get_written]
    by_cases hplace : f = file ∧ p = place
    · obtain ⟨rfl, rfl⟩ := hplace
      simp [hkind, hbytes, hposition]
    · have h1 : ¬ (k.kind = place.kind ∧ k.key_bytes = file ∧ k.position = place.position) := by
        rintro ⟨h1, h2, h3⟩
        exact hplace ⟨hbytes.symm.trans h2,
          Place.eq_of_kind (hkind.symm.trans h1) (hposition.symm.trans h3)⟩
      have h2 : ¬ (k.kind = FRAG ∧ k.key_bytes = place.frag_key file) :=
        fun hall => p.kind_ne.1 (hkind.symm.trans hall.1)
      rw [if_neg h1, if_neg h2, if_neg hplace]
      exact hs.row f p k hk
  · intro f hf p hp k hkind hbytes
    have h1 : ¬ (k.kind = place.kind ∧ k.key_bytes = file ∧ k.position = place.position) :=
      fun hall => place.kind_ne.1 (hall.1.symm.trans hkind)
    rw [hget, if_neg h1, get_written]
    by_cases hplace : f = file ∧ p = place
    · obtain ⟨rfl, rfl⟩ := hplace
      simp [hkind, hbytes]
    · have h2 : ¬ (k.kind = FRAG ∧ k.key_bytes = place.frag_key file) := by
        rintro ⟨-, hsame⟩
        obtain ⟨hdigest, hplaces⟩ := frag_key_inj hp hfits.1 (hbytes.symm.trans hsame)
        exact hplace ⟨hfree f hf file hfile hdigest, hplaces⟩
      rw [if_neg h2, if_neg hplace]
      exact hs.frag f hf p hp k hkind hbytes
  · intro k hk hkind
    by_cases hown : k.key_bytes = place.frag_key file
    · exact ⟨file, hfile, place, hfits.1, hown⟩
    · apply hs.owned k _ hkind
      have h1 : ¬ (k.kind = place.kind ∧ k.key_bytes = file ∧ k.position = place.position) :=
        fun hall => place.kind_ne.1 (hall.1.symm.trans hkind)
      have h2 : ¬ (k.kind = FRAG ∧ k.key_bytes = place.frag_key file) := fun hall => hown hall.2
      rw [mem_keys_iff, hget, if_neg h1, if_neg h2] at hk
      exact mem_keys_iff.mpr hk
  · intro f p v hv
    rw [get_written] at hv
    by_cases hplace : f = file ∧ p = place
    · rw [if_pos hplace] at hv
      cases hv
      rw [hplace.2]
      exact hfits
    · rw [if_neg hplace] at hv
      exact hs.fits f p v hv

end ottto_service.state_v2.tail
