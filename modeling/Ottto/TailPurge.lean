-- A file's rows are deleted page by page (snapshots/state_v2/tail.rs): exactly those rows go,
-- whatever their number and wherever the kept revisions sort between them.
import Mathlib.Data.List.Lex
import Ottto.TailRowRuns

namespace ottto_service.state_v2.tail

open Results List RecordKey Records Option SortedMap Takes

/-! ## Blobs in their order -/

/-- What sorts between a blob and one that starts with it starts with it too. -/
theorem prefix_between {l x y : List Nat} (hx : ¬ x < l) (hy : ¬ y < x) (h : l <+: y) : l <+: x := by
  induction l generalizing x y with
  | nil => exact nil_prefix
  | cons c l ih =>
    cases x with
    | nil => exact absurd (nil_lt_cons c l) hx
    | cons d x =>
      cases y with
      | nil => simp at h
      | cons e y =>
        obtain ⟨rfl, hrest⟩ := cons_prefix_cons.mp h
        have hd : ¬ d < c := fun hd => hx (cons_lt_cons_iff.mpr (.inl hd))
        have hc : ¬ c < d := fun hc => hy (cons_lt_cons_iff.mpr (.inl hc))
        have hdc : d = c := by omega
        subst hdc
        have hx' : ¬ x < l := fun hless => hx (cons_lt_cons_iff.mpr (.inr ⟨rfl, hless⟩))
        have hy' : ¬ y < x := fun hless => hy (cons_lt_cons_iff.mpr (.inr ⟨rfl, hless⟩))
        exact cons_prefix_cons.mpr ⟨rfl, ih hx' hy' hrest⟩

theorem prefix_lt {l : List Nat} (n : Nat) (rest : List Nat) : l < l ++ n :: rest := by
  induction l with
  | nil => exact nil_lt_cons n rest
  | cons c l ih => exact cons_lt_cons_iff.mpr (.inr ⟨rfl, ih⟩)

namespace RecordKey

/-- The bytes of a key as they are compared. -/
def blob (k : RecordKey) : List Nat := k.key_bytes.map UInt8.toNat

theorem lt_of_kind {a b : RecordKey} (hkind : a.kind = b.kind) :
    a < b ↔ a.blob < b.blob ∨ a.blob = b.blob ∧ a.position < b.position := by
  show a.columns < b.columns ↔ _
  rw [columns, columns, Prod.Lex.toLex_lt_toLex, Prod.Lex.toLex_lt_toLex]
  simp [hkind, blob]

theorem not_lt_blob {a b : RecordKey} (hkind : a.kind = b.kind) (h : a < b) : ¬ b.blob < a.blob := by
  rcases (lt_of_kind hkind).mp h with hless | ⟨hsame, -⟩
  · exact lt_asymm hless
  · rw [hsame]
    exact lt_irrefl _

theorem isPrefixOf_iff {digest : Bytes} {k : RecordKey} :
    digest.isPrefixOf k.key_bytes = true ↔ digest.map UInt8.toNat <+: k.blob := by
  rw [List.isPrefixOf_iff_prefix, blob,
    prefix_map_iff_of_injective (fun _ _ h => UInt8.toNat_inj.mp h)]

end RecordKey

/-! ## The rows of a file -/

/-- A row of the file: one under its own key, or a fragment under its digest. -/
def OfFile (file : Bytes) (k : RecordKey) : Prop :=
  (k.kind ∈ TAIL_KINDS ∧ k.kind ≠ FRAG ∧ k.kind ≠ SET_ASIDE ∧ k.key_bytes = file) ∨
    k.kind = FRAG ∧ ∃ place : Place, place.position < 2 ^ 63 ∧ k.key_bytes = place.frag_key file

/-- A revision row of the file, or a fragment of one. -/
def OfDebt (file : Bytes) (k : RecordKey) : Prop :=
  (k.kind = REVISION ∧ k.key_bytes = file) ∨
    k.kind = FRAG ∧ ∃ place : Place, place.kind = REVISION ∧ place.position < 2 ^ 63 ∧
      k.key_bytes = place.frag_key file

section

variable {rows : Records} {file : Bytes} {keep_debt : Bool}

theorem purge_kinds_get (kinds : List String) (rows : Records) (k : RecordKey) :
    (kinds.foldl (fun rows kind =>
      paging.drain HEADER_PAGE (of_record_key kind file none) rows) rows).get? k =
        if k.kind ∈ kinds ∧ k.key_bytes = file then none else rows.get? k := by
  induction kinds generalizing rows with
  | nil => simp
  | cons kind kinds ih =>
    have hscan : of_record_key kind file none k = true ↔ k.kind = kind ∧ k.key_bytes = file := by
      rw [of_record_key_iff]
      simp
    rw [foldl_cons, ih, paging.drain_eq header_page_pos, get?_filterKeys]
    by_cases hbytes : k.key_bytes = file
    · by_cases hkind : k.kind = kind
      · simp [hscan.mpr ⟨hkind, hbytes⟩, hkind, hbytes]
      · have hno : of_record_key kind file none k = false := by
          by_contra hyes
          exact hkind (hscan.mp (Bool.eq_true_of_not_eq_false hyes)).1
        simp [hno, hbytes, hkind]
    · have hno : of_record_key kind file none k = false := by
        by_contra hyes
        exact hbytes (hscan.mp (Bool.eq_true_of_not_eq_false hyes)).2
      simp [hno, hbytes]

theorem mem_purged_kinds {kind : String} : kind ∈ purged_kinds keep_debt ↔
    kind ∈ TAIL_KINDS ∧ kind ≠ SET_ASIDE ∧ kind ≠ FRAG ∧ ¬ (keep_debt = true ∧ kind = REVISION) := by
  unfold purged_kinds
  cases keep_debt <;> simp [and_assoc]

/-- The fragments that a deletion takes, as its walk meets them. -/
def purged_fragment (file : Bytes) (keep_debt : Bool) (k : RecordKey) : Bool :=
  decide (k.kind = FRAG) && decide ((⟨FRAG, frag_file file, 0, zero_fits⟩ : RecordKey) < k) &&
    (frag_file file).isPrefixOf k.key_bytes &&
    !(keep_debt && (frag_file file ++ to_be_bytes 8 Collection.Revisions.owner).isPrefixOf k.key_bytes)

theorem convex_fragments {start a b : RecordKey} (hkind : start.kind = FRAG)
    (hbytes : start.key_bytes = frag_file file) (ha : a.kind = FRAG) (hb : b.kind = FRAG)
    (hafter : start < a) (hless : a < b) (hown : (frag_file file).isPrefixOf b.key_bytes = true) :
    (frag_file file).isPrefixOf a.key_bytes = true := by
  have hstart := not_lt_blob (hkind.trans ha.symm) hafter
  unfold RecordKey.blob at hstart
  rw [hbytes] at hstart
  apply isPrefixOf_iff.mpr
  exact prefix_between hstart (not_lt_blob (ha.trans hb.symm) hless)
    (isPrefixOf_iff.mp hown)

theorem delete_rows_key (k : RecordKey) :
    (rows.delete_rows file keep_debt).get? k =
      if purged_fragment file keep_debt k = true ∨
        k.kind ∈ purged_kinds keep_debt ∧ k.key_bytes = file then none
      else rows.get? k := by
  unfold delete_rows
  rw [paging.sweep_eq header_page_pos, get?_filterKeys, purge_kinds_get]
  · show (if (!purged_fragment file keep_debt k) = true then _ else none) = _
    cases purged_fragment file keep_debt k with
    | true => simp
    | false => simp
  · intro a b ha hb hafter hless hown
    exact convex_fragments rfl rfl (of_decide_eq_true ha) (of_decide_eq_true hb) hafter hless hown

end

theorem isPrefixOf_append_iff {l front back : Bytes} (h : l.length = front.length) :
    l.isPrefixOf (front ++ back) = true ↔ l = front := by
  rw [List.isPrefixOf_iff_prefix]
  constructor
  · intro hprefix
    have hfront := prefix_of_prefix_length_le hprefix (prefix_append front back) h.le
    exact hfront.eq_of_length h
  · rintro rfl
    exact prefix_append l back

/-- The bare digest sorts before every fragment key that starts with it. -/
theorem digest_lt {file : Bytes} {place : Place} {k : RecordKey} (hkind : k.kind = FRAG)
    (hbytes : k.key_bytes = place.frag_key file) :
    (⟨FRAG, frag_file file, 0, zero_fits⟩ : RecordKey) < k := by
  apply (lt_of_kind hkind.symm).mpr
  left
  unfold RecordKey.blob
  rw [hbytes, Place.frag_key, frag_key, append_assoc, map_append]
  have hwidth : ((to_be_bytes 8 place.owner ++ to_be_bytes 8 place.position).map
      UInt8.toNat).length = 16 := by
    rw [length_map, length_append, to_be_bytes_length, to_be_bytes_length]
  generalize (to_be_bytes 8 place.owner ++ to_be_bytes 8 place.position).map UInt8.toNat = rest at hwidth
  cases rest with
  | nil => cases hwidth
  | cons n rest => exact prefix_lt n rest

/-- The walk takes the fragments of the file, but for those of a kept revision. -/
theorem purged_fragment_iff {file other : Bytes} {place : Place} (keep_debt : Bool) {k : RecordKey}
    (hkind : k.kind = FRAG) (hbytes : k.key_bytes = place.frag_key other) :
    purged_fragment file keep_debt k = true ↔ frag_file file = frag_file other ∧
      ¬ (keep_debt = true ∧ place.kind = REVISION) := by
  have hdigest : (frag_file file).isPrefixOf k.key_bytes = true ↔ frag_file file = frag_file other := by
    rw [hbytes, Place.frag_key, frag_key, append_assoc]
    exact isPrefixOf_append_iff (by rw [frag_file_length, frag_file_length])
  have hrevision : Collection.Revisions.owner < 256 ^ 8 := by decide
  have hdebt : (frag_file file ++ to_be_bytes 8 Collection.Revisions.owner).isPrefixOf k.key_bytes =
      true ↔ frag_file file = frag_file other ∧ place.kind = REVISION := by
    rw [hbytes, Place.frag_key, frag_key, isPrefixOf_append_iff, place.kind_eq_revision]
    · constructor
      · intro h
        obtain ⟨hsame, howner⟩ := append_inj h (by rw [frag_file_length, frag_file_length])
        exact ⟨hsame, (to_be_bytes_inj hrevision place.owner_lt howner).symm⟩
      · rintro ⟨hsame, howner⟩
        rw [hsame, howner]
    · rw [length_append, length_append, frag_file_length, frag_file_length,
        to_be_bytes_length, to_be_bytes_length]
  unfold purged_fragment
  simp only [Bool.and_eq_true, Bool.not_eq_true', ← Bool.not_eq_true, decide_eq_true_eq, hdigest, hdebt]
  constructor
  · rintro ⟨⟨⟨-, -⟩, hsame⟩, hkept⟩
    exact ⟨hsame, fun hall => hkept ⟨hall.1, hsame, hall.2⟩⟩
  · rintro ⟨hsame, hkept⟩
    refine ⟨⟨⟨hkind, ?_⟩, hsame⟩, fun hall => hkept ⟨hall.1, hall.2.2⟩⟩
    have hlt := digest_lt hkind hbytes
    simp only [← hsame] at hlt
    exact hlt

/-! ## Rows that hold values -/

section

variable {out : Outside Bytes} {files : List Bytes} {rows : Records} {values : Bytes → Content}
  {file : Bytes}

variable {k : RecordKey}

/-- Which rows go, of those that are there. -/
theorem Holds.purged_iff (hs : Holds out files rows values) (hfree : CollisionFree files)
    (hfile : file ∈ files) (keep_debt : Bool) (hk : k ∈ rows.keys) :
    (purged_fragment file keep_debt k = true ∨
      k.kind ∈ purged_kinds keep_debt ∧ k.key_bytes = file) ↔
    OfFile file k ∧ ¬ (keep_debt = true ∧ OfDebt file k) := by
  by_cases hkind : k.kind = FRAG
  · obtain ⟨other, hother, place, hposition, hbytes⟩ := hs.owned k hk hkind
    have hnot : ¬ (k.kind ∈ purged_kinds keep_debt ∧ k.key_bytes = file) :=
      fun hall => (mem_purged_kinds.mp hall.1).2.2.1 hkind
    rw [purged_fragment_iff keep_debt hkind hbytes]
    constructor
    · rintro (⟨hdigest, hkept⟩ | hrow)
      · obtain rfl := hfree file hfile other hother hdigest
        refine ⟨.inr ⟨hkind, place, hposition, hbytes⟩, ?_⟩
        rintro ⟨hkeep, ⟨hrevision, -⟩ | ⟨-, debt, hdebt, hdebtposition, hdebtbytes⟩⟩
        · rw [hkind] at hrevision
          exact absurd hrevision (by decide)
        · obtain ⟨-, rfl⟩ := frag_key_inj hposition hdebtposition (hbytes.symm.trans hdebtbytes)
          exact hkept ⟨hkeep, hdebt⟩
      · exact absurd hrow hnot
    · rintro ⟨⟨-, hnofrag, -⟩ | ⟨-, own, hownposition, hownbytes⟩, hkept⟩
      · exact absurd hkind hnofrag
      · left
        obtain ⟨hdigest, rfl⟩ := frag_key_inj hownposition hposition (hownbytes.symm.trans hbytes)
        refine ⟨hdigest, ?_⟩
        rintro ⟨hkeep, hrevision⟩
        exact hkept ⟨hkeep, .inr ⟨hkind, own, hrevision, hownposition, hownbytes⟩⟩
  · have hnofrag : purged_fragment file keep_debt k = false := by simp [purged_fragment, hkind]
    rw [hnofrag, mem_purged_kinds]
    constructor
    · rintro (hfrag | ⟨⟨hmem, hmarker, -, hkept⟩, hbytes⟩)
      · cases hfrag
      · refine ⟨.inl ⟨hmem, hkind, hmarker, hbytes⟩, ?_⟩
        rintro ⟨hkeep, ⟨hrevision, -⟩ | ⟨hfrag, -⟩⟩
        · exact hkept ⟨hkeep, hrevision⟩
        · exact hkind hfrag
    · rintro ⟨⟨hmem, -, hmarker, hbytes⟩ | ⟨hfrag, -⟩, hkept⟩
      · right
        refine ⟨⟨hmem, hmarker, hkind, ?_⟩, hbytes⟩
        rintro ⟨hkeep, hrevision⟩
        exact hkept ⟨hkeep, .inl ⟨hrevision, hbytes⟩⟩
      · exact absurd hfrag hkind

/-- A deletion takes exactly the rows of the file; with `keep_debt`, none of its revisions. -/
theorem Holds.delete_rows (hs : Holds out files rows values) (hfree : CollisionFree files)
    (hfile : file ∈ files) (keep_debt : Bool) (k : RecordKey) :
    (OfFile file k ∧ ¬ (keep_debt = true ∧ OfDebt file k) →
      (rows.delete_rows file keep_debt).get? k = none) ∧
    (¬ (OfFile file k ∧ ¬ (keep_debt = true ∧ OfDebt file k)) →
      (rows.delete_rows file keep_debt).get? k = rows.get? k) := by
  rw [delete_rows_key]
  by_cases hk : k ∈ rows.keys
  · have hiff := hs.purged_iff hfree hfile keep_debt hk
    constructor
    · intro hgone
      rw [if_pos (hiff.mpr hgone)]
    · intro hkept
      rw [if_neg (fun hgone => hkept (hiff.mp hgone))]
  · have hnone : rows.get? k = none := by
      by_contra hsome
      exact hk (mem_keys_iff.mpr (isSome_iff_ne_none.mpr hsome))
    rw [hnone, ite_self]
    exact ⟨fun _ => rfl, fun _ => rfl⟩

/-- The rows of another file are none of this one's. -/
theorem OfFile.other {f g : Bytes} (hdigest : frag_file f = frag_file g → f = g) (hne : f ≠ g)
    (h : OfFile f k) : ¬ OfFile g k := by
  rintro (⟨-, hkind, -, hbytes⟩ | ⟨hkind, place, hposition, hbytes⟩)
  · rcases h with ⟨-, -, -, hown⟩ | ⟨hfrag, -⟩
    · exact hne (hown.symm.trans hbytes)
    · exact hkind hfrag
  · rcases h with ⟨-, hown, -⟩ | ⟨-, own, hownposition, hownbytes⟩
    · exact hown hkind
    · exact hne (hdigest (frag_key_inj hownposition hposition (hownbytes.symm.trans hbytes)).1)

/-! ## Reading -/

theorem Holds.read_fragments (hs : Holds out files rows values) (hfile : file ∈ files) {place : Place}
    {value : Bytes} (hvalue : (values file).get place = some value) (numbers : List Nat)
    (hnumbers : ∀ number ∈ numbers, number < fragments value) :
    read_fragments out rows file place numbers = .ok (numbers.flatMap (chunk value)) := by
  obtain ⟨hposition, hcount⟩ := hs.fits file place value hvalue
  induction numbers with
  | nil => rfl
  | cons number rest ih =>
    obtain ⟨hnumber, hrest⟩ := forall_mem_cons.mp hnumbers
    have hkey : RecordKey.record FRAG (place.frag_key file) number =
        .ok ⟨FRAG, place.frag_key file, number, by omega⟩ :=
      record_eq_ok.mpr ⟨rfl, rfl, rfl⟩
    have hrow : rows.get? ⟨FRAG, place.frag_key file, number, by omega⟩ =
        some (inline out (chunk value number)) := by
      rw [hs.frag file hfile place hposition _ rfl rfl, hvalue, bind_some, fragmentRow,
        if_pos hnumber]
    have hchunk : (chunk value number).length ≤ FRAG_BYTES := by
      unfold chunk
      rw [length_take]
      exact Nat.min_le_left _ _
    refine bind_eq_ok.mpr ⟨_, hkey, bind_eq_ok.mpr ⟨_, context_eq_ok.mpr hrow, ?_⟩⟩
    exact bind_eq_ok.mpr ⟨_, read_inline_inline hchunk, bind_eq_ok.mpr ⟨_, ih hrest, rfl⟩⟩

/-- What a place holds is read from its row. -/
theorem Holds.read_value (hs : Holds out files rows values) (hfile : file ∈ files) {place : Place}
    {value : Bytes} (hvalue : (values file).get place = some value) :
    Records.read_value out rows file place (stored out value) = .ok value := by
  have hcount := (hs.fits file place value hvalue).2
  unfold Records.read_value stored
  by_cases hlong : FRAG_BYTES < value.length
  · obtain ⟨hcover, hsome⟩ := fragments_cover hlong
    have htoNat : (UInt64.ofNat (fragments value)).toNat = fragments value := by
      rw [UInt64.toNat_ofNat', Nat.mod_eq_of_lt (by omega)]
    have hread := hs.read_fragments hfile hvalue (List.range (fragments value))
      (fun number hnumber => mem_range.mp hnumber)
    rw [chunks_flatten, take_of_length_le hcover] at hread
    rw [if_neg hsome, if_neg (by simp)]
    refine bind_eq_ok.mpr ⟨_, read_envelope_envelope value, ?_⟩
    simp only [htoNat]
    refine bind_eq_ok.mpr ⟨value, hread, bind_eq_ok.mpr ⟨(), ?_, rfl⟩⟩
    exact ensure_eq_ok.mpr (decide_eq_true ⟨rfl, rfl⟩)
  · have hnone : fragments value = 0 := by
      unfold fragments
      rw [if_neg hlong]
    have hversion : (inline out value).version ≠ .FRAGMENTED := by
      simp only [inline]
      split_ifs <;> simp
    rw [if_pos hnone, if_pos hversion]
    exact read_inline_inline (by omega)

/-- There are no fragments beyond those of the values that are there. -/
theorem Holds.fragment_iff (hs : Holds out files rows values) (hkind : k.kind = FRAG) :
    k ∈ rows.keys ↔ ∃ file ∈ files, ∃ place value, (values file).get place = some value ∧
      k.key_bytes = place.frag_key file ∧ k.position < fragments value := by
  constructor
  · intro hk
    obtain ⟨file, hfile, place, hposition, hbytes⟩ := hs.owned k hk hkind
    have hget := hs.frag file hfile place hposition k hkind hbytes
    rw [mem_keys_iff, hget] at hk
    obtain ⟨row, hrow⟩ := isSome_iff_exists.mp hk
    obtain ⟨value, hvalue, hfragment⟩ := bind_eq_some_iff.mp hrow
    refine ⟨file, hfile, place, value, hvalue, hbytes, ?_⟩
    unfold fragmentRow at hfragment
    by_contra hmany
    rw [if_neg hmany] at hfragment
    cases hfragment
  · rintro ⟨file, hfile, place, value, hvalue, hbytes, hnumber⟩
    have hposition := (hs.fits file place value hvalue).1
    rw [mem_keys_iff, hs.frag file hfile place hposition k hkind hbytes, hvalue,
      bind_some, fragmentRow, if_pos hnumber]
    rfl

end

/-! ## A run of writes, and a deletion -/

/-- The last value that the writes give to a place of a file. -/
def last_written (writes : List (Bytes × Place × Bytes)) (file : Bytes) (place : Place) :
    Option Bytes :=
  ((writes.filter (fun w => decide (w.1 = file ∧ w.2.1 = place))).getLast?).map (fun w => w.2.2)

theorem foldl_written (writes : List (Bytes × Place × Bytes)) (values : Bytes → Content)
    (file : Bytes) (place : Place) :
    (writes.foldl written values file).get place =
      (last_written writes file place).or ((values file).get place) := by
  induction writes generalizing values with
  | nil => rfl
  | cons write writes ih =>
    rw [foldl_cons, ih, get_written]
    unfold last_written
    rw [filter_cons]
    by_cases hwrite : write.1 = file ∧ write.2.1 = place
    · obtain ⟨rfl, rfl⟩ := hwrite
      rw [if_pos (decide_eq_true ⟨rfl, rfl⟩), List.getLast?_cons, if_pos ⟨rfl, rfl⟩]
      cases (writes.filter (fun w => decide (w.1 = write.1 ∧ w.2.1 = write.2.1))).getLast? with
      | none => rfl
      | some last => rfl
    · have hother : ¬ (file = write.1 ∧ place = write.2.1) :=
        fun hall => hwrite ⟨hall.1.symm, hall.2.symm⟩
      rw [if_neg hother, if_neg (fun hall => hwrite (of_decide_eq_true hall))]

theorem write_values_holds {out : Outside Bytes} {files : List Bytes}
    (hfree : CollisionFree files) {writes : List (Bytes × Place × Bytes)} {rows after : Records}
    {values : Bytes → Content} (hs : Holds out files rows values)
    (hfiles : ∀ write ∈ writes, write.1 ∈ files)
    (h : write_values out writes rows = .ok after) :
    Holds out files after (writes.foldl written values) := by
  induction writes generalizing rows values with
  | nil =>
    cases h
    exact hs
  | cons write writes ih =>
    obtain ⟨file, place, value⟩ := write
    obtain ⟨next, hwrite, hrest⟩ := bind_eq_ok.mp h
    obtain ⟨hfirst, hfiles⟩ := forall_mem_cons.mp hfiles
    exact ih (hs.write hfree hfirst hwrite) hfiles hrest

/-- Rows of other kinds, and markers. -/
def HoldsNone (rows : Records) : Prop := ∀ k ∈ rows.keys, k.kind ∈ TAIL_KINDS → k.kind = SET_ASIDE

theorem HoldsNone.holds {rows : Records} (h : HoldsNone rows) (out : Outside Bytes)
    (files : List Bytes) : Holds out files rows (fun _ => {}) := by
  have hnone : ∀ k : RecordKey, k.kind ∈ TAIL_KINDS → k.kind ≠ SET_ASIDE → rows.get? k = none := by
    intro k hkind hmarker
    by_contra hsome
    exact hmarker (h k (mem_keys_iff.mpr (isSome_iff_ne_none.mpr hsome)) hkind)
  have hempty : ∀ place, ({} : Content).get place = none := by
    intro place
    cases place <;> rfl
  constructor
  · intro file place k hk
    obtain ⟨hkind, -, -⟩ := record_eq_ok.mp hk
    rw [hempty, hnone k (hkind ▸ place.kind_mem) (hkind ▸ place.kind_ne.2)]
    rfl
  · intro file _ place _ k hkind _
    rw [hempty, hnone k (by rw [hkind]; decide) (by rw [hkind]; decide)]
    rfl
  · intro k hk hkind
    have := h k hk (by rw [hkind]; decide)
    rw [hkind] at this
    exact absurd this (by decide)
  · intro file place value hvalue
    rw [hempty] at hvalue
    cases hvalue

/-- Every value that was written is read back, no fragment is there but those of the values
that are, and a file's rows are deleted with no other row, of this file or of another. -/
theorem rows_keep_values (out : Outside Bytes) {base rows : Records}
    {writes : List (Bytes × Place × Bytes)} {file : Bytes} (hbase : HoldsNone base)
    (hfree : CollisionFree (file :: writes.map Prod.fst))
    (hrun : write_values out writes base = .ok rows) :
    (∀ f place value, last_written writes f place = some value → ∃ k row,
      place.key f = .ok k ∧ rows.get? k = some row ∧
        read_value out rows f place row = .ok value) ∧
    (∀ k : RecordKey, k.kind = FRAG → (k ∈ rows.keys ↔ ∃ f place value,
      last_written writes f place = some value ∧ k.key_bytes = place.frag_key f ∧
        k.position < fragments value)) ∧
    ∀ keep_debt k,
      (OfFile file k ∧ ¬ (keep_debt = true ∧ OfDebt file k) →
        (rows.delete_rows file keep_debt).get? k = none) ∧
      (¬ (OfFile file k ∧ ¬ (keep_debt = true ∧ OfDebt file k)) →
        (rows.delete_rows file keep_debt).get? k = rows.get? k) ∧
      (k.kind = SET_ASIDE → (rows.delete_rows file keep_debt).get? k = rows.get? k) ∧
      ∀ other ∈ writes.map Prod.fst, other ≠ file → OfFile other k →
        (rows.delete_rows file keep_debt).get? k = rows.get? k := by
  have hs := write_values_holds hfree (hbase.holds out _)
    (fun write hwrite => mem_cons_of_mem file (mem_map_of_mem hwrite)) hrun
  have hvalues : ∀ f place, (writes.foldl written (fun _ => {}) f).get place =
      last_written writes f place := by
    intro f place
    have hempty : ({} : Content).get place = none := by cases place <;> rfl
    rw [foldl_written, hempty, or_none]
  have hwritten : ∀ f place value, last_written writes f place = some value →
      f ∈ file :: writes.map Prod.fst := by
    intro f place value hlast
    obtain ⟨write, hwrite, -⟩ := map_eq_some_iff.mp hlast
    obtain ⟨hin, hplace⟩ := mem_filter.mp (mem_of_getLast? hwrite)
    obtain ⟨rfl, -⟩ := of_decide_eq_true hplace
    exact mem_cons_of_mem file (mem_map_of_mem hin)
  refine ⟨?_, ?_, ?_⟩
  · intro f place value hlast
    have hvalue := (hvalues f place).trans hlast
    have hkey : place.key f = .ok ⟨place.kind, f, place.position, (hs.fits f place value hvalue).1⟩ :=
      record_eq_ok.mpr ⟨rfl, rfl, rfl⟩
    refine ⟨_, stored out value, hkey, ?_, hs.read_value (hwritten f place value hlast) hvalue⟩
    rw [hs.row f place _ hkey, hvalue, map_some]
  · intro k hkind
    rw [hs.fragment_iff hkind]
    constructor
    · rintro ⟨f, -, place, value, hvalue, hrest⟩
      exact ⟨f, place, value, (hvalues f place).symm.trans hvalue, hrest⟩
    · rintro ⟨f, place, value, hlast, hrest⟩
      exact ⟨f, hwritten f place value hlast, place, value, (hvalues f place).trans hlast, hrest⟩
  · intro keep_debt k
    obtain ⟨hgone, hkept⟩ := hs.delete_rows hfree mem_cons_self keep_debt k
    refine ⟨hgone, hkept, ?_, ?_⟩
    · intro hmarker
      apply hkept
      rintro ⟨⟨-, -, hno, -⟩ | ⟨hfrag, -⟩, -⟩
      · exact hno hmarker
      · rw [hmarker] at hfrag
        exact absurd hfrag (by decide)
    · intro other hother hne hown
      apply hkept
      rintro ⟨hthis, -⟩
      exact hown.other (hfree other (mem_cons_of_mem file hother) file mem_cons_self) hne hthis

theorem write_values_ok {out : Outside Bytes} {writes : List (Bytes × Place × Bytes)}
    (h : ∀ write ∈ writes, Fits write.2.1 write.2.2) (rows : Records) :
    ∃ after, write_values out writes rows = .ok after := by
  induction writes generalizing rows with
  | nil => exact ⟨rows, rfl⟩
  | cons write writes ih =>
    obtain ⟨file, place, value⟩ := write
    obtain ⟨hfirst, hrest⟩ := forall_mem_cons.mp h
    obtain ⟨next, hnext⟩ := write_value_row_ok hfirst rows file
    obtain ⟨after, hafter⟩ := ih hrest next
    exact ⟨after, bind_eq_ok.mpr ⟨next, hnext, hafter⟩⟩

/-- Values too short to compress, and a small hash. -/
def plainOutside : Outside Bytes where
  Digest := Bytes
  digestEq := inferInstance
  frag_file := id
  frag_file_injective := Function.injective_id
  set_aside_key := id
  set_aside_key_injective := Function.injective_id
  compress := id
  decompress := some
  decompress_compress := fun _ => rfl
  stored_digest := fun _ bytes => bytes
  sha256 := fun bytes =>
    BitVec.ofNat 256 (bytes.foldl (fun hash byte => (hash * 257 + byte.toNat) % 2 ^ 256) 1)

/-- A value of two fragments. -/
def long_value : Bytes := replicate (FRAG_BYTES + 1) 2

/-- A head in two fragments and a revision of one file, and the head of another. -/
def two_files : List (Bytes × Place × Bytes) :=
  [([1], .head, long_value), ([1], .page .Revisions 3, [7]), ([5], .head, [4])]

/-- Each value is read as it was written; when the first file goes its revision stays, and so
does the second file. -/
theorem a_revision_outlives_its_file :
    fragments long_value = 2 ∧
    ∃ rows, write_values plainOutside two_files .empty = .ok rows ∧
      (∃ k row, Place.head.key [1] = .ok k ∧ rows.get? k = some row ∧
        read_value plainOutside rows [1] .head row = .ok long_value ∧
        (rows.delete_rows [1] true).get? k = none) ∧
      (∃ k row, (Place.page .Revisions 3).key [1] = .ok k ∧ rows.get? k = some row ∧
        read_value plainOutside rows [1] (.page .Revisions 3) row = .ok [7] ∧
        (rows.delete_rows [1] true).get? k = some row) ∧
      ∃ k row, Place.head.key [5] = .ok k ∧ rows.get? k = some row ∧
        read_value plainOutside rows [5] .head row = .ok [4] ∧
        (rows.delete_rows [1] true).get? k = some row := by
  have hlength : long_value.length = FRAG_BYTES + 1 := length_replicate
  have hlong : fragments long_value = 2 := by
    rw [fragments, hlength, if_pos (Nat.lt_succ_self _)]
    decide
  have hone : ∀ place b, place.position < 2 ^ 63 → Fits place [b] := by
    intro place b hposition
    have hshort : ¬ FRAG_BYTES < [b].length := by
      rw [FRAG_BYTES, length_singleton]
      omega
    refine ⟨hposition, ?_⟩
    exact Nat.zero_le _
  have hfits : ∀ write ∈ two_files, Fits write.2.1 write.2.2 := by
    refine forall_mem_cons.mpr ⟨⟨by decide, by rw [hlong]; decide⟩, forall_mem_cons.mpr
      ⟨hone _ _ (by decide), forall_mem_singleton.mpr (hone _ _ (by decide))⟩⟩
  obtain ⟨rows, hrun⟩ := @write_values_ok plainOutside _ hfits .empty
  refine ⟨hlong, rows, hrun, ?_⟩
  have hbase : HoldsNone (.empty : Records) := by
    intro k hk
    cases hk
  have hapart : frag_file [1] ≠ frag_file [5] := by decide +kernel
  have hfree : CollisionFree (([1] : Bytes) :: two_files.map Prod.fst) := by
    intro f hf g hg hsame
    simp only [two_files, map_cons, map_nil, mem_cons, not_mem_nil, or_false,
      or_self_left] at hf hg
    rcases hf with rfl | rfl <;> rcases hg with rfl | rfl
    · rfl
    · exact absurd hsame hapart
    · exact absurd hsame.symm hapart
    · rfl
  obtain ⟨hread, -, hdelete⟩ := rows_keep_values plainOutside hbase hfree hrun
  refine ⟨?_, ?_, ?_⟩
  · obtain ⟨k, row, hkey, hrow, hvalue⟩ := hread [1] .head long_value rfl
    obtain ⟨hkind, hbytes, -⟩ := record_eq_ok.mp hkey
    refine ⟨k, row, hkey, hrow, hvalue, (hdelete true k).1 ⟨.inl ?_, ?_⟩⟩
    · rw [hkind]
      exact ⟨by decide, by decide, by decide, hbytes⟩
    · rintro ⟨-, ⟨hrevision, -⟩ | ⟨hfragment, -⟩⟩
      · exact absurd (hkind.symm.trans hrevision) (by decide)
      · exact absurd (hkind.symm.trans hfragment) (by decide)
  · obtain ⟨k, row, hkey, hrow, hvalue⟩ := hread [1] (.page .Revisions 3) [7] rfl
    obtain ⟨hkind, hbytes, -⟩ := record_eq_ok.mp hkey
    refine ⟨k, row, hkey, hrow, hvalue, ?_⟩
    rw [(hdelete true k).2.1 (fun hgone => hgone.2 ⟨rfl, .inl ⟨hkind, hbytes⟩⟩), hrow]
  · obtain ⟨k, row, hkey, hrow, hvalue⟩ := hread [5] .head [4] rfl
    obtain ⟨hkind, hbytes, -⟩ := record_eq_ok.mp hkey
    refine ⟨k, row, hkey, hrow, hvalue, ?_⟩
    rw [(hdelete true k).2.2.2 [5] (by decide) (by decide) (.inl ?_), hrow]
    rw [hkind]
    exact ⟨by decide, by decide, by decide, hbytes⟩

end ottto_service.state_v2.tail
