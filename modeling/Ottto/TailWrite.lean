-- The writes of the Tail store against the view of the file: the membership is
-- kept from row headers alone, and stays that of the pages.
import Ottto.TailView

namespace ottto_service.state_v2.tail

open Results List Option Content Function SortedMap UInt64 Work

section

variable {File : Type} {out : Outside File}

/-! ## A write in progress -/

/-- The rows hold the content, and the table is the membership of its pages. -/
structure InProgress (w : Work out) (file : File) (metas : SortedMap Collection CollectionMeta)
    (c : Content) : Prop where
  stores : Stores w.tx file c
  counts : ∀ col m, w.table.get? col = some m →
    m.pages = UInt64.ofNat (c.pages col).size ∧ m.commit = terms out col (c.pages col)
  covers : ∀ col, w.table.get? col = none → c.pages col = .empty
  metas : ∀ col, col ≠ .Revisions → (w.table.get? col).map Membership.«meta» = metas.get? col
  debt : ∀ m, w.table.get? .Revisions = some m →
    m.«meta».shape = .Slot ∧ m.«meta».elements_per_page = 1
  fits : ∀ col position value, (c.pages col).get? position = some value →
    Fits (.page col position) value

/-- The debt counts its elements as it counts its rows. -/
def Elements (table : MembershipTable) : Prop :=
  ∀ m, table.get? .Revisions = some m → m.«meta».elements = m.pages

variable {col : Collection}

/-- One collection's pages and its entry, rewritten together. -/
theorem InProgress.update {w : Work out} {file : File}
    {metas metas' : SortedMap Collection CollectionMeta}
    {c c' : Content} (h : InProgress w file metas c) {tx' : Tx out} (hstores : Stores tx' file c')
    (hothers : ∀ other, other ≠ col → c'.pages other = c.pages other)
    (hmetas : ∀ other, other ≠ col → metas'.get? other = metas.get? other)
    {entry : Membership} (hpages : entry.pages = UInt64.ofNat (c'.pages col).size)
    (hcommit : entry.commit = terms out col (c'.pages col))
    (hmeta : col ≠ .Revisions → metas'.get? col = some entry.«meta»)
    (hdebt : col = .Revisions → entry.«meta».shape = .Slot ∧ entry.«meta».elements_per_page = 1)
    (hfits : ∀ position value, (c'.pages col).get? position = some value →
      Fits (.page col position) value) :
    InProgress ⟨tx', w.table.insert col entry⟩ file metas' c' where
  stores := hstores
  counts := by
    intro other m hm
    simp only [get?_insert] at hm
    by_cases hother : other = col
    · rw [if_pos hother] at hm
      cases hm
      rw [hother]
      exact ⟨hpages, hcommit⟩
    · rw [if_neg hother] at hm
      rw [hothers other hother]
      exact h.counts other m hm
  covers := by
    intro other hm
    simp only [get?_insert] at hm
    by_cases hother : other = col
    · rw [if_pos hother] at hm
      cases hm
    · rw [if_neg hother] at hm
      rw [hothers other hother]
      exact h.covers other hm
  metas := by
    intro other hne
    simp only [get?_insert]
    by_cases hother : other = col
    · rw [if_pos hother, hother, hmeta (hother ▸ hne)]
      rfl
    · rw [if_neg hother, hmetas other hother]
      exact h.metas other hne
  debt := by
    intro m hm
    simp only [get?_insert] at hm
    by_cases hcol : Collection.Revisions = col
    · rw [if_pos hcol] at hm
      cases hm
      exact hdebt hcol.symm
    · rw [if_neg hcol] at hm
      exact h.debt m hm
  fits := by
    intro other position value hvalue
    by_cases hother : other = col
    · subst hother
      exact hfits position value hvalue
    · rw [hothers other hother] at hvalue
      exact h.fits other position value hvalue

theorem ofNat_succ (n : Nat) : UInt64.ofNat (n + 1) = UInt64.ofNat n + 1 := by
  rw [ofNat_add]
  rfl

theorem ofNat_pred {n : Nat} (h : 0 < n) : UInt64.ofNat (n - 1) = UInt64.ofNat n - 1 := by
  obtain ⟨m, rfl⟩ : ∃ m, n = m + 1 := ⟨n - 1, by omega⟩
  rw [ofNat_succ, Nat.add_sub_cancel, UInt64.add_sub_cancel]

/-- The entry of the debt, there or not, is that of its rows. -/
theorem InProgress.debt_entry {w : Work out} {file : File}
    {metas : SortedMap Collection CollectionMeta} {c : Content} (h : InProgress w file metas c) :
    (debt_member w.table).pages = UInt64.ofNat (c.pages .Revisions).size ∧
      (debt_member w.table).commit = terms out .Revisions (c.pages .Revisions) ∧
      (debt_member w.table).«meta».shape = .Slot ∧
      (debt_member w.table).«meta».elements_per_page = 1 := by
  unfold debt_member
  cases hm : w.table.get? .Revisions with
  | none =>
    rw [h.covers .Revisions hm]
    exact ⟨rfl, rfl, rfl, rfl⟩
  | some m =>
    obtain ⟨h1, h2⟩ := h.counts .Revisions m hm
    obtain ⟨h3, h4⟩ := h.debt m hm
    exact ⟨h1, h2, h3, h4⟩

variable {pages : SortedMap Nat Bytes} {position : Nat} {value : Bytes}

theorem size_pos (h : pages.get? position = some value) : 0 < pages.size :=
  length_pos_of_mem (mem_entries.mpr h)

theorem size_erase_of_some
    (h : pages.get? position = some value) : (pages.erase position).size = pages.size - 1 := by
  have hperm := (entries_perm_erase h).length_eq
  rw [length_cons] at hperm
  unfold SortedMap.size
  omega

theorem size_insert_of_none (h : pages.get? position = none) (value : Bytes) :
    (pages.insert position value).size = pages.size + 1 := by
  have hperm := (pages.entries_insert_perm position value).length_eq
  rw [length_cons, erase_of_absent h] at hperm
  exact hperm

theorem size_insert_of_some {old : Bytes} (h : pages.get? position = some old) (value : Bytes) :
    (pages.insert position value).size = pages.size := by
  have hperm := (pages.entries_insert_perm position value).length_eq
  rw [length_cons] at hperm
  have herase := size_erase_of_some h
  have hpos := size_pos h
  unfold SortedMap.size at herase hpos ⊢
  omega

/-- A page's membership once its old row is out of it and the new one is in. -/
theorem terms_rewrite (col : Collection)
    {old : Bytes} (h : pages.get? position = some old) (value : Bytes) :
    terms out col pages ^^^ term out col position (stored out old) ^^^
      term out col position (stored out value) = terms out col (pages.insert position value) := by
  rw [terms_insert, terms_erase col h]

theorem terms_add (col : Collection) (h : pages.get? position = none) (value : Bytes) :
    terms out col pages ^^^ term out col position (stored out value) =
      terms out col (pages.insert position value) := by
  rw [terms_insert, erase_of_absent h]

variable {file : File} {metas : SortedMap Collection CollectionMeta}
  {c : Content} {w w' : Work out}

theorem get_eq_ok {tx : Tx out} {place : Place} {found : Option Row} :
    tx.get file place = .ok found ↔ place.position < 2 ^ 63 ∧ found = tx.row file place := by
  constructor
  · intro h
    obtain ⟨_, hroom, h⟩ := bind_eq_ok.mp h
    exact ⟨admit_position_eq_ok.mp hroom, (Except.ok.inj h).symm⟩
  · rintro ⟨hroom, rfl⟩
    exact bind_eq_ok.mpr ⟨(), admit_position_eq_ok.mpr hroom, rfl⟩

/-- The pages of a content with one page set. -/
theorem pages_set (col : Collection) (position : Nat) (value : Bytes) :
    (c.set (.page col position) value).pages col = (c.pages col).insert position value ∧
      ∀ other, other ≠ col → (c.set (.page col position) value).pages other = c.pages other :=
  ⟨update_self _ _ _, fun _ hne => update_of_ne hne _ _⟩

theorem pages_unset (col : Collection) (position : Nat) :
    (c.unset (.page col position)).pages col = (c.pages col).erase position ∧
      ∀ other, other ≠ col → (c.unset (.page col position)).pages other = c.pages other :=
  ⟨update_self _ _ _, fun _ hne => update_of_ne hne _ _⟩

theorem fits_insert (h : InProgress w file metas c) (hvalue : Fits (.page col position) value)
    (p : Nat) (b : Bytes)
    (hb : ((c.pages col).insert position value).get? p = some b) : Fits (.page col p) b := by
  exact forall_insert (p := fun p => Fits (.page col p)) hvalue (h.fits col) p b hb

theorem fits_erase (h : InProgress w file metas c) (p : Nat)
    (b : Bytes) (hb : ((c.pages col).erase position).get? p = some b) : Fits (.page col p) b := by
  exact h.fits col p b (get?_of_erase hb)

/-! ## The pages of a stage -/

variable [DecidableEq File]

theorem write_page_spec (hcol : col ≠ .Revisions)
    (hw : InProgress w file metas c) (h : w.write_page file col position value = .ok w') :
    ((metas.get? col).isSome ∧ Fits (.page col position) value) ∧
      InProgress w' file metas (c.set (.page col position) value) ∧ Elsewhere w.tx w'.tx file ∧
      w'.table.get? .Revisions = w.table.get? .Revisions := by
  obtain ⟨entry, hentry, h⟩ := bind_eq_ok.mp h
  obtain ⟨found, hfound, h⟩ := bind_eq_ok.mp h
  obtain ⟨⟨written, tx'⟩, hwrite, h⟩ := bind_eq_ok.mp h
  cases h
  have hentry := context_eq_ok.mp hentry
  obtain ⟨-, rfl⟩ := get_eq_ok.mp hfound
  obtain ⟨hfits, rfl, hstores, helse⟩ := write_value_spec hw.stores hwrite
  obtain ⟨hcount, hcommit⟩ := hw.counts col entry hentry
  obtain ⟨hself, hothers⟩ := pages_set (c := c) col position value
  have hmeta : metas.get? col = some entry.«meta» := by
    rw [← hw.metas col hcol, hentry]
    rfl
  have hrow := hw.stores.row (.page col position)
  refine ⟨⟨by rw [hmeta]; rfl, hfits⟩, ?_, helse, get?_insert_ne _ _ hcol.symm⟩
  cases hold : (c.pages col).get? position with
  | some old =>
    have hrow : w.tx.row file (.page col position) = some (stored out old) := by
      rw [hrow, Content.get, hold]
      rfl
    rw [hrow]
    apply hw.update hstores hothers (fun _ _ => rfl)
    · rw [hself, size_insert_of_some hold]
      exact hcount
    · rw [hself, ← terms_rewrite col hold value, ← hcommit]
      rfl
    · exact fun _ => hmeta
    · exact fun heq => absurd heq hcol
    · rw [hself]
      exact fits_insert hw hfits
  | none =>
    have hrow : w.tx.row file (.page col position) = none := by
      rw [hrow, Content.get, hold]
      rfl
    rw [hrow]
    apply hw.update hstores hothers (fun _ _ => rfl)
    · rw [hself, size_insert_of_none hold, ofNat_succ, ← hcount]
      rfl
    · rw [hself, ← terms_add col hold value, ← hcommit]
      rfl
    · exact fun _ => hmeta
    · exact fun heq => absurd heq hcol
    · rw [hself]
      exact fits_insert hw hfits

/-- A page that is not there leaves nothing to drop. -/
theorem unset_of_none {place : Place} (h : c.get place = none) : c.unset place = c := by
  apply Content.ext_get
  intro other
  rw [Content.get_unset]
  by_cases hother : other = place
  · rw [if_pos hother, hother, h]
  · rw [if_neg hother]

theorem drop_page_spec (hcol : col ≠ .Revisions)
    (hw : InProgress w file metas c) (h : w.drop_page file col position = .ok w') :
    position < 2 ^ 63 ∧ InProgress w' file metas (c.unset (.page col position)) ∧
      Elsewhere w.tx w'.tx file ∧ w'.table.get? .Revisions = w.table.get? .Revisions := by
  obtain ⟨found, hfound, h⟩ := bind_eq_ok.mp h
  obtain ⟨hposition, rfl⟩ := get_eq_ok.mp hfound
  refine ⟨hposition, ?_⟩
  have hrow := hw.stores.row (.page col position)
  cases hold : (c.pages col).get? position with
  | none =>
    have hnone : c.get (.page col position) = none := hold
    rw [hrow, hnone] at h
    cases h
    rw [unset_of_none hnone]
    exact ⟨hw, Elsewhere.refl w.tx file, rfl⟩
  | some old =>
    have hsome : c.get (.page col position) = some old := hold
    rw [hrow, hsome] at h
    obtain ⟨entry, hentry, h⟩ := bind_eq_ok.mp h
    obtain ⟨tx', hdelete, h⟩ := bind_eq_ok.mp h
    cases h
    have hentry := context_eq_ok.mp hentry
    obtain ⟨hstores, helse⟩ := delete_value_spec hw.stores hdelete
    obtain ⟨hcount, hcommit⟩ := hw.counts col entry hentry
    obtain ⟨hself, hothers⟩ := pages_unset (c := c) col position
    refine ⟨?_, helse, get?_insert_ne _ _ hcol.symm⟩
    apply hw.update hstores hothers (fun _ _ => rfl)
    · rw [hself, size_erase_of_some hold, ofNat_pred (size_pos hold), ← hcount]
      rfl
    · rw [hself, terms_erase col hold, ← hcommit]
      rfl
    · intro _
      rw [← hw.metas col hcol, hentry]
      rfl
    · exact fun heq => absurd heq hcol
    · rw [hself]
      exact fits_erase hw

omit [DecidableEq File] in
theorem set_meta_spec (hcol : col ≠ .Revisions) (found : CollectionMeta)
    (hw : InProgress w file metas c) :
    InProgress (w.set_meta col found) file (metas.insert col found) c := by
  let entry := (w.table.get? col).getD ⟨found, 0, 0⟩
  have hcounts : (⟨found, entry.pages, entry.commit⟩ : Membership).pages =
        UInt64.ofNat (c.pages col).size ∧
      (⟨found, entry.pages, entry.commit⟩ : Membership).commit = terms out col (c.pages col) := by
    unfold entry
    cases hm : w.table.get? col with
    | none =>
      rw [hw.covers col hm]
      exact ⟨rfl, rfl⟩
    | some m => exact hw.counts col m hm
  apply hw.update hw.stores (fun _ _ => rfl)
    (fun other hother => get?_insert_ne metas found hother) hcounts.1 hcounts.2
  · exact fun _ => get?_insert_self metas col found
  · exact fun hrevisions => absurd hrevisions hcol
  · exact hw.fits col

omit [DecidableEq File] in
theorem set_metas_spec (entries : List (Collection × CollectionMeta))
    (hcols : ∀ e ∈ entries, e.1 ≠ .Revisions) {metas : SortedMap Collection CollectionMeta}
    {w : Work out} (hw : InProgress w file metas c) :
    InProgress (entries.foldl (fun w e => w.set_meta e.1 e.2) w) file
        (entries.foldl (fun m e => m.insert e.1 e.2) metas) c ∧
      (entries.foldl (fun w e => w.set_meta e.1 e.2) w).tx = w.tx ∧
      (entries.foldl (fun w e => w.set_meta e.1 e.2) w).table.get? .Revisions =
        w.table.get? .Revisions := by
  induction entries generalizing metas w with
  | nil => exact ⟨hw, rfl, rfl⟩
  | cons e entries ih =>
    obtain ⟨hcol, hrest⟩ := forall_mem_cons.mp hcols
    obtain ⟨hprogress, htx, hdebt⟩ := ih hrest (set_meta_spec hcol e.2 hw)
    exact ⟨hprogress, htx, hdebt.trans (get?_insert_ne _ _ hcol.symm)⟩

omit [DecidableEq File] in
/-- What a step on one input needs, what it does to the content, what it leaves and keeps. -/
theorem fold_steps {ι : Type} {step : Work out → ι → Except Fault (Work out)}
    (act : Content → ι → Content) (Needs : ι → Prop) (Keeps : Work out → Content → Prop)
    {inputs : List ι}
    (hstep : ∀ i ∈ inputs, ∀ w w' c, InProgress w file metas c → step w i = .ok w' →
      Needs i ∧ InProgress w' file metas (act c i) ∧ Elsewhere w.tx w'.tx file ∧
        (Keeps w c → Keeps w' (act c i)))
    {w w' : Work out} {c : Content} (hw : InProgress w file metas c) (hkept : Keeps w c)
    (h : inputs.foldlM step w = .ok w') :
    (∀ i ∈ inputs, Needs i) ∧ InProgress w' file metas (inputs.foldl act c) ∧
      Elsewhere w.tx w'.tx file ∧ Keeps w' (inputs.foldl act c) := by
  induction inputs generalizing w c with
  | nil =>
    obtain rfl := Except.ok.inj h
    exact ⟨by simp, hw, Elsewhere.refl w.tx file, hkept⟩
  | cons i inputs ih =>
    obtain ⟨w1, hfirst, hrest⟩ := bind_eq_ok.mp h
    obtain ⟨hneeds, hw1, helse, hkeeps⟩ := hstep i mem_cons_self w w1 c hw hfirst
    obtain ⟨hneeds', hw', helse', hkept'⟩ :=
      ih (fun j hj => hstep j (mem_cons_of_mem i hj)) hw1 (hkeeps hkept) hrest
    exact ⟨forall_mem_cons.mpr ⟨hneeds, hneeds'⟩, hw', helse.trans helse', hkept'⟩

/-- A stage the store takes, on a file whose collections become `metas`. -/
structure StagedFile.Accepted (s : StagedFile) (metas : SortedMap Collection CollectionMeta) :
    Prop where
  no_debt : .Revisions ∉ s.names
  obsolete : ∀ e ∈ s.obsolete.entries, (ofLex e.1).2 < 2 ^ 63
  pages : ∀ e ∈ s.pages.entries,
    (metas.get? (ofLex e.1).1).isSome ∧ Fits (.page (ofLex e.1).1 (ofLex e.1).2) e.2

omit [DecidableEq File] in
theorem StagedFile.no_debt_iff (s : StagedFile) :
    (!s.names.contains .Revisions) = true ↔ .Revisions ∉ s.names := by
  rw [Bool.not_eq_true', ← Bool.not_eq_true, contains_iff_mem]

variable {s : StagedFile}

/-- No entry of a stage that names no debt is about revisions. -/
theorem StagedFile.not_debt (h : .Revisions ∉ s.names) :
    (∀ e ∈ s.collections.entries, e.1 ≠ .Revisions) ∧
      (∀ e ∈ s.obsolete.entries, (ofLex e.1).1 ≠ .Revisions) ∧
      ∀ e ∈ s.pages.entries, (ofLex e.1).1 ≠ .Revisions := by
  unfold StagedFile.names SortedMap.keys at h
  simp only [mem_append, not_or] at h
  obtain ⟨⟨h1, h2⟩, h3⟩ := h
  refine ⟨?_, ?_, ?_⟩
  · intro e he heq
    exact h1 (mem_map.mpr ⟨e, he, heq⟩)
  · intro e he heq
    exact h3 (mem_map.mpr ⟨e.1, mem_map.mpr ⟨e, he, rfl⟩, heq⟩)
  · intro e he heq
    exact h2 (mem_map.mpr ⟨e.1, mem_map.mpr ⟨e, he, rfl⟩, heq⟩)

theorem apply_stage_spec (hw : InProgress w file metas c) (h : w.apply_stage file s = .ok w') :
    s.Accepted (metas.extend s.collections) ∧
      InProgress w' file (metas.extend s.collections) (s.applied c) ∧ Elsewhere w.tx w'.tx file ∧
      w'.table.get? .Revisions = w.table.get? .Revisions := by
  obtain ⟨_, hnames, h⟩ := bind_eq_ok.mp h
  obtain ⟨w2, hdrops, hwrites⟩ := bind_eq_ok.mp h
  have hnames := s.no_debt_iff.mp (ensure_eq_ok.mp hnames)
  obtain ⟨hcollections, hobsolete, hpages⟩ := StagedFile.not_debt hnames
  obtain ⟨hw1, htx, hdebt1⟩ := set_metas_spec s.collections.entries hcollections hw
  let debt_kept : Work out → Content → Prop :=
    fun w' _ => w'.table.get? .Revisions = w.table.get? .Revisions
  obtain ⟨hneeds2, hw2, helse2, hdebt2⟩ := fold_steps
    (fun c e => c.unset (.page (ofLex e.1).1 (ofLex e.1).2)) _ debt_kept
    (fun e he _ _ _ hprogress hstep => by
      obtain ⟨hneeds, hw, helse, hdebt⟩ := drop_page_spec (hobsolete e he) hprogress hstep
      exact ⟨hneeds, hw, helse, hdebt.trans⟩) hw1 hdebt1 hdrops
  obtain ⟨hneeds3, hw3, helse3, hdebt3⟩ := fold_steps
    (fun c e => c.set (.page (ofLex e.1).1 (ofLex e.1).2) e.2) _ debt_kept
    (fun e he _ _ _ hprogress hstep => by
      obtain ⟨hneeds, hw, helse, hdebt⟩ := write_page_spec (hpages e he) hprogress hstep
      exact ⟨hneeds, hw, helse, hdebt.trans⟩) hw2 hdebt2 hwrites
  refine ⟨⟨hnames, hneeds2, hneeds3⟩, hw3, ?_, hdebt3⟩
  rw [htx] at helse2
  exact helse2.trans helse3

variable {id : Nat}

theorem replace_revision_spec (hw : InProgress w file metas c)
    (h : w.replace_revision file id value = .ok w') :
    (c.get (.page .Revisions id)).isSome ∧
      InProgress w' file metas (c.set (.page .Revisions id) value) ∧ Elsewhere w.tx w'.tx file := by
  obtain ⟨found, hfound, h⟩ := bind_eq_ok.mp h
  obtain ⟨old, hold, h⟩ := bind_eq_ok.mp h
  obtain ⟨⟨written, tx'⟩, hwrite, h⟩ := bind_eq_ok.mp h
  cases h
  obtain ⟨-, rfl⟩ := get_eq_ok.mp hfound
  have hold := context_eq_ok.mp hold
  rw [hw.stores.row] at hold
  obtain ⟨before, hbefore, rfl⟩ := map_eq_some_iff.mp hold
  obtain ⟨hfits, rfl, hstores, helse⟩ := write_value_spec hw.stores hwrite
  obtain ⟨hcount, hcommit, hshape, hper⟩ := hw.debt_entry
  obtain ⟨hself, hothers⟩ := pages_set (c := c) .Revisions id value
  refine ⟨by rw [hbefore]; rfl, ?_, helse⟩
  apply hw.update hstores hothers (fun _ _ => rfl)
  · rw [hself, size_insert_of_some hbefore]
    exact hcount
  · rw [hself, ← terms_rewrite .Revisions hbefore value, ← hcommit]
    rfl
  · exact fun hne => absurd rfl hne
  · exact fun _ => ⟨hshape, hper⟩
  · exact fits_insert hw hfits

theorem resolve_revision_spec (hw : InProgress w file metas c)
    (h : w.resolve_revision file id = .ok w') :
    (c.get (.page .Revisions id)).isSome ∧
      InProgress w' file metas (c.unset (.page .Revisions id)) ∧ Elsewhere w.tx w'.tx file := by
  obtain ⟨found, hfound, h⟩ := bind_eq_ok.mp h
  obtain ⟨old, hold, h⟩ := bind_eq_ok.mp h
  obtain ⟨tx', hdelete, h⟩ := bind_eq_ok.mp h
  cases h
  obtain ⟨-, rfl⟩ := get_eq_ok.mp hfound
  have hold := context_eq_ok.mp hold
  rw [hw.stores.row] at hold
  obtain ⟨before, hbefore, rfl⟩ := map_eq_some_iff.mp hold
  obtain ⟨hstores, helse⟩ := delete_value_spec hw.stores hdelete
  obtain ⟨hcount, hcommit, hshape, hper⟩ := hw.debt_entry
  obtain ⟨hself, hothers⟩ := pages_unset (c := c) .Revisions id
  refine ⟨by rw [hbefore]; rfl, ?_, helse⟩
  apply hw.update hstores hothers (fun _ _ => rfl)
  · rw [hself, size_erase_of_some hbefore, ofNat_pred (size_pos hbefore), ← hcount]
    rfl
  · rw [hself, terms_erase .Revisions hbefore, ← hcommit]
    rfl
  · exact fun hne => absurd rfl hne
  · exact fun _ => ⟨hshape, hper⟩
  · exact fits_erase hw

theorem add_revision_spec (hw : InProgress w file metas c)
    (hfree : c.get (.page .Revisions id) = none) (h : w.add_revision file id value = .ok w') :
    Fits (.page .Revisions id) value ∧
      InProgress w' file metas (c.set (.page .Revisions id) value) ∧ Elsewhere w.tx w'.tx file := by
  obtain ⟨⟨written, tx'⟩, hwrite, h⟩ := bind_eq_ok.mp h
  cases h
  obtain ⟨hfits, rfl, hstores, helse⟩ := write_value_spec hw.stores hwrite
  obtain ⟨hcount, hcommit, hshape, hper⟩ := hw.debt_entry
  obtain ⟨hself, hothers⟩ := pages_set (c := c) .Revisions id value
  refine ⟨hfits, ?_, helse⟩
  apply hw.update hstores hothers (fun _ _ => rfl)
  · rw [hself, size_insert_of_none hfree, ofNat_succ, ← hcount]
    rfl
  · rw [hself, ← terms_add .Revisions hfree value, ← hcommit]
    rfl
  · exact fun hne => absurd rfl hne
  · exact fun _ => ⟨hshape, hper⟩
  · exact fits_insert hw hfits

/-- No revision has an id that is still to be given. -/
def Below (c : Content) (next : UInt64) : Prop :=
  ∀ id, (c.get (.page .Revisions id)).isSome → id < next.toNat

theorem toNat_succ {n : UInt64} (h : n.toNat < 2 ^ 63) : (n + 1).toNat = n.toNat + 1 := by
  rw [UInt64.toNat_add, toNat_one]
  omega

variable {next : UInt64}

theorem add_revisions_spec {values : List Bytes} {last : UInt64} {ids : List Nat}
    {w w' : Work out} {c : Content} (hw : InProgress w file metas c) (hbelow : Below c next)
    (h : Work.add_revisions file next values w = .ok (last, ids, w')) :
    ids = (numbered next values).map Prod.fst ∧ last = next + UInt64.ofNat values.length ∧
      (∀ e ∈ numbered next values, Fits (.page .Revisions e.1) e.2) ∧
      InProgress w' file metas
        ((numbered next values).foldl (fun c e => c.set (.page .Revisions e.1) e.2) c) ∧
      Below ((numbered next values).foldl (fun c e => c.set (.page .Revisions e.1) e.2) c) last ∧
      Elsewhere w.tx w'.tx file := by
  induction values generalizing w c next ids with
  | nil =>
    obtain ⟨rfl, hrest⟩ := Prod.mk.inj (Except.ok.inj h)
    obtain ⟨rfl, rfl⟩ := Prod.mk.inj hrest
    exact ⟨rfl, by simp, by simp [numbered], hw, hbelow, Elsewhere.refl w.tx file⟩
  | cons value values ih =>
    obtain ⟨w1, hadd, h⟩ := bind_eq_ok.mp h
    obtain ⟨⟨last', ids', w2⟩, hrest, h⟩ := bind_eq_ok.mp h
    obtain ⟨rfl, hids⟩ := Prod.mk.inj (Except.ok.inj h)
    cases hids
    have hfree : c.get (.page .Revisions next.toNat) = none := by
      by_contra hsome
      exact absurd (hbelow _ (isSome_iff_ne_none.mpr hsome)) (lt_irrefl _)
    obtain ⟨hfits, hw1, helse⟩ := add_revision_spec hw hfree hadd
    have hnext := toNat_succ (hfits.1 : next.toNat < 2 ^ 63)
    have hbelow1 : Below (c.set (.page .Revisions next.toNat) value) (next + 1) := by
      intro id hid
      rw [Content.get_set] at hid
      by_cases heq : Place.page .Revisions id = .page .Revisions next.toNat
      · have := (Place.page.inj heq).2
        omega
      · rw [if_neg heq] at hid
        have := hbelow id hid
        omega
    obtain ⟨rfl, rfl, hfits', hw2, hbelow2, helse'⟩ := ih hw1 hbelow1 hrest
    refine ⟨rfl, ?_, forall_mem_cons.mpr ⟨hfits, hfits'⟩, hw2, hbelow2, helse.trans helse'⟩
    rw [length_cons, ofNat_succ, UInt64.add_assoc, UInt64.add_comm 1]

omit [DecidableEq File] in
/-- The debt's entry, written again over the same rows. -/
theorem InProgress.restate (hw : InProgress w file metas c) {entry : Membership}
    (hpages : entry.pages = (debt_member w.table).pages)
    (hcommit : entry.commit = (debt_member w.table).commit)
    (hshape : entry.«meta».shape = (debt_member w.table).«meta».shape)
    (hper : entry.«meta».elements_per_page = (debt_member w.table).«meta».elements_per_page) :
    InProgress ⟨w.tx, w.table.insert .Revisions entry⟩ file metas c := by
  obtain ⟨h1, h2, h3, h4⟩ := hw.debt_entry
  apply hw.update hw.stores (fun _ _ => rfl) (fun _ _ => rfl) (hpages.trans h1)
    (hcommit.trans h2)
  · exact fun hne => absurd rfl hne
  · exact fun _ => ⟨hshape.trans h3, hper.trans h4⟩
  · exact hw.fits .Revisions

theorem Below.set (h : Below c next) (hid : (c.get (.page .Revisions id)).isSome) (value : Bytes) :
    Below (c.set (.page .Revisions id) value) next := by
  intro other hother
  rw [get_set] at hother
  by_cases heq : Place.page .Revisions other = .page .Revisions id
  · rw [(Place.page.inj heq).2]
    exact h id hid
  · rw [if_neg heq] at hother
    exact h other hother

theorem Below.unset (h : Below c next) (id : Nat) :
    Below (c.unset (.page .Revisions id)) next := by
  intro other hother
  rw [get_unset] at hother
  by_cases heq : Place.page .Revisions other = .page .Revisions id
  · rw [if_pos heq] at hother
    cases hother
  · rw [if_neg heq] at hother
    exact h other hother

theorem observe_spec {o : Observation} {common common' : Common} {ids : List Nat}
    (hw : InProgress w file metas c) (hbelow : Below c common.next_revision_id)
    (h : w.observe file common o = .ok (ids, common', w')) :
    ids = (numbered common.next_revision_id o.added).map Prod.fst ∧
      common' = ⟨o.representation, o.summary,
        common.next_revision_id + UInt64.ofNat o.added.length, o.inventory.or common.inventory⟩ ∧
      (∀ e ∈ numbered common.next_revision_id o.added, Fits (.page .Revisions e.1) e.2) ∧
      InProgress w' file metas (o.applied common.next_revision_id c) ∧
      Below (o.applied common.next_revision_id c) common'.next_revision_id ∧
      Elements w'.table ∧ Elsewhere w.tx w'.tx file := by
  obtain ⟨w1, hreplaced, h⟩ := bind_eq_ok.mp h
  obtain ⟨w2, hresolved, h⟩ := bind_eq_ok.mp h
  obtain ⟨⟨next, ids', w3⟩, hadded, h⟩ := bind_eq_ok.mp h
  obtain ⟨rfl, hrest⟩ := Prod.mk.inj (Except.ok.inj h)
  cases hrest
  have hw0 := (hw.restate rfl rfl rfl rfl :
    InProgress ⟨w.tx, w.table.insert .Revisions (debt_member w.table)⟩ file metas c)
  obtain ⟨-, hw1, helse1, hbelow1⟩ := fold_steps
    (fun c e => c.set (.page .Revisions e.1) e.2) (fun _ => True) (fun _ c => Below c common.next_revision_id)
    (fun e _ _ _ _ hprogress hstep => by
      obtain ⟨hthere, hnext, helse⟩ := replace_revision_spec hprogress hstep
      exact ⟨trivial, hnext, helse, fun hbelow => hbelow.set hthere e.2⟩) hw0 hbelow hreplaced
  obtain ⟨-, hw2, helse2, hbelow2⟩ := fold_steps
    (fun c e => c.unset (.page .Revisions e.1)) (fun _ => True) (fun _ c => Below c common.next_revision_id)
    (fun e _ _ _ _ hprogress hstep => by
      obtain ⟨-, hnext, helse⟩ := resolve_revision_spec hprogress hstep
      exact ⟨trivial, hnext, helse, fun hbelow => hbelow.unset e.1⟩) hw1 hbelow1 hresolved
  obtain ⟨rfl, rfl, hfits, hw3, hbelow3, helse3⟩ := add_revisions_spec hw2 hbelow2 hadded
  refine ⟨rfl, rfl, hfits, hw3.restate rfl rfl rfl rfl, hbelow3, ?_,
    (helse1.trans helse2).trans helse3⟩
  intro m hm
  simp only [get?_insert_self] at hm
  cases hm
  rfl

end

end ottto_service.state_v2.tail
