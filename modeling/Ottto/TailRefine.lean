-- The Tail store refines the views of its files: every write, retirement, move
-- and erasure does to the rows what it does to the view, and a load of the rows
-- is the view.
import Ottto.TailWrite

namespace ottto_service.state_v2.tail

open Results List Option SortedMap Function View StagedFile Tx

section

variable {File : Type} {out : Outside File}

/-! ## The table of a finished write -/

theorem size_le {pages : SortedMap Nat Bytes} {n : Nat}
    (h : ∀ position value, pages.get? position = some value → position < n) : pages.size ≤ n := by
  have hnodup : pages.keys.Nodup := by
    unfold SortedMap.keys
    rw [nodup_iff_pairwise_ne, pairwise_map]
    exact pages.sorted.imp (fun hlt => ne_of_lt hlt)
  have hsub : pages.keys ⊆ List.range n := by
    intro position hposition
    obtain ⟨e, he, rfl⟩ := mem_map.mp hposition
    exact mem_range.mpr (h e.1 e.2 (mem_entries.mp he))
  have hle := (hnodup.subperm hsub).length_le
  rwa [length_range, SortedMap.keys, length_map] at hle

variable {file : File} {metas : SortedMap Collection CollectionMeta} {c : Content} {w : Work out}

theorem InProgress.size_lt (hw : InProgress w file metas c) (col : Collection) :
    (c.pages col).size < 2 ^ 64 := by
  have hle : (c.pages col).size ≤ 2 ^ 63 :=
    size_le (fun position value hvalue => (hw.fits col position value hvalue).1)
  omega

/-- The entry of the debt is there with no rows, or not at all, exactly when
there are no revisions. -/
theorem InProgress.debt_empty (hw : InProgress w file metas c) :
    ((w.table.get? .Revisions).any (fun m => m.pages == 0) = true ∨
      w.table.get? .Revisions = none) ↔ (c.pages .Revisions).isEmpty = true := by
  have hlt := hw.size_lt .Revisions
  rw [SortedMap.isEmpty_iff]
  constructor
  · rintro (hany | hnone)
    · cases hm : w.table.get? .Revisions with
      | none => exact hw.covers .Revisions hm
      | some m =>
        rw [hm] at hany
        obtain ⟨hpages, -⟩ := hw.counts .Revisions m hm
        have hzero : m.pages = 0 := by simpa using hany
        rw [hpages] at hzero
        have hsize := congrArg UInt64.toNat hzero
        rw [UInt64.toNat_ofNat', Nat.mod_eq_of_lt hlt] at hsize
        exact ext_entries (length_eq_zero_iff.mp hsize)
    · exact hw.covers .Revisions hnone
  · intro hempty
    cases hm : w.table.get? .Revisions with
    | none => exact .inr rfl
    | some m =>
      left
      obtain ⟨hpages, -⟩ := hw.counts .Revisions m hm
      rw [hempty] at hpages
      simp only [any_some, hpages]
      rfl

/-- Without an empty entry for the debt, the table is that of the view. -/
theorem InProgress.table_eq {v : View} (hw : InProgress w file v.metas c)
    (hpages : c.pages = v.pages) (helements : Elements w.table)
    (hdebt : v.metas.get? .Revisions = none) :
    (if (w.table.get? .Revisions).any (fun m => m.pages == 0) then w.table.erase .Revisions
      else w.table) = v.table out := by
  have hempty := hw.debt_empty
  rw [hpages] at hempty
  ext col : 1
  rw [get?_table hdebt]
  have hother : col ≠ .Revisions → w.table.get? col =
      (v.metas.get? col).map (fun found => membership out col found (v.pages col)) := by
    intro hcol
    rw [← hw.metas col hcol]
    cases hm : w.table.get? col with
    | none => rfl
    | some m =>
      obtain ⟨h1, h2⟩ := hw.counts col m hm
      rw [hpages] at h1 h2
      obtain ⟨found, pages, commit⟩ := m
      simp only at h1 h2
      rw [h1, h2]
      rfl
  by_cases hany : (w.table.get? .Revisions).any (fun m => m.pages == 0) = true
  · rw [if_pos hany, get?_erase, if_pos (hempty.mp (.inl hany))]
    by_cases hcol : col = .Revisions
    · rw [if_pos hcol, if_pos hcol]
    · rw [if_neg hcol, if_neg hcol, hother hcol]
  · rw [if_neg hany]
    by_cases hcol : col = .Revisions
    · rw [if_pos hcol, hcol]
      cases hm : w.table.get? .Revisions with
      | none => rw [if_pos (hempty.mp (.inr hm))]
      | some m =>
        have hsome : ¬ (v.pages .Revisions).isEmpty = true := by
          intro hnone
          rcases hempty.mpr hnone with hzero | hgone
          · exact hany hzero
          · rw [hm] at hgone
            cases hgone
        rw [if_neg hsome]
        obtain ⟨h1, h2⟩ := hw.counts .Revisions m hm
        obtain ⟨h3, h4⟩ := hw.debt m hm
        have h5 := helements m hm
        rw [hpages] at h1 h2
        obtain ⟨⟨shape, per, elements⟩, pages, commit⟩ := m
        simp only at h1 h2 h3 h4 h5
        rw [h5, h1, h2, h3, h4]
        rfl
    · rw [if_neg hcol, hother hcol]

variable {tx : Tx out}

/-- The stored table describes the stored pages. -/
theorem View.in_progress {v : View} {head : Option Bytes} (hv : v.Valid)
    (hstores : Stores tx file ⟨head, v.pages⟩) :
    InProgress ⟨tx, v.table out⟩ file v.metas ⟨head, v.pages⟩ ∧ Elements (v.table out) := by
  have hget := @View.get?_table _ out v hv.metas_debt
  refine ⟨⟨hstores, ?_, ?_, ?_, ?_, hv.fits⟩, ?_⟩
  · intro col m hm
    simp only [hget] at hm
    by_cases hcol : col = .Revisions
    · rw [if_pos hcol] at hm
      by_cases hnone : (v.pages .Revisions).isEmpty = true
      · rw [if_pos hnone] at hm
        cases hm
      · rw [if_neg hnone] at hm
        cases hm
        rw [hcol]
        exact ⟨rfl, rfl⟩
    · rw [if_neg hcol] at hm
      obtain ⟨found, -, rfl⟩ := map_eq_some_iff.mp hm
      exact ⟨rfl, rfl⟩
  · intro col hm
    simp only [hget] at hm
    by_cases hcol : col = .Revisions
    · rw [if_pos hcol] at hm
      by_cases hnone : (v.pages .Revisions).isEmpty = true
      · rw [hcol]
        exact SortedMap.isEmpty_iff.mp hnone
      · rw [if_neg hnone] at hm
        cases hm
    · rw [if_neg hcol] at hm
      exact hv.named col hcol (map_eq_none_iff.mp hm)
  · intro col hcol
    simp only [hget, if_neg hcol]
    cases v.metas.get? col <;> rfl
  · intro m hm
    simp only [hget, if_true] at hm
    by_cases hnone : (v.pages .Revisions).isEmpty = true
    · rw [if_pos hnone] at hm
      cases hm
    · rw [if_neg hnone] at hm
      cases hm
      exact ⟨rfl, rfl⟩
  · intro m hm
    simp only [hget, if_true] at hm
    by_cases hnone : (v.pages .Revisions).isEmpty = true
    · rw [if_pos hnone] at hm
      cases hm
    · rw [if_neg hnone] at hm
      cases hm
      rfl

/-! ## The debt rebuilt from its rows -/

variable [DecidableEq File]

/-- The debt's table after this many revisions with these terms. -/
def debtTable (count : Nat) (commit : BitVec 256) : MembershipTable :=
  if count = 0 then .empty
  else SortedMap.empty.insert .Revisions
    ⟨⟨.Slot, 1, UInt64.ofNat count⟩, UInt64.ofNat count, commit⟩

omit [DecidableEq File] in
theorem count_revision_eq {e : Nat × Row} {count : Nat} {commit : BitVec 256} {next : UInt64}
    (hzero : count = 0 → commit = 0) (hbound : e.1 < 2 ^ 63) (hbelow : e.1 < next.toNat) :
    count_revision out (debtTable count commit, next) e =
      (debtTable (count + 1) (commit ^^^ term out .Revisions e.1 e.2), next) := by
  have hmember : debt_member (debtTable count commit) =
      ⟨⟨.Slot, 1, UInt64.ofNat count⟩, UInt64.ofNat count, commit⟩ := by
    unfold debtTable debt_member
    by_cases hcount : count = 0
    · rw [if_pos hcount, hcount, hzero hcount]
      rfl
    · rw [if_neg hcount, get?_insert_self]
      rfl
  have hinsert : ∀ entry : Membership, (debtTable count commit).insert .Revisions entry =
      SortedMap.empty.insert .Revisions entry := by
    intro entry
    unfold debtTable
    by_cases hcount : count = 0
    · rw [if_pos hcount]
    · rw [if_neg hcount, insert_insert]
  have hnext : max next (UInt64.ofNat e.1 + 1) = next := by
    have htoNat : (UInt64.ofNat e.1).toNat = e.1 := by
      rw [UInt64.toNat_ofNat', Nat.mod_eq_of_lt (by omega)]
    have hsucc : (UInt64.ofNat e.1 + 1).toNat = e.1 + 1 := by
      rw [toNat_succ (by omega), htoNat]
    show (if next ≤ UInt64.ofNat e.1 + 1 then UInt64.ofNat e.1 + 1 else next) = next
    by_cases hle : next ≤ UInt64.ofNat e.1 + 1
    · rw [if_pos hle]
      rw [UInt64.le_iff_toNat_le] at hle
      apply UInt64.toNat_inj.mp
      omega
    · rw [if_neg hle]
  simp only [count_revision, hmember, hinsert, hnext]
  rw [debtTable, if_neg (Nat.succ_ne_zero count), ofNat_succ]

omit [DecidableEq File] in
theorem foldl_count_revision (rows : List (Nat × Row)) (count : Nat) (commit : BitVec 256)
    (next : UInt64) (hzero : count = 0 → commit = 0)
    (hrows : ∀ e ∈ rows, e.1 < 2 ^ 63 ∧ e.1 < next.toNat) :
    rows.foldl (count_revision out) (debtTable count commit, next) =
      (debtTable (count + rows.length)
        ((rows.map (fun e => term out .Revisions e.1 e.2)).foldl (· ^^^ ·) commit), next) := by
  induction rows generalizing count commit with
  | nil => rfl
  | cons e rows ih =>
    obtain ⟨⟨hbound, hbelow⟩, hrest⟩ := forall_mem_cons.mp hrows
    rw [foldl_cons, count_revision_eq hzero hbound hbelow,
      ih (count + 1) _ (fun hnone => absurd hnone (Nat.succ_ne_zero count)) hrest, length_cons,
      map_cons, foldl_cons, Nat.add_assoc, Nat.add_comm 1]

omit [DecidableEq File] in
theorem committed_debt_spec {tx : Tx out} {view : Option View} (h : Represents tx file view) :
    tx.committed_debt file =
      .ok ((view.getD {}).revision, (view.getD {}).bare.table out, (view.getD {}).common) := by
  have hvalid := h.valid
  obtain ⟨head, hstores⟩ := h.stores
  have hhead : ((view.map (View.decoded out)).getD {}).revision = (view.getD {}).revision ∧
      ((view.map (View.decoded out)).getD {}).common = (view.getD {}).common := by
    cases view <;> exact ⟨rfl, rfl⟩
  have hrows := hstores.page .Revisions
  have hentries : ∀ e ∈ (tx.page file .Revisions).entries,
      e.1 < 2 ^ 63 ∧ e.1 < (view.getD {}).common.next_revision_id.toNat := by
    intro e he
    have hget := mem_entries.mp he
    rw [hrows, get?_mapValues] at hget
    obtain ⟨value, hvalue, -⟩ := Option.map_eq_some_iff.mp hget
    exact ⟨(hvalid.fits .Revisions e.1 value hvalue).1,
      hvalid.ids e.1 (Option.isSome_iff_exists.mpr ⟨value, hvalue⟩)⟩
  have hfold := @foldl_count_revision File out (tx.page file .Revisions).entries 0 0
    (view.getD {}).common.next_revision_id (fun _ => rfl) hentries
  have hterms : ((tx.page file .Revisions).entries.map
      (fun e => term out .Revisions e.1 e.2)).foldl (· ^^^ ·) 0 =
      terms out .Revisions ((view.getD {}).pages .Revisions) := by
    rw [hrows]
    unfold terms SortedMap.mapValues
    rw [List.map_map]
    rfl
  have hlength : (tx.page file .Revisions).entries.length =
      ((view.getD {}).pages .Revisions).size := by
    rw [hrows]
    exact length_map _
  have htable : debtTable ((view.getD {}).pages .Revisions).size
      (terms out .Revisions ((view.getD {}).pages .Revisions)) = (view.getD {}).bare.table out := by
    have hbare : (view.getD {}).bare.pages .Revisions = (view.getD {}).pages .Revisions := by
      simp [View.bare]
    unfold debtTable View.table
    rw [hbare]
    by_cases hempty : ((view.getD {}).pages .Revisions).isEmpty = true
    · rw [if_pos hempty, SortedMap.isEmpty_iff.mp hempty]
      rfl
    · have hsize : ((view.getD {}).pages .Revisions).size ≠ 0 := by
        intro hzero
        exact hempty (isEmpty_iff.mpr (length_eq_zero_iff.mp hzero))
      rw [if_neg hempty, if_neg hsize]
      rfl
  rw [hterms, hlength, Nat.zero_add, htable] at hfold
  refine bind_eq_ok.mpr ⟨_, read_head_spec h, ?_⟩
  simp only [hhead]
  rw [show (SortedMap.empty : MembershipTable) = debtTable 0 0 from rfl, hfold]

/-! ## A draft and the view it is of -/

structure Draft.Shows (d : Draft out) (file : File) (v : View) : Prop where
  revision : d.revision = v.revision
  common : d.common = v.common
  reduction : d.reduction = v.reduction
  metas_debt : v.metas.get? .Revisions = none
  bare : v.reduction = none → v.metas = .empty
  below : ∀ id, ((v.pages .Revisions).get? id).isSome → id < v.common.next_revision_id.toNat
  work : ∃ head, InProgress d.work file v.metas ⟨head, v.pages⟩
  elements : Elements d.work.table

omit [DecidableEq File] in
theorem Draft.Shows.valid {d : Draft out} {v : View} (h : d.Shows file v) : v.Valid := by
  obtain ⟨head, hw⟩ := h.work
  refine ⟨h.metas_debt, ?_, h.bare, hw.fits, h.below⟩
  intro col hcol hnone
  rw [← hw.metas col hcol] at hnone
  exact hw.covers col (map_eq_none_iff.mp hnone)

variable {view : Option View}

theorem draft_spec (h : Represents tx file view) (reset : Bool) :
    ∃ d, tx.draft file reset = .ok d ∧
      d.Shows file (if reset then (view.getD {}).bare else view.getD {}) ∧
      Elsewhere tx d.work.tx file := by
  have hvalid := h.valid
  obtain ⟨head, hstores⟩ := h.stores
  cases reset with
  | true =>
    obtain ⟨hkept, helse⟩ := delete_rows_spec hstores true
    have hdebt : Content.debt ⟨head, (view.getD {}).pages⟩ true =
        ⟨none, (view.getD {}).bare.pages⟩ := by
      simp [Content.debt, View.bare]
    rw [hdebt] at hkept
    have hbare := bare_valid hvalid
    obtain ⟨hw, helements⟩ := in_progress hbare hkept
    refine ⟨_, bind_eq_ok.mpr ⟨_, committed_debt_spec h, rfl⟩, ?_, helse⟩
    exact ⟨rfl, rfl, rfl, rfl, fun _ => rfl, hbare.ids, ⟨none, hw⟩, helements⟩
  | false =>
    obtain ⟨hw, helements⟩ := in_progress hvalid hstores
    have hhead : (view.map (View.decoded out)).getD {} = (view.getD {}).decoded out := by
      cases view with
      | none => rfl
      | some v => rfl
    refine ⟨_, bind_eq_ok.mpr ⟨_, read_head_spec h, rfl⟩, ?_, Elsewhere.refl tx file⟩
    simp only [hhead]
    exact ⟨rfl, rfl, rfl, hvalid.metas_debt, hvalid.bare, hvalid.ids, ⟨head, hw⟩, helements⟩

/-- Acts on pages act alike whatever the head. -/
theorem foldl_pages {ι : Type} {act : Content → ι → Content}
    (hact : ∀ head pages i, act ⟨head, pages⟩ i = ⟨head, (act ⟨none, pages⟩ i).pages⟩)
    (inputs : List ι) (head : Option Bytes) (pages : Collection → SortedMap Nat Bytes) :
    inputs.foldl act ⟨head, pages⟩ = ⟨head, (inputs.foldl act ⟨none, pages⟩).pages⟩ := by
  induction inputs generalizing pages with
  | nil => rfl
  | cons i inputs ih =>
    have hnone := hact none pages i
    rw [foldl_cons, hact, ih, foldl_cons, hnone]

theorem StagedFile.applied_pages (s : StagedFile) (head : Option Bytes)
    (pages : Collection → SortedMap Nat Bytes) :
    s.applied ⟨head, pages⟩ = ⟨head, (s.applied { pages }).pages⟩ := by
  unfold StagedFile.applied
  rw [foldl_pages (fun _ _ _ => rfl), foldl_pages (fun _ _ _ => rfl)]
  conv_rhs => rw [foldl_pages (fun _ _ _ => rfl) s.obsolete.entries]

theorem Observation.applied_pages (o : Observation) (next : UInt64) (head : Option Bytes)
    (pages : Collection → SortedMap Nat Bytes) :
    o.applied next ⟨head, pages⟩ = ⟨head, (o.applied next { pages }).pages⟩ := by
  unfold Observation.applied
  rw [foldl_pages (fun _ _ _ => rfl), foldl_pages (fun _ _ _ => rfl),
    foldl_pages (fun _ _ _ => rfl)]
  conv_rhs => rw [foldl_pages (fun _ _ _ => rfl) o.replaced.entries,
    foldl_pages (fun _ _ _ => rfl) o.resolved.entries]

/-- What a stage holds of a place. -/
theorem StagedFile.get_applied (s : StagedFile) (c : Content) (col : Collection) (position : Nat) :
    (s.applied c).get (.page col position) =
      match s.pages.get? (toLex (col, position)) with
      | some value => some value
      | none => if (s.obsolete.get? (toLex (col, position))).isSome then none
        else c.get (.page col position) := by
  have hdrops : ∀ (l : List ((Collection ×ₗ Nat) × Unit)) (c : Content),
      (l.foldl (fun c e => c.unset (.page (ofLex e.1).1 (ofLex e.1).2)) c).get (.page col position) =
        if (SortedMap.lookupEntry (toLex (col, position)) l).isSome then none
        else c.get (.page col position) := by
    intro l
    induction l with
    | nil => intro c; rfl
    | cons e l ih =>
      intro c
      obtain ⟨key, u⟩ := e
      rw [foldl_cons, ih, Content.get_unset, SortedMap.lookupEntry]
      by_cases hkey : toLex (col, position) = key
      · subst hkey
        simp
      · have hplace : Place.page col position ≠ .page (ofLex key).1 (ofLex key).2 := by
          intro heq
          apply hkey
          cases heq
          rfl
        rw [if_neg hplace, if_neg hkey]
  have hwrites : ∀ (l : List ((Collection ×ₗ Nat) × Bytes)), l.Pairwise (fun a b => a.1 < b.1) →
      ∀ c : Content,
      (l.foldl (fun c e => c.set (.page (ofLex e.1).1 (ofLex e.1).2) e.2) c).get (.page col position) =
        (SortedMap.lookupEntry (toLex (col, position)) l).or (c.get (.page col position)) := by
    intro l
    induction l with
    | nil => intro _ c; rfl
    | cons e l ih =>
      intro hsorted c
      obtain ⟨key, value⟩ := e
      obtain ⟨hhead, htail⟩ := pairwise_cons.mp hsorted
      rw [foldl_cons, ih htail, Content.get_set, SortedMap.lookupEntry]
      by_cases hkey : toLex (col, position) = key
      · subst hkey
        rw [if_pos rfl, lookupEntry_eq_none_of_lt hhead]
        simp
      · have hplace : Place.page col position ≠ .page (ofLex key).1 (ofLex key).2 := by
          intro heq
          apply hkey
          cases heq
          rfl
        rw [if_neg hplace, if_neg hkey]
  unfold StagedFile.applied
  rw [hwrites _ s.pages.sorted, hdrops]
  unfold SortedMap.get?
  cases SortedMap.lookupEntry (toLex (col, position)) s.pages.entries with
  | none => rfl
  | some value => rfl

variable {s : StagedFile}

/-- A stage that names no debt leaves the revisions as they are. -/
theorem StagedFile.applied_debt (h : .Revisions ∉ s.names)
    (pages : Collection → SortedMap Nat Bytes) :
    (s.applied { pages }).pages .Revisions = pages .Revisions := by
  obtain ⟨-, hobsolete, hpages⟩ := not_debt h
  ext id : 1
  have hget := s.get_applied { pages } .Revisions id
  have hnone : s.pages.get? (toLex (.Revisions, id)) = none := by
    by_contra hsome
    obtain ⟨value, hvalue⟩ := ne_none_iff_exists'.mp hsome
    exact hpages _ (mem_entries.mpr hvalue) rfl
  have hkept : ¬ (s.obsolete.get? (toLex (.Revisions, id))).isSome = true := by
    intro hsome
    obtain ⟨u, hu⟩ := isSome_iff_exists.mp hsome
    exact hobsolete _ (mem_entries.mpr hu) rfl
  rw [hnone] at hget
  simp only [if_neg hkept] at hget
  exact hget

variable {d d' : Draft out} {v : View}

theorem Draft.stage_spec (hd : d.Shows file v) (h : d.stage file s = .ok d') :
    s.Accepted (v.metas.extend s.collections) ∧ d'.Shows file (v.stage s) ∧
      Elsewhere d.work.tx d'.work.tx file := by
  obtain ⟨work, happly, h⟩ := bind_eq_ok.mp h
  cases h
  obtain ⟨head, hw⟩ := hd.work
  obtain ⟨haccepted, hwork, helse, hdebt⟩ := apply_stage_spec hw happly
  rw [applied_pages] at hwork
  have hnames := (not_debt haccepted.no_debt).1
  refine ⟨haccepted, ⟨rfl, ?_, rfl, ?_, ?_, ?_, ⟨head, hwork⟩, ?_⟩, helse⟩
  · rw [hd.common]
    rfl
  · show (v.metas.extend s.collections).get? .Revisions = none
    rw [get?_extend, hd.metas_debt, or_none]
    by_contra hsome
    obtain ⟨found, hfound⟩ := ne_none_iff_exists'.mp hsome
    exact hnames _ (mem_entries.mpr hfound) rfl
  · intro hnone
    cases hnone
  · show ∀ id, (((s.applied { pages := v.pages }).pages .Revisions).get? id).isSome → _
    rw [applied_debt haccepted.no_debt]
    exact hd.below
  · intro m hm
    rw [hdebt] at hm
    exact hd.elements m hm

theorem Draft.observe_spec {o : Observation} {ids : List Nat} (hd : d.Shows file v)
    (h : d.observe file o = .ok (ids, d')) :
    ids = (numbered v.common.next_revision_id o.added).map Prod.fst ∧
      (∀ e ∈ numbered v.common.next_revision_id o.added, Fits (.page .Revisions e.1) e.2) ∧
      d'.Shows file (v.observe o) ∧ Elsewhere d.work.tx d'.work.tx file := by
  obtain ⟨⟨ids', common, work⟩, hobserve, h⟩ := bind_eq_ok.mp h
  cases h
  obtain ⟨head, hw⟩ := hd.work
  have hbelow : Below ⟨head, v.pages⟩ d.common.next_revision_id := by
    rw [hd.common]
    exact hd.below
  obtain ⟨rfl, rfl, hfits, hwork, hbelow', helements, helse⟩ :=
    tail.observe_spec hw hbelow hobserve
  rw [hd.common] at hwork hbelow' hfits ⊢
  rw [Observation.applied_pages] at hwork hbelow'
  refine ⟨rfl, hfits, ⟨hd.revision, ?_, hd.reduction, hd.metas_debt, hd.bare, hbelow',
    ⟨head, hwork⟩, helements⟩, helse⟩
  rfl

theorem Draft.settle_spec (hd : d.Shows file v) :
    (d.settle file).Shows file v.settle ∧ Elsewhere d.work.tx (d.settle file).work.tx file := by
  unfold Draft.settle View.settle
  rw [hd.common, hd.reduction]
  by_cases hgoes : v.common.representation ≠ .Tail ∧ v.reduction.isSome
  · rw [if_pos hgoes, if_pos hgoes]
    obtain ⟨head, hw⟩ := hd.work
    obtain ⟨hkept, helse⟩ := delete_rows_spec hw.stores true
    have hdebt : Content.debt ⟨head, v.pages⟩ true = ⟨none, v.bare.pages⟩ := by
      simp [Content.debt, View.bare]
    rw [hdebt] at hkept
    have hrevisions : v.bare.pages .Revisions = v.pages .Revisions := by simp [View.bare]
    have hget : ∀ col, (d.work.table.filterKeys (fun c => decide (c = .Revisions))).get? col =
        if col = .Revisions then d.work.table.get? .Revisions else none := by
      intro col
      rw [get?_filterKeys]
      by_cases hcol : col = .Revisions
      · simp only [hcol, decide_true, if_true]
      · simp only [hcol, decide_false, if_false, Bool.false_eq_true]
    refine ⟨⟨hd.revision, rfl, rfl, rfl, fun _ => rfl, ?_, ⟨none, hkept, ?_, ?_, ?_, ?_, ?_⟩, ?_⟩,
      helse⟩
    · exact hd.below
    · intro col m hm
      simp only [hget] at hm
      by_cases hcol : col = .Revisions
      · rw [if_pos hcol] at hm
        rw [hcol]
        have hcounts := hw.counts .Revisions m hm
        simp only at hcounts ⊢
        rwa [hrevisions]
      · rw [if_neg hcol] at hm
        cases hm
    · intro col hm
      simp only [hget] at hm
      by_cases hcol : col = .Revisions
      · rw [if_pos hcol] at hm
        rw [hcol]
        exact hw.covers .Revisions hm
      · exact if_neg hcol
    · intro col hcol
      simp only [hget, if_neg hcol]
      rfl
    · intro m hm
      simp only [hget, if_true] at hm
      exact hw.debt m hm
    · exact (bare_valid hd.valid).fits
    · intro m hm
      simp only [hget, if_true] at hm
      exact hd.elements m hm
  · rw [if_neg hgoes, if_neg hgoes]
    exact ⟨hd, Elsewhere.refl d.work.tx file⟩

omit [DecidableEq File] in
/-- The same rows, and the file's marker or not. -/
theorem clear_set_aside_same (tx : Tx out) (file other : File) :
    SameRows tx (tx.clear_set_aside file) other := ⟨rfl, rfl, rfl⟩

/-- No other file's rows differ. -/
def OtherFiles (tx tx' : Tx out) (file : File) : Prop :=
  ∀ other, other ≠ file → SameRows tx tx' other

variable {tx' : Tx out}

theorem Draft.write_spec {staged : Bool} (hd : d.Shows file v) (h : d.write file staged = .ok tx') :
    Represents tx' file v.kept ∧ OtherFiles d.work.tx tx' file ∧
      tx'.set_aside = (if staged ∧ v.reduction.isSome then d.work.tx.clear_set_aside file
        else d.work.tx).set_aside := by
  obtain ⟨head, hw⟩ := hd.work
  have htable := hw.table_eq rfl hd.elements hd.metas_debt
  have hcleared : ∃ tx : Tx out, (if staged = true ∧ d.reduction.isSome = true then
      d.work.tx.clear_set_aside file else d.work.tx) = tx ∧ Stores tx file ⟨head, v.pages⟩ ∧
      ∀ other, SameRows d.work.tx tx other := by
    by_cases hclears : staged = true ∧ d.reduction.isSome = true
    · rw [if_pos hclears]
      exact ⟨_, rfl, hw.stores.of_same (clear_set_aside_same _ _ _),
        fun other => clear_set_aside_same _ _ _⟩
    · rw [if_neg hclears]
      exact ⟨_, rfl, hw.stores, fun _ => ⟨rfl, rfl, rfl⟩⟩
  obtain ⟨tx, htx, hstores, hsame⟩ := hcleared
  have hdebt : (v.table out).get? .Revisions = none ↔ (v.pages .Revisions).isEmpty = true := by
    rw [get?_table hd.metas_debt, if_pos rfl]
    by_cases hempty : (v.pages .Revisions).isEmpty = true <;> simp [hempty]
  have hothers : ∀ {tx' : Tx out}, Elsewhere tx tx' file → OtherFiles d.work.tx tx' file := by
    intro tx' helse other hne
    have h1 := hsame other
    have h2 := helse.same hne
    exact ⟨h2.head.trans h1.head, h2.page.trans h1.page, h2.frag.trans h1.frag⟩
  rw [hd.reduction] at htx
  unfold Draft.write at h
  simp only [htable, hd.common, hd.reduction, hd.revision, isNone_iff_eq_none,
    hdebt] at h
  unfold View.kept
  simp only [isNone_iff_eq_none]
  rw [htx] at h ⊢
  by_cases hgoes : v.reduction = none ∧ (v.pages .Revisions).isEmpty = true ∧
      v.common.inventory = none
  · rw [if_pos hgoes] at h ⊢
    cases h
    obtain ⟨hkept, helse⟩ := delete_rows_spec hstores false
    have hnothing : Content.debt ⟨head, v.pages⟩ false = {} := by
      simp [Content.debt]
    exact ⟨hkept, hothers helse, rfl⟩
  · rw [if_neg hgoes] at h ⊢
    obtain ⟨bytes, hbytes, h⟩ := bind_eq_ok.mp h
    obtain ⟨⟨row, tx2⟩, hwrite, h⟩ := bind_eq_ok.mp h
    cases h
    obtain ⟨hfits, -, hwritten, helse⟩ := write_value_spec hstores hwrite
    exact ⟨⟨hd.valid, bytes, hbytes, hfits, hwritten⟩, hothers helse, helse.set_aside⟩

/-! ## Each operation and its view -/

/-- The view a stage is applied to. -/
def View.before (view : Option View) (staged : Option StagedFile) : View :=
  if staged.any (fun s => s.change == .Reset) then (view.getD {}).bare else view.getD {}

theorem write_file_spec {staged : Option StagedFile}
    {debt : Option Observation} {ids : List Nat} (hv : Represents tx file view)
    (h : tx.write_file file staged debt = .ok (ids, tx')) :
    Represents tx' file (View.write view staged debt) ∧ OtherFiles tx tx' file ∧
      ids = View.given view debt ∧
      tx'.set_aside = (if staged.isSome ∧ (View.written view staged debt).reduction.isSome then
        tx.clear_set_aside file else tx).set_aside ∧
      (∀ s, staged = some s → s.Accepted ((View.before view staged).metas.extend s.collections)) ∧
      ∀ o, debt = some o → ∀ e ∈ numbered (view.getD {}).common.next_revision_id o.added,
        Fits (.page .Revisions e.1) e.2 := by
  obtain ⟨d0, hdraft, h⟩ := bind_eq_ok.mp h
  obtain ⟨d1, hstage, h⟩ := bind_eq_ok.mp h
  obtain ⟨⟨ids', d2⟩, hobserve, h⟩ := bind_eq_ok.mp h
  obtain ⟨tx3, hwrite, h⟩ := bind_eq_ok.mp h
  obtain ⟨rfl, rfl⟩ := Prod.mk.inj (Except.ok.inj h)
  obtain ⟨d, hd, hshows, helse⟩ := draft_spec hv (staged.any (fun s => s.change == .Reset))
  rw [hdraft] at hd
  obtain rfl := Except.ok.inj hd
  have hnext : (View.before view staged).common.next_revision_id =
      (view.getD {}).common.next_revision_id := by
    unfold View.before View.bare
    split_ifs <;> rfl
  -- the stage
  have h1 : d1.Shows file ((staged.map (View.before view staged).stage).getD
      (View.before view staged)) ∧ Elsewhere d0.work.tx d1.work.tx file ∧
      ∀ s, staged = some s → s.Accepted ((View.before view staged).metas.extend s.collections) := by
    cases staged with
    | none =>
      obtain rfl := Except.ok.inj hstage
      exact ⟨hshows, Elsewhere.refl d0.work.tx file, by simp⟩
    | some s =>
      obtain ⟨haccepted, hshows1, helse1⟩ := Draft.stage_spec hshows hstage
      exact ⟨hshows1, helse1, fun s' hs' => Option.some.inj hs' ▸ haccepted⟩
  obtain ⟨hshows1, helse1, haccepted⟩ := h1
  have hnext1 : ((staged.map (View.before view staged).stage).getD
      (View.before view staged)).common.next_revision_id =
      (view.getD {}).common.next_revision_id := by
    rw [← hnext]
    cases staged <;> rfl
  -- the debt
  have h2 : d2.Shows file ((debt.map ((staged.map (View.before view staged).stage).getD
      (View.before view staged)).observe).getD ((staged.map (View.before view staged).stage).getD
      (View.before view staged))) ∧ Elsewhere d1.work.tx d2.work.tx file ∧
      ids' = View.given view debt ∧
      ∀ o, debt = some o → ∀ e ∈ numbered (view.getD {}).common.next_revision_id o.added,
        Fits (.page .Revisions e.1) e.2 := by
    cases debt with
    | none =>
      cases hobserve
      exact ⟨hshows1, Elsewhere.refl d1.work.tx file, rfl, by simp⟩
    | some o =>
      obtain ⟨hids, hfits, hshows2, helse2⟩ := Draft.observe_spec hshows1 hobserve
      rw [hnext1] at hids hfits
      exact ⟨hshows2, helse2, hids, fun o' ho' => Option.some.inj ho' ▸ hfits⟩
  obtain ⟨hshows2, helse2, hids, hfits⟩ := h2
  obtain ⟨hshows3, helse3⟩ := Draft.settle_spec hshows2
  obtain ⟨hrepresents, hothers, hset_aside⟩ := Draft.write_spec hshows3 hwrite
  have hall := ((helse.trans helse1).trans helse2).trans helse3
  refine ⟨hrepresents, ?_, hids, ?_, haccepted, hfits⟩
  · intro other hne
    have h1 := hall.same hne
    have h2 := hothers other hne
    exact ⟨h2.head.trans h1.head, h2.page.trans h1.page, h2.frag.trans h1.frag⟩
  · rw [hset_aside]
    by_cases hclears : staged.isSome = true ∧ (View.written view staged debt).reduction.isSome = true
    · rw [if_pos hclears]
      refine (congrArg set_aside (if_pos hclears)).trans ?_
      unfold clear_set_aside
      simp only [hall.set_aside]
    · rw [if_neg hclears]
      exact (congrArg set_aside (if_neg hclears)).trans hall.set_aside

theorem retire_spec {keep : Bool}
    (hv : Represents tx file view) (h : tx.retire file = .ok (keep, tx')) :
    Represents tx' file (View.retire view) ∧ OtherFiles tx tx' file ∧
      tx'.set_aside = tx.set_aside ∧ keep = (View.retire view).isSome := by
  obtain ⟨⟨revision, table, common⟩, hdebt, h⟩ := bind_eq_ok.mp h
  rw [committed_debt_spec hv] at hdebt
  obtain ⟨rfl, hrest⟩ := Prod.mk.inj (Except.ok.inj hdebt)
  cases hrest
  obtain ⟨head, hstores⟩ := hv.stores
  have hbare : (view.getD {}).bare.Valid := bare_valid hv.valid
  have hempty : ((view.getD {}).bare.table out).isEmpty =
      ((view.getD {}).bare.pages .Revisions).isEmpty := by
    rw [Bool.eq_iff_iff, SortedMap.isEmpty_iff, eq_empty_iff]
    constructor
    · intro hall
      have hnone := hall .Revisions
      rw [get?_table hbare.metas_debt, if_pos rfl] at hnone
      by_contra hsome
      rw [if_neg hsome] at hnone
      cases hnone
    · intro hnone col
      rw [get?_table hbare.metas_debt]
      by_cases hcol : col = .Revisions
      · rw [if_pos hcol, if_pos hnone]
      · rw [if_neg hcol]
        rfl
  simp only [hempty] at h
  unfold View.retire
  obtain ⟨hkept, helse⟩ := delete_rows_spec hstores (!((view.getD {}).bare.pages .Revisions).isEmpty)
  by_cases hnone : ((view.getD {}).bare.pages .Revisions).isEmpty = true
  · simp only [hnone, Bool.not_true, Bool.false_eq_true, if_false, if_true] at h hkept helse ⊢
    cases h
    have hnothing : Content.debt ⟨head, (view.getD {}).pages⟩ false = {} := by
      simp [Content.debt]
    exact ⟨hkept, fun other hne => helse.same hne, helse.set_aside, rfl⟩
  · simp only [hnone, Bool.not_false, Bool.false_eq_true, if_false, if_true] at h hkept helse ⊢
    obtain ⟨bytes, hbytes, h⟩ := bind_eq_ok.mp h
    obtain ⟨⟨row, tx2⟩, hwrite, h⟩ := bind_eq_ok.mp h
    cases h
    have hdebt : Content.debt ⟨head, (view.getD {}).pages⟩ true =
        ⟨none, (view.getD {}).bare.pages⟩ := by
      simp [Content.debt, View.bare]
    rw [hdebt] at hkept
    obtain ⟨hfits, -, hwritten, helse2⟩ := write_value_spec hkept hwrite
    have hall := helse.trans helse2
    exact ⟨⟨hbare, bytes, hbytes, hfits, hwritten⟩, fun other hne => hall.same hne,
      hall.set_aside, rfl⟩

theorem erase_spec (hv : Represents tx file view) :
    Represents (tx.erase file) file none ∧ OtherFiles tx (tx.erase file) file := by
  obtain ⟨head, hstores⟩ := hv.stores
  obtain ⟨hkept, helse⟩ := delete_rows_spec hstores false
  have hnothing : Content.debt ⟨head, (view.getD {}).pages⟩ false = {} := by
    simp [Content.debt]
  refine ⟨hkept.of_same (clear_set_aside_same _ _ _), ?_⟩
  intro other hne
  have h1 := helse.same hne
  exact ⟨h1.head, h1.page, h1.frag⟩

omit [DecidableEq File] in
theorem View.move_valid {v : View} (h : v.Valid) (head : Bytes) (inventory : InventoryFacts) :
    (v.move head inventory).Valid where
  metas_debt := h.metas_debt
  named := h.named
  bare := fun hnone => h.bare (map_eq_none_iff.mp hnone)
  fits := h.fits
  ids := h.ids

omit [DecidableEq File] in
theorem move_set_aside_same {source target : File}
    (h : tx.move_set_aside source target = .ok tx') (file : File) : SameRows tx tx' file := by
  unfold move_set_aside at h
  cases hmarker : tx.set_aside (out.set_aside_key source) with
  | none =>
    rw [hmarker] at h
    cases h
    exact ⟨rfl, rfl, rfl⟩
  | some marker =>
    rw [hmarker] at h
    obtain ⟨_, -, h⟩ := bind_eq_ok.mp h
    cases h
    exact ⟨rfl, rfl, rfl⟩

omit [DecidableEq File] in
/-- A file without a head has no rows; one with a head has a view. -/
theorem head_eq_none (h : Represents tx file view) :
    tx.head file = none ↔ view = none := by
  cases view with
  | none => exact ⟨fun _ => rfl, fun _ => Stores.row h .head⟩
  | some v =>
    obtain ⟨-, bytes, -, -, hstores⟩ := h
    have hrow : tx.head file = some (stored out bytes) := hstores.row .head
    rw [hrow]
    simp

theorem move_tail_spec {carry : Tx.PathCarry File} {target : File}
    {source_view target_view : Option View} (hsource : Represents tx carry.source source_view)
    (htarget : Represents tx target target_view) (h : tx.move_tail target carry = .ok tx') :
    ∃ v, source_view = some v ∧ target_view = none ∧ carry.source ≠ target ∧
      Represents tx' target (some (v.move carry.head carry.inventory)) ∧
      Represents tx' carry.source none ∧
      ∀ other, other ≠ carry.source → other ≠ target → SameRows tx tx' other := by
  obtain ⟨read, hread, h⟩ := bind_eq_ok.mp h
  obtain ⟨head, hhead, h⟩ := bind_eq_ok.mp h
  obtain ⟨_, hfree, h⟩ := bind_eq_ok.mp h
  obtain ⟨_, -, h⟩ := bind_eq_ok.mp h
  obtain ⟨_, -, h⟩ := bind_eq_ok.mp h
  obtain ⟨moved, hmarker, h⟩ := bind_eq_ok.mp h
  obtain ⟨bytes, hbytes, h⟩ := bind_eq_ok.mp h
  obtain ⟨⟨row, written⟩, hwrite, hdelete⟩ := bind_eq_ok.mp h
  rw [read_head_spec hsource] at hread
  cases hread
  obtain ⟨v, rfl, rfl⟩ := map_eq_some_iff.mp (context_eq_ok.mp hhead)
  have hnone := (head_eq_none htarget).mp (isNone_iff_eq_none.mp (ensure_eq_ok.mp hfree))
  subst hnone
  have hne : carry.source ≠ target := by
    intro heq
    have h1 := (head_eq_none htarget).mpr rfl
    rw [← heq] at h1
    cases (head_eq_none hsource).mp h1
  obtain ⟨hvalid, old, -, -, hstores⟩ := hsource
  obtain ⟨hbut, hpage, hfrag, hothers⟩ := rekey_spec hstores htarget hne
  have hsame := move_set_aside_same hmarker
  have hbut' : StoresBut moved target ⟨some old, v.pages⟩ .head := by
    refine ⟨?_, ?_⟩
    · intro place hplace
      rw [← hbut.row place hplace]
      cases place with
      | head => exact absurd rfl hplace
      | page col position => simp only [Tx.row, (hsame target).page]
    · intro owner position number hother
      rw [(hsame target).frag]
      exact hbut.frag owner position number hother
  obtain ⟨hfits, -, hwritten, helse⟩ := write_value_but hbut' hwrite
  obtain ⟨helse', hfrag', hrow'⟩ := delete_spec hdelete
  refine ⟨v, rfl, rfl, hne, ?_, ?_, ?_⟩
  · refine Represents.of_same (?_ : Represents written target
      (some (v.move carry.head carry.inventory))) (helse'.same hne.symm)
    exact ⟨move_valid hvalid carry.head carry.inventory, bytes, hbytes, hfits, hwritten⟩
  · constructor
    · intro place
      rw [hrow']
      cases place with
      | head => rfl
      | page col position =>
        simp only [Tx.row, helse.page _ hne, (hsame carry.source).page, hpage]
        rfl
    · intro owner position number
      rw [hfrag', helse.frag _ hne, (hsame carry.source).frag, hfrag]
      cases placeOf owner position with
      | none => rfl
      | some place => cases place <;> rfl
  · intro other h1 h2
    have ha := hothers other h1 h2
    have hb := hsame other
    have hc := helse.same h2
    have hd := helse'.same h1
    exact ⟨((hd.head.trans hc.head).trans hb.head).trans ha.head,
      ((hd.page.trans hc.page).trans hb.page).trans ha.page,
      ((hd.frag.trans hc.frag).trans hb.frag).trans ha.frag⟩

/-! ## Loading -/

omit [DecidableEq File] in
theorem load_head_spec (h : Represents tx file view) (revision : UInt32) (generation : Nat) :
    tx.load_head file revision generation = match view with
      | none => .ok none
      | some v => if v.revision ≤ revision then
          .ok (some ⟨v.revision, v.table out, v.reduction.getD [], v.common, v.reduction.isNone,
            generation⟩)
        else .error .Future := by
  unfold load_head
  rw [read_head_spec h]
  cases view with
  | none => rfl
  | some v =>
    by_cases hrevision : v.revision ≤ revision
    · simp only [map_some, if_pos hrevision]
      refine bind_eq_ok.mpr ⟨_, rfl, bind_eq_ok.mpr ⟨(), ?_, rfl⟩⟩
      exact ensure_eq_ok.mpr (decide_eq_true hrevision)
    · simp [bind, Except.bind, ensure, View.decoded, hrevision]

omit [DecidableEq File] in
/-- A collection streams as its pages, and its membership agrees. -/
theorem stream_collection_spec {v : View} {head : Option Bytes} (hv : v.Valid)
    (hstores : Stores tx file ⟨head, v.pages⟩) {found : Tx.TailHead}
    (htable : found.table = v.table out) (col : Collection) :
    tx.stream_collection file found col =
      .ok ((v.pages col).entries.map (fun e => (col, e.1, e.2))) := by
  have hrows := hstores.page col
  obtain ⟨hw, -⟩ := in_progress hv hstores
  have hvisited : (tx.page file col).entries.mapM (fun e => do
      let bytes ← tx.read_value file (.page col e.1) e.2
      .ok (col, e.1, bytes)) =
      (.ok ((v.pages col).entries.map (fun e => (col, e.1, e.2))) : Except Fault _) := by
    rw [hrows]
    apply mapM_ok
    unfold SortedMap.mapValues
    rw [forall₂_map_left_iff, forall₂_map_right_iff, forall₂_same]
    intro e he
    have hget := mem_entries.mp he
    have hvalue : Content.get ⟨head, v.pages⟩ (.page col e.1) = some e.2 := hget
    exact bind_eq_ok.mpr ⟨e.2, read_value_spec hstores hvalue (hv.fits col e.1 e.2 hget).2, rfl⟩
  have hcommit : (tx.page file col).entries.foldl
      (fun commit e => commit ^^^ term out col e.1 e.2) 0 = terms out col (v.pages col) := by
    rw [hrows]
    unfold terms SortedMap.mapValues
    rw [foldl_map, foldl_map]
  have hlength : (tx.page file col).entries.length = (v.pages col).size := by
    rw [hrows]
    exact length_map _
  refine bind_eq_ok.mpr ⟨_, hvisited, bind_eq_ok.mpr ⟨(), ?_, rfl⟩⟩
  apply ensure_eq_ok.mpr
  apply decide_eq_true
  rw [hcommit, hlength, htable]
  cases hm : (v.table out).get? col with
  | none =>
    have hempty := hw.covers col hm
    simp only at hempty
    rw [hempty]
    exact ⟨rfl, rfl⟩
  | some m =>
    obtain ⟨h1, h2⟩ := hw.counts col m hm
    exact ⟨h1.symm, h2.symm⟩

omit [DecidableEq File] in
theorem stream_spec {v : View} (h : Represents tx file (some v))
    {found : Tx.TailHead} (htable : found.table = v.table out) (cols : List Collection) :
    tx.stream file found found.generation cols =
      .ok (cols.flatMap (fun col => (v.pages col).entries.map (fun e => (col, e.1, e.2)))) := by
  obtain ⟨hv, bytes, -, -, hstores⟩ := h
  have hvisited : cols.mapM (tx.stream_collection file found) =
      .ok (cols.map (fun col => (v.pages col).entries.map (fun e => (col, e.1, e.2)))) := by
    apply mapM_ok
    rw [forall₂_map_right_iff, forall₂_same]
    intro col _
    exact stream_collection_spec hv hstores htable col
  refine bind_eq_ok.mpr ⟨(), ensure_eq_ok.mpr (decide_eq_true rfl), ?_⟩
  refine bind_eq_ok.mpr ⟨_, hvisited, ?_⟩
  rw [← flatMap_def]

/-! ## Runs -/

inductive Step (File : Type)
  | write_file (file : File) (staged : Option StagedFile) (debt : Option Observation)
  | retire (file : File)
  | erase (file : File)
  | move_tail (target : File) (carry : Tx.PathCarry File)

def Tx.step (tx : Tx out) : Step File → Except Fault (Tx out)
  | .write_file file staged debt => do
    let (_, tx) ← tx.write_file file staged debt
    .ok tx
  | .retire file => do
    let (_, tx) ← tx.retire file
    .ok tx
  | .erase file => .ok (tx.erase file)
  | .move_tail target carry => tx.move_tail target carry

/-- What a step does to the views of the files. -/
def View.step (views : File → Option View) : Step File → File → Option View
  | .write_file file staged debt =>
    Function.update views file (View.write (views file) staged debt)
  | .retire file => Function.update views file (View.retire (views file))
  | .erase file => Function.update views file none
  | .move_tail target carry =>
    Function.update (Function.update views target
      ((views carry.source).map (fun v => v.move carry.head carry.inventory))) carry.source none

variable {views : File → Option View}

theorem represents_update (hviews : ∀ file, Represents tx file (views file))
    (hfile : Represents tx' file view) (hothers : OtherFiles tx tx' file) (other : File) :
    Represents tx' other (Function.update views file view other) := by
  by_cases hother : other = file
  · rw [hother, update_self]
    exact hfile
  · rw [update_of_ne hother]
    exact (hviews other).of_same (hothers other hother)

theorem step_spec {step : Step File}
    (hviews : ∀ file, Represents tx file (views file)) (h : tx.step step = .ok tx') (file : File) :
    Represents tx' file (View.step views step file) := by
  cases step with
  | write_file written staged debt =>
    obtain ⟨⟨ids, tx1⟩, hwrite, h⟩ := bind_eq_ok.mp h
    cases h
    obtain ⟨hwritten, hothers, -⟩ := write_file_spec (hviews written) hwrite
    exact represents_update hviews hwritten hothers file
  | retire retired =>
    obtain ⟨⟨keep, tx1⟩, hretire, h⟩ := bind_eq_ok.mp h
    cases h
    obtain ⟨hretired, hothers, -⟩ := retire_spec (hviews retired) hretire
    exact represents_update hviews hretired hothers file
  | erase erased =>
    cases h
    obtain ⟨herased, hothers⟩ := erase_spec (hviews erased)
    exact represents_update hviews herased hothers file
  | move_tail target carry =>
    obtain ⟨v, hsource, -, hne, htarget, hgone, hothers⟩ :=
      move_tail_spec (hviews carry.source) (hviews target) h
    show Represents tx' file (Function.update (Function.update views target
      ((views carry.source).map (fun v => v.move carry.head carry.inventory))) carry.source none file)
    by_cases hfrom : file = carry.source
    · subst hfrom
      rw [update_self]
      exact hgone
    · rw [update_of_ne hfrom]
      by_cases hto : file = target
      · rw [hto, update_self, hsource]
        exact htarget
      · rw [update_of_ne hto]
        exact (hviews file).of_same (hothers file hfrom hto)

theorem steps_spec {steps : List (Step File)}
    (hviews : ∀ file, Represents tx file (views file)) (h : steps.foldlM Tx.step tx = .ok tx') :
    ∀ file, Represents tx' file (steps.foldl View.step views file) := by
  induction steps generalizing tx views with
  | nil =>
    cases h
    exact hviews
  | cons step steps ih =>
    obtain ⟨tx1, hstep, hrest⟩ := bind_eq_ok.mp h
    exact ih (step_spec hviews hstep) hrest

omit [DecidableEq File] in
theorem represents_empty (file : File) : Represents ({} : Tx out) file none := by
  constructor
  · intro place
    cases place <;> rfl
  · intro owner position number
    cases placeOf owner position with
    | none => rfl
    | some place => cases place <;> rfl

/-- After any steps, each file loads as its view: the pages of its reduction
and the unresolved revisions, with their last bytes. -/
theorem loads_are_the_views (steps : List (Step File)) (tx : Tx out)
    (h : steps.foldlM Tx.step {} = .ok tx) (file : File) (revision : UInt32) (generation : Nat) :
    match steps.foldl View.step (fun _ => none) file with
    | none => tx.load_head file revision generation = .ok none
    | some v =>
      if v.revision ≤ revision then
        ∃ head, tx.load_head file revision generation = .ok (some head) ∧
          head.revision = v.revision ∧ head.common = v.common ∧
          head.body = v.reduction.getD [] ∧ head.metadata_only = v.reduction.isNone ∧
          tx.load_revisions file head generation = .ok (v.pages .Revisions).entries ∧
          (head.metadata_only = false → tx.load_pages file head generation =
            .ok ((Collection.ALL.filter (fun c => c ≠ .Revisions)).flatMap
              (fun c => (v.pages c).entries.map (fun e => (c, e.1, e.2)))))
      else tx.load_head file revision generation = .error .Future := by
  have hview := steps_spec represents_empty h file
  cases hv : steps.foldl View.step (fun _ => none) file with
  | none =>
    rw [hv] at hview
    exact load_head_spec hview revision generation
  | some v =>
    rw [hv] at hview
    have hload := load_head_spec hview revision generation
    by_cases hrevision : v.revision ≤ revision
    · simp only [if_pos hrevision] at hload ⊢
      refine ⟨_, hload, rfl, rfl, rfl, rfl, ?_, ?_⟩
      · refine bind_eq_ok.mpr ⟨_, stream_spec hview rfl [.Revisions], ?_⟩
        simp
      · intro hreduction
        refine bind_eq_ok.mpr ⟨(), ensure_eq_ok.mpr (by rw [hreduction]; rfl), ?_⟩
        exact stream_spec hview rfl _
    · simp only [if_neg hrevision] at hload ⊢
      exact hload

end

theorem some_inverts_id (bytes : Bytes) : some (id bytes) = some bytes := rfl

/-- Files named by numbers, values too short to compress, and a small hash. -/
def smallOutside : Outside Nat where
  Digest := Nat
  digestEq := instDecidableEqNat
  frag_file := id
  frag_file_injective := injective_id
  set_aside_key := id
  set_aside_key_injective := injective_id
  compress := id
  decompress := some
  decompress_compress := some_inverts_id
  stored_digest := fun _ bytes => bytes
  sha256 := fun bytes =>
    BitVec.ofNat 256 (bytes.foldl (fun hash byte => (hash * 257 + byte.toNat) % 2 ^ 256) 1)

/-- Two pages. -/
def twoPages : StagedFile where
  revision := 1
  head := [1, 2, 3]
  collections := SortedMap.empty.insert .Responses ⟨.Slot, 8, 2⟩
  pages := (SortedMap.empty.insert (toLex (.Responses, 0)) [10, 11]).insert
    (toLex (.Responses, 1)) [12]
  obsolete := .empty
  change := .Ordinary

/-- A file with two pages and two revisions becomes an archive with one, and moves. -/
theorem a_moved_archive_keeps_its_debt :
    ∃ tx : Tx smallOutside, [Step.write_file 0 (some twoPages) (some { added := [[7], [8]] }),
        .write_file 0 none (some { representation := .Archive, resolved := SortedMap.empty.insert 0 () }),
        .move_tail 1 ⟨0, [], ⟨"codex", none, ⟨1, 2, 3, (4, 5)⟩, 6⟩⟩].foldlM Tx.step {} = .ok tx ∧
      tx.load_head 0 1 9 = .ok none ∧
      ∃ head, tx.load_head 1 1 9 = .ok (some head) ∧ head.metadata_only = true ∧
        tx.load_revisions 1 head 9 = .ok [(1, [8])] := by
  have hran : ([Step.write_file 0 (some twoPages) (some { added := [[7], [8]] }),
      .write_file 0 none (some { representation := .Archive, resolved := SortedMap.empty.insert 0 () }),
      .move_tail 1 ⟨0, [], ⟨"codex", none, ⟨1, 2, 3, (4, 5)⟩, 6⟩⟩].foldlM Tx.step
        ({} : Tx smallOutside)).toOption.isSome = true := by decide +kernel
  obtain ⟨tx, htx⟩ := isSome_iff_exists.mp hran
  have htx := toOption_eq_some.mp htx
  have hgone := loads_are_the_views _ tx htx 0 1 9
  have hmoved := loads_are_the_views _ tx htx 1 1 9
  obtain ⟨head, hload, -, -, -, honly, hrevisions, -⟩ := hmoved
  exact ⟨tx, htx, hgone, head, hload, honly, hrevisions⟩

end ottto_service.state_v2.tail
