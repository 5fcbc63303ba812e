-- The ids of revisions (snapshots/state_v2/tail.rs): the allocator is in the
-- file's head, and goes with it when the head goes.
import Ottto.TailRefine

namespace ottto_service.state_v2.tail

open Results List Option SortedMap View

/-! ## The ids one write gives -/

theorem numbered_ids {values : List Bytes} {next : UInt64}
    (h : ∀ e ∈ numbered next values, e.1 < 2 ^ 63) :
    ((numbered next values).map Prod.fst).Nodup ∧
      (∀ id ∈ (numbered next values).map Prod.fst, next.toNat ≤ id ∧
        id < (next + UInt64.ofNat values.length).toNat) ∧
      (next + UInt64.ofNat values.length).toNat = next.toNat + values.length := by
  induction values generalizing next with
  | nil => simp [numbered]
  | cons value values ih =>
    obtain ⟨hfirst, hrest⟩ := forall_mem_cons.mp h
    have hsucc := toNat_succ (hfirst : next.toNat < 2 ^ 63)
    obtain ⟨hnodup, hbetween, hlast⟩ := ih hrest
    have hend : next + UInt64.ofNat (value :: values).length =
        next + 1 + UInt64.ofNat values.length := by
      rw [length_cons, ofNat_succ, UInt64.add_assoc, UInt64.add_comm 1]
    rw [hend]
    refine ⟨?_, ?_, ?_⟩
    · apply nodup_cons.mpr
      refine ⟨?_, hnodup⟩
      intro hmem
      have := (hbetween _ hmem).1
      omega
    · intro id hid
      rw [numbered, map_cons, mem_cons] at hid
      rcases hid with rfl | hid
      · omega
      · have := hbetween id hid
        omega
    · rw [hlast, length_cons]
      omega

/-! ## A head that stays -/

section

variable {c : Content}

variable {id : Nat}

theorem get_foldl_set (entries : List (Nat × Bytes))
    (h : (c.get (.page .Revisions id)).isSome ∨ id ∈ entries.map Prod.fst) :
    ((entries.foldl (fun c e => c.set (.page .Revisions e.1) e.2) c).get
      (.page .Revisions id)).isSome := by
  induction entries generalizing c with
  | nil => simpa using h
  | cons e entries ih =>
    apply ih
    rw [Content.get_set]
    by_cases hid : Place.page .Revisions id = .page .Revisions e.1
    · rw [if_pos hid]
      exact .inl rfl
    · rw [if_neg hid]
      rcases h with hthere | hmem
      · exact .inl hthere
      · rcases mem_cons.mp hmem with heq | hrest
        · exact absurd (by rw [heq]) hid
        · exact .inr hrest

theorem get_foldl_unset (entries : List (Nat × Unit))
    (hid : id ∉ entries.map Prod.fst) (h : (c.get (.page .Revisions id)).isSome) :
    ((entries.foldl (fun c e => c.unset (.page .Revisions e.1)) c).get
      (.page .Revisions id)).isSome := by
  induction entries generalizing c with
  | nil => exact h
  | cons e entries ih =>
    rw [map_cons, mem_cons, not_or] at hid
    apply ih hid.2
    rw [Content.get_unset, if_neg]
    · exact h
    · intro heq
      exact hid.1 (Place.page.inj heq).2

/-- A revision that is not resolved stays, and one that is added comes. -/
theorem Observation.applied_some {o : Observation} {next : UInt64}
    (h : ((c.get (.page .Revisions id)).isSome ∧ (o.resolved.get? id).isNone) ∨
      id ∈ (numbered next o.added).map Prod.fst) :
    ((o.applied next c).get (.page .Revisions id)).isSome := by
  unfold Observation.applied
  apply get_foldl_set
  rcases h with ⟨hthere, hkept⟩ | hadded
  · left
    apply get_foldl_unset
    · intro hmem
      obtain ⟨e, he, rfl⟩ := mem_map.mp hmem
      rw [mem_entries.mp he] at hkept
      cases hkept
    · exact get_foldl_set _ (.inl hthere)
  · exact .inr hadded

end

section

variable {File : Type} [DecidableEq File] {out : Outside File}

/-- A stage of one file, as a save applies it. -/
inductive Stage (File : Type)
  | write_file (file : File) (staged : Option StagedFile) (debt : Option Observation)
  | retire (file : File)

/-- The ids the stage gives in the file. -/
def Tx.stage (tx : Tx out) (file : File) : Stage File → Except Fault (List Nat × Tx out)
  | .write_file other staged debt => do
    let (ids, tx) ← tx.write_file other staged debt
    .ok (if other = file then ids else [], tx)
  | .retire other => do
    let (_, tx) ← tx.retire other
    .ok ([], tx)

/-- Every id given in the file, in order. -/
def Tx.stages (file : File) : List (Stage File) → Tx out → Except Fault (List Nat × Tx out)
  | [], tx => .ok ([], tx)
  | s :: rest, tx => do
    let (ids, tx) ← tx.stage file s
    let (more, tx) ← Tx.stages file rest tx
    .ok (ids ++ more, tx)

/-- The committed head of the file, or that of a file without one. -/
def Tx.committed (tx : Tx out) (file : File) : Decoded :=
  match tx.read_head file with
  | .ok (some head) => head
  | _ => {}

/-- What the representation of the head becomes. -/
def representation_after (head : Decoded) (staged : Option StagedFile) (debt : Option Observation) :
    Representation :=
  match debt with
  | some o => o.representation
  | none => if staged.isSome then .Tail else head.common.representation

/-- The stage leaves the file something for its head to stand for, or its
allocator never moved. -/
def Tx.Keeps (tx : Tx out) (file : File) : Stage File → Prop
  | .write_file other staged debt =>
    other ≠ file ∨ (tx.committed file).common.next_revision_id = 0 ∨
      ((staged.isSome ∨ (tx.committed file).reduction.isSome) ∧
        representation_after (tx.committed file) staged debt = .Tail) ∨
      (∃ id, ((tx.page file .Revisions).get? id).isSome ∧
        ∀ o, debt = some o → (o.resolved.get? id).isNone) ∨
      (tx.committed file).common.inventory.isSome ∨
      ∃ o, debt = some o ∧ (o.added ≠ [] ∨ o.inventory.isSome)
  | .retire other =>
    other ≠ file ∨ (tx.committed file).common.next_revision_id = 0 ∨
      ∃ id, ((tx.page file .Revisions).get? id).isSome

/-- Each stage keeps the head, in the store it is applied to. -/
def Tx.AllKeep (file : File) : List (Stage File) → Tx out → Prop
  | [], _ => True
  | s :: rest, tx => tx.Keeps file s ∧
    ∀ ids tx', tx.stage file s = .ok (ids, tx') → Tx.AllKeep file rest tx'

variable {file : File}

omit [DecidableEq File] in
theorem committed_eq {tx : Tx out} {view : Option View} (h : Represents tx file view) :
    tx.committed file = (view.map (View.decoded out)).getD {} := by
  unfold Tx.committed
  rw [read_head_spec h]
  cases view <;> rfl

omit [DecidableEq File] in
theorem committed_common {tx : Tx out} {view : Option View} (h : Represents tx file view) :
    (tx.committed file).common = (view.getD {}).common ∧
      (tx.committed file).reduction = (view.getD {}).reduction := by
  rw [committed_eq h]
  cases view <;> exact ⟨rfl, rfl⟩

omit [DecidableEq File] in
theorem revision_isSome {tx : Tx out} {view : Option View} (h : Represents tx file view) (id : Nat) :
    ((tx.page file .Revisions).get? id).isSome = (((view.getD {}).pages .Revisions).get? id).isSome := by
  obtain ⟨head, hstores⟩ := h.stores
  rw [hstores.page .Revisions, get?_mapValues, isSome_map]

/-! ## What a write leaves of the head -/

/-- The view a stage leaves, before the debt. -/
def View.after_stage (view : Option View) (staged : Option StagedFile) : View :=
  (staged.map (View.before view staged).stage).getD (View.before view staged)

theorem View.written_eq (view : Option View) (staged : Option StagedFile)
    (debt : Option Observation) :
    View.written view staged debt = ((debt.map (after_stage view staged).observe).getD
      (after_stage view staged)).settle := rfl

theorem View.settle_keeps (v : View) :
    v.settle.common = v.common ∧ v.settle.pages .Revisions = v.pages .Revisions := by
  unfold View.settle View.bare
  split_ifs <;> exact ⟨rfl, by simp⟩

theorem View.after_stage_common (view : Option View) (staged : Option StagedFile) :
    (after_stage view staged).common.next_revision_id =
        (view.getD {}).common.next_revision_id ∧
      (after_stage view staged).common.inventory = (view.getD {}).common.inventory := by
  unfold after_stage View.before View.bare
  cases staged with
  | none => exact ⟨rfl, rfl⟩
  | some s =>
    simp only [map_some, getD_some, View.stage]
    split_ifs <;> exact ⟨rfl, rfl⟩

variable {view : Option View} {staged : Option StagedFile}

theorem View.after_stage_revisions (h : ∀ s, staged = some s → .Revisions ∉ s.names) :
    (after_stage view staged).pages .Revisions = (view.getD {}).pages .Revisions := by
  have hbefore : (View.before view staged).pages .Revisions = (view.getD {}).pages .Revisions := by
    unfold View.before View.bare
    split_ifs <;> simp
  unfold after_stage
  cases hstaged : staged with
  | none =>
    rw [hstaged] at hbefore
    exact hbefore
  | some s =>
    rw [hstaged] at hbefore
    exact (StagedFile.applied_debt (h s hstaged) _).trans hbefore

theorem View.written_next (view : Option View) (staged : Option StagedFile)
    (debt : Option Observation) :
    (View.written view staged debt).common.next_revision_id =
      (view.getD {}).common.next_revision_id +
        UInt64.ofNat ((debt.map Observation.added).getD []).length := by
  rw [written_eq, (settle_keeps _).1]
  cases debt with
  | none => simpa using (after_stage_common view staged).1
  | some o =>
    show (after_stage view staged).common.next_revision_id + _ = _
    rw [(after_stage_common view staged).1]
    rfl

omit [DecidableEq File] in
theorem View.written_reduction {view : Option View} {staged : Option StagedFile}
    {debt : Option Observation} (h : staged.isSome ∨ (view.getD {}).reduction.isSome)
    (htail : representation_after ((view.map (View.decoded out)).getD {}) staged debt = .Tail) :
    (View.written view staged debt).reduction.isSome := by
  have hstage : (after_stage view staged).reduction.isSome := by
    unfold after_stage View.before
    cases staged with
    | some s => rfl
    | none =>
      rcases h with hstaged | hthere
      · cases hstaged
      · exact hthere
  have hboth : ((debt.map (after_stage view staged).observe).getD
      (after_stage view staged)).reduction.isSome ∧
      ((debt.map (after_stage view staged).observe).getD
        (after_stage view staged)).common.representation = .Tail := by
    cases debt with
    | some o => exact ⟨hstage, htail⟩
    | none =>
      refine ⟨hstage, ?_⟩
      cases staged with
      | some s => rfl
      | none =>
        have hrep : ((view.map (View.decoded out)).getD {}).common.representation =
            (view.getD {}).common.representation := by cases view <;> rfl
        simp only [representation_after] at htail
        rw [hrep] at htail
        exact htail
  rw [written_eq]
  unfold View.settle
  rw [if_neg (fun hgoes => hgoes.1 hboth.2)]
  exact hboth.1

variable {debt : Option Observation}

theorem View.written_unresolved (hnames : ∀ s, staged = some s → .Revisions ∉ s.names) {id : Nat}
    (h : (((view.getD {}).pages .Revisions).get? id).isSome)
    (hkept : ∀ o, debt = some o → (o.resolved.get? id).isNone) :
    (((View.written view staged debt).pages .Revisions).get? id).isSome := by
  rw [written_eq, (settle_keeps _).2]
  rw [← after_stage_revisions hnames] at h
  cases debt with
  | none => exact h
  | some o =>
    have hsome : ((o.applied (after_stage view staged).common.next_revision_id
        { pages := (after_stage view staged).pages }).get (.page .Revisions id)).isSome :=
      Observation.applied_some (.inl ⟨h, hkept o rfl⟩)
    exact hsome

theorem View.written_added {o : Observation} (h : o.added ≠ []) :
    ∃ id, (((View.written view staged (some o)).pages .Revisions).get? id).isSome := by
  rw [written_eq, (settle_keeps _).2]
  obtain ⟨value, values, hvalues⟩ := exists_cons_of_ne_nil h
  have hmem : (after_stage view staged).common.next_revision_id.toNat ∈
      (numbered (after_stage view staged).common.next_revision_id o.added).map Prod.fst := by
    rw [hvalues, numbered, map_cons]
    exact mem_cons_self
  have hsome : ((o.applied (after_stage view staged).common.next_revision_id
      { pages := (after_stage view staged).pages }).get (.page .Revisions _)).isSome :=
    Observation.applied_some (.inr hmem)
  exact ⟨_, hsome⟩

theorem View.written_inventory (h : (view.getD {}).common.inventory.isSome ∨
      ∃ o, debt = some o ∧ o.inventory.isSome) :
    (View.written view staged debt).common.inventory.isSome := by
  rw [written_eq, (settle_keeps _).1]
  have hinventory := (after_stage_common view staged).2
  cases debt with
  | none =>
    rcases h with hknown | ⟨o, ho, -⟩
    · simp only [map_none, getD_none, hinventory]
      exact hknown
    · cases ho
  | some o =>
    simp only [map_some, getD_some, View.observe, hinventory]
    rcases h with hknown | ⟨o', ho', hfacts⟩
    · cases o.inventory with
      | none => exact hknown
      | some facts => rfl
    · cases ho'
      obtain ⟨facts, hfacts⟩ := isSome_iff_exists.mp hfacts
      rw [hfacts]
      rfl

/-- The head stays for a reduction, a revision or inventory facts. -/
theorem View.kept_some {v : View} (h : v.reduction.isSome ∨
    (∃ id, ((v.pages .Revisions).get? id).isSome) ∨ v.common.inventory.isSome) :
    v.kept = some v := by
  unfold View.kept
  apply if_neg
  rintro ⟨h1, h2, h3⟩
  rcases h with hreduction | ⟨id, hid⟩ | hfacts
  · rw [isNone_iff_eq_none.mp h1] at hreduction
    cases hreduction
  · rw [SortedMap.isEmpty_iff.mp h2] at hid
    cases hid
  · rw [isNone_iff_eq_none.mp h3] at hfacts
    cases hfacts

/-! ## Runs -/

/-- The ids given so far differ, and the allocator is above them. -/
structure Allocated (view : Option View) (ids : List Nat) : Prop where
  nodup : ids.Nodup
  below : ∀ id ∈ ids, id < (view.getD {}).common.next_revision_id.toNat

variable {given : List Nat}

/-- More ids from the allocator, and the allocator behind them. -/
theorem Allocated.give {after : Option View} {values : List Bytes} (ha : Allocated view given)
    (hbound : ∀ e ∈ numbered (view.getD {}).common.next_revision_id values, e.1 < 2 ^ 63)
    (hafter : (after.getD {}).common.next_revision_id =
      (view.getD {}).common.next_revision_id + UInt64.ofNat values.length) :
    Allocated after (given ++ (numbered (view.getD {}).common.next_revision_id values).map Prod.fst) := by
  obtain ⟨hnodup, hbetween, hlast⟩ := numbered_ids hbound
  constructor
  · apply nodup_append.mpr
    refine ⟨ha.nodup, hnodup, ?_⟩
    rintro a hold b hnew rfl
    have h1 := ha.below a hold
    have h2 := (hbetween a hnew).1
    omega
  · intro id hid
    rw [hafter]
    rcases mem_append.mp hid with hold | hnew
    · have := ha.below id hold
      omega
    · exact (hbetween id hnew).2

variable {tx tx' : Tx out} {ids : List Nat}

theorem Allocated.write (hv : Represents tx file view)
    (ha : Allocated view given) (hkeeps : tx.Keeps file (.write_file file staged debt))
    (h : tx.write_file file staged debt = .ok (ids, tx')) :
    Allocated (View.write view staged debt) (given ++ ids) := by
  obtain ⟨-, -, rfl, -, haccepted, hfits⟩ := write_file_spec hv h
  have hnames : ∀ s, staged = some s → .Revisions ∉ s.names := fun s hs => (haccepted s hs).no_debt
  have hbound : ∀ e ∈ numbered (view.getD {}).common.next_revision_id
      ((debt.map Observation.added).getD []), e.1 < 2 ^ 63 := by
    cases debt with
    | none => simp [numbered]
    | some o => exact fun e he => (hfits o rfl e he).1
  have hids : View.given view debt = (numbered (view.getD {}).common.next_revision_id
      ((debt.map Observation.added).getD [])).map Prod.fst := by
    cases debt <;> rfl
  have hnext := written_next view staged debt
  rw [hids]
  -- a head that stays keeps the allocator
  have hstays : View.write view staged debt = some (View.written view staged debt) →
      Allocated (View.write view staged debt)
        (given ++ (numbered (view.getD {}).common.next_revision_id
          ((debt.map Observation.added).getD [])).map Prod.fst) := by
    intro hsome
    rw [hsome]
    exact ha.give hbound hnext
  obtain ⟨hcommon, hreduction⟩ := committed_common hv
  rcases hkeeps with hother | hfresh | ⟨hthere, htail⟩ | ⟨id, hid, hkept⟩ | hknown | ⟨o, rfl, hadded⟩
  · exact absurd rfl hother
  · -- nothing was given yet
    rw [hcommon] at hfresh
    have hnone : given = [] := by
      apply eq_nil_iff_forall_not_mem.mpr
      intro id hid
      have hbelow := ha.below id hid
      rw [hfresh] at hbelow
      exact Nat.not_lt_zero id hbelow
    cases hadded : (debt.map Observation.added).getD [] with
    | nil =>
      rw [hnone]
      exact ⟨nodup_nil, by simp [numbered]⟩
    | cons value values =>
      rw [← hadded]
      apply hstays
      apply kept_some
      right
      left
      cases debt with
      | none => cases hadded
      | some o =>
        apply written_added
        intro hempty
        simp only [map_some, getD_some, hempty] at hadded
        cases hadded
  · apply hstays
    apply kept_some
    rw [hreduction] at hthere
    rw [committed_eq hv] at htail
    exact .inl (written_reduction hthere htail)
  · apply hstays
    apply kept_some
    rw [revision_isSome hv] at hid
    exact .inr (.inl ⟨id, written_unresolved hnames hid hkept⟩)
  · apply hstays
    apply kept_some
    rw [hcommon] at hknown
    exact .inr (.inr (written_inventory (.inl hknown)))
  · apply hstays
    apply kept_some
    rcases hadded with hadded | hfacts
    · exact .inr (.inl (written_added hadded))
    · exact .inr (.inr (written_inventory (.inr ⟨o, rfl, hfacts⟩)))

omit [DecidableEq File] in
theorem Allocated.retire {tx : Tx out} {view : Option View} {given : List Nat}
    (hv : Represents tx file view) (ha : Allocated view given)
    (hkeeps : tx.Keeps file (.retire file)) : Allocated (View.retire view) given := by
  obtain ⟨hcommon, -⟩ := committed_common hv
  rcases hkeeps with hother | hfresh | ⟨id, hid⟩
  · exact absurd rfl hother
  · rw [hcommon] at hfresh
    have hnone : given = [] := by
      apply eq_nil_iff_forall_not_mem.mpr
      intro id hid
      have hbelow := ha.below id hid
      rw [hfresh] at hbelow
      exact Nat.not_lt_zero id hbelow
    rw [hnone]
    exact ⟨nodup_nil, by simp⟩
  · rw [revision_isSome hv] at hid
    have hsome : View.retire view = some (view.getD {}).bare := by
      unfold View.retire
      apply if_neg
      intro hempty
      rw [SortedMap.isEmpty_iff] at hempty
      simp only [View.bare, if_true] at hempty
      rw [hempty] at hid
      cases hid
    rw [hsome]
    exact ⟨ha.nodup, ha.below⟩

theorem stage_spec {s : Stage File}
    (hviews : ∀ other, ∃ view, Represents tx other view) (hv : Represents tx file view)
    (ha : Allocated view given) (hkeeps : tx.Keeps file s) (h : tx.stage file s = .ok (ids, tx')) :
    (∀ other, ∃ view, Represents tx' other view) ∧
      ∃ view', Represents tx' file view' ∧ Allocated view' (given ++ ids) := by
  have hall : ∀ {written : File} {view' : Option View}, Represents tx' written view' →
      OtherFiles tx tx' written → ∀ other, ∃ view, Represents tx' other view := by
    intro written view' hwritten hothers other
    by_cases hother : other = written
    · exact ⟨view', hother ▸ hwritten⟩
    · obtain ⟨view, hview⟩ := hviews other
      exact ⟨view, hview.of_same (hothers other hother)⟩
  cases s with
  | write_file written staged debt =>
    obtain ⟨⟨ids', tx1⟩, hwrite, h⟩ := bind_eq_ok.mp h
    cases h
    by_cases hfile : written = file
    · subst hfile
      obtain ⟨hwritten, hothers, -⟩ := write_file_spec hv hwrite
      rw [if_pos rfl]
      exact ⟨hall hwritten hothers, _, hwritten, ha.write hv hkeeps hwrite⟩
    · obtain ⟨view', hview'⟩ := hviews written
      obtain ⟨hwritten, hothers, -⟩ := write_file_spec hview' hwrite
      rw [if_neg hfile, append_nil]
      exact ⟨hall hwritten hothers, view, hv.of_same (hothers file (Ne.symm hfile)), ha⟩
  | retire retired =>
    obtain ⟨⟨keep, tx1⟩, hretire, h⟩ := bind_eq_ok.mp h
    cases h
    rw [append_nil]
    by_cases hfile : retired = file
    · subst hfile
      obtain ⟨hretired, hothers, -⟩ := retire_spec hv hretire
      exact ⟨hall hretired hothers, _, hretired, ha.retire hv hkeeps⟩
    · obtain ⟨view', hview'⟩ := hviews retired
      obtain ⟨hretired, hothers, -⟩ := retire_spec hview' hretire
      exact ⟨hall hretired hothers, view, hv.of_same (hothers file (Ne.symm hfile)), ha⟩

theorem stages_spec {stages : List (Stage File)} (hviews : ∀ other, ∃ view, Represents tx other view)
    (hv : Represents tx file view) (ha : Allocated view given) (hkeep : Tx.AllKeep file stages tx)
    (h : Tx.stages file stages tx = .ok (ids, tx')) : (given ++ ids).Nodup := by
  induction stages generalizing tx view given ids with
  | nil =>
    cases h
    rw [append_nil]
    exact ha.nodup
  | cons s stages ih =>
    obtain ⟨⟨first, tx1⟩, hstage, h⟩ := bind_eq_ok.mp h
    obtain ⟨⟨more, tx2⟩, hrest, h⟩ := bind_eq_ok.mp h
    cases h
    obtain ⟨hviews1, view1, hv1, ha1⟩ := stage_spec hviews hv ha hkeep.1 hstage
    have hnodup := ih hviews1 hv1 ha1 (hkeep.2 first tx1 hstage) hrest
    rwa [append_assoc] at hnodup

/-- Where each stage keeps the file's head, no id is given twice in the file. -/
theorem kept_heads_give_no_id_twice (file : File) (stages : List (Stage File)) (tx : Tx out)
    (ids : List Nat) (h : Tx.stages file stages {} = .ok (ids, tx))
    (hkeep : Tx.AllKeep file stages ({} : Tx out)) : ids.Nodup :=
  stages_spec (fun other => ⟨none, represents_empty other⟩) (represents_empty file)
    ⟨nodup_nil, by simp⟩ hkeep h

end

/-- An observation adds a revision. -/
def addOne (value : UInt8) : Stage Nat := .write_file 0 none (some { added := [[value]] })

/-- An observation resolves revision 0. -/
def resolveZero : Stage Nat :=
  .write_file 0 none (some { resolved := SortedMap.empty.insert 0 () })

theorem addOne_keeps (tx : Tx smallOutside) (value : UInt8) : tx.Keeps 0 (addOne value) :=
  .inr (.inr (.inr (.inr (.inr ⟨_, rfl, .inl (cons_ne_nil _ _)⟩))))

/-- With a revision left unresolved, the next one has a new id. -/
theorem a_kept_head_gives_new_ids :
    ∃ tx : Tx smallOutside,
      Tx.stages 0 [addOne 7, addOne 8, resolveZero, addOne 9] {} = .ok ([0, 1, 2], tx) ∧
        [0, 1, 2].Nodup := by
  have hran : (Tx.stages 0 [addOne 7, addOne 8, resolveZero, addOne 9]
      ({} : Tx smallOutside)).toOption.map Prod.fst = some [0, 1, 2] := by decide +kernel
  have hleft : (Tx.stages 0 [addOne 7, addOne 8] ({} : Tx smallOutside)).toOption.map
      (fun r => ((r.2.page 0 .Revisions).get? 1).isSome) = some true := by decide +kernel
  obtain ⟨⟨ids, tx⟩, hran, hids⟩ := map_eq_some_iff.mp hran
  obtain rfl := hids
  have hstages := toOption_eq_some.mp hran
  refine ⟨tx, hstages, ?_⟩
  apply kept_heads_give_no_id_twice 0 _ tx _ hstages
  refine ⟨addOne_keeps _ 7, ?_⟩
  intro ids1 tx1 h1
  refine ⟨addOne_keeps _ 8, ?_⟩
  intro ids2 tx2 h2
  constructor
  · -- revision 1 is unresolved when 0 is resolved
    have htwo : Tx.stages 0 [addOne 7, addOne 8] ({} : Tx smallOutside) =
        .ok (ids1 ++ (ids2 ++ []), tx2) :=
      bind_eq_ok.mpr ⟨_, h1, bind_eq_ok.mpr ⟨_, bind_eq_ok.mpr ⟨_, h2, rfl⟩, rfl⟩⟩
    rw [htwo] at hleft
    have hone : ((tx2.page 0 .Revisions).get? 1).isSome := Option.some.inj hleft
    apply .inr ∘ .inr ∘ .inr ∘ .inl
    refine ⟨1, hone, ?_⟩
    intro o ho
    cases ho
    rfl
  · intro ids3 tx3 h3
    exact ⟨addOne_keeps _ 9, fun _ _ _ => trivial⟩

/-- A file without a reduction settles its one revision: the head goes, and the
next revision has its id again. -/
theorem a_settled_head_starts_again :
    ∃ (tx : Tx smallOutside) (ids : List Nat),
      Tx.stages 0 [addOne 7, resolveZero, addOne 8] {} = .ok (ids, tx) ∧ ids = [0, 0] ∧
        ¬ ids.Nodup := by
  have hran : (Tx.stages 0 [addOne 7, resolveZero, addOne 8] ({} : Tx smallOutside)).toOption.map
      Prod.fst = some [0, 0] := by decide +kernel
  obtain ⟨⟨ids, tx⟩, hran, hids⟩ := map_eq_some_iff.mp hran
  obtain rfl := hids
  exact ⟨tx, _, toOption_eq_some.mp hran, rfl, by decide⟩

end ottto_service.state_v2.tail
