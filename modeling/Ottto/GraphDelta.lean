-- The whole of an incremental save: enumeration, boundaries and the sweep of what
-- is left of the old inventory.
import Ottto.GraphRefine

namespace ottto_service.state_v2

open serde_json Results List Option SortedMap
open tail (Bytes Fault TailStage StagedFile Observation)
open mapper

section

variable {codec : RowCodec} {inv : Inventory codec} {out : tail.Outside Bytes}
  {rows rows' : Rows inv out} {stored graph : SortedMap RowKey RowValue}

/-! ## The enumeration -/

namespace Enumerated

/-- Cardinality rows of the closure kinds go through `put`, with an empty key;
raw rows have keys of their own. -/
def WellFormed : Enumerated → Prop
  | put key _ => key.is_raw = false ∧ ∀ file, closure_row key = some (file, 0) → file = []
  | put_digest key _ => key.is_raw = false ∧ ∀ file, closure_row key ≠ some (file, 0)
  | raw key _ => key.is_raw = true

/-- The row that is enumerated, if it is not a cardinality. -/
def row : Enumerated → Option (RowKey × RowValue)
  | put key value =>
    if (closure_row key).any (fun r => r.2 == 0) then none else some (key, .json value)
  | put_digest key value => some (key, .json value)
  | raw key value => some (key, .raw value)

/-- The cardinality row that is asked for. -/
def manifest : Enumerated → Option RowKey
  | put key _ => if (closure_row key).any (fun r => r.2 == 0) then some key else none
  | _ => none

end Enumerated

def insert_row (m : SortedMap RowKey RowValue) (x : Enumerated) : SortedMap RowKey RowValue :=
  match x.row with
  | some (key, v) => m.insert key v
  | none => m

def insert_manifest (m : SortedMap RowKey Unit) (x : Enumerated) : SortedMap RowKey Unit :=
  match x.manifest with
  | some key => m.insert key ()
  | none => m

/-- The rows of the next graph. -/
def enumerated (next : List Enumerated) : SortedMap RowKey RowValue := next.foldl insert_row .empty

/-- The kinds that are counted. -/
def counted (next : List Enumerated) : SortedMap RowKey Unit := next.foldl insert_manifest .empty

/-- The rows and cardinalities of the part of the graph that was enumerated. -/
structure Enumerating (rows : Rows inv out) (given : SortedMap RowKey RowValue)
    (manifests : SortedMap RowKey Unit) (closures : Bytes → Bool)
    (stored : SortedMap RowKey RowValue) : Prop where
  underway : ∃ graph, Underway rows stored graph
  next : rows.next = given.mapValues inv.digest
  old : ∀ k, (rows.old.get? k).isSome → (stored.get? k).isSome ∧ given.get? k = none
  counted : rows.counted = manifests
  closures : ∀ file, (rows.closures.get? file).isSome = closures file
  form : ∀ key v, given.get? key = some v → v.is_raw = key.is_raw
  manifests : ∀ key, (manifests.get? key).isSome →
    key.is_raw = false ∧ ∃ kind, key = .Record kind [] 0

theorem mapValues_insert (m : SortedMap RowKey RowValue) (key : RowKey) (v : RowValue) :
    (m.insert key v).mapValues inv.digest = (m.mapValues inv.digest).insert key (inv.digest v) := by
  ext k : 1
  simp only [get?_mapValues, get?_insert]
  by_cases hk : k = key
  · rw [if_pos hk, if_pos hk]
    rfl
  · rw [if_neg hk, if_neg hk]

variable {given : SortedMap RowKey RowValue} {manifests : SortedMap RowKey Unit}
  {closures : Bytes → Bool}

theorem Enumerating.noted (h : Enumerating rows given manifests closures stored) {key : RowKey}
    {v : RowValue} (hform : v.is_raw = key.is_raw) (hunderway : ∃ graph, Underway rows' stored graph)
    (hnoted : Noted rows rows' key (inv.digest v)) :
    Enumerating rows' (given.insert key v) manifests closures stored where
  underway := hunderway
  next := by rw [hnoted.next, h.next, mapValues_insert]
  old := by
    intro k hk
    rw [hnoted.old, get?_erase] at hk
    rw [get?_insert]
    by_cases heq : k = key
    · rw [if_pos heq] at hk
      cases hk
    · rw [if_neg heq] at hk ⊢
      exact h.old k hk
  counted := hnoted.counted.trans h.counted
  closures := fun file => (hnoted.closures file).trans (h.closures file)
  form := by
    intro k w hw
    rw [get?_insert] at hw
    by_cases hk : k = key
    · rw [if_pos hk] at hw
      cases hw
      rw [hk]
      exact hform
    · rw [if_neg hk] at hw
      exact h.form k w hw
  manifests := h.manifests

/-- A cardinality row is one of a closure kind, at position 0. -/
theorem manifest_record {key : RowKey} (h : (closure_row key).any (fun r => r.2 == 0) = true) :
    ∃ kind file, key = .Record kind file 0 ∧ closure_row key = some (file, 0) ∧
      key.is_raw = false := by
  obtain ⟨⟨file, position⟩, hrow, hzero⟩ := (any_eq_true _ _).mp h
  have hposition : position = 0 := by simpa using hzero
  subst hposition
  have howner : owner key = some file := by
    unfold owner
    rw [hrow]
    rfl
  have hraw := owner_not_raw howner
  obtain ⟨kind, position, rfl, hkind⟩ := owner_record howner
  have hsame : closure_row (.Record kind file position) = some (file, position) := by
    unfold closure_row
    exact if_pos (contains_iff_mem.mpr hkind)
  rw [hsame] at hrow
  cases hrow
  exact ⟨kind, file, rfl, hsame, hraw⟩

theorem enumerate_spec (h : Enumerating rows given manifests closures stored) {x : Enumerated}
    (hx : x.WellFormed) (hrun : rows.enumerate x = .ok rows') :
    Enumerating rows' (insert_row given x) (insert_manifest manifests x) closures stored := by
  obtain ⟨graph, hgraph⟩ := h.underway
  cases x with
  | put key value =>
    obtain ⟨hraw, hempty⟩ := hx
    simp only [Rows.enumerate, Rows.put] at hrun
    unfold insert_row insert_manifest Enumerated.row Enumerated.manifest
    by_cases hcount : (closure_row key).any (fun r => r.2 == 0) = true
    · rw [if_pos hcount] at hrun
      cases hrun
      simp only [if_pos hcount]
      refine ⟨⟨graph, hgraph.holds, hgraph.seed, hgraph.apart, hgraph.settled, hgraph.waiting,
        hgraph.pending⟩, h.next, h.old, by rw [h.counted], h.closures, h.form, ?_⟩
      intro k hk
      rw [get?_insert] at hk
      by_cases heq : k = key
      · obtain ⟨kind, file, rfl, hrow, -⟩ := manifest_record hcount
        obtain rfl := hempty file hrow
        rw [heq]
        exact ⟨hraw, kind, rfl⟩
      · rw [if_neg heq] at hk
        exact h.manifests k hk
    · rw [if_neg hcount] at hrun
      simp only [if_neg hcount]
      have hdigest : rows.digest key value = (inv.json value, rows) := by
        unfold Rows.digest
        rw [hgraph.seed]
        rfl
      rw [hdigest] at hrun
      obtain ⟨hunderway, hnoted⟩ := put_digest_spec hgraph hraw hrun
      exact h.noted (v := .json value) hraw.symm hunderway hnoted
  | put_digest key value =>
    obtain ⟨hraw, -⟩ := hx
    obtain ⟨hunderway, hnoted⟩ := put_digest_spec hgraph hraw hrun
    exact h.noted (v := .json value) hraw.symm hunderway hnoted
  | raw key value =>
    obtain ⟨hunderway, hnoted⟩ := raw_spec hgraph hx hrun
    exact h.noted (v := .raw value) (Eq.symm hx) hunderway hnoted

theorem enumerate_all {next : List Enumerated}
    (h : Enumerating rows given manifests closures stored) (hnext : ∀ x ∈ next, x.WellFormed)
    (hrun : next.foldlM Rows.enumerate rows = .ok rows') :
    Enumerating rows' (next.foldl insert_row given) (next.foldl insert_manifest manifests) closures
      stored := by
  induction next generalizing rows given manifests with
  | nil =>
    cases hrun
    exact h
  | cons x next ih =>
    obtain ⟨hx, hnext⟩ := forall_mem_cons.mp hnext
    rw [foldlM_cons] at hrun
    obtain ⟨rows1, hfirst, hrun⟩ := bind_eq_ok.mp hrun
    exact ih (enumerate_spec h hx hfirst) hnext hrun

/-! ## The staged files -/

/-- Where the files of `rest` are still to come: their closures wait, and the new
inventory has the enumerated rows, but the stored ones of what rolled back. -/
structure Applying (stage : TailStage Bytes) (rest : List Bytes) (rows : Rows inv out)
    (rolled_back : List Bytes) (noted : RowKey → Option inv.Digest)
    (manifests : SortedMap RowKey Unit) (stored : SortedMap RowKey RowValue) : Prop where
  underway : ∃ graph, Underway rows stored graph
  closures : ∀ file, (rows.closures.get? file).isSome ↔ (stage.staged file).isSome ∧ file ∈ rest
  next : ∀ k, rows.next.get? k = if (owner k).any rolled_back.contains then
    (stored.get? k).map inv.digest else noted k
  counted : rows.counted = manifests
  staged : ∀ file ∈ rolled_back, (stage.staged file).isSome

variable {file : Bytes}

theorem unstage_removed_spec (h : Underway rows stored graph)
    (hfile : (rows.closures.get? file).isSome) (hrun : tail.unstage_removed rows file = .ok rows') :
    (∃ graph', Underway rows' stored graph') ∧ rows'.closures = rows.closures.erase file ∧
      rows'.next = rows.next ∧ rows'.counted = rows.counted := by
  have ht := take_closure_spec h hfile
  unfold tail.unstage_removed at hrun
  generalize rows.take_closure file = taken at ht hrun
  obtain ⟨closure, rows1⟩ := taken
  obtain ⟨written, hwrite, hrun⟩ := bind_eq_ok.mp hrun
  cases hrun
  exact ⟨h.commit hfile ht hwrite rows1.tx.tail, ht.closures, ht.next, ht.counted⟩

theorem isolated_eq_ok {α : Type} {boundary : Boundary} {body : Except Fault α} {result : Option α}
    (h : isolated boundary body = .ok result) :
    (∀ a, result = some a → body = .ok a) ∧ (boundary = .RolledBack → result = none) := by
  cases boundary with
  | Released =>
    cases h
    exact ⟨fun a ha => toOption_eq_some.mp ha, by simp⟩
  | RolledBack =>
    cases h
    exact ⟨by simp, fun _ => rfl⟩
  | Systemic => cases h

variable {w : Surroundings}

/-- What the boundary of a file leaves behind, when rows of it waited or none did. -/
structure Bounded (stored : SortedMap RowKey RowValue) (file : Bytes) (rows : Rows inv out)
    (staged held : Bool) (rows' : Rows inv out) : Prop where
  underway : ∃ graph, Underway rows' stored graph
  counted : rows'.counted = rows.counted
  closures : rows'.closures = if staged then rows.closures.erase file else rows.closures
  next : ∀ k, rows'.next.get? k = if held = false ∧ staged ∧ owner k = some file then
    (stored.get? k).map inv.digest else rows.next.get? k

theorem apply_boundary_spec {staged : Option StagedFile}
    {debt : Option Observation} {held : Bool} (h : Underway rows stored graph)
    (hfile : staged.isSome → (rows.closures.get? file).isSome)
    (hrun : tail.apply_boundary w rows file staged debt = .ok (held, rows')) :
    Bounded stored file rows staged.isSome held rows' ∧
      (w.boundary file = .RolledBack → held = false) := by
  unfold tail.apply_boundary at hrun
  by_cases hstaged : staged.isSome = true
  · have hfile := hfile hstaged
    have ht := take_closure_spec h hfile
    have hclosures : (rows.take_closure file).2.closures =
        if staged.isSome then rows.closures.erase file else rows.closures := by
      rw [if_pos hstaged]
      exact ht.closures
    simp only [if_pos hstaged] at hrun
    generalize rows.take_closure file = taken at ht hrun hclosures
    obtain ⟨closure, rows1⟩ := taken
    obtain ⟨result, hresult, hrun⟩ := bind_eq_ok.mp hrun
    obtain ⟨hbody, hrolled⟩ := isolated_eq_ok hresult
    cases result with
    | some tx =>
      cases hrun
      obtain ⟨written, hwrite, hbody⟩ := bind_eq_ok.mp (hbody tx rfl)
      obtain ⟨⟨ids, tail'⟩, -, hbody⟩ := bind_eq_ok.mp hbody
      cases hbody
      refine ⟨⟨h.commit hfile ht hwrite tail', ht.counted, hclosures, ?_⟩, ?_⟩
      · intro k
        rw [if_neg (by simp), ← ht.next]
      · intro hback
        cases hrolled hback
    | none =>
      cases hrun
      obtain ⟨hunderway, hnext⟩ := h.revert hfile ht
      have heq := revert_eq rows1 closure
      refine ⟨⟨⟨graph, hunderway⟩, ?_, ?_, ?_⟩, fun _ => rfl⟩
      · rw [heq]
        exact ht.counted
      · rw [heq]
        exact hclosures
      · intro k
        rw [hnext]
        by_cases howner : owner k = some file
        · rw [if_pos howner, if_pos ⟨rfl, hstaged, howner⟩]
        · rw [if_neg howner, if_neg (fun hall => howner hall.2.2)]
  · simp only [if_neg hstaged] at hrun
    obtain ⟨result, hresult, hrun⟩ := bind_eq_ok.mp hrun
    obtain ⟨hbody, hrolled⟩ := isolated_eq_ok hresult
    have hnext : ∀ k, rows.next.get? k = if held = false ∧ staged.isSome ∧ owner k = some file then
        (stored.get? k).map inv.digest else rows.next.get? k := by
      intro k
      rw [if_neg (fun hall => hstaged hall.2.1)]
    cases result with
    | some tx =>
      cases hrun
      obtain ⟨written, hwrite, hbody⟩ := bind_eq_ok.mp (hbody tx rfl)
      cases hwrite
      obtain ⟨⟨ids, tail'⟩, -, hbody⟩ := bind_eq_ok.mp hbody
      cases hbody
      refine ⟨⟨⟨graph, h.of_tail tail'⟩, rfl, (if_neg hstaged).symm, hnext⟩, ?_⟩
      intro hback
      cases hrolled hback
    | none =>
      cases hrun
      exact ⟨⟨⟨graph, h⟩, rfl, (if_neg hstaged).symm, hnext⟩, fun _ => rfl⟩

/-- Where the file goes, its rows are written before its boundary, which finds no stage. -/
theorem removed_bounded {rows1 rows2 : Rows inv out} {debt : Option Observation} {held : Bool}
    (h : Underway rows stored graph) (hfile : (rows.closures.get? file).isSome)
    (hstale : tail.unstage_removed rows file = .ok rows1)
    (hboundary : (if debt.isSome then tail.apply_boundary w rows1 file none debt
      else .ok (true, rows1)) = .ok (held, rows2)) :
    Bounded stored file rows true true rows2 := by
  obtain ⟨⟨graph1, hgraph1⟩, hclosures, hnext, hcounted⟩ := unstage_removed_spec h hfile hstale
  split at hboundary
  · obtain ⟨hb, -⟩ := apply_boundary_spec hgraph1 (by simp) hboundary
    refine ⟨hb.underway, hb.counted.trans hcounted, hb.closures.trans hclosures, fun k => ?_⟩
    rw [hb.next, if_neg (by simp), if_neg (by simp), hnext]
  · cases hboundary
    exact ⟨⟨graph1, hgraph1⟩, hcounted, hclosures, fun k => by rw [if_neg (by simp), hnext]⟩

variable {stage : TailStage Bytes} {rolled_back : List Bytes}

/-- The files whose graph rows rolled back, after one more file. -/
theorem mem_rolled_back {staged held : Bool} {f : Bytes} :
    f ∈ (if (!held && staged) = true then rolled_back ++ [file] else rolled_back) ↔
      f ∈ rolled_back ∨ held = false ∧ staged = true ∧ f = file := by
  cases held <;> cases staged <;> simp

theorem Applying.bounded {rest : List Bytes} {rows2 : Rows inv out}
    {noted : RowKey → Option inv.Digest} {held : Bool}
    (h : Applying stage (file :: rest) rows rolled_back noted manifests stored)
    (hfile : file ∉ rest) (hb : Bounded stored file rows (stage.staged file).isSome held rows2)
    (tail' : tail.Tx out) :
    Applying stage rest { rows2 with tx := { rows2.tx with tail := tail' } }
      (if (!held && (stage.staged file).isSome) = true then rolled_back ++ [file] else rolled_back)
      noted manifests stored where
  underway := by
    obtain ⟨graph, hgraph⟩ := hb.underway
    exact ⟨graph, hgraph.of_tail tail'⟩
  closures := by
    intro other
    show (rows2.closures.get? other).isSome ↔ _
    rw [hb.closures]
    by_cases hstaged : (stage.staged file).isSome = true
    · rw [if_pos hstaged, get?_erase]
      by_cases hother : other = file
      · subst hother
        simp [hfile]
      · rw [if_neg hother, h.closures, mem_cons]
        simp [hother]
    · rw [if_neg hstaged, h.closures, mem_cons]
      constructor
      · rintro ⟨hsome, rfl | hrest⟩
        · exact absurd hsome hstaged
        · exact ⟨hsome, hrest⟩
      · rintro ⟨hsome, hrest⟩
        exact ⟨hsome, .inr hrest⟩
  next := by
    intro k
    show rows2.next.get? k = _
    rw [hb.next]
    have hany : ((owner k).any (List.contains (if (!held && (stage.staged file).isSome) = true then
        rolled_back ++ [file] else rolled_back)) = true) ↔
        (owner k).any rolled_back.contains = true ∨
          held = false ∧ (stage.staged file).isSome ∧ owner k = some file := by
      cases howner : owner k with
      | none => simp
      | some f => simp only [any_some, contains_iff_mem, mem_rolled_back, Option.some.injEq]
    by_cases hnow : held = false ∧ (stage.staged file).isSome = true ∧ owner k = some file
    · rw [if_pos hnow, if_pos (hany.mpr (.inr hnow))]
    · rw [if_neg hnow, h.next]
      by_cases hbefore : (owner k).any rolled_back.contains = true
      · rw [if_pos hbefore, if_pos (hany.mpr (.inl hbefore))]
      · rw [if_neg hbefore, if_neg (fun hall => (hany.mp hall).elim hbefore hnow)]
  counted := hb.counted.trans h.counted
  staged := by
    intro f hf
    rcases mem_rolled_back.mp hf with hold | ⟨-, hsome, rfl⟩
    · exact h.staged f hold
    · exact hsome

theorem apply_file_spec {removed rest : List Bytes} {rolled_back' : List Bytes}
    {noted : RowKey → Option inv.Digest}
    (h : Applying stage (file :: rest) rows rolled_back noted manifests stored)
    (hfile : file ∉ rest)
    (hrun : tail.apply_file w stage removed (rows, rolled_back) file = .ok (rows', rolled_back')) :
    Applying stage rest rows' rolled_back' noted manifests stored ∧
      (∀ f ∈ rolled_back, f ∈ rolled_back') ∧
      ((stage.staged file).isSome → file ∉ removed → w.boundary file = .RolledBack →
        file ∈ rolled_back') := by
  obtain ⟨graph, hgraph⟩ := h.underway
  unfold tail.apply_file at hrun
  simp only at hrun
  obtain ⟨rows1, hstale, hrun⟩ := bind_eq_ok.mp hrun
  obtain ⟨⟨held, rows2⟩, hboundary, hrun⟩ := bind_eq_ok.mp hrun
  obtain ⟨tail', -, hrun⟩ := bind_eq_ok.mp hrun
  cases hrun
  have hwaits : (stage.staged file).isSome → (rows.closures.get? file).isSome := fun hstaged =>
    (h.closures file).mpr ⟨hstaged, mem_cons_self⟩
  by_cases hremoved : (stage.staged file).isSome = true ∧ file ∈ removed
  · -- its rows are written, and its stage is stale
    have hstale' : ((stage.staged file).isSome && removed.contains file) = true := by
      simp [hremoved]
    simp only [hstale', if_true, isSome_none, Bool.false_or, Bool.and_false,
      Bool.false_eq_true, if_false] at hstale hboundary ⊢
    have hb := removed_bounded hgraph (hwaits hremoved.1) hstale hboundary
    rw [← hremoved.1] at hb
    have happlied := h.bounded hfile hb tail'
    rw [hremoved.1] at happlied
    exact ⟨happlied, fun _ hf => hf, fun _ hnot => absurd hremoved.2 hnot⟩
  · have hstale' : ((stage.staged file).isSome && removed.contains file) = false := by
      rw [Bool.eq_false_iff]
      intro hboth
      apply hremoved
      simpa using hboth
    simp only [hstale', Bool.false_eq_true, if_false] at hstale hboundary ⊢
    cases hstale
    have hafter : Bounded stored file rows (stage.staged file).isSome held rows2 ∧
        ((stage.staged file).isSome → w.boundary file = .RolledBack → held = false) := by
      split at hboundary
      · obtain ⟨hb, hback⟩ := apply_boundary_spec hgraph hwaits hboundary
        exact ⟨hb, fun _ => hback⟩
      · next hsome =>
        cases hboundary
        have hnone : (stage.staged file).isSome = false := by
          simp only [Bool.or_eq_true, not_or, Bool.not_eq_true] at hsome
          exact hsome.1
        rw [hnone]
        exact ⟨⟨⟨graph, hgraph⟩, rfl, rfl, fun k => by rw [if_neg (by simp)]⟩, by simp⟩
    obtain ⟨hb, hback⟩ := hafter
    exact ⟨h.bounded hfile hb tail', fun f hf => mem_rolled_back.mpr (.inl hf),
      fun hsome _ hboundary' => mem_rolled_back.mpr (.inr ⟨hback hsome hboundary', hsome, rfl⟩)⟩

theorem apply_files {removed files : List Bytes}
    {rolled_back' : List Bytes} {noted : RowKey → Option inv.Digest}
    (h : Applying stage files rows rolled_back noted manifests stored) (hnodup : files.Nodup)
    (hrun : files.foldlM (tail.apply_file w stage removed) (rows, rolled_back) =
      .ok (rows', rolled_back')) :
    Applying stage [] rows' rolled_back' noted manifests stored ∧
      (∀ f ∈ rolled_back, f ∈ rolled_back') ∧
      ∀ f ∈ files, (stage.staged f).isSome → f ∉ removed → w.boundary f = .RolledBack →
        f ∈ rolled_back' := by
  induction files generalizing rows rolled_back with
  | nil =>
    cases hrun
    exact ⟨h, fun _ hf => hf, by simp⟩
  | cons file files ih =>
    obtain ⟨hfile, hrest⟩ := nodup_cons.mp hnodup
    rw [foldlM_cons] at hrun
    obtain ⟨⟨rows1, rolled1⟩, hfirst, hrun⟩ := bind_eq_ok.mp hrun
    obtain ⟨h1, hkept1, hback1⟩ := apply_file_spec h hfile hfirst
    obtain ⟨h2, hkept2, hback2⟩ := ih h1 hrest hrun
    refine ⟨h2, fun f hf => hkept2 f (hkept1 f hf), ?_⟩
    intro f hf hsome hnot hboundary
    rcases mem_cons.mp hf with rfl | hf
    · exact hkept2 f (hback1 hsome hnot hboundary)
    · exact hback2 f hf hsome hnot hboundary

/-! ## The cardinalities -/

/-- The rows of the kind of a manifest, without it. -/
def members {β : Type} (m : SortedMap RowKey β) (manifest : RowKey) : SortedMap RowKey β :=
  m.filterKeys (fun k => record_kind k = record_kind manifest ∧ k ≠ manifest)

theorem finish_counted_spec {manifest : RowKey} {kind : String} (h : Underway rows stored graph)
    (hmanifest : manifest = .Record kind [] 0) (hraw : manifest.is_raw = false)
    (hrun : rows.finish_counted manifest = .ok rows') :
    (∃ graph', Underway rows' stored graph') ∧
      Noted rows rows' manifest (inv.json (Rows.count (members rows.next manifest).size)) := by
  have hcount : rows.next.get? manifest = none →
      (rows.next.rangeWhile manifest (fun key => record_kind key = record_kind manifest)).length =
      (members rows.next manifest).size := by
    intro hfresh
    rw [rangeWhile_eq_filter]
    · unfold members SortedMap.filterKeys SortedMap.size
      congr 1
      apply filter_congr
      intro e he
      have hne : e.1 ≠ manifest := by
        intro heq
        have hget := mem_entries.mp he
        rw [heq, hfresh] at hget
        cases hget
      simp [hne]
    · intro k hk
      have hk := of_decide_eq_true hk
      subst hmanifest
      cases k with
      | Record kind' file position =>
        cases hk
        apply RowKey.record_le_record.mpr
        refine .inr ⟨rfl, ?_⟩
        cases file with
        | nil => exact .inr ⟨rfl, Nat.zero_le position⟩
        | cons byte file => exact .inl (nil_lt_cons byte file)
      | Meta name => cases hk
      | RequestSet id => cases hk
    · intro a b hfirst hlt hb
      have hb := of_decide_eq_true hb
      apply decide_eq_true
      subst hmanifest
      cases b with
      | Record kind' file position =>
        cases hb
        obtain ⟨file', position', rfl, -⟩ := RowKey.record_between hfirst hlt.le
        rfl
      | Meta name => cases hb
      | RequestSet id => cases hb
  unfold Rows.finish_counted at hrun
  have hdigest : ∀ value, rows.digest manifest value = (inv.json value, rows) := by
    intro value
    unfold Rows.digest
    rw [h.seed]
    rfl
  simp only [hdigest] at hrun
  obtain ⟨hunderway, hnoted⟩ := put_digest_spec h hraw hrun
  rw [hcount hnoted.fresh] at hnoted
  exact ⟨hunderway, hnoted⟩

theorem finish_counted_all {manifests : List RowKey} (h : ∃ graph, Underway rows stored graph)
    (hclosures : ∀ file, rows.closures.get? file = none) (hnodup : manifests.Nodup)
    (hmanifests : ∀ m ∈ manifests, m.is_raw = false ∧ ∃ kind, m = .Record kind [] 0)
    (hrun : manifests.foldlM Rows.finish_counted rows = .ok rows') :
    (∃ graph', Underway rows' stored graph') ∧ (∀ file, rows'.closures.get? file = none) ∧
      (∀ k, k ∉ manifests → rows'.next.get? k = rows.next.get? k) ∧
      ∀ m ∈ manifests, rows.next.get? m = none ∧
        rows'.next.get? m = some (inv.json (Rows.count (members rows'.next m).size)) := by
  induction manifests generalizing rows with
  | nil =>
    cases hrun
    exact ⟨h, hclosures, fun _ _ => rfl, by simp⟩
  | cons m manifests ih =>
    obtain ⟨hm, hrest⟩ := nodup_cons.mp hnodup
    obtain ⟨⟨hraw, kind, hrecord⟩, hothers⟩ := forall_mem_cons.mp hmanifests
    obtain ⟨graph, hgraph⟩ := h
    rw [foldlM_cons] at hrun
    obtain ⟨rows1, hfirst, hrun⟩ := bind_eq_ok.mp hrun
    obtain ⟨h1, hnoted⟩ := finish_counted_spec hgraph hrecord hraw hfirst
    have hclosures1 : ∀ file, rows1.closures.get? file = none := by
      intro file
      have hsame := hnoted.closures file
      rw [hclosures] at hsame
      exact isNone_iff_eq_none.mp (by simpa using hsame)
    obtain ⟨h', hclosures', hsame, hcounts⟩ := ih h1 hclosures1 hrest hothers hrun
    refine ⟨h', hclosures', ?_, ?_⟩
    · intro k hk
      rw [mem_cons, not_or] at hk
      rw [hsame k hk.2, hnoted.next, get?_insert, if_neg hk.1]
    · rw [forall_mem_cons]
      constructor
      · refine ⟨hnoted.fresh, ?_⟩
        rw [hsame m hm, hnoted.next, get?_insert_self]
        -- the other manifests are of other kinds
        congr 4
        unfold members
        ext k : 1
        simp only [get?_filterKeys]
        by_cases hk : record_kind k = record_kind m ∧ k ≠ m
        · have hnot : k ∉ manifests := by
            intro hmem
            obtain ⟨-, kind', hk'⟩ := hothers k hmem
            apply hk.2
            have hkind := hk.1
            rw [hk', hrecord] at hkind
            rw [hk', hrecord, Option.some.inj hkind]
          rw [hsame k hnot, hnoted.next, get?_insert, if_neg hk.2]
        · simp only [hk, decide_false, Bool.false_eq_true, if_false]
      · intro m' hm'
        obtain ⟨hfresh, hcount⟩ := hcounts m' hm'
        refine ⟨?_, hcount⟩
        have hne : m' ≠ m := by
          rintro rfl
          exact hm hm'
        rw [hnoted.next, get?_insert, if_neg hne] at hfresh
        exact hfresh

/-! ## The sweep -/

theorem sweep_spec {keys : List RowKey} {g g' : Graph codec} (hg : g.Holds graph)
    (hrun : keys.foldlM Graph.remove g = .ok g') :
    ∃ graph', g'.Holds graph' ∧ ∀ k, graph'.get? k = if k ∈ keys then none else graph.get? k := by
  induction keys generalizing g graph with
  | nil =>
    cases hrun
    exact ⟨graph, hg, by simp⟩
  | cons key keys ih =>
    rw [foldlM_cons] at hrun
    obtain ⟨g1, hfirst, hrun⟩ := bind_eq_ok.mp hrun
    obtain ⟨graph', hg', hget⟩ := ih (Graph.remove_spec hg hfirst) hrun
    refine ⟨graph', hg', ?_⟩
    intro k
    rw [hget, get?_erase]
    by_cases hmem : k ∈ keys
    · simp [hmem]
    · by_cases hk : k = key
      · simp [hk]
      · simp [hk, hmem]

/-! ## The save -/

theorem mem_removed_files {old : SortedMap RowKey inv.Digest} (h : file ∈ tail.removed_files old) :
    (old.get? (.Record "file.progress" file 1)).isSome := by
  obtain ⟨key, hkey, hfile⟩ := mem_filterMap.mp h
  cases key with
  | Record kind key_bytes position =>
    simp only at hfile
    split_ifs at hfile with hboth
    obtain ⟨rfl, rfl⟩ := hboth
    cases hfile
    exact mem_keys_iff.mp hkey
  | Meta name => cases hfile
  | RequestSet id => cases hfile

theorem closures_isSome (stage : TailStage Bytes) (file : Bytes) :
    ((kinds.closures inv stage).get? file).isSome = (stage.staged file).isSome := by
  unfold kinds.closures TailStage.staged
  rw [get?_filterMap]
  rcases stage.files.get? file with _ | staged | cause <;> rfl

/-- Before the enumeration nothing waits, and the old inventory is the graph's. -/
theorem begins {tx : Transaction codec out} (h : tx.graph.Holds stored) (stage : TailStage Bytes) :
    Enumerating { tx, old := stored.mapValues inv.digest, closures := kinds.closures inv stage }
      .empty .empty (fun file => (stage.staged file).isSome) stored where
  underway := by
    refine ⟨stored, h, rfl, ?_, ?_, fun _ _ _ _ => rfl, ?_⟩
    · intro k hk
      cases hk
    · intro k _
      exact (get?_mapValues _ _ _).symm
    · intro file closure hclosure row hrow
      have hget := hclosure
      simp only [kinds.closures, get?_filterMap] at hget
      obtain ⟨entry, -, hentry⟩ := bind_eq_some_iff.mp hget
      cases entry with
      | File staged =>
        cases hentry
        cases hrow
      | Failed cause => cases hentry
  next := rfl
  old := by
    intro k hk
    simp only [get?_mapValues, isSome_map] at hk
    exact ⟨hk, rfl⟩
  counted := rfl
  closures := closures_isSome stage
  form := by
    intro key v hv
    cases hv
  manifests := by
    intro key hkey
    cases hkey

/-- What the inventory of a save has of each row. -/
structure Saved (w : Surroundings) (stored : SortedMap RowKey RowValue) (next : List Enumerated)
    (stage : TailStage Bytes) (rolled_back : List Bytes) (digests : SortedMap RowKey inv.Digest) :
    Prop where
  /-- A row of a file that rolled back keeps its digest, any other has the new one. -/
  row : ∀ k, (counted next).get? k = none → digests.get? k =
    if (owner k).any rolled_back.contains then (stored.get? k).map inv.digest
    else ((enumerated next).get? k).map inv.digest
  fresh : ∀ m, (counted next).get? m = some () →
    ¬ ((enumerated next).get? m).isSome ∨ (owner m).any rolled_back.contains
  count : ∀ m, (counted next).get? m = some () →
    digests.get? m = some (inv.json (Rows.count (members digests m).size))
  raw : ∀ m, (counted next).get? m = some () → m.is_raw = false
  form : ∀ k v, (enumerated next).get? k = some v → v.is_raw = k.is_raw
  staged : ∀ f ∈ rolled_back, (stage.staged f).isSome
  rolls_back : ∀ f, (stage.staged f).isSome → w.boundary f = .RolledBack →
    (stored.get? (.Record "file.progress" f 1) = none ∨
      ((enumerated next).get? (.Record "file.progress" f 1)).isSome) → f ∈ rolled_back

/-- The sweep leaves the rows of the new inventory. -/
theorem finish_spec {digests : SortedMap RowKey inv.Digest} {tx' : Transaction codec out}
    (h : Underway rows stored graph) (hclosures : ∀ file, rows.closures.get? file = none)
    (hmanifests : ∀ m ∈ rows.counted.keys, m.is_raw = false ∧ ∃ kind, m = .Record kind [] 0)
    (hrun : rows.finish = .ok (digests, tx')) :
    (∃ graph', tx'.graph.Holds graph' ∧ digests = graph'.mapValues inv.digest) ∧
      (∀ k, k ∉ rows.counted.keys → digests.get? k = rows.next.get? k) ∧
      ∀ m ∈ rows.counted.keys, rows.next.get? m = none ∧
        digests.get? m = some (inv.json (Rows.count (members digests m).size)) := by
  obtain ⟨rows1, hcounted, hrun⟩ := bind_eq_ok.mp hrun
  obtain ⟨g, hsweep, hrun⟩ := bind_eq_ok.mp hrun
  cases hrun
  have hready : Underway { rows with counted := .empty } stored graph :=
    ⟨h.holds, h.seed, h.apart, h.settled, h.waiting, h.pending⟩
  obtain ⟨⟨graph1, h1⟩, hclosures1, hsame, hcounts⟩ := finish_counted_all ⟨graph, hready⟩ hclosures
    (keys_nodup _) hmanifests hcounted
  obtain ⟨graph', hgraph', hget⟩ := sweep_spec h1.holds hsweep
  refine ⟨⟨graph', hgraph', ?_⟩, hsame, hcounts⟩
  ext k : 1
  rw [get?_mapValues, hget]
  have hsettled := h1.closures_empty hclosures1 k
  by_cases hk : k ∈ rows1.old.keys
  · rw [if_pos hk]
    by_contra hsome
    have hgone := h1.apart k (isSome_iff_ne_none.mpr hsome)
    rw [mem_keys_iff, hgone] at hk
    cases hk
  · rw [if_neg hk, hsettled]
    rw [mem_keys_iff, not_isSome_iff_eq_none] at hk
    rw [hk, or_none]

theorem delta_spec {tx tx' : Transaction codec out}
    (hstored : tx.graph.Holds stored) {next : List Enumerated} (hnext : ∀ x ∈ next, x.WellFormed)
    {digests : SortedMap RowKey inv.Digest}
    (h : kinds.delta w (stored.mapValues inv.digest) next tx stage =
      .ok (digests, tx', rolled_back)) :
    Saved w stored next stage rolled_back digests ∧
      ∃ graph, tx'.graph.Holds graph ∧ digests = graph.mapValues inv.digest := by
  unfold kinds.delta at h
  obtain ⟨rows1, henumerate, h⟩ := bind_eq_ok.mp h
  obtain ⟨⟨rows2, rolled⟩, happly, h⟩ := bind_eq_ok.mp h
  obtain ⟨⟨next', tx2⟩, hfinish, h⟩ := bind_eq_ok.mp h
  obtain ⟨rfl, hrest⟩ := Prod.mk.inj (Except.ok.inj h)
  cases hrest
  have h1 := enumerate_all (begins hstored stage) hnext henumerate
  change Enumerating rows1 (enumerated next) (counted next) _ stored at h1
  obtain ⟨⟨rows3, rolled⟩, hfiles, happly⟩ := bind_eq_ok.mp happly
  obtain ⟨tail', -, happly⟩ := bind_eq_ok.mp happly
  obtain ⟨rfl, rfl⟩ := Prod.mk.inj (Except.ok.inj happly)
  have hkeys : ∀ f, (stage.staged f).isSome → f ∈ ((stage.files.mapValues (fun _ => ())).extend
      (stage.debt.mapValues (fun _ => ()))).keys := by
    intro f hf
    rw [mem_keys_iff, get?_extend, get?_mapValues,
      get?_mapValues, isSome_or]
    unfold TailStage.staged at hf
    cases hfile : stage.files.get? f with
    | some entry => simp
    | none =>
      rw [hfile] at hf
      cases hf
  have hstart : Applying stage _ rows1 [] (fun k => ((enumerated next).get? k).map inv.digest)
      (counted next) stored :=
    { underway := h1.underway
      closures := by
        intro f
        rw [h1.closures]
        exact ⟨fun hf => ⟨hf, hkeys f hf⟩, fun hf => hf.1⟩
      next := by
        intro k
        rw [h1.next, get?_mapValues, if_neg]
        cases owner k <;> simp
      counted := h1.counted
      staged := by simp }
  obtain ⟨h2, -, hback⟩ := apply_files hstart (keys_nodup _) hfiles
  -- every closure was taken
  have hclosures : ∀ file, rows3.closures.get? file = none := by
    intro file
    by_contra hsome
    have hleft := (h2.closures file).mp (isSome_iff_ne_none.mpr hsome)
    exact not_mem_nil hleft.2
  have hmanifests : ∀ m ∈ rows3.counted.keys, m.is_raw = false ∧ ∃ kind, m = .Record kind [] 0 := by
    intro m hm
    rw [h2.counted] at hm
    exact h1.manifests m (mem_keys_iff.mp hm)
  have hmem : ∀ m, m ∈ rows3.counted.keys ↔ (counted next).get? m = some () := by
    intro m
    rw [h2.counted, mem_keys_iff, isSome_iff_exists]
    exact ⟨fun ⟨_, hm⟩ => hm, fun hm => ⟨(), hm⟩⟩
  obtain ⟨graph3, h3⟩ := h2.underway
  obtain ⟨hgraph, hsame, hcounts⟩ := finish_spec
    (h3.of_tail (stage.erase.keys.foldl tail.Tx.erase tail')) hclosures hmanifests hfinish
  refine ⟨?_, hgraph⟩
  constructor
  · intro k hk
    have hnot : k ∉ rows3.counted.keys := by
      rw [hmem, hk]
      simp
    rw [hsame k hnot]
    exact h2.next k
  · intro m hm
    have hfresh := (hcounts m ((hmem m).mpr hm)).1
    have hnext3 := h2.next m
    by_cases hrolled : (owner m).any rolled.contains = true
    · exact .inr hrolled
    · left
      rw [if_neg hrolled] at hnext3
      have hnone := map_eq_none_iff.mp (hnext3.symm.trans hfresh)
      rw [hnone]
      simp
  · intro m hm
    exact (hcounts m ((hmem m).mpr hm)).2
  · intro m hm
    exact (h1.manifests m (by rw [hm]; rfl)).1
  · exact h1.form
  · exact h2.staged
  · intro f hsome hboundary hstays
    apply hback f (hkeys f hsome) hsome _ hboundary
    intro hremoved
    obtain ⟨hthere, hnone⟩ := h1.old _ (mem_removed_files hremoved)
    rcases hstays with hold | hnew
    · rw [hold] at hthere
      cases hthere
    · rw [hnone] at hnew
      cases hnew

theorem members_mapValues (m : SortedMap RowKey RowValue) (manifest : RowKey) :
    (members (m.mapValues inv.digest) manifest).size = (members m manifest).size := by
  have hsame : members (m.mapValues inv.digest) manifest =
      (members m manifest).mapValues inv.digest := by
    ext k : 1
    unfold members
    simp only [get?_filterKeys, get?_mapValues]
    split_ifs <;> rfl
  rw [hsame]
  exact length_map _

/-- An incremental save leaves the graph as a full rewrite would, file by file:
its inventory is the digests of the rows; a row that is enumerated has its new
value, and no other row is left, but a file that rolled back has its old rows; and
each cardinality is that of the members that committed. Any staged file whose
progress row stays may roll back, and no other. -/
theorem an_incremental_save_is_a_full_rewrite (w : Surroundings) (tx tx' : Transaction codec out)
    (stored : SortedMap RowKey RowValue) (hstored : tx.graph.Holds stored) (next : List Enumerated)
    (hnext : ∀ x ∈ next, x.WellFormed) (stage : TailStage Bytes)
    (digests : SortedMap RowKey inv.Digest) (rolled_back : List Bytes)
    (h : kinds.delta w (stored.mapValues inv.digest) next tx stage =
      .ok (digests, tx', rolled_back)) :
    ∃ graph, tx'.graph.Holds graph ∧ (∀ k, tx'.graph.read k = .ok (graph.get? k)) ∧
      digests = graph.mapValues inv.digest ∧
      (∀ k v, (enumerated next).get? k = some v → (∀ f ∈ rolled_back, owner k ≠ some f) →
        graph.get? k = some v) ∧
      (∀ k, (enumerated next).get? k = none → (counted next).get? k = none →
        (∀ f ∈ rolled_back, owner k ≠ some f) → graph.get? k = none) ∧
      (∀ f ∈ rolled_back, ∀ k, owner k = some f → (counted next).get? k = none →
        graph.get? k = stored.get? k) ∧
      (∀ m, (counted next).get? m = some () →
        graph.get? m = some (.json (Rows.count (members graph m).size))) ∧
      (∀ f ∈ rolled_back, (stage.staged f).isSome) ∧
      ∀ f, (stage.staged f).isSome → w.boundary f = .RolledBack →
        (stored.get? (.Record "file.progress" f 1) = none ∨
          ((enumerated next).get? (.Record "file.progress" f 1)).isSome) → f ∈ rolled_back := by
  obtain ⟨hsaved, graph, hgraph, rfl⟩ := delta_spec hstored hnext h
  have hrolled : ∀ k, (owner k).any rolled_back.contains = true ↔
      ∃ f ∈ rolled_back, owner k = some f := by
    intro k
    cases owner k with
    | none => simp
    | some f => simp
  -- a row with the digest of a value of its form is that value
  have hvalue : ∀ k v, v.is_raw = k.is_raw →
      (graph.mapValues inv.digest).get? k = some (inv.digest v) → graph.get? k = some v := by
    intro k v hform hdigest
    rw [get?_mapValues] at hdigest
    obtain ⟨u, hu, hsame⟩ := map_eq_some_iff.mp hdigest
    rw [hu, Inventory.digest_injective ((hgraph.form k u hu).trans hform.symm) hsame]
  have hnone : ∀ k, (graph.mapValues inv.digest).get? k = none → graph.get? k = none := by
    intro k hk
    rw [get?_mapValues] at hk
    exact map_eq_none_iff.mp hk
  refine ⟨graph, hgraph, hgraph.read, rfl, ?_, ?_, ?_, ?_, hsaved.staged, hsaved.rolls_back⟩
  · intro k v hv hother
    have hnot : ¬ (owner k).any rolled_back.contains = true := by
      rw [hrolled]
      rintro ⟨f, hf, hk⟩
      exact hother f hf hk
    have hfree : (counted next).get? k = none := by
      by_contra hsome
      obtain ⟨u, hu⟩ := ne_none_iff_exists'.mp hsome
      rcases hsaved.fresh k hu with hfresh | hback
      · rw [hv] at hfresh
        exact hfresh rfl
      · exact hnot hback
    apply hvalue k v (hsaved.form k v hv)
    rw [hsaved.row k hfree, if_neg hnot, hv]
    rfl
  · intro k hgone hfree hother
    apply hnone
    rw [hsaved.row k hfree, if_neg, hgone]
    · rfl
    · rw [hrolled]
      rintro ⟨f, hf, hk⟩
      exact hother f hf hk
  · intro f hf k hk hfree
    have hrow := hsaved.row k hfree
    rw [if_pos ((hrolled k).mpr ⟨f, hf, hk⟩)] at hrow
    cases hold : stored.get? k with
    | none =>
      rw [hold] at hrow
      exact hnone k hrow
    | some v =>
      rw [hold] at hrow
      exact hvalue k v (hstored.form k v hold) hrow
  · intro m hm
    apply hvalue m (.json (Rows.count (members graph m).size)) (hsaved.raw m hm).symm
    rw [hsaved.count m hm, members_mapValues]
    rfl

end

/-- Digests that are the rows themselves. -/
def exactInventory : Inventory exactCodec where
  Digest := Value ⊕ Bytes
  digestEq := inferInstance
  text := Sum.inl
  text_injective := Sum.inl_injective
  bytes := Sum.inr
  bytes_injective := Sum.inr_injective

theorem decompress_plain (bytes : Bytes) : some (id bytes) = some bytes := rfl

/-- Files named by bytes, values too short to compress, and a small hash. -/
def bytesOutside : tail.Outside Bytes where
  Digest := Bytes
  digestEq := inferInstance
  frag_file := id
  frag_file_injective := Function.injective_id
  set_aside_key := id
  set_aside_key_injective := Function.injective_id
  compress := id
  decompress := some
  decompress_compress := decompress_plain
  stored_digest := fun _ bytes => bytes
  sha256 := fun bytes =>
    BitVec.ofNat 256 (bytes.foldl (fun hash byte => (hash * 257 + byte.toNat) % 2 ^ 256) 1)

def progress (file : Bytes) : RowKey := .Record "file.progress" file 1

/-- Two files' progress, with their count. -/
def progressGraph (first second : String) : List Enumerated :=
  [.put (.Record "file.progress" [] 0) (Rows.count 2), .put (progress [1]) (.string first),
    .put (progress [2]) (.string second), .raw (.Meta "catalogue_layout") [49]]

def reducedFile : StagedFile where
  revision := 1
  head := [1]
  collections := .empty
  pages := .empty
  obsolete := .empty
  change := .Ordinary

/-- Both files are staged, and the boundary of the first rolls back. -/
def bothStaged : TailStage Bytes := (({} : TailStage Bytes).stage [1] reducedFile).stage [2] reducedFile

def firstRollsBack : Surroundings where
  boundary := fun file => if file = [1] then .RolledBack else .Released
  retiring := fun _ => .Released
  now := 7
  to_vec := fun _ => [0]
  from_slice := fun _ => none

theorem progressGraph_wellFormed (first second : String) :
    ∀ x ∈ progressGraph first second, x.WellFormed := by
  have hnone : ∀ file f : Bytes, closure_row (progress file) ≠ some (f, 0) := by
    intro file f h
    have hposition := congrArg Prod.snd (Option.some.inj h)
    cases hposition
  unfold progressGraph
  simp only [forall_mem_cons, not_mem_nil, false_implies, implies_true, and_true]
  refine ⟨⟨by decide +kernel, ?_⟩, ⟨by decide +kernel, fun f h => absurd h (hnone [1] f)⟩,
    ⟨by decide +kernel, fun f h => absurd h (hnone [2] f)⟩, rfl⟩
  intro f h
  exact (congrArg Prod.fst (Option.some.inj h)).symm

/-- Two saves of two files' progress; in the second the first file rolls back. -/
theorem a_rolled_back_file_keeps_its_rows :
    ∃ (tx tx' : Transaction exactCodec bytesOutside) (stored : SortedMap RowKey RowValue)
      (digests : SortedMap RowKey exactInventory.Digest),
      kinds.delta firstRollsBack (stored.mapValues exactInventory.digest) (progressGraph "c" "d") tx
        bothStaged = .ok (digests, tx', [[1]]) ∧
      tx'.graph.read (progress [1]) = .ok (some (.json (.string "a"))) ∧
      tx'.graph.read (progress [2]) = .ok (some (.json (.string "d"))) := by
  -- the first save, of an empty store
  have hfirst : (@kinds.delta _ exactInventory _ firstRollsBack .empty (progressGraph "a" "b")
      ({} : Transaction exactCodec bytesOutside) {}).toOption.map (fun r => r.2.2) = some [] := by
    decide +kernel
  have hboth : ((@kinds.delta _ exactInventory _ firstRollsBack .empty (progressGraph "a" "b")
      ({} : Transaction exactCodec bytesOutside) {}).toOption.bind (fun r =>
        (kinds.delta firstRollsBack r.1 (progressGraph "c" "d") r.2.1 bothStaged).toOption)).map
          (fun r => r.2.2) = some [[1]] := by
    decide +kernel
  obtain ⟨⟨digests1, tx1, rolled1⟩, hran1, hrolled1⟩ := map_eq_some_iff.mp hfirst
  obtain rfl := hrolled1
  rw [hran1] at hboth
  obtain ⟨⟨digests2, tx2, rolled2⟩, hran2, hrolled2⟩ := map_eq_some_iff.mp hboth
  obtain rfl := hrolled2
  obtain ⟨stored, hstored, -, rfl, hnew, -⟩ := an_incremental_save_is_a_full_rewrite firstRollsBack
    {} tx1 .empty Graph.Holds.empty _ (progressGraph_wellFormed "a" "b") {} digests1 []
    (toOption_eq_some.mp hran1)
  have hsecond := toOption_eq_some.mp hran2
  obtain ⟨graph, -, hread, -, hgraph, -, hkept, -⟩ := an_incremental_save_is_a_full_rewrite
    firstRollsBack tx1 tx2 stored hstored _ (progressGraph_wellFormed "c" "d") bothStaged digests2
    [[1]] hsecond
  refine ⟨tx1, tx2, stored, digests2, hsecond, ?_, ?_⟩
  · rw [hread, hkept [1] (by decide) (progress [1]) rfl (by decide +kernel),
      hnew (progress [1]) (.json (.string "a")) (by decide +kernel) (by simp)]
  · rw [hread, hgraph (progress [2]) (.json (.string "d")) (by decide +kernel) (by decide +kernel)]

end ottto_service.state_v2
