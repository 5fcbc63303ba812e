-- An incremental save leaves what a full rewrite of the graph would: the rows
-- that are enumerated, with those of the files that rolled back as they were.
import Ottto.GraphSave

namespace ottto_service.state_v2

open serde_json Results List Option SortedMap
open tail (Bytes Fault TailStage)

/-! ## Keys of the closure kinds -/

namespace mapper

theorem owner_record {key : RowKey} {file : Bytes} (h : owner key = some file) :
    ∃ kind position, key = .Record kind file position ∧ kind ∈ CLOSURE := by
  unfold owner closure_row at h
  cases key with
  | Record kind key_bytes position =>
    simp only at h
    by_cases hkind : CLOSURE.contains kind = true
    · rw [if_pos hkind] at h
      cases h
      exact ⟨kind, position, rfl, contains_iff_mem.mp hkind⟩
    · rw [if_neg hkind] at h
      cases h
  | Meta name => cases h
  | RequestSet id => cases h

theorem owner_of_mem {kind : String} (h : kind ∈ CLOSURE) (file : Bytes) (position : Nat) :
    owner (.Record kind file position) = some file := by
  unfold owner closure_row
  simp only [if_pos (contains_iff_mem.mpr h)]
  rfl

theorem closure_not_raw {kind : String} (h : kind ∈ CLOSURE) :
    "raw_hold.".isPrefixOf kind = false := by
  have hall : ∀ kind ∈ CLOSURE, "raw_hold.".isPrefixOf kind = false := by
    decide +kernel
  exact hall kind h

theorem owner_not_raw {key : RowKey} {file : Bytes} (h : owner key = some file) :
    key.is_raw = false := by
  obtain ⟨kind, position, rfl, hkind⟩ := owner_record h
  exact closure_not_raw hkind

end mapper

section

variable {codec : RowCodec} {inv : Inventory codec} {out : tail.Outside Bytes}

theorem fault_eq_ok {α : Type} {r : Except String α} {a : α} : fault r = .ok a ↔ r = .ok a := by
  cases r <;> simp [fault, Except.mapError]

variable {v : RowValue}

theorem Inventory.digest_injective {u : RowValue} (hform : u.is_raw = v.is_raw)
    (h : inv.digest u = inv.digest v) : u = v := by
  cases u with
  | json a =>
    cases v with
    | json b => rw [codec.to_vec_injective (inv.text_injective h)]
    | raw b => cases hform
  | raw a =>
    cases v with
    | json b => cases hform
    | raw b => rw [inv.bytes_injective h]

/-! ## The rows a graph holds -/

/-- The records read as the values of their keys, and the raw rows are theirs. -/
structure Graph.Holds (g : Graph codec) (rows : SortedMap RowKey RowValue) : Prop where
  records : Consistent kind_name g.records (rows.filterMap (fun _ v => v.json?))
  held : g.held = rows.filterMap (fun _ v => v.raw?)
  form : ∀ key v, rows.get? key = some v → v.is_raw = key.is_raw

variable {g g' : Graph codec} {rows : SortedMap RowKey RowValue}

theorem RowValue.raw_none (h : v.is_raw = false) : v.raw? = none := by
  cases v with
  | json value => rfl
  | raw bytes => cases h

theorem RowValue.json_none (h : v.is_raw = true) : v.json? = none := by
  cases v with
  | json value => cases h
  | raw bytes => rfl

theorem filterMap_insert {γ : Type} (f : RowValue → Option γ) (key : RowKey) (v : RowValue) :
    (rows.insert key v).filterMap (fun _ v => f v) =
      match f v with
      | some w => (rows.filterMap (fun _ v => f v)).insert key w
      | none => (rows.filterMap (fun _ v => f v)).erase key := by
  ext k : 1
  rw [get?_filterMap, get?_insert]
  cases hf : f v with
  | some w =>
    simp only [get?_insert, get?_filterMap]
    by_cases hk : k = key
    · simp [hk, hf]
    · simp [hk]
  | none =>
    simp only [get?_erase, get?_filterMap]
    by_cases hk : k = key
    · simp [hk, hf]
    · simp [hk]

theorem filterMap_erase {γ : Type} (f : RowValue → Option γ) (key : RowKey) :
    (rows.erase key).filterMap (fun _ v => f v) = (rows.filterMap (fun _ v => f v)).erase key := by
  ext k : 1
  simp only [get?_filterMap, get?_erase]
  by_cases hk : k = key
  · simp [hk]
  · simp [hk]

namespace Graph

variable {key : RowKey}

theorem Holds.no_raw (h : g.Holds rows) (hkey : key.is_raw = false) :
    (rows.filterMap (fun _ v => v.raw?)).get? key = none := by
  rw [get?_filterMap]
  cases hget : rows.get? key with
  | none => rfl
  | some v =>
    have hform := h.form key v hget
    rw [hkey] at hform
    exact RowValue.raw_none hform

theorem Holds.no_json (h : g.Holds rows) (hkey : key.is_raw = true) :
    (rows.filterMap (fun _ v => v.json?)).get? key = none := by
  rw [get?_filterMap]
  cases hget : rows.get? key with
  | none => rfl
  | some v =>
    have hform := h.form key v hget
    rw [hkey] at hform
    exact RowValue.json_none hform

theorem Holds.form_insert (h : g.Holds rows) {v : RowValue}
    (hv : v.is_raw = key.is_raw) (k : RowKey) (w : RowValue)
    (hw : (rows.insert key v).get? k = some w) : w.is_raw = k.is_raw := by
  exact forall_insert (p := fun k (w : RowValue) => w.is_raw = k.is_raw) hv h.form k w hw

theorem Holds.read (h : g.Holds rows) (key : RowKey) : g.read key = .ok (rows.get? key) := by
  have hheld := h.held ▸ get?_filterMap (fun _ (v : RowValue) => v.raw?) rows key
  have hpresent := h.records.present key
  rw [get?_filterMap] at hpresent
  unfold Graph.read
  rw [hheld]
  cases hget : rows.get? key with
  | none =>
    rw [hget] at hpresent
    cases hjson : g.records.records.get? key with
    | none => rfl
    | some json =>
      rw [hjson] at hpresent
      cases hpresent
  | some v =>
    cases v with
    | raw bytes => rfl
    | json value =>
      rw [hget] at hpresent
      obtain ⟨json, hjson⟩ := isSome_iff_exists.mp hpresent
      obtain ⟨-, value', hvalue, hrestore⟩ := h.records.restored key json hjson
      rw [get?_filterMap, hget] at hvalue
      cases hvalue
      rw [hjson]
      exact bind_eq_ok.mpr ⟨_, fault_eq_ok.mpr hrestore, rfl⟩

theorem Holds.empty : ({} : Graph codec).Holds .empty where
  records := Consistent.empty
  held := rfl
  form := by
    intro key v h
    cases h

theorem put_spec {value : Value} (h : g.Holds rows) (hkey : key.is_raw = false)
    (hrun : g.put key value = .ok g') : g'.Holds (rows.insert key (.json value)) := by
  obtain ⟨records, hput, hrun⟩ := bind_eq_ok.mp hrun
  cases hrun
  obtain ⟨hrecords, -⟩ := state_v2.put_spec h.records (fault_eq_ok.mp hput)
  refine ⟨?_, ?_, h.form_insert hkey.symm⟩
  · rw [filterMap_insert]
    exact hrecords
  · rw [filterMap_insert]
    exact h.held.trans (erase_of_absent (h.no_raw hkey)).symm

theorem put_raw_spec {value : Bytes} (h : g.Holds rows) (hkey : key.is_raw = true)
    (hrun : g.put_raw key value = .ok g') : g'.Holds (rows.insert key (.raw value)) := by
  obtain ⟨_, -, hrun⟩ := bind_eq_ok.mp hrun
  cases hrun
  refine ⟨?_, ?_, h.form_insert hkey.symm⟩
  · rw [filterMap_insert]
    have hsame := erase_of_absent (h.no_json hkey)
    exact hsame.symm ▸ h.records
  · rw [filterMap_insert, ← h.held]
    rfl

theorem remove_spec (h : g.Holds rows) (hrun : g.remove key = .ok g') :
    g'.Holds (rows.erase key) := by
  have hform : ∀ k v, (rows.erase key).get? k = some v → v.is_raw = k.is_raw := by
    exact fun k v hv => h.form k v (get?_of_erase hv)
  unfold Graph.remove at hrun
  by_cases hheld : (g.held.get? key).isSome
  · rw [if_pos hheld] at hrun
    cases hrun
    have hkey : key.is_raw = true := by
      by_contra hnot
      rw [h.held, h.no_raw (Bool.not_eq_true _ ▸ hnot)] at hheld
      cases hheld
    refine ⟨?_, ?_, hform⟩
    · rw [filterMap_erase, erase_of_absent (h.no_json hkey)]
      exact h.records
    · rw [filterMap_erase, ← h.held]
  · rw [if_neg hheld] at hrun
    obtain ⟨records, hremove, hrun⟩ := bind_eq_ok.mp hrun
    cases hrun
    obtain ⟨hrecords, -⟩ := state_v2.remove_spec h.records (fault_eq_ok.mp hremove)
    refine ⟨?_, ?_, hform⟩
    · rw [filterMap_erase]
      exact hrecords
    · rw [filterMap_erase, ← h.held]
      exact (erase_of_absent (not_isSome_iff_eq_none.mp hheld)).symm

end Graph

/-! ## A save under way -/

namespace mapper

/-- The row waits for the boundary of its file. -/
def Rows.Pending (rows : Rows inv out) (key : RowKey) : Prop :=
  ∃ file closure, rows.closures.get? file = some closure ∧ ∃ row ∈ closure, row.key = key

/-- The graph is `graph`, and was `stored`: a row that does not wait has the digest
of the new inventory, or of the old one that is left; those of a file that waits
are the stored ones. -/
structure Underway (rows : Rows inv out) (stored graph : SortedMap RowKey RowValue) : Prop where
  holds : rows.tx.graph.Holds graph
  seed : rows.seed = .empty
  apart : ∀ k, (rows.next.get? k).isSome → rows.old.get? k = none
  settled : ∀ k, ¬ rows.Pending k →
    (graph.get? k).map inv.digest = (rows.next.get? k).or (rows.old.get? k)
  waiting : ∀ file, (rows.closures.get? file).isSome → ∀ k, owner k = some file →
    graph.get? k = stored.get? k
  pending : ∀ file closure, rows.closures.get? file = some closure → ∀ row ∈ closure,
    owner row.key = some file ∧ row.old = (stored.get? row.key).map inv.digest ∧
      rows.old.get? row.key = none ∧
      ∃ value, row.value = some value ∧ rows.next.get? row.key = some (inv.json value)

variable {rows rows' : Rows inv out} {stored graph : SortedMap RowKey RowValue}

namespace Underway

/-- A row that is new in this save does not wait. -/
theorem not_pending (h : Underway rows stored graph) {key : RowKey}
    (hnew : rows.next.get? key = none) : ¬ rows.Pending key := by
  rintro ⟨file, closure, hclosure, row, hrow, rfl⟩
  obtain ⟨-, -, -, value, -, hnext⟩ := h.pending file closure hclosure row hrow
  rw [hnew] at hnext
  cases hnext

/-- Only the graph rows of the transaction matter. -/
theorem of_tail (h : Underway rows stored graph) (tail : tail.Tx out) :
    Underway { rows with tx := { rows.tx with tail } } stored graph :=
  ⟨h.holds, h.seed, h.apart, h.settled, h.waiting, h.pending⟩

theorem closures_empty (h : Underway rows stored graph)
    (hnone : ∀ file, rows.closures.get? file = none) (k : RowKey) :
    (graph.get? k).map inv.digest = (rows.next.get? k).or (rows.old.get? k) := by
  apply h.settled
  rintro ⟨file, closure, hclosure, -⟩
  rw [hnone] at hclosure
  cases hclosure

end Underway

variable {key : RowKey}

theorem note_eq_ok {digest : inv.Digest} :
    rows.note key digest = .ok rows' ↔
      rows.next.get? key = none ∧ rows' = { rows with next := rows.next.insert key digest } := by
  constructor
  · intro h
    obtain ⟨_, hfree, h⟩ := bind_eq_ok.mp h
    exact ⟨isNone_iff_eq_none.mp (tail.ensure_eq_ok.mp hfree), (Except.ok.inj h).symm⟩
  · rintro ⟨hfree, rfl⟩
    exact bind_eq_ok.mpr ⟨(), tail.ensure_eq_ok.mpr (by rw [hfree]; rfl), rfl⟩

/-- One row of the enumeration, as the rows after it show it. -/
structure Noted (rows rows' : Rows inv out) (key : RowKey) (digest : inv.Digest) : Prop where
  fresh : rows.next.get? key = none
  next : rows'.next = rows.next.insert key digest
  old : rows'.old = rows.old.erase key
  seed : rows'.seed = rows.seed
  counted : rows'.counted = rows.counted
  closures : ∀ file, (rows'.closures.get? file).isSome = (rows.closures.get? file).isSome

/-- A row that is written, or that the store has already. -/
theorem Underway.note (h : Underway rows stored graph) {v : RowValue}
    {written : Graph codec} {graph' : SortedMap RowKey RowValue}
    (hfresh : rows.next.get? key = none)
    (hgraph : written.Holds graph') (hkey : (graph'.get? key).map inv.digest = some (inv.digest v))
    (hothers : ∀ k, k ≠ key → graph'.get? k = graph.get? k)
    (hwaits : ∀ file, (rows.closures.get? file).isSome → owner key = some file →
      graph'.get? key = graph.get? key) :
    Underway { rows with tx := { rows.tx with graph := written }
                         old := rows.old.erase key
                         next := rows.next.insert key (inv.digest v) } stored graph' where
  holds := hgraph
  seed := h.seed
  apart := by
    intro k hk
    simp only [get?_insert] at hk
    rw [get?_erase]
    by_cases hkey : k = key
    · rw [if_pos hkey]
    · rw [if_neg hkey] at hk ⊢
      exact h.apart k hk
  settled := by
    intro k hk
    simp only [get?_insert, get?_erase]
    by_cases heq : k = key
    · rw [if_pos heq, heq]
      exact hkey
    · rw [if_neg heq, if_neg heq, hothers k heq]
      exact h.settled k hk
  waiting := by
    intro file hfile k hk
    by_cases heq : k = key
    · subst heq
      exact (hwaits file hfile hk).trans (h.waiting file hfile k hk)
    · exact (hothers k heq).trans (h.waiting file hfile k hk)
  pending := by
    intro file closure hclosure row hrow
    obtain ⟨h1, h2, h3, value, h4, h5⟩ := h.pending file closure hclosure row hrow
    have hne : row.key ≠ key := by
      intro heq
      rw [heq, hfresh] at h5
      cases h5
    refine ⟨h1, h2, ?_, value, h4, ?_⟩
    · simp only [get?_erase, if_neg hne, h3]
    · simp only [get?_insert, if_neg hne, h5]

/-- A row that waits for its file's boundary. -/
theorem Underway.wait (h : Underway rows stored graph) {value : Value} {file : Bytes}
    {closure : List (ClosureRow inv)} (hfresh : rows.next.get? key = none)
    (howner : owner key = some file) (hclosure : rows.closures.get? file = some closure) :
    Underway { rows with old := rows.old.erase key
                         next := rows.next.insert key (inv.json value)
                         closures := rows.closures.insert file
                           (closure ++ [⟨key, rows.old.get? key, some value⟩]) } stored graph where
  holds := h.holds
  seed := h.seed
  apart := by
    intro k hk
    simp only [get?_insert] at hk
    rw [get?_erase]
    by_cases hkey : k = key
    · rw [if_pos hkey]
    · rw [if_neg hkey] at hk ⊢
      exact h.apart k hk
  settled := by
    intro k hk
    have hne : k ≠ key := by
      rintro rfl
      apply hk
      exact ⟨file, _, get?_insert_self _ _ _, ⟨k, rows.old.get? k, some value⟩,
        mem_append_right _ mem_cons_self, rfl⟩
    have hpending : ¬ rows.Pending k := by
      rintro ⟨other, c, hc, row, hrow, hrowkey⟩
      apply hk
      by_cases hother : other = file
      · subst hother
        rw [hclosure] at hc
        cases hc
        exact ⟨other, _, get?_insert_self _ _ _, row, mem_append_left _ hrow, hrowkey⟩
      · exact ⟨other, c, by simpa only [get?_insert, if_neg hother] using hc, row, hrow,
          hrowkey⟩
    simp only [get?_insert, get?_erase, if_neg hne]
    exact h.settled k hpending
  waiting := by
    intro other hother k hk
    apply h.waiting other _ k hk
    simp only [get?_insert] at hother
    by_cases hfile : other = file
    · rw [hfile, hclosure]
      rfl
    · rwa [if_neg hfile] at hother
  pending := by
    intro other c hc row hrow
    simp only [get?_insert, get?_erase] at hc ⊢
    have hbefore : ∀ other c, rows.closures.get? other = some c → row ∈ c → row.key ≠ key := by
      intro other' c' hc' hrow' heq
      obtain ⟨-, -, -, v, -, hnext⟩ := h.pending other' c' hc' row hrow'
      rw [heq, hfresh] at hnext
      cases hnext
    by_cases hfile : other = file
    · subst hfile
      rw [if_pos rfl] at hc
      cases hc
      rcases mem_append.mp hrow with hold | hlast
      · simp only [if_neg (hbefore other closure hclosure hold)]
        exact h.pending other closure hclosure row hold
      · obtain rfl := mem_singleton.mp hlast
        refine ⟨howner, ?_, if_pos rfl, value, rfl, if_pos rfl⟩
        have hsettled := h.settled key (h.not_pending hfresh)
        have hwaits := h.waiting other (by rw [hclosure]; rfl) key howner
        rw [hfresh, hwaits] at hsettled
        exact hsettled.symm
    · rw [if_neg hfile] at hc
      simp only [if_neg (hbefore other c hc hrow)]
      exact h.pending other c hc row hrow

theorem put_digest_spec (h : Underway rows stored graph) {value : Value}
    (hkey : key.is_raw = false) (hrun : rows.put_digest key value (inv.json value) = .ok rows') :
    (∃ graph', Underway rows' stored graph') ∧ Noted rows rows' key (inv.json value) := by
  unfold Rows.put_digest at hrun
  by_cases hsame : rows.old.get? key = some (inv.json value)
  · -- the stored row has the digest already
    rw [if_pos hsame] at hrun
    obtain ⟨hfresh, rfl⟩ := note_eq_ok.mp hrun
    have hsettled := h.settled key (h.not_pending hfresh)
    rw [hfresh, hsame] at hsettled
    exact ⟨⟨graph, h.note (v := .json value) hfresh h.holds hsettled (fun _ _ => rfl)
      (fun _ _ _ => rfl)⟩, hfresh, rfl, rfl, rfl, rfl, fun _ => rfl⟩
  · rw [if_neg hsame] at hrun
    cases hstaged : (owner key).bind
        (fun file => (rows.closures.get? file).map (fun c => (file, c))) with
    | some found =>
      obtain ⟨file, closure⟩ := found
      rw [hstaged] at hrun
      obtain ⟨f, howner, hfound⟩ := bind_eq_some_iff.mp hstaged
      obtain ⟨c, hclosure, hpair⟩ := map_eq_some_iff.mp hfound
      obtain ⟨rfl, rfl⟩ := Prod.mk.inj hpair
      obtain ⟨hfresh, rfl⟩ := note_eq_ok.mp hrun
      refine ⟨⟨graph, h.wait hfresh howner hclosure⟩, hfresh, rfl, rfl, rfl, rfl, ?_⟩
      intro other
      simp only [get?_insert]
      by_cases hother : other = f
      · rw [if_pos hother, hother, hclosure]
        rfl
      · rw [if_neg hother]
    | none =>
      rw [hstaged] at hrun
      obtain ⟨written, hput, hrun⟩ := bind_eq_ok.mp hrun
      obtain ⟨hfresh, rfl⟩ := note_eq_ok.mp hrun
      refine ⟨⟨_, h.note (v := .json value) hfresh (Graph.put_spec h.holds hkey hput) ?_ ?_ ?_⟩,
        hfresh, rfl, rfl, rfl, rfl, fun _ => rfl⟩
      · rw [get?_insert_self]
        rfl
      · intro k hk
        exact get?_insert_ne _ _ hk
      · intro file hfile howner
        rw [howner] at hstaged
        simp only [bind_some, map_eq_none_iff] at hstaged
        rw [hstaged] at hfile
        cases hfile

theorem raw_spec (h : Underway rows stored graph) {value : Bytes}
    (hkey : key.is_raw = true) (hrun : rows.raw key value = .ok rows') :
    (∃ graph', Underway rows' stored graph') ∧ Noted rows rows' key (inv.bytes value) := by
  unfold Rows.raw at hrun
  by_cases hsame : rows.old.get? key = some (inv.bytes value)
  · rw [if_pos hsame] at hrun
    obtain ⟨hfresh, rfl⟩ := note_eq_ok.mp hrun
    have hsettled := h.settled key (h.not_pending hfresh)
    rw [hfresh, hsame] at hsettled
    exact ⟨⟨graph, h.note (v := .raw value) hfresh h.holds hsettled (fun _ _ => rfl)
      (fun _ _ _ => rfl)⟩, hfresh, rfl, rfl, rfl, rfl, fun _ => rfl⟩
  · rw [if_neg hsame] at hrun
    obtain ⟨written, hput, hrun⟩ := bind_eq_ok.mp hrun
    obtain ⟨hfresh, rfl⟩ := note_eq_ok.mp hrun
    refine ⟨⟨_, h.note (v := .raw value) hfresh (Graph.put_raw_spec h.holds hkey hput) ?_ ?_ ?_⟩,
      hfresh, rfl, rfl, rfl, rfl, fun _ => rfl⟩
    · rw [get?_insert_self]
      rfl
    · intro k hk
      exact get?_insert_ne _ _ hk
    · intro file _ howner
      rw [owner_not_raw howner] at hkey
      cases hkey

/-! ## The closure of a file -/

theorem get?_foldl_erase {β : Type} (keys : List RowKey) (m : SortedMap RowKey β) (k : RowKey) :
    (keys.foldl SortedMap.erase m).get? k = if k ∈ keys then none else m.get? k := by
  induction keys generalizing m with
  | nil => simp
  | cons key keys ih =>
    rw [foldl_cons, ih, get?_erase]
    by_cases hmem : k ∈ keys
    · simp [hmem]
    · by_cases hk : k = key
      · simp [hk]
      · simp [hk, hmem]

theorem mem_left {rows : Rows inv out} {file : Bytes} {kind : String} :
    key ∈ rows.left file kind ↔
      (rows.old.get? key).isSome ∧ record_kind key = some kind ∧ owner key = some file := by
  unfold Rows.left
  rw [rangeWhile_eq_filter]
  · rw [Option.isSome_iff_exists]
    constructor
    · intro hmem
      obtain ⟨e, he, rfl⟩ := List.mem_map.mp hmem
      obtain ⟨hentry, hpasses⟩ := List.mem_filter.mp he
      exact ⟨⟨e.2, mem_entries.mp hentry⟩, of_decide_eq_true hpasses⟩
    · rintro ⟨⟨d, hd⟩, hpasses⟩
      apply List.mem_map.mpr
      exact ⟨(key, d), List.mem_filter.mpr ⟨mem_entries.mpr hd,
        decide_eq_true hpasses⟩, rfl⟩
  · intro k hk
    obtain ⟨hkind, howner⟩ := of_decide_eq_true hk
    obtain ⟨kind', position, rfl, -⟩ := owner_record howner
    cases hkind
    exact RowKey.record_le_record.mpr (.inr ⟨rfl, .inr ⟨rfl, Nat.zero_le position⟩⟩)
  · intro a b hfirst hlt hb
    obtain ⟨hkind, howner⟩ := of_decide_eq_true hb
    obtain ⟨kind', position, rfl, hclosure⟩ := owner_record howner
    cases hkind
    obtain ⟨file', position', rfl, hfile⟩ := RowKey.record_between hfirst hlt.le
    rw [hfile rfl]
    exact decide_eq_true ⟨rfl, owner_of_mem hclosure file position'⟩

/-- Rows that leave the old inventory, into the closure. -/
def Rows.take_rows (rows : Rows inv out) (closure : List (ClosureRow inv)) (keys : List RowKey) :
    List (ClosureRow inv) × Rows inv out :=
  (closure ++ keys.map (fun key => ⟨key, rows.old.get? key, none⟩),
    { rows with old := keys.foldl SortedMap.erase rows.old })

theorem foldl_take_rows (keys : List RowKey) (hnodup : keys.Nodup) (closure : List (ClosureRow inv))
    (rows : Rows inv out) :
    keys.foldl (fun (state : List (ClosureRow inv) × Rows inv out) key =>
      (state.1 ++ [⟨key, state.2.old.get? key, none⟩],
        { state.2 with old := state.2.old.erase key })) (closure, rows) =
      rows.take_rows closure keys := by
  induction keys generalizing closure rows with
  | nil => simp [Rows.take_rows]
  | cons key keys ih =>
    obtain ⟨hkey, hrest⟩ := nodup_cons.mp hnodup
    have hmap : keys.map (fun k => (⟨k, (rows.old.erase key).get? k, none⟩ : ClosureRow inv)) =
        keys.map (fun k => ⟨k, rows.old.get? k, none⟩) := by
      apply map_congr_left
      intro k hk
      rw [get?_erase, if_neg]
      rintro rfl
      exact hkey hk
    rw [foldl_cons, ih hrest]
    simp only [Rows.take_rows, hmap, map_cons, foldl_cons, append_assoc,
      singleton_append]

theorem take_kinds (file : Bytes) (kinds : List String) (closure : List (ClosureRow inv))
    (rows : Rows inv out) :
    ∃ keys, kinds.foldl (fun (state : List (ClosureRow inv) × Rows inv out) kind =>
        (state.2.left file kind).foldl (fun (state : List (ClosureRow inv) × Rows inv out) key =>
          (state.1 ++ [⟨key, state.2.old.get? key, none⟩],
            { state.2 with old := state.2.old.erase key })) state) (closure, rows) =
        rows.take_rows closure keys ∧
      ∀ key, key ∈ keys ↔ (rows.old.get? key).isSome ∧
        (∃ kind ∈ kinds, record_kind key = some kind) ∧ owner key = some file := by
  induction kinds generalizing closure rows with
  | nil => exact ⟨[], by simp [Rows.take_rows], by simp⟩
  | cons kind kinds ih =>
    have hnodup : (rows.left file kind).Nodup := by
      exact (((takeWhile_sublist _).trans (dropWhile_sublist _)).map Prod.fst).nodup
        rows.old.keys_nodup
    rw [foldl_cons, foldl_take_rows _ hnodup]
    obtain ⟨keys, hkeys, hmem⟩ := ih (rows.take_rows closure (rows.left file kind)).1
      (rows.take_rows closure (rows.left file kind)).2
    refine ⟨rows.left file kind ++ keys, ?_, ?_⟩
    · rw [show rows.take_rows closure (rows.left file kind) =
        ((rows.take_rows closure (rows.left file kind)).1,
          (rows.take_rows closure (rows.left file kind)).2) from rfl, hkeys]
      have hmap : keys.map (fun k => (⟨k, ((rows.left file kind).foldl SortedMap.erase
          rows.old).get? k, none⟩ : ClosureRow inv)) =
          keys.map (fun k => ⟨k, rows.old.get? k, none⟩) := by
        apply map_congr_left
        intro k hk
        obtain ⟨hsome, -⟩ := (hmem k).mp hk
        simp only [Rows.take_rows, get?_foldl_erase] at hsome ⊢
        by_cases hleft : k ∈ rows.left file kind
        · rw [if_pos hleft] at hsome
          cases hsome
        · rw [if_neg hleft]
      simp only [Rows.take_rows, hmap, map_append, append_assoc, foldl_append]
    · intro key
      rw [mem_append, hmem, mem_left]
      simp only [Rows.take_rows, get?_foldl_erase, mem_left, mem_cons, exists_eq_or_imp]
      by_cases hleft : (rows.old.get? key).isSome ∧ record_kind key = some kind ∧ owner key = some file
      · simp [hleft]
      · rw [if_neg hleft]
        tauto

/-- A file's closure: each of its rows that changed, with the digest it had, and
the rows it does not name as they were. -/
structure Taken (rows rows' : Rows inv out) (file : Bytes) (closure : List (ClosureRow inv))
    (stored : SortedMap RowKey RowValue) : Prop where
  tx : rows'.tx = rows.tx
  next : rows'.next = rows.next
  seed : rows'.seed = rows.seed
  counted : rows'.counted = rows.counted
  closures : rows'.closures = rows.closures.erase file
  old : ∀ k, rows'.old.get? k = if owner k = some file then none else rows.old.get? k
  changed : ∀ row ∈ closure, owner row.key = some file ∧
    row.old = (stored.get? row.key).map inv.digest ∧
    rows.next.get? row.key = row.value.map inv.json
  covers : ∀ k, owner k = some file → (∀ row ∈ closure, row.key ≠ k) →
    rows.next.get? k = (stored.get? k).map inv.digest

theorem take_closure_spec (h : Underway rows stored graph) {file : Bytes}
    (hfile : (rows.closures.get? file).isSome) :
    Taken rows (rows.take_closure file).2 file (rows.take_closure file).1 stored := by
  obtain ⟨closure, hclosure⟩ := isSome_iff_exists.mp hfile
  obtain ⟨keys, hkeys, hmem⟩ := take_kinds file CLOSURE closure
    { rows with closures := rows.closures.erase file }
  have htake : rows.take_closure file =
      Rows.take_rows { rows with closures := rows.closures.erase file } closure keys := by
    rw [← hkeys]
    unfold Rows.take_closure
    rw [hclosure]
    rfl
  have hmem' : ∀ k, k ∈ keys ↔ (rows.old.get? k).isSome ∧ owner k = some file := by
    intro k
    rw [hmem]
    constructor
    · rintro ⟨h1, -, h3⟩
      exact ⟨h1, h3⟩
    · rintro ⟨h1, h3⟩
      obtain ⟨kind, position, rfl, hkind⟩ := owner_record h3
      exact ⟨h1, ⟨kind, hkind, rfl⟩, h3⟩
  -- an old row that is left has the digest of the stored one
  have hold : ∀ k, owner k = some file → (rows.old.get? k).isSome →
      rows.old.get? k = (stored.get? k).map inv.digest ∧ rows.next.get? k = none := by
    intro k howner hsome
    have hnext : rows.next.get? k = none := by
      by_contra hnext
      have hgone := h.apart k (isSome_iff_ne_none.mpr hnext)
      rw [hgone] at hsome
      cases hsome
    have hsettled := h.settled k (h.not_pending hnext)
    rw [hnext, h.waiting file hfile k howner] at hsettled
    exact ⟨hsettled.symm, hnext⟩
  rw [htake]
  refine ⟨rfl, rfl, rfl, rfl, rfl, ?_, ?_, ?_⟩
  · intro k
    simp only [Rows.take_rows, get?_foldl_erase, hmem']
    by_cases howner : owner k = some file
    · cases hk : rows.old.get? k with
      | none => simp
      | some d => simp [howner]
    · rw [if_neg howner, if_neg (fun hboth => howner hboth.2)]
  · intro row hrow
    rcases mem_append.mp hrow with hchanged | hremoved
    · obtain ⟨h1, h2, -, value, h4, h5⟩ := h.pending file closure hclosure row hchanged
      refine ⟨h1, h2, ?_⟩
      rw [h4]
      exact h5
    · obtain ⟨k, hk, rfl⟩ := mem_map.mp hremoved
      obtain ⟨hsome, howner⟩ := (hmem' k).mp hk
      obtain ⟨hdigest, hnext⟩ := hold k howner hsome
      exact ⟨howner, hdigest, hnext⟩
  · intro k howner hnot
    have hnone : rows.old.get? k = none := by
      by_contra hsome
      have hk : k ∈ keys := (hmem' k).mpr ⟨isSome_iff_ne_none.mpr hsome, howner⟩
      exact hnot _ (mem_append_right _ (mem_map.mpr ⟨k, hk, rfl⟩)) rfl
    have hsettled : (graph.get? k).map inv.digest = (rows.next.get? k).or (rows.old.get? k) := by
      apply h.settled
      rintro ⟨other, c, hc, row, hrow, rfl⟩
      obtain ⟨howner', -⟩ := h.pending other c hc row hrow
      cases howner.symm.trans howner'
      rw [hclosure] at hc
      cases hc
      exact hnot row (mem_append_left _ hrow) rfl
    rw [hnone, or_none, h.waiting file hfile k howner] at hsettled
    exact hsettled.symm

/-! ## The boundary of a file -/

theorem write_closure_spec {closure : List (ClosureRow inv)} {g g' : Graph codec}
    {graph : SortedMap RowKey RowValue} (hg : g.Holds graph) (digests : RowKey → Option inv.Digest)
    (hrows : ∀ row ∈ closure, row.key.is_raw = false ∧ digests row.key = row.value.map inv.json)
    (hrun : tail.write_closure g closure = .ok g') :
    ∃ graph', g'.Holds graph' ∧
      (∀ k, (∀ row ∈ closure, row.key ≠ k) → graph'.get? k = graph.get? k) ∧
      ∀ row ∈ closure, (graph'.get? row.key).map inv.digest = digests row.key := by
  induction closure generalizing g graph with
  | nil =>
    cases hrun
    exact ⟨graph, hg, fun _ _ => rfl, by simp⟩
  | cons row closure ih =>
    obtain ⟨⟨hraw, hdigest⟩, hrest⟩ := forall_mem_cons.mp hrows
    unfold tail.write_closure at hrun
    rw [foldlM_cons] at hrun
    obtain ⟨g1, hfirst, hrun⟩ := bind_eq_ok.mp hrun
    have hone : ∃ graph1, g1.Holds graph1 ∧ (∀ k, k ≠ row.key → graph1.get? k = graph.get? k) ∧
        (graph1.get? row.key).map inv.digest = digests row.key := by
      rw [hdigest]
      cases hvalue : row.value with
      | some value =>
        rw [hvalue] at hfirst
        refine ⟨_, Graph.put_spec hg hraw hfirst, fun k hk => get?_insert_ne _ _ hk, ?_⟩
        rw [get?_insert_self]
        rfl
      | none =>
        rw [hvalue] at hfirst
        refine ⟨_, Graph.remove_spec hg hfirst, ?_, ?_⟩
        · intro k hk
          rw [get?_erase, if_neg hk]
        · rw [get?_erase, if_pos rfl]
          rfl
    obtain ⟨graph1, hg1, hothers1, hrow1⟩ := hone
    obtain ⟨graph', hg', hothers, hclosure⟩ := ih hg1 hrest hrun
    refine ⟨graph', hg', ?_, ?_⟩
    · intro k hk
      obtain ⟨hne, hk⟩ := forall_mem_cons.mp hk
      rw [hothers k hk, hothers1 k hne.symm]
    · rw [forall_mem_cons]
      refine ⟨?_, hclosure⟩
      by_cases hagain : ∃ other ∈ closure, other.key = row.key
      · obtain ⟨other, hother, hkey⟩ := hagain
        rw [← hkey]
        exact hclosure other hother
      · rw [hothers row.key (fun other hother hkey => hagain ⟨other, hother, hkey⟩)]
        exact hrow1

variable {file : Bytes} {closure : List (ClosureRow inv)}

variable {rows1 : Rows inv out}

theorem Taken.closure_get (ht : Taken rows rows1 file closure stored)
    {other : Bytes} {c : List (ClosureRow inv)} (hc : rows1.closures.get? other = some c) :
    other ≠ file ∧ rows.closures.get? other = some c := by
  rw [ht.closures, get?_erase] at hc
  by_cases hother : other = file
  · rw [if_pos hother] at hc
    cases hc
  · rw [if_neg hother] at hc
    exact ⟨hother, hc⟩

/-- A row of another file or of none waits as before. -/
theorem Taken.not_pending (h : Underway rows stored graph)
    (ht : Taken rows rows1 file closure stored) {k : RowKey} (hk : owner k ≠ some file)
    (hnot : ¬ rows1.Pending k) : ¬ rows.Pending k := by
  rintro ⟨other, c, hc, row, hrow, rfl⟩
  obtain ⟨howner, -⟩ := h.pending other c hc row hrow
  apply hnot
  refine ⟨other, c, ?_, row, hrow, rfl⟩
  rw [ht.closures, get?_erase, if_neg]
  · exact hc
  · rintro rfl
    exact hk howner

/-- The boundary holds: the file's rows are those of the enumeration. -/
theorem Underway.commit (h : Underway rows stored graph)
    (hfile : (rows.closures.get? file).isSome) (ht : Taken rows rows1 file closure stored)
    {written : Graph codec} (hrun : tail.write_closure rows1.tx.graph closure = .ok written)
    (tail : tail.Tx out) :
    ∃ graph', Underway { rows1 with tx := { graph := written, tail } } stored graph' := by
  rw [ht.tx] at hrun
  obtain ⟨graph', hg', hothers, hclosure⟩ := write_closure_spec h.holds rows.next.get?
    (fun row hrow => ⟨owner_not_raw (ht.changed row hrow).1, (ht.changed row hrow).2.2⟩) hrun
  have helse : ∀ k, owner k ≠ some file → graph'.get? k = graph.get? k := by
    intro k hk
    apply hothers
    rintro row hrow rfl
    exact hk (ht.changed row hrow).1
  refine ⟨graph', hg', ht.seed.trans h.seed, ?_, ?_, ?_, ?_⟩
  · intro k hk
    simp only [ht.next] at hk
    rw [ht.old]
    split_ifs
    · rfl
    · exact h.apart k hk
  · intro k hk
    simp only [ht.next, ht.old]
    by_cases howner : owner k = some file
    · rw [if_pos howner, or_none]
      by_cases hchanged : ∃ row ∈ closure, row.key = k
      · obtain ⟨row, hrow, rfl⟩ := hchanged
        exact hclosure row hrow
      · have hnot : ∀ row ∈ closure, row.key ≠ k := fun row hrow hkey => hchanged ⟨row, hrow, hkey⟩
        rw [hothers k hnot, h.waiting file hfile k howner, ht.covers k howner hnot]
    · rw [if_neg howner, helse k howner]
      exact h.settled k (ht.not_pending h howner hk)
  · intro other hother k hk
    obtain ⟨c, hc⟩ := isSome_iff_exists.mp hother
    obtain ⟨hne, hc⟩ := ht.closure_get hc
    have howner : owner k ≠ some file := by
      rw [hk]
      exact fun heq => hne (Option.some.inj heq)
    rw [helse k howner]
    exact h.waiting other (isSome_iff_exists.mpr ⟨c, hc⟩) k hk
  · intro other c hc row hrow
    obtain ⟨hne, hc⟩ := ht.closure_get hc
    obtain ⟨h1, h2, h3, value, h4, h5⟩ := h.pending other c hc row hrow
    refine ⟨h1, h2, ?_, value, h4, ?_⟩
    · rw [ht.old, h3]
      split_ifs <;> rfl
    · simp only [ht.next]
      exact h5

theorem revert_eq (rows : Rows inv out) (closure : List (ClosureRow inv)) :
    rows.revert closure = { rows with next := (rows.revert closure).next } := by
  unfold Rows.revert
  induction closure generalizing rows with
  | nil => rfl
  | cons row closure ih =>
    rw [foldl_cons, ih]

theorem revert_next {rows : Rows inv out} (digests : RowKey → Option inv.Digest)
    (hrows : ∀ row ∈ closure, row.old = digests row.key) (k : RowKey) :
    ((∀ row ∈ closure, row.key ≠ k) → (rows.revert closure).next.get? k = rows.next.get? k) ∧
      ((∃ row ∈ closure, row.key = k) → (rows.revert closure).next.get? k = digests k) := by
  induction closure generalizing rows with
  | nil => exact ⟨fun _ => rfl, by simp⟩
  | cons row closure ih =>
    obtain ⟨hold, hrest⟩ := forall_mem_cons.mp hrows
    -- The row's old digest is put back, or its key is taken out.
    obtain ⟨next, hnext, hstep⟩ : ∃ next : SortedMap RowKey inv.Digest,
        rows.revert (row :: closure) = Rows.revert { rows with next } closure ∧
        ∀ k, next.get? k = if k = row.key then digests row.key else rows.next.get? k := by
      refine ⟨_, rfl, fun k => ?_⟩
      rw [← hold]
      cases row.old with
      | some digest => rw [get?_insert]
      | none => rw [get?_erase]
    rw [hnext]
    obtain ⟨hnot, hmem⟩ := @ih { rows with next } hrest
    constructor
    · intro hk
      obtain ⟨hne, hk⟩ := forall_mem_cons.mp hk
      exact (hnot hk).trans ((hstep k).trans (if_neg hne.symm))
    · intro hk
      by_cases hagain : ∃ other ∈ closure, other.key = k
      · exact hmem hagain
      · refine (hnot (fun other hother hkey => hagain ⟨other, hother, hkey⟩)).trans ?_
        refine (hstep k).trans ?_
        obtain ⟨other, hother, rfl⟩ := hk
        rcases mem_cons.mp hother with rfl | hother
        · exact if_pos rfl
        · exact absurd ⟨other, hother, rfl⟩ hagain

/-- The boundary rolled back: the file's rows are the stored ones. -/
theorem Underway.revert (h : Underway rows stored graph)
    (hfile : (rows.closures.get? file).isSome) (ht : Taken rows rows1 file closure stored) :
    Underway (rows1.revert closure) stored graph ∧
      ∀ k, (rows1.revert closure).next.get? k =
        if owner k = some file then (stored.get? k).map inv.digest else rows.next.get? k := by
  have hnext : ∀ k, (rows1.revert closure).next.get? k =
      if owner k = some file then (stored.get? k).map inv.digest else rows.next.get? k := by
    intro k
    obtain ⟨hnot, hmem⟩ := @revert_next _ inv out closure rows1
      (fun k => (stored.get? k).map inv.digest) (fun row hrow => (ht.changed row hrow).2.1) k
    rw [ht.next] at hnot
    by_cases howner : owner k = some file
    · rw [if_pos howner]
      by_cases hchanged : ∃ row ∈ closure, row.key = k
      · exact hmem hchanged
      · have hkey : ∀ row ∈ closure, row.key ≠ k := fun row hrow hkey => hchanged ⟨row, hrow, hkey⟩
        rw [hnot hkey, ht.covers k howner hkey]
    · rw [if_neg howner]
      apply hnot
      rintro row hrow rfl
      exact howner (ht.changed row hrow).1
  refine ⟨?_, hnext⟩
  have heq := revert_eq rows1 closure
  have hsame : (rows1.revert closure).tx = rows.tx ∧ (rows1.revert closure).old = rows1.old ∧
      (rows1.revert closure).closures = rows1.closures ∧
      (rows1.revert closure).seed = rows.seed := by
    rw [heq]
    exact ⟨ht.tx, rfl, rfl, ht.seed⟩
  obtain ⟨htx, hold, hclosures, hseed⟩ := hsame
  have hpending : ∀ k, (rows1.revert closure).Pending k ↔ rows1.Pending k := by
    intro k
    unfold Rows.Pending
    rw [hclosures]
  refine ⟨?_, hseed.trans h.seed, ?_, ?_, ?_, ?_⟩
  · rw [htx]
    exact h.holds
  · intro k hk
    rw [hold, ht.old]
    rw [hnext] at hk
    by_cases howner : owner k = some file
    · rw [if_pos howner]
    · rw [if_neg howner] at hk ⊢
      exact h.apart k hk
  · intro k hk
    rw [hpending] at hk
    rw [hnext, hold, ht.old]
    by_cases howner : owner k = some file
    · rw [if_pos howner, if_pos howner, h.waiting file hfile k howner, or_none]
    · rw [if_neg howner, if_neg howner]
      exact h.settled k (ht.not_pending h howner hk)
  · intro other hother k hk
    rw [hclosures] at hother
    obtain ⟨c, hc⟩ := isSome_iff_exists.mp hother
    obtain ⟨-, hc⟩ := ht.closure_get hc
    exact h.waiting other (isSome_iff_exists.mpr ⟨c, hc⟩) k hk
  · intro other c hc row hrow
    rw [hclosures] at hc
    obtain ⟨hne, hc⟩ := ht.closure_get hc
    obtain ⟨h1, h2, h3, value, h4, h5⟩ := h.pending other c hc row hrow
    have howner : owner row.key ≠ some file := by
      rw [h1]
      exact fun heq => hne (Option.some.inj heq)
    refine ⟨h1, h2, ?_, value, h4, ?_⟩
    · rw [hold, ht.old, if_neg howner, h3]
    · rw [hnext, if_neg howner, h5]

end mapper

end

end ottto_service.state_v2
