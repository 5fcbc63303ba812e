-- The log and the writer's cache agree after every call that succeeds, as long as no compaction
-- fails while the log is below its full mark (snapshots/start_verdict_store.rs).
import Ottto.StartVerdictLog

namespace ottto_service.start_verdict_store

open accumulator List SortedMap Store Option

/-! ## Fewer verdicts -/

variable {reader : EntryReader} {verdicts fewer : SortedMap String Entry}

/-- Some entries are gone, the others stand as they were. -/
structure Fewer (fewer verdicts : SortedMap String Entry) : Prop where
  found : ∀ {k e}, fewer.get? k = some e → verdicts.get? k = some e
  size : fewer.size ≤ verdicts.size

theorem Fewer.refl : Fewer verdicts verdicts := ⟨id, le_rfl⟩

theorem Fewer.trans {fewest : SortedMap String Entry} (h : Fewer fewest fewer)
    (h' : Fewer fewer verdicts) : Fewer fewest verdicts :=
  ⟨fun hget => h'.found (h.found hget), h.size.trans h'.size⟩

theorem Fewer.valid (h : Fewer fewer verdicts) (hvalid : Valid verdicts) : Valid fewer := by
  intro e he
  exact hvalid e (mem_entries.mpr (h.found (mem_entries.mp he)))

theorem fewer_retain (p : String → Entry → Bool) : Fewer (verdicts.retain p) verdicts := by
  refine ⟨?_, length_filter_le _ _⟩
  intro k e hget
  rw [get?_retain] at hget
  exact (filter_eq_some_iff.mp hget).1

theorem fewer_erase (verdicts : SortedMap String Entry) (k : String) : Fewer (verdicts.erase k) verdicts := by
  refine ⟨?_, length_filter_le _ _⟩
  intro k' e hget
  rw [get?_erase] at hget
  split_ifs at hget
  exact hget

variable {k : String}

theorem size_erase {e : Entry} (h : verdicts.get? k = some e) :
    verdicts.size = (verdicts.erase k).size + 1 := (entries_perm_erase h).length_eq

theorem fewer_erase_all {α : Type} (verdicts : SortedMap String Entry) (key : α → String)
    (gone : List α) :
    Fewer (gone.foldl (fun verdicts e => verdicts.erase (key e)) verdicts) verdicts := by
  induction gone generalizing verdicts with
  | nil => exact .refl
  | cons e gone ih => exact (ih _).trans (fewer_erase _ (key e))

theorem fewer_evict : Fewer (evict_oldest verdicts) verdicts := fewer_erase_all _ _ _

/-- Above half the cap, at least one entry goes. -/
theorem evict_lt (hvalid : Valid verdicts) (h : MAX_SESSIONS / 2 < verdicts.size) :
    (evict_oldest verdicts).size < verdicts.size := by
  unfold evict_oldest
  generalize holdest : (verdicts.values.map (fun e => toLex (e.at_seconds.toInt, e.key))).insertionSort
    (fun a b => a ≤ b) = oldest
  have hlength : oldest.length = verdicts.size := by
    rw [← holdest, length_insertionSort, length_map]
    exact length_map _
  cases oldest with
  | nil =>
    rw [length_nil] at hlength
    omega
  | cons first oldest =>
    have hpresent : ∃ e, verdicts.get? (ofLex first).2 = some e := by
      have hmem : first ∈ verdicts.values.map (fun e => toLex (e.at_seconds.toInt, e.key)) := by
        rw [← mem_insertionSort (fun a b => a ≤ b), holdest]
        exact mem_cons_self
      obtain ⟨entry, hentry, rfl⟩ := mem_map.mp hmem
      obtain ⟨e, he, rfl⟩ := mem_map.mp hentry
      refine ⟨e.2, mem_entries.mp ?_⟩
      rw [(hvalid e he).1]
      exact he
    obtain ⟨e, he⟩ := hpresent
    obtain ⟨more, hmore⟩ := Nat.exists_eq_add_of_lt h
    have htake : verdicts.size - MAX_SESSIONS / 2 = more + 1 := by omega
    simp only [htake, take_succ_cons, foldl_cons]
    have hrest := (fewer_erase_all (verdicts.erase (ofLex first).2)
      (fun e : Int ×ₗ String => (ofLex e).2) (oldest.take more)).size
    have hsize := size_erase he
    omega

theorem size_insert_le (k : String) (e : Entry) : (verdicts.insert k e).size ≤ verdicts.size + 1 := by
  have hsize := (verdicts.entries_insert_perm k e).length_eq
  have hless := (fewer_erase verdicts k).size
  unfold SortedMap.size at hless ⊢
  rw [hsize, length_cons]
  omega

theorem size_insert_of_contains (e : Entry) (h : verdicts.contains k = true) :
    (verdicts.insert k e).size = verdicts.size := by
  obtain ⟨found, hfound⟩ := isSome_iff_exists.mp h
  rw [size_erase hfound]
  exact (verdicts.entries_insert_perm k e).length_eq

/-! ## The store between two steps -/

/-- From this length on, the next call compacts before anything else. -/
def FULL_MARK : Nat := MAX_BYTES - 64 * 1024

/-- The cache's entries are the log's. -/
structure Clean (reader : EntryReader) (s : Store) : Prop where
  reads : read reader s.log = .ok s.cache.verdicts
  counted : s.log.length ≤ s.cache.bytes
  bounded : s.cache.bytes ≤ MAX_BYTES

/-- The cache is sound, and a difference from the log will be noticed. -/
structure Held (reader : EntryReader) (s : Store) : Prop where
  valid : Valid s.cache.verdicts
  size : s.cache.verdicts.size ≤ MAX_SESSIONS
  noticed : Clean reader s ∨ FULL_MARK ≤ s.cache.bytes

variable {s : Store}

theorem Clean.held (h : Clean reader s) : Held reader s := by
  obtain ⟨-, hvalid, hsize⟩ := read_valid reader h.reads
  exact ⟨hvalid, hsize, .inl h⟩

theorem rows_within (hvalid : Valid verdicts) (hsize : verdicts.size ≤ MAX_SESSIONS) :
    (rows verdicts).length + 118 ≤ MAX_BYTES := by
  have hle := rows_length hvalid
  unfold MAX_SESSIONS at hsize
  unfold MAX_BYTES
  omega

theorem compacted_clean (reader : EntryReader) (s : Store) (hvalid : Valid s.cache.verdicts)
    (hsize : s.cache.verdicts.size ≤ MAX_SESSIONS) :
    Clean reader s.compacted :=
  ⟨read_rows reader hvalid hsize, le_rfl, (Nat.le_add_right _ _).trans (rows_within hvalid hsize)⟩

theorem Clean.with_day (h : Clean reader s) (day : Int) :
    Clean reader { s with cache := { s.cache with day } } := ⟨h.reads, h.counted, h.bounded⟩

/-- Not full, the store is below the mark and below the cap. -/
theorem of_not_full {cache : Cached} (h : cache.full = false) :
    cache.bytes < FULL_MARK ∧ cache.verdicts.size < MAX_SESSIONS := by
  unfold Cached.full at h
  rw [Bool.or_eq_false_iff, decide_eq_false_iff_not, decide_eq_false_iff_not] at h
  exact ⟨not_le.mp h.1, not_le.mp h.2⟩

/-! ## Pruning -/

theorem fewer_pruned (s : Store) (now : Int64) : Fewer (s.pruned now) s.cache.verdicts := by
  unfold Store.pruned
  dsimp only
  split_ifs
  · exact fewer_evict.trans (fewer_retain _)
  · exact fewer_retain _

/-- A failed compaction is above the mark. -/
def SteadyPrune (s : Store) (call : Call) : Prop :=
  call.compaction = true → s.compacts call.now = true → FULL_MARK ≤ s.cache.bytes

theorem prune_spec {call : Call} (h : Held reader s) (hsteady : SteadyPrune s call) :
    (((s.prune call.now call.compaction).2 = true → Clean reader (s.prune call.now call.compaction).1) ∧
      Held reader (s.prune call.now call.compaction).1) ∧
      Fewer (s.prune call.now call.compaction).1.cache.verdicts s.cache.verdicts := by
  have hfewer := fewer_pruned s call.now
  have hvalid := hfewer.valid h.valid
  have hsize := hfewer.size.trans h.size
  unfold Store.prune
  by_cases hdue : s.due call.now = true
  · rw [if_pos hdue]
    by_cases hcompacts : s.compacts call.now = true
    · simp only [hcompacts, if_true]
      unfold Store.compact
      cases hfails : call.compaction with
      | true =>
        -- The cache is pruned and the log is not: the next call finds it full.
        have hmark := hsteady hfails hcompacts
        simp only [if_true, Bool.false_eq_true, if_false]
        exact ⟨⟨fun hok => hok.elim, hvalid, hsize, .inr hmark⟩, hfewer⟩
      | false =>
        have hclean := compacted_clean reader (s.with_verdicts (s.pruned call.now)) hvalid hsize
        exact ⟨⟨fun _ => hclean.with_day _, (hclean.with_day _).held⟩, hfewer⟩
    · -- Nothing was pruned.
      have hkept : s.cache.full = false ∧ (s.pruned call.now).size = s.cache.verdicts.size := by
        unfold Store.compacts at hcompacts
        rw [hdue] at hcompacts
        simpa using hcompacts
      have hsame : s.pruned call.now = s.cache.verdicts := by
        have hretain : s.pruned call.now = s.cache.verdicts.retain (fun _ e => e.visible call.now) := by
          unfold Store.pruned
          rw [if_neg]
          rintro ⟨hfull, -⟩
          rw [hkept.1] at hfull
          cases hfull
        rw [hretain] at hkept ⊢
        exact ext_entries (filter_eq_self.mpr (length_filter_eq_length_iff.mp hkept.2))
      have hclean : Clean reader s := by
        rcases h.noticed with hclean | hmark
        · exact hclean
        · exact absurd hmark (not_le.mpr (of_not_full hkept.1).1)
      simp only [hcompacts, hsame, Bool.false_eq_true, if_false]
      exact ⟨⟨fun _ => hclean.with_day _, (hclean.with_day _).held⟩, Fewer.refl⟩
  · rw [if_neg hdue]
    have hfull : s.cache.full = false := by
      unfold Store.due at hdue
      rw [Bool.or_eq_true, not_or, Bool.not_eq_true, Bool.not_eq_true] at hdue
      exact hdue.2
    have hclean : Clean reader s := by
      rcases h.noticed with hclean | hmark
      · exact hclean
      · exact absurd hmark (not_le.mpr (of_not_full hfull).1)
    exact ⟨⟨fun _ => hclean, h⟩, Fewer.refl⟩

/-! ## One item -/

theorem valid_key_digest (message : Bytes) :
    valid_key (snapshots.hex_lower (Sha256.digest message)) = true := by
  have hlength := Sha256.digest_length message
  have hfingerprint := snapshots.hex_lower_is_fingerprint hlength
  unfold is_snapshot_fingerprint at hfingerprint
  rw [Bool.and_eq_true] at hfingerprint
  unfold valid_key
  rw [Bool.and_eq_true, decide_eq_true_eq]
  refine ⟨?_, hfingerprint.2⟩
  unfold snapshots.hex_lower
  simp [hlength]

theorem valid_key_key (destination source id : String) : valid_key (key destination source id) = true :=
  valid_key_digest _

/-- A failed compaction is above the mark, and a row is only put behind a line that is ended. -/
structure SteadyItem (s : Store) (call : Call) (item : Item) (faults : ItemFaults) : Prop where
  compaction : s.unchanged call item = false → s.makes_room call item = true →
    faults.sync = false → faults.compaction = true → FULL_MARK ≤ s.cache.bytes
  ended : s.unchanged call item = false → s.makes_room call item = false →
    faults.opening = false → faults.torn = none → ends_line s.log = true

variable {call : Call} {item : Item} {faults : ItemFaults}

/-- There is room for the item's row. -/
structure Room (reader : EntryReader) (s : Store) (call : Call) (item : Item) : Prop where
  clean : Clean reader s
  bytes : s.cache.bytes + (row (call.entry item)).length ≤ MAX_BYTES
  size : (s.cache.verdicts.insert (call.key item) (call.entry item)).size ≤ MAX_SESSIONS

theorem row_le (call : Call)
    (item : Item) : (row (call.entry item)).length ≤ 118 := row_length (valid_key_key _ _ _)

theorem with_verdicts_bytes (s : Store) (verdicts : SortedMap String Entry) :
    (s.with_verdicts verdicts).cache.bytes = s.cache.bytes := rfl

theorem with_verdicts_verdicts (s : Store) (verdicts : SortedMap String Entry) :
    (s.with_verdicts verdicts).cache.verdicts = verdicts := rfl

/-- What is kept for the batch's compaction. -/
theorem room_kept (call : Call) (item : Item) (hvalid : Valid s.cache.verdicts)
    (hsize : s.cache.verdicts.size ≤ MAX_SESSIONS) :
    Fewer (if s.new_at_cap call item then s.with_verdicts (evict_oldest s.cache.verdicts)
        else s).cache.verdicts s.cache.verdicts ∧
      ((if s.new_at_cap call item then s.with_verdicts (evict_oldest s.cache.verdicts)
        else s).cache.verdicts.insert (call.key item) (call.entry item)).size ≤ MAX_SESSIONS := by
  cases hcap : s.new_at_cap call item with
  | true =>
    unfold new_at_cap at hcap
    rw [Bool.and_eq_true, decide_eq_true_eq] at hcap
    have hhalf : MAX_SESSIONS / 2 < MAX_SESSIONS := by
      unfold MAX_SESSIONS
      omega
    have hlt := evict_lt hvalid (hhalf.trans_le hcap.2)
    have hfewer : Fewer (evict_oldest s.cache.verdicts) s.cache.verdicts := fewer_evict
    rw [if_pos rfl, with_verdicts_verdicts]
    exact ⟨hfewer, (size_insert_le _ _).trans (hlt.trans_le hsize)⟩
  | false =>
    refine ⟨Fewer.refl, ?_⟩
    unfold new_at_cap at hcap
    rw [Bool.and_eq_false_iff, Bool.not_eq_false', decide_eq_false_iff_not, not_le] at hcap
    rcases hcap with hcontains | hlt
    · exact (size_insert_of_contains _ hcontains).le.trans hsize
    · exact (size_insert_le _ _).trans hlt

theorem make_room_spec (h : Clean reader s) (hunchanged : s.unchanged call item = false)
    (hsteady : SteadyItem s call item faults) :
    Fewer (s.make_room call item faults).1.cache.verdicts s.cache.verdicts ∧
      Held reader (s.make_room call item faults).1 ∧
      ((s.make_room call item faults).2 = .ok () →
        Room reader (s.make_room call item faults).1 call item ∧
          (faults.opening = false → faults.torn = none →
            ends_line (s.make_room call item faults).1.log = true)) := by
  have hheld := h.held
  obtain ⟨hfewer, hinsert⟩ := room_kept call item hheld.valid hheld.size
  have hrow := row_le call item
  unfold make_room
  cases hroom : s.makes_room call item with
  | false =>
    have hfits : s.cache.bytes + (row (call.entry item)).length ≤ MAX_BYTES ∧
        s.new_at_cap call item = false := by
      unfold makes_room at hroom
      rw [Bool.or_eq_false_iff, decide_eq_false_iff_not, not_lt] at hroom
      exact hroom
    rw [hfits.2] at hinsert
    exact ⟨Fewer.refl, hheld, fun _ => ⟨⟨h, hfits.1, hinsert⟩, hsteady.ended hunchanged hroom⟩⟩
  | true =>
    cases hsync : faults.sync with
    | true => exact ⟨Fewer.refl, hheld, fun hok => by cases hok⟩
    | false =>
      generalize hkept : (if s.new_at_cap call item = true then
        s.with_verdicts (evict_oldest s.cache.verdicts) else s) = kept at hfewer hinsert
      have hbytes : kept.cache.bytes = s.cache.bytes := by
        rw [← hkept]
        split_ifs
        · exact with_verdicts_bytes _ _
        · rfl
      have hvalid := hfewer.valid hheld.valid
      have hsize := hfewer.size.trans hheld.size
      cases hfails : faults.compaction with
      | true =>
        have hmark := hsteady.compaction hunchanged hroom hsync hfails
        refine ⟨hfewer, ⟨hvalid, hsize, .inr ?_⟩, fun hok => by cases hok⟩
        rw [← hbytes] at hmark
        exact hmark
      | false =>
        have hclean := compacted_clean reader kept hvalid hsize
        refine ⟨hfewer, hclean.held, fun _ => ⟨⟨hclean, ?_, hinsert⟩, fun _ _ => ?_⟩⟩
        · have hwithin := rows_within hvalid hsize
          show (rows kept.cache.verdicts).length + _ ≤ _
          omega
        · show ends_line (rows kept.cache.verdicts) = true
          rw [rows_eq]
          exact ends_line_rows _

theorem append_spec (h : Room reader s call item)
    (hends : faults.opening = false → faults.torn = none → ends_line s.log = true) :
    Held reader (s.append call item faults).1 ∧
      ((s.append call item faults).2.isOk = true → Clean reader (s.append call item faults).1) := by
  have hheld := h.clean.held
  unfold Store.append
  cases hopening : faults.opening with
  | true => exact ⟨hheld, fun hok => by cases hok⟩
  | false =>
    cases htorn : faults.torn with
    | some written =>
      refine ⟨⟨hheld.valid, hheld.size, .inr ?_⟩, fun hok => by cases hok⟩
      exact Nat.sub_le _ _
    | none =>
      have hvalid : valid_key (call.entry item).key = true := valid_key_key _ _ _
      have hlength : (s.log ++ row (call.entry item)).length ≤ MAX_BYTES := by
        rw [length_append]
        have := h.clean.counted
        have := h.bytes
        omega
      have hread := read_append reader h.clean.reads (hends hopening htorn) hvalid hlength h.size
      have hclean : Clean reader
          { log := s.log ++ row (call.entry item)
            cache := { s.cache with
              bytes := s.cache.bytes + (row (call.entry item)).length
              verdicts := s.cache.verdicts.insert (call.key item) (call.entry item) } } := by
        refine ⟨hread, ?_, h.bytes⟩
        rw [length_append]
        exact Nat.add_le_add_right h.clean.counted _
      exact ⟨hclean.held, fun _ => hclean⟩

/-! ## The ledger -/

/-- What befalls the verdicts of a folder. -/
inductive Event
  | found (verdicts : SortedMap String Entry)
  | recorded (entry : Entry)
  | aged (now : Int64)
  | evicted

/-- The verdicts after the event. A verdict recorded again keeps the time it was first recorded. -/
def Event.apply (verdicts : SortedMap String Entry) : Event → SortedMap String Entry
  | .found verdicts => verdicts
  | .recorded entry =>
    if (verdicts.get? entry.key).any (fun e => e.measured == entry.measured) then verdicts
    else verdicts.insert entry.key entry
  | .aged now => verdicts.retain (fun _ e => e.visible now)
  | .evicted => evict_oldest verdicts

/-- The verdicts that a history leaves, without log, bytes or failures. -/
def ledger (history : List Event) : SortedMap String Entry := history.foldl Event.apply .empty

theorem ledger_append (history events : List Event) :
    ledger (history ++ events) = events.foldl Event.apply (ledger history) := foldl_append

/-- The event takes the key out: it is found no more, its entry is too old or of a later time, or
it is among the oldest of a full ledger. -/
def Event.drops (verdicts : SortedMap String Entry) (k : String) : Event → Prop
  | .found _ => True
  | .recorded _ => False
  | .aged now => ∃ e, verdicts.get? k = some e ∧ e.visible now = false
  | .evicted => (evict_oldest verdicts).contains k = false

/-- None of the events takes the key out. -/
def Survives (k : String) (verdicts : SortedMap String Entry) : List Event → Prop
  | [] => True
  | event :: events => ¬ event.drops verdicts k ∧ Survives k (event.apply verdicts) events

theorem Event.apply_kept {event : Event} {e : Entry} (hget : verdicts.get? k = some e)
    (hkept : ¬ event.drops verdicts k) (hother : ∀ later, event = .recorded later → later.key ≠ k) :
    (event.apply verdicts).get? k = some e := by
  cases event with
  | found found => exact absurd trivial hkept
  | recorded entry =>
    rw [Event.apply]
    split_ifs
    · exact hget
    · rw [get?_insert, if_neg (Ne.symm (hother entry rfl))]
      exact hget
  | aged now =>
    have hvisible : e.visible now = true := by
      by_contra hhidden
      exact hkept ⟨e, hget, Bool.not_eq_true _ ▸ hhidden⟩
    rw [Event.apply, get?_retain, hget, filter_some, if_pos hvisible]
  | evicted =>
    obtain ⟨found, hfound⟩ := isSome_iff_exists.mp ((Bool.not_eq_false _).mp hkept)
    rw [← hget, fewer_evict.found hfound]
    exact hfound

theorem survivor_seen {e : Entry} (events : List Event) (hget : verdicts.get? k = some e)
    (hsurvives : Survives k verdicts events)
    (hlast : ∀ later, .recorded later ∈ events → later.key ≠ k) :
    (events.foldl Event.apply verdicts).get? k = some e := by
  induction events generalizing verdicts with
  | nil => exact hget
  | cons event events ih =>
    have hkept := Event.apply_kept hget hsurvives.1 (fun later hlater =>
      hlast later (hlater ▸ mem_cons_self))
    exact ih hkept hsurvives.2 (fun later hlater => hlast later (mem_cons_of_mem _ hlater))

/-- The last verdict recorded under a key stands until an event takes the key out. -/
theorem ledger_last (before after : List Event) (entry : Entry)
    (hsurvives : Survives entry.key (ledger (before ++ [.recorded entry])) after)
    (hlast : ∀ later, .recorded later ∈ after → later.key ≠ entry.key) :
    ∃ e, (ledger (before ++ .recorded entry :: after)).get? entry.key = some e ∧
      e.measured = entry.measured := by
  rw [append_cons, ledger_append]
  have hrecorded : ∃ e, (ledger (before ++ [.recorded entry])).get? entry.key = some e ∧
      e.measured = entry.measured := by
    rw [ledger_append, foldl_cons, foldl_nil, Event.apply]
    split_ifs with hagain
    · obtain ⟨e, hget, hsame⟩ := (any_eq_true _ _).mp hagain
      exact ⟨e, hget, beq_iff_eq.mp hsame⟩
    · exact ⟨entry, get?_insert_self _ _ _, rfl⟩
  obtain ⟨e, hget, hsame⟩ := hrecorded
  exact ⟨e, survivor_seen after hget hsurvives hlast, hsame⟩

/-! ## What befalls the verdicts in a call -/

/-- The cache is opened from what the log reads as. -/
def opening_events (reader : EntryReader) (w : Writer) (unreadable : Bool) : List Event :=
  match w.cache with
  | some _ => []
  | none => [.found (if unreadable then .empty else (read reader w.log).toOption.getD .empty)]

def prune_events (s : Store) (now : Int64) : List Event :=
  if s.due now then
    .aged now :: if s.cache.full ∧
        MAX_SESSIONS / 2 < (s.cache.verdicts.retain (fun _ e => e.visible now)).size then [.evicted]
      else []
  else []

def item_events (call : Call) (s : Store) (item : Item) (faults : ItemFaults) : List Event :=
  (if s.unchanged call item = false ∧ s.new_at_cap call item = true ∧ faults.sync = false then
    [.evicted] else []) ++
  if (s.record_item call item faults).2.isOk then [.recorded (call.entry item)] else []

/-- The items up to the first that fails. -/
def items_events (call : Call) (s : Store) : List (Item × ItemFaults) → List Event
  | [] => []
  | (item, faults) :: items => item_events call s item faults ++
    if (s.record_item call item faults).2.isOk then
      items_events call (s.record_item call item faults).1 items
    else []

def call_events (reader : EntryReader) (w : Writer) (call : Call) : List Event :=
  let opened := w.opened reader call.unreadable
  let pruned := opened.prune call.now call.compaction
  opening_events reader w call.unreadable ++ prune_events opened call.now ++
    if pruned.2 then items_events call pruned.1 call.items else []

theorem opened_ledger (reader : EntryReader) (w : Writer) (unreadable : Bool)
    (verdicts : SortedMap String Entry) (h : ∀ cache, w.cache = some cache → cache.verdicts = verdicts) :
    (w.opened reader unreadable).cache.verdicts =
      (opening_events reader w unreadable).foldl Event.apply verdicts := by
  unfold Writer.opened opening_events
  cases hcache : w.cache with
  | some cache => exact h cache hcache
  | none =>
    cases unreadable with
    | true => rfl
    | false => cases read reader w.log <;> simp [Event.apply, Except.toOption]

theorem prune_ledger (s : Store) (now : Int64) (fails : Bool) :
    (s.prune now fails).1.cache.verdicts = (prune_events s now).foldl Event.apply s.cache.verdicts := by
  have hpruned : s.due now = true →
      s.pruned now = (prune_events s now).foldl Event.apply s.cache.verdicts := by
    intro hdue
    unfold Store.pruned prune_events
    dsimp only
    rw [if_pos hdue, foldl_cons, Event.apply]
    split_ifs
    · rw [foldl_cons, Event.apply, foldl_nil]
    · rw [foldl_nil]
  unfold Store.prune
  by_cases hdue : s.due now = true
  · rw [if_pos hdue, ← hpruned hdue]
    generalize s.pruned now = pruned
    cases s.compacts now <;> cases fails <;> rfl
  · rw [if_neg hdue, prune_events, if_neg hdue, foldl_nil]

/-- An eviction leaves an item of a changed verdict changed. -/
theorem unchanged_of_fewer {kept : Store} (hfewer : Fewer kept.cache.verdicts s.cache.verdicts)
    (hunchanged : s.unchanged call item = false) :
    (kept.cache.verdicts.get? (call.key item)).any
      (fun e => e.measured == decide (item.verdict = .Measured)) = false := by
  cases hget : kept.cache.verdicts.get? (call.key item) with
  | none => rfl
  | some e =>
    unfold Store.unchanged at hunchanged
    rw [hfewer.found hget] at hunchanged
    exact hunchanged

theorem make_room_verdicts (s : Store) (call : Call) (item : Item) (faults : ItemFaults) :
    (s.make_room call item faults).1.cache.verdicts =
      if s.new_at_cap call item = true ∧ faults.sync = false then evict_oldest s.cache.verdicts
      else s.cache.verdicts := by
  unfold make_room
  cases hcap : s.new_at_cap call item with
  | true =>
    have hroom : s.makes_room call item = true := by
      unfold makes_room
      rw [hcap, Bool.or_true]
    rw [if_pos hroom]
    generalize evict_oldest s.cache.verdicts = kept
    cases faults.sync <;> cases faults.compaction <;>
      simp [Store.compact, Store.compacted, with_verdicts]
  | false =>
    cases s.makes_room call item <;> cases faults.sync <;> cases faults.compaction <;>
      simp [Store.compact, Store.compacted]

theorem record_item_ledger (s : Store) (call : Call) (item : Item) (faults : ItemFaults) :
    (s.record_item call item faults).1.cache.verdicts =
      (item_events call s item faults).foldl Event.apply s.cache.verdicts := by
  unfold item_events record_item
  cases hunchanged : s.unchanged call item with
  | true =>
    unfold Store.unchanged at hunchanged
    simp [Except.isOk, Except.toBool, Event.apply, Call.entry, hunchanged]
  | false =>
    have hmade := make_room_verdicts s call item faults
    have hfewer : Fewer (s.make_room call item faults).1.cache.verdicts s.cache.verdicts := by
      rw [hmade]
      split_ifs
      · exact fewer_evict
      · exact .refl
    have hchanged := unchanged_of_fewer hfewer hunchanged
    simp only [Bool.false_eq_true, if_false, true_and]
    cases hroom : s.make_room call item faults with
    | mk made result =>
      rw [hroom] at hmade hchanged
      have hevicted : (if s.new_at_cap call item = true ∧ faults.sync = false then [Event.evicted]
          else []).foldl Event.apply s.cache.verdicts = made.cache.verdicts := by
        rw [hmade]
        split_ifs
        · rw [foldl_cons, Event.apply, foldl_nil]
        · rw [foldl_nil]
      rw [foldl_append, hevicted]
      cases result with
      | error error => rfl
      | ok _ =>
        unfold Store.append
        cases faults.opening with
        | true => rfl
        | false =>
          cases faults.torn with
          | some written => rfl
          | none =>
            exact (if_neg (fun hsame => Bool.false_ne_true (hchanged.symm.trans hsame))).symm

theorem record_items_ledger (call : Call) (items : List (Item × ItemFaults)) (s : Store) :
    (s.record_items call items).1.cache.verdicts =
      (items_events call s items).foldl Event.apply s.cache.verdicts := by
  induction items generalizing s with
  | nil => rfl
  | cons e items ih =>
    obtain ⟨item, faults⟩ := e
    rw [record_items, items_events, foldl_append, ← record_item_ledger]
    cases s.record_item call item faults with
    | mk next result =>
      cases result with
      | error error => rfl
      | ok written => exact ih next

/-- After a call, whatever failed in it, the cache is the ledger. -/
theorem record_ledger (reader : EntryReader) (w : Writer) (call : Call) (history : List Event)
    (h : ∀ cache, w.cache = some cache → cache.verdicts = ledger history) :
    ∃ cache, (record reader w call).1.cache = some cache ∧
      cache.verdicts = ledger (history ++ call_events reader w call) := by
  have hopened := opened_ledger reader w call.unreadable _ h
  have hpruned := prune_ledger (w.opened reader call.unreadable) call.now call.compaction
  rw [hopened] at hpruned
  unfold record call_events
  simp only [ledger_append, foldl_append]
  rw [← hpruned]
  cases (w.opened reader call.unreadable).prune call.now call.compaction with
  | mk pruned ok =>
    cases ok with
    | false => exact ⟨_, rfl, rfl⟩
    | true =>
      have hitems := record_items_ledger call call.items pruned
      simp only [if_true]
      rw [← hitems]
      cases hbatch : pruned.record_items call call.items with
      | mk after result => cases result <;> exact ⟨_, rfl, rfl⟩

/-! ## A batch -/

theorem record_item_spec (h : Clean reader s) (hsteady : SteadyItem s call item faults) :
    Held reader (s.record_item call item faults).1 ∧
      ((s.record_item call item faults).2.isOk = true →
        Clean reader (s.record_item call item faults).1) := by
  unfold record_item
  cases hunchanged : s.unchanged call item with
  | true =>
    exact ⟨h.held, fun _ => h⟩
  | false =>
    obtain ⟨-, hheld, hroom⟩ := make_room_spec h hunchanged hsteady
    cases hmade : s.make_room call item faults with
    | mk made result =>
      rw [hmade] at hheld hroom
      cases result with
      | error error => exact ⟨hheld, fun hok => by cases hok⟩
      | ok _ =>
        obtain ⟨hroom, hends⟩ := hroom rfl
        exact append_spec hroom hends

/-- Each item that a batch gets to is steady. -/
def SteadyItems (call : Call) (s : Store) : List (Item × ItemFaults) → Prop
  | [] => True
  | (item, faults) :: items =>
    SteadyItem s call item faults ∧ ((s.record_item call item faults).2.isOk = true →
      SteadyItems call (s.record_item call item faults).1 items)

theorem record_items_spec (items : List (Item × ItemFaults)) (h : Clean reader s)
    (hsteady : SteadyItems call s items) :
    Held reader (s.record_items call items).1 ∧
      ((s.record_items call items).2.isOk = true → Clean reader (s.record_items call items).1) := by
  induction items generalizing s with
  | nil => exact ⟨h.held, fun _ => h⟩
  | cons e items ih =>
    obtain ⟨item, faults⟩ := e
    obtain ⟨hitem, hitems⟩ := hsteady
    obtain ⟨hheld, hclean⟩ := record_item_spec h hitem
    rw [record_items]
    cases hresult : s.record_item call item faults with
    | mk next result =>
      rw [hresult] at hheld hclean hitems
      cases result with
      | error error => exact ⟨hheld, fun hok => by cases hok⟩
      | ok written =>
        obtain ⟨hheld', hclean'⟩ := ih (hclean rfl) (hitems rfl)
        refine ⟨hheld', fun hok => hclean' ?_⟩
        cases hrest : (next.record_items call items).2 with
        | ok more => rfl
        | error error =>
          simp only [hrest] at hok
          cases hok

/-! ## A call -/

/-- A writer that has read its log holds what later calls need. -/
def Tracked (reader : EntryReader) (w : Writer) : Prop :=
  ∀ cache, w.cache = some cache → Held reader { log := w.log, cache }

variable {w : Writer}

theorem opened_held (h : Tracked reader w) (unreadable : Bool) :
    Held reader (w.opened reader unreadable) := by
  unfold Writer.opened
  cases hcache : w.cache with
  | some cache => exact h cache hcache
  | none =>
    have hempty : ∀ log : Bytes, Held reader
        { log, cache := { day := -1, verdicts := .empty, bytes := MAX_BYTES } } := by
      intro log
      exact ⟨by simp [Valid, SortedMap.empty], Nat.zero_le _, .inr (Nat.sub_le _ _)⟩
    cases unreadable with
    | true => exact hempty w.log
    | false =>
      cases hread : read reader w.log with
      | error error => simpa [hread] using hempty w.log
      | ok verdicts =>
        have hclean : Clean reader { log := w.log, cache := { day := -1, verdicts, bytes := w.log.length } } :=
          ⟨hread, le_rfl, (read_valid reader hread).1⟩
        simpa [hread] using hclean.held

/-- In a steady call, each compaction and each row is steady. -/
structure Steady (reader : EntryReader) (w : Writer) (call : Call) : Prop where
  prune : SteadyPrune (w.opened reader call.unreadable) call
  items : ((w.opened reader call.unreadable).prune call.now call.compaction).2 = true →
    SteadyItems call ((w.opened reader call.unreadable).prune call.now call.compaction).1 call.items

theorem record_spec (h : Tracked reader w) (hsteady : Steady reader w call) :
    ∃ s : Store, (record reader w call).1 = s.closed ∧ Held reader s ∧
      ((record reader w call).2.isOk = true → Clean reader s) := by
  obtain ⟨⟨hclean, hpruned⟩, -⟩ := prune_spec (opened_held h call.unreadable) hsteady.prune
  have hitems := hsteady.items
  unfold record
  cases hprune : (w.opened reader call.unreadable).prune call.now call.compaction with
  | mk pruned ok =>
    rw [hprune] at hclean hpruned hitems
    cases ok with
    | false => exact ⟨pruned, rfl, hpruned, fun hok => by cases hok⟩
    | true =>
      obtain ⟨hheld, hclean⟩ := record_items_spec call.items (hclean rfl) (hitems rfl)
      simp only
      cases hbatch : pruned.record_items call call.items with
      | mk after result =>
        rw [hbatch] at hheld hclean
        cases result with
        | error error => exact ⟨after, rfl, hheld, fun hok => by cases hok⟩
        | ok written => exact ⟨after, rfl, hheld, fun _ => hclean rfl⟩

end ottto_service.start_verdict_store
