-- Whole runs of the start-verdict writer: what a reader sees after a call that succeeds, and the
-- failed compaction that nothing notices (snapshots/start_verdict_store.rs).
import Ottto.CanonicalIdentity
import Ottto.StartVerdictRuns

namespace ottto_service.start_verdict_store

open accumulator serde_json canonical_json SortedMap List Option Store
open claude_request_identity.accepted (of_i64)

/-! ## Runs -/

variable (reader : EntryReader)

/-- The writer after one more call, with what befell the verdicts so far. -/
def next (state : Writer × List Event) (call : Call) : Writer × List Event :=
  ((record reader state.1 call).1, state.2 ++ call_events reader state.1 call)

def run (log : Bytes) (calls : List Call) : Writer × List Event :=
  calls.foldl (next reader) ({ log }, [])

def SteadyRun (w : Writer) : List Call → Prop
  | [] => True
  | call :: calls => Steady reader w call ∧ SteadyRun (record reader w call).1 calls

/-- A reader that starts now sees what the writer has, which is what the history leaves: the last
verdict recorded for every session that no event has taken out. -/
structure Agrees (w : Writer) (history : List Event) : Prop where
  within : w.log.length ≤ MAX_BYTES
  reads : read reader w.log = .ok (ledger history)
  size : (ledger history).size ≤ MAX_SESSIONS
  same : ∃ cache, w.cache = some cache ∧ ∀ destination source id now,
    (load reader w.log destination).lookup source id now =
      ({ entries := cache.verdicts, destination } : Verdicts).lookup source id now
  last : ∀ before after entry, history = before ++ .recorded entry :: after →
    Survives entry.key (ledger (before ++ [.recorded entry])) after →
    (∀ later, .recorded later ∈ after → later.key ≠ entry.key) →
      ∃ e, (ledger history).get? entry.key = some e ∧ e.measured = entry.measured

variable {reader} {s : Store} {w : Writer} {history : List Event}

theorem Clean.agrees (h : Clean reader s) (hledger : s.cache.verdicts = ledger history) :
    Agrees reader s.closed history := by
  have hreads : read reader s.closed.log = .ok s.cache.verdicts := h.reads
  refine ⟨h.counted.trans h.bounded, hledger ▸ hreads, hledger ▸ h.held.size,
    ⟨s.cache, rfl, fun destination source id now => ?_⟩, ?_⟩
  · unfold load
    rw [hreads]
    rfl
  · rintro before after entry rfl hsurvives hlast
    exact ledger_last before after entry hsurvives hlast

/-- The cache is the ledger in every run, whatever fails in it. -/
theorem run_ledger (reader : EntryReader) (log : Bytes) (calls : List Call) :
    ∀ cache, (run reader log calls).1.cache = some cache →
      cache.verdicts = ledger (run reader log calls).2 := by
  induction calls using List.reverseRecOn with
  | nil =>
    intro cache hcache
    cases hcache
  | append_singleton calls call ih =>
    intro cache hcache
    obtain ⟨found, hfound, hledger⟩ := record_ledger reader (run reader log calls).1 call _ ih
    unfold run at hcache hfound hledger ⊢
    rw [foldl_append, foldl_cons, foldl_nil] at hcache ⊢
    cases hfound.symm.trans hcache
    exact hledger

theorem SteadyRun.tracked (calls : List Call) {state : Writer × List Event}
    (h : Tracked reader state.1) (hsteady : SteadyRun reader state.1 calls) :
    Tracked reader (calls.foldl (next reader) state).1 := by
  induction calls generalizing state with
  | nil => exact h
  | cons call calls ih =>
    obtain ⟨s, hs, hheld, -⟩ := record_spec h hsteady.1
    refine ih (fun cache hcache => ?_) hsteady.2
    unfold next at hcache ⊢
    rw [hs] at hcache ⊢
    cases hcache
    exact hheld

theorem SteadyRun.split (calls : List Call) {call : Call} {state : Writer × List Event}
    (hsteady : SteadyRun reader state.1 (calls ++ [call])) :
    SteadyRun reader state.1 calls ∧ Steady reader (calls.foldl (next reader) state).1 call := by
  induction calls generalizing state with
  | nil => exact ⟨trivial, hsteady.1⟩
  | cons first calls ih =>
    obtain ⟨hfirst, hrest⟩ := hsteady
    obtain ⟨hcalls, hcall⟩ := @ih (next reader state first) hrest
    exact ⟨⟨hfirst, hcalls⟩, hcall⟩

/-- In a steady run, the log, the cache and the ledger agree after every call that succeeds. -/
theorem steady_runs_agree (reader : EntryReader) (log : Bytes) (calls : List Call) (call : Call)
    (hsteady : SteadyRun reader { log } (calls ++ [call]))
    (hok : (record reader (run reader log calls).1 call).2.isOk = true) :
    Agrees reader (run reader log (calls ++ [call])).1 (run reader log (calls ++ [call])).2 := by
  have hcalls := SteadyRun.split calls (show SteadyRun reader
    (({ log }, []) : Writer × List Event).1 (calls ++ [call]) from hsteady)
  have htracked : Tracked reader (run reader log calls).1 :=
    SteadyRun.tracked calls (fun cache hcache => by cases hcache) hcalls.1
  obtain ⟨s, hs, -, hclean⟩ := record_spec htracked hcalls.2
  have hrun : run reader log (calls ++ [call]) = next reader (run reader log calls) call := by
    unfold run
    rw [foldl_append]
    rfl
  have hledger := run_ledger reader log (calls ++ [call])
  rw [hrun] at hledger ⊢
  unfold next at hledger ⊢
  rw [hs] at hledger ⊢
  exact (hclean hok).agrees (hledger s.cache rfl)

/-! ## The failure that nothing notices -/

variable {now : Int64}

/-- Below the mark, pruning compacts only what it made smaller. -/
theorem pruned_lt (h : Held reader s) (hcompacts : s.compacts now = true)
    (hmark : s.cache.bytes < FULL_MARK) : (s.pruned now).size < s.cache.verdicts.size := by
  have hle := (fewer_pruned s now).size
  unfold Store.compacts at hcompacts
  rw [Bool.and_eq_true, Bool.or_eq_true, decide_eq_true_eq] at hcompacts
  rcases hcompacts.2 with hfull | hne
  · have hcap : MAX_SESSIONS ≤ s.cache.verdicts.size := by
      unfold Cached.full at hfull
      rw [Bool.or_eq_true, decide_eq_true_eq, decide_eq_true_eq] at hfull
      exact hfull.resolve_left (not_le.mpr hmark)
    have hretained := (@fewer_retain s.cache.verdicts (fun _ e => e.visible now))
    unfold Store.pruned
    dsimp only
    split_ifs with hhalf
    · exact (evict_lt (hretained.valid h.valid) hhalf.2).trans_le hretained.size
    · have hsmall : (s.cache.verdicts.retain (fun _ e => e.visible now)).size ≤ MAX_SESSIONS / 2 := by
        by_contra hlarge
        exact hhalf ⟨hfull, not_le.mp hlarge⟩
      unfold MAX_SESSIONS at hcap hsmall
      omega
  · omega

/-- Pruning what is pruned and not full changes nothing. -/
theorem pruned_again (h : s.cache.full = false)
    (hvisible : ∀ e ∈ s.cache.verdicts.entries, e.2.visible now = true) :
    s.pruned now = s.cache.verdicts := by
  unfold Store.pruned
  rw [h]
  simp only [Bool.false_eq_true, false_and, if_false]
  exact ext_entries (filter_eq_self.mpr hvisible)

theorem visible_of_pruned {e : String × Entry} (h : e ∈ (s.pruned now).entries) :
    e.2.visible now = true := by
  have hretained : (s.cache.verdicts.retain (fun _ e => e.visible now)).get? e.1 = some e.2 := by
    have hget := mem_entries.mp h
    unfold Store.pruned at hget
    dsimp only at hget
    split_ifs at hget
    · exact fewer_evict.found hget
    · exact hget
  rw [get?_retain] at hretained
  exact (filter_eq_some_iff.mp hretained).2

/-- Below the mark, a pruning whose compaction fails leaves entries in the log that the cache has
dropped, and the next one succeeds without a compaction. -/
theorem failed_compaction_unnoticed (h : Clean reader s) (hcompacts : s.compacts now = true)
    (hmark : s.cache.bytes < FULL_MARK) (fails : Bool) :
    (s.prune now true).2 = false ∧ ((s.prune now true).1.prune now fails).2 = true ∧
      ((s.prune now true).1.prune now fails).1.log = s.log ∧
      ((s.prune now true).1.prune now fails).1.cache.verdicts = s.pruned now := by
  have hlt := pruned_lt h.held hcompacts hmark
  have hdue : s.due now = true := by
    unfold Store.compacts at hcompacts
    exact (Bool.and_eq_true_iff.mp hcompacts).1
  have hfailed : s.prune now true = (s.with_verdicts (s.pruned now), false) := by
    unfold Store.prune Store.compact
    simp [hdue, hcompacts]
  have hfull : (s.with_verdicts (s.pruned now)).cache.full = false := by
    unfold Cached.full
    rw [Bool.or_eq_false_iff, decide_eq_false_iff_not, decide_eq_false_iff_not, not_le, not_le]
    exact ⟨hmark, hlt.trans_le h.held.size⟩
  have hagain : (s.with_verdicts (s.pruned now)).pruned now = s.pruned now :=
    pruned_again hfull (fun e he => visible_of_pruned he)
  have hsettled : (s.with_verdicts (s.pruned now)).compacts now = false := by
    unfold Store.compacts
    rw [hagain, hfull, with_verdicts_verdicts]
    simp
  rw [hfailed]
  refine ⟨rfl, ?_⟩
  unfold Store.prune
  simp only [hsettled, hagain, Bool.false_eq_true, if_false]
  split_ifs
  · exact ⟨rfl, rfl, rfl⟩
  · exact ⟨rfl, rfl, rfl⟩

/-! ## A reader of rows -/

/-- The fields of an entry. -/
def entry_of (value : Value) : Except String Entry :=
  match value.get "key", value.get "measured", (value.get "at").bind claude_request_identity.accepted.read_i64 with
  | some (.string key), some (.bool measured), some at_seconds => .ok { key, measured, at_seconds }
  | _, _, _ => .error "missing field"

def from_text (float : List Char → Option UInt64) (bytes : Bytes) : Except String Entry :=
  match Reader.read float bytes with
  | some value => entry_of value
  | none => .error "expected value"

theorem normal_of_i64 (n : Int64) : normal (of_i64 n) = of_i64 n := by
  unfold of_i64
  split_ifs with h
  · simp [normal, normalNumber, Number.integer]
  · obtain ⟨m, hm⟩ := Int.eq_negSucc_of_lt_zero (not_le.mp h)
    have hback : Int64.ofInt (.negSucc m) = n := by
      rw [← hm, Int64.ofInt_toInt]
    simp [normal, normalNumber, Number.integer, hm, hback]

theorem integersOnly_of_i64 (n : Int64) : IntegersOnly (of_i64 n) := by
  unfold of_i64
  split_ifs <;> rw [integersOnly_number]
  · exact .inl rfl
  · exact .inr rfl

theorem keysOnce_of_i64 (n : Int64) : (of_i64 n).KeysOnce := by
  unfold of_i64
  split_ifs
  · exact .number _
  · exact .number _

theorem integersOnly_string (s : String) : IntegersOnly (.string s) := by
  intro n hn
  cases hn

theorem integersOnly_bool (b : Bool) : IntegersOnly (.bool b) := by
  intro n hn
  cases hn

theorem read_members (float : List Char → Option UInt64) (entry : Entry) :
    Reader.read float (to_vec entry) = some (.object (members entry)) := by
  have hbytes : (⟨(to_vec entry).toArray⟩ : ByteArray) = (String.ofList (text entry)).toByteArray := by
    have htext : to_vec entry = utf8 (text entry) := rfl
    rw [htext]
    generalize text entry = chars
    apply ByteArray.ext
    apply Array.toList_inj.mp
    simp [utf8, List.utf8Encode]
  have hchars : String.fromUTF8? ⟨(to_vec entry).toArray⟩ = some (String.ofList (text entry)) := by
    rw [hbytes]
    unfold String.fromUTF8?
    rw [dif_pos (String.isValidUTF8 _)]
    rfl
  have hnormal : (members entry).map (Prod.map id normal) = members entry := by
    simp [members, normal, normal_of_i64, Prod.map]
  have heach : ∀ m ∈ members entry, IntegersOnly m.2 ∧ ReadBack float m.2 := by
    have hkeys : ∀ m ∈ members entry, m.2.KeysOnce ∧ IntegersOnly m.2 := by
      simp only [members, forall_mem_cons, not_mem_nil, false_imp_iff, implies_true, and_true]
      exact ⟨⟨.string _, integersOnly_string _⟩, ⟨.bool _, integersOnly_bool _⟩,
        keysOnce_of_i64 _, integersOnly_of_i64 _⟩
    intro m hm
    exact ⟨(hkeys m hm).2, readValue_plain float m.2 (hkeys m hm).1 (hkeys m hm).2⟩
  have hread := readMembers_joined (members entry) (by simp [members]) heach
    ((text entry).length) [] (by rw [hnormal]; unfold text; simp)
  rw [hnormal] at hread
  have hcollect : (members entry).foldl Reader.insertMember [] = members entry := by
    simp [members, Reader.insertMember]
  have hvalue : Reader.readValue float ((text entry).length + 1) (text entry) =
      some (.object (members entry), []) := by
    generalize (text entry).length = fuel at hread
    generalize hjoined : joined (plainMembers (members entry)) ++ ['\x7d'] = chars at hread
    have hhead : ∃ more, chars = '"' :: more := by
      rw [← hjoined]
      simp [members, plainMembers, joined, quoted]
    obtain ⟨more, rfl⟩ := hhead
    unfold text
    rw [cons_append, hjoined, Reader.readValue, if_neg (by decide), if_neg (by decide),
      if_neg (by decide), if_neg (by decide), if_neg (by decide), if_pos rfl, skip_cons (by decide)]
    split
    · rename_i heq
      exact absurd (List.cons.inj heq).1 (by decide)
    · rw [hread]
      simp only [bind_eq_bind, bind_some, hcollect]
  have hskip : Reader.skip (text entry) = text entry := skip_cons (by decide) _
  unfold Reader.read Reader.readText
  rw [hchars, bind_some, String.toList_ofList, hskip, hvalue]
  rfl

/-- The reader that takes the fields out of the value. -/
def text_reader (float : List Char → Option UInt64) : EntryReader where
  from_str := from_text float
  reads_back := by
    intro entry _
    unfold from_text
    rw [read_members]
    simp [entry_of, members, Value.get, claude_request_identity.accepted.read_of_i64]

/-! ## A log with a row of a later time -/

def no_floats (_ : List Char) : Option UInt64 := none

def later_row : Entry where
  key := key "d" "codex" "s"
  measured := true
  at_seconds := 2000000

def quiet (compaction : Bool) : Call where
  destination := "d"
  source := "codex"
  items := []
  now := 1000000
  compaction

def later_log : Store where
  log := row later_row
  cache := { day := -1, verdicts := SortedMap.empty.insert later_row.key later_row,
             bytes := (row later_row).length }

theorem later_log_clean : Clean (text_reader no_floats) later_log := by
  have hvalid : valid_key later_row.key = true := valid_key_key _ _ _
  have hempty : read (text_reader no_floats) [] = .ok .empty := rfl
  have hrow := row_length hvalid
  have hsmall : (row later_row).length ≤ MAX_BYTES := by
    unfold MAX_BYTES
    omega
  have hread := read_append (text_reader no_floats) hempty rfl hvalid hsmall
    ((size_insert_le _ _).trans (show 0 + 1 ≤ MAX_SESSIONS by unfold MAX_SESSIONS; omega))
  exact ⟨hread, le_rfl, hsmall⟩

theorem later_log_small : later_log.cache.bytes < FULL_MARK := by
  have hrow := @row_length later_row (valid_key_key _ _ _)
  unfold FULL_MARK MAX_BYTES later_log
  simp only
  omega

theorem later_log_full : later_log.cache.full = false := by
  unfold Cached.full
  rw [Bool.or_eq_false_iff, decide_eq_false_iff_not, decide_eq_false_iff_not, not_le, not_le]
  refine ⟨later_log_small, ?_⟩
  show 1 < MAX_SESSIONS
  unfold MAX_SESSIONS
  omega

theorem later_log_pruned : later_log.pruned 1000000 = .empty := by
  have hhidden : later_row.visible 1000000 = false := by decide
  unfold Store.pruned
  rw [later_log_full]
  simp only [Bool.false_eq_true, false_and, if_false]
  apply ext_entries
  show [(later_row.key, later_row)].filter (fun e => e.2.visible 1000000) = []
  simp [hhidden]

theorem later_log_compacts : later_log.compacts 1000000 = true := by
  unfold Store.compacts
  rw [later_log_pruned, later_log_full]
  decide

/-- The compaction of the first call fails. The second succeeds, and leaves the row in the log. -/
theorem a_failed_compaction_goes_unnoticed :
    (record (text_reader no_floats) (run (text_reader no_floats) later_log.log [quiet true]).1
        (quiet false)).2.isOk = true ∧
      ∃ cache verdicts, ∃ now : Int64,
        (run (text_reader no_floats) later_log.log [quiet true, quiet false]).1.cache = some cache ∧
        read (text_reader no_floats)
          (run (text_reader no_floats) later_log.log [quiet true, quiet false]).1.log = .ok verdicts ∧
        (quiet false).now.toInt ≤ now.toInt ∧
        ({ entries := verdicts, destination := "d" } : Verdicts).lookup "codex" "s" now ≠
          ({ entries := cache.verdicts, destination := "d" } : Verdicts).lookup "codex" "s" now := by
  have hunnoticed := failed_compaction_unnoticed later_log_clean later_log_compacts later_log_small false
  have hopened : ({ log := later_log.log } : Writer).opened (text_reader no_floats) false = later_log := by
    unfold Writer.opened
    simp only [Bool.false_eq_true, if_false, later_log_clean.reads]
    rfl
  obtain ⟨hfails, hsettles, hlog, hverdicts⟩ := hunnoticed
  cases hfirst : later_log.prune 1000000 true with
  | mk failed ok =>
    rw [hfirst] at hfails hsettles hlog hverdicts
    cases hsecond : failed.prune 1000000 false with
    | mk settled ok' =>
      rw [hsecond] at hsettles hlog hverdicts
      simp only at hfails hsettles hlog hverdicts
      subst hfails hsettles
      have hone : record (text_reader no_floats) { log := later_log.log } (quiet true) =
          (failed.closed, .error .compact) := by
        have hprune : later_log.prune (quiet true).now (quiet true).compaction = (failed, false) := hfirst
        unfold record
        rw [show (quiet true).unreadable = false from rfl, hopened, hprune]
      have htwo : record (text_reader no_floats) failed.closed (quiet false) = (settled.closed, .ok 0) := by
        have hprune : (failed.closed.opened (text_reader no_floats) (quiet false).unreadable).prune
            (quiet false).now (quiet false).compaction = (settled, true) := hsecond
        unfold record
        rw [hprune]
        rfl
      have hrun : (run (text_reader no_floats) later_log.log [quiet true]).1 = failed.closed :=
        congrArg Prod.fst hone
      have hboth : (run (text_reader no_floats) later_log.log [quiet true, quiet false]).1 =
          settled.closed := by
        show (record _ (run (text_reader no_floats) later_log.log [quiet true]).1 (quiet false)).1 = _
        rw [hrun, htwo]
      rw [hrun, hboth, htwo]
      refine ⟨rfl, settled.cache, later_log.cache.verdicts, 2000000, rfl, ?_, by decide, ?_⟩
      · show read _ settled.log = _
        rw [hlog]
        exact later_log_clean.reads
      · rw [hverdicts, later_log_pruned]
        have hfound : later_log.cache.verdicts.get? (key "d" "codex" "s") = some later_row :=
          get?_insert_self _ _ _
        have hvisible : later_row.visible 2000000 = true := by decide
        unfold Verdicts.lookup
        simp only [hfound, get?_empty, filter_some, hvisible, if_true]
        simp

/-- A first item goes through a log that is not there yet. -/
def first_item : Call where
  destination := "d"
  source := "codex"
  items := [({ source_session_id := "s", verdict := .Measured }, {})]
  now := 1000000

def first_store : Store where
  log := []
  cache := { day := 11, verdicts := .empty, bytes := 0 }

theorem first_pruned : (({ log := [] } : Writer).opened (text_reader no_floats)
    first_item.unreadable).prune first_item.now first_item.compaction = (first_store, true) := rfl

theorem first_makes_room :
    first_store.makes_room first_item { source_session_id := "s", verdict := .Measured } = false := by
  have hrow := row_le first_item { source_session_id := "s", verdict := .Measured }
  unfold makes_room new_at_cap
  rw [Bool.or_eq_false_iff, decide_eq_false_iff_not]
  constructor
  · show ¬ MAX_BYTES < 0 + _
    unfold MAX_BYTES
    omega
  · decide

theorem first_item_recorded :
    (first_store.record_item first_item { source_session_id := "s", verdict := .Measured } {}).2.isOk =
      true := by
  have hunchanged : first_store.unchanged first_item { source_session_id := "s", verdict := .Measured } =
      false := rfl
  have hroom : first_store.make_room first_item { source_session_id := "s", verdict := .Measured } {} =
      (first_store, .ok ()) := by
    unfold make_room
    rw [first_makes_room]
    rfl
  unfold record_item
  rw [hunchanged, hroom]
  rfl

theorem first_recorded : (first_store.record_items first_item first_item.items).2.isOk = true := by
  have hitem := first_item_recorded
  show (first_store.record_items first_item [({ source_session_id := "s", verdict := .Measured }, {})]).2.isOk =
    true
  unfold record_items
  cases hrecord : first_store.record_item first_item { source_session_id := "s", verdict := .Measured } {} with
  | mk after result =>
    rw [hrecord] at hitem
    cases result with
    | error error => cases hitem
    | ok written => rfl

theorem first_events : (run (text_reader no_floats) [] [first_item]).2 =
    [.found .empty, .aged 1000000] ++
      .recorded (first_item.entry { source_session_id := "s", verdict := .Measured }) :: [] := by
  show call_events (text_reader no_floats) { log := [] } first_item = _
  unfold call_events
  simp only [first_pruned, if_true]
  show [.found .empty] ++ [.aged 1000000] ++ items_events first_item first_store
    [({ source_session_id := "s", verdict := .Measured }, {})] = _
  rw [items_events, item_events, first_item_recorded, if_neg (by rintro ⟨-, hcap, -⟩; cases hcap)]
  rfl

/-- The reader sees the verdict of the first item. -/
theorem steady_runs_agree_first :
    Agrees (text_reader no_floats) (run (text_reader no_floats) [] [first_item]).1
      (run (text_reader no_floats) [] [first_item]).2 ∧
    ∃ e, (ledger (run (text_reader no_floats) [] [first_item]).2).get? (key "d" "codex" "s") = some e ∧
      e.measured = true := by
  have hagrees := steady_runs_agree (text_reader no_floats) [] [] first_item ⟨⟨?_, ?_⟩, trivial⟩ ?_
  · exact ⟨hagrees, hagrees.last _ [] _ first_events trivial (fun _ hlater => by cases hlater)⟩
  · intro hfails
    cases hfails
  · rw [first_pruned]
    intro _
    refine ⟨⟨?_, fun _ _ _ _ => rfl⟩, fun _ => trivial⟩
    intro _ hroom
    rw [first_makes_room] at hroom
    cases hroom
  · show (record _ { log := [] } first_item).2.isOk = true
    have hrecorded := first_recorded
    unfold record
    rw [first_pruned]
    simp only
    cases hbatch : first_store.record_items first_item first_item.items with
    | mk after result =>
      rw [hbatch] at hrecorded
      cases result with
      | error error => cases hrecorded
      | ok written => rfl

end ottto_service.start_verdict_store
