-- What the join of API rows and trace rows gives: every API row once, under the
-- member that its trace row names, whatever order the rows came in.
import Ottto.UsageLedger

namespace ottto_service.claude_usage_ledger

open List Option ClaudeTraceOwnershipEvidence SortedMap Results
open durable_tail_codec.Durable (as_bytes)

/-! ## The rows by request -/

section

variable {Row : Type} {valid : Row → Bool} {request_id : Row → String} {rows : List Row}

/-- The rows by request, the last of each. -/
def by_request (request_id : Row → String) (rows : List Row)
    (first : SortedMap String Row := .empty) : SortedMap String Row :=
  rows.foldl (fun by_request row => by_request.insert (request_id row) row) first

variable {m : SortedMap String Row}

theorem collect_from {first : SortedMap String Row} :
    rows.foldlM (collect_row valid request_id) first = .ok m ↔
    (∀ row ∈ rows, valid row = true) ∧ (rows.map request_id).Nodup ∧
      (∀ row ∈ rows, first.contains (request_id row) = false) ∧ m = by_request request_id rows first := by
  induction rows generalizing first with
  | nil =>
    constructor
    · intro h
      exact ⟨by simp, by simp, by simp, (Except.ok.inj h).symm⟩
    · rintro ⟨-, -, -, rfl⟩
      rfl
  | cons row rest ih =>
    have hcontains : ∀ k, (first.insert (request_id row) row).contains k = false ↔
        k ≠ request_id row ∧ first.contains k = false := by
      intro k
      unfold SortedMap.contains
      rw [get?_insert]
      by_cases hk : k = request_id row <;> simp [hk]
    rw [foldlM_cons, map_cons, nodup_cons, forall_mem_cons, forall_mem_cons]
    unfold collect_row
    by_cases hvalid : valid row = true
    · by_cases hnew : first.contains (request_id row) = true
      · rw [hvalid, hnew]
        exact iff_of_false (fun h => by cases h) (fun h => by cases h.2.2.1.1)
      · rw [Bool.not_eq_true] at hnew
        rw [hvalid, hnew]
        change rest.foldlM (collect_row valid request_id) (first.insert (request_id row) row) = _ ↔ _
        rw [ih]
        simp only [hcontains, List.mem_map, not_exists, not_and, true_and]
        constructor
        · rintro ⟨hall, hnodup, hfresh, rfl⟩
          exact ⟨hall, ⟨fun x hx => (hfresh x hx).1, hnodup⟩, fun x hx => (hfresh x hx).2, rfl⟩
        · rintro ⟨hall, ⟨hhead, hnodup⟩, hfresh, rfl⟩
          exact ⟨hall, hnodup, fun x hx => ⟨hhead x hx, hfresh x hx⟩, rfl⟩
    · rw [Bool.not_eq_true] at hvalid
      rw [hvalid]
      exact iff_of_false (fun h => by cases h) (fun h => by cases h.1.1)

theorem collect_ok :
    collect_by_request valid request_id rows = .ok m ↔
      (∀ row ∈ rows, valid row = true) ∧ (rows.map request_id).Nodup ∧
        m = by_request request_id rows := by
  unfold collect_by_request
  rw [collect_from]
  simp [SortedMap.contains]

theorem get?_by_request (hnodup : (rows.map request_id).Nodup) (k : String) (row : Row) :
    (by_request request_id rows).get? k = some row ↔ row ∈ rows ∧ request_id row = k := by
  have hfrom : ∀ first : SortedMap String Row, (by_request request_id rows first).get? k = some row ↔
      (row ∈ rows ∧ request_id row = k) ∨ (first.get? k = some row ∧ k ∉ rows.map request_id) := by
    induction rows with
    | nil =>
      intro first
      simp [by_request]
    | cons head rest ih =>
      intro first
      obtain ⟨hhead, hrest⟩ := nodup_cons.mp hnodup
      change (by_request request_id rest (first.insert (request_id head) head)).get? k = some row ↔ _
      rw [ih hrest, get?_insert, mem_cons, map_cons, mem_cons]
      by_cases hk : k = request_id head
      · subst hk
        rw [if_pos rfl]
        constructor
        · rintro (⟨hmem, heq⟩ | ⟨heq, -⟩)
          · exact absurd (mem_map.mpr ⟨row, hmem, heq⟩) hhead
          · exact .inl ⟨.inl (Option.some.inj heq).symm, by rw [Option.some.inj heq]⟩
        · rintro (⟨rfl | hmem, heq⟩ | ⟨-, hnot⟩)
          · exact .inr ⟨rfl, hhead⟩
          · exact .inl ⟨hmem, heq⟩
          · exact absurd (.inl rfl) hnot
      · rw [if_neg hk]
        constructor
        · rintro (⟨hmem, heq⟩ | ⟨hget, hnot⟩)
          · exact .inl ⟨.inr hmem, heq⟩
          · exact .inr ⟨hget, fun h => h.elim hk hnot⟩
        · rintro (⟨rfl | hmem, heq⟩ | ⟨hget, hnot⟩)
          · exact absurd heq.symm hk
          · exact .inl ⟨hmem, heq⟩
          · exact .inr ⟨hget, fun h => hnot (.inr h)⟩
  rw [hfrom]
  simp

theorem by_request_perm {rows' : List Row} (hperm : rows.Perm rows')
    (hnodup : (rows.map request_id).Nodup) : by_request request_id rows = by_request request_id rows' := by
  have hnodup' : (rows'.map request_id).Nodup := (hperm.map request_id).nodup_iff.mp hnodup
  ext k : 1
  apply Option.ext
  intro row
  rw [get?_by_request hnodup, get?_by_request hnodup', hperm.mem_iff]

theorem collect_perm {rows' : List Row} (hperm : rows.Perm rows')
    (h : collect_by_request valid request_id rows = .ok m) :
    collect_by_request valid request_id rows' = .ok m := by
  rw [collect_ok] at h ⊢
  obtain ⟨hvalid, hnodup, rfl⟩ := h
  exact ⟨fun row hrow => hvalid row (hperm.mem_iff.mpr hrow),
    (hperm.map request_id).nodup_iff.mp hnodup, by_request_perm hperm hnodup⟩

/-- The entries are the rows, each under its request. -/
theorem entries_by_request (hnodup : (rows.map request_id).Nodup) :
    (by_request request_id rows).entries.Perm (rows.map (fun row => (request_id row, row))) := by
  have hrows : (rows.map (fun row => (request_id row, row))).Nodup := by
    apply List.Nodup.of_map Prod.fst
    rw [List.map_map]
    exact hnodup
  rw [perm_ext_iff_of_nodup (entries_nodup _) hrows]
  rintro ⟨k, row⟩
  rw [mem_entries, get?_by_request hnodup, List.mem_map]
  constructor
  · rintro ⟨hmem, rfl⟩
    exact ⟨row, hmem, rfl⟩
  · rintro ⟨other, hmem, heq⟩
    cases heq
    exact ⟨hmem, rfl⟩

end

/-! ## The requests assigned so far -/

section

variable {R : Type} (out : Outside) (row_view : ClaudeLocalOtelEvidence → R)
  (root_session_id : String) (members : SortedMap String Unit)
  (trace_by_request : SortedMap String ClaudeTraceOwnershipEvidence)

/-- The request's trace row names the member. -/
def owned_by (member : String) (request : String × ClaudeLocalOtelEvidence) : Bool :=
  (trace_by_request.get? request.1).any
    (fun trace => claude_trace_owner_session_id root_session_id trace.agent_id == member)

/-- What the loop has built after the requests of the list. -/
structure Assigns (done : List (String × ClaudeLocalOtelEvidence)) (state : Assigned R) : Prop where
  owned : ∀ request ∈ done, ∃ trace, trace_by_request.get? request.1 = some trace ∧
    members.contains (claude_trace_owner_session_id root_session_id trace.agent_id) = true
  rows : ∀ member, state.rows_by_member.get? member =
    if members.contains member then
      some ((done.filter (owned_by root_session_id trace_by_request member)).map
        (fun request => row_view request.2))
    else none
  hashes : ∀ member, (state.assigned_hashes.get? member).isSome = members.contains member ∧
    ∀ set, state.assigned_hashes.get? member = some set → ∀ hash, set.contains hash = true ↔
      ∃ request ∈ done, owned_by root_session_id trace_by_request member request = true ∧
        hash = sha256_hex out (as_bytes request.1)
  all : (state.rows_by_member.entries.flatMap Prod.snd).Perm
    (done.map (fun request => row_view request.2))

namespace Assigns

variable {out row_view root_session_id members trace_by_request}
  {done : List (String × ClaudeLocalOtelEvidence)} {state state' : Assigned R}

theorem for_each_get {α : Type} (empty : α) (member : String) :
    (for_each_member members empty).get? member =
      if members.contains member then some empty else none := by
  unfold for_each_member SortedMap.contains
  rw [get?_mapValues]
  cases members.get? member <;> rfl

theorem start (digest : Bytes) : Assigns out row_view root_session_id members trace_by_request []
    { assigned_hashes := for_each_member members .empty
      rows_by_member := for_each_member members [], digest } := by
  refine ⟨by simp, fun member => for_each_get [] member, fun member => ⟨?_, ?_⟩, ?_⟩
  · rw [for_each_get]
    split_ifs with hmember <;> simp [hmember]
  · intro set hset hash
    rw [for_each_get] at hset
    split_ifs at hset
    cases hset
    simp [SortedMap.contains]
  · have hnil : (for_each_member members ([] : List R)).entries.flatMap Prod.snd = [] := by
      rw [flatMap_eq_nil_iff]
      rintro ⟨member, rows⟩ hmem
      have hget := mem_entries.mp hmem
      rw [for_each_get] at hget
      split_ifs at hget
      exact (Option.some.inj hget).symm
    rw [hnil]
    exact .nil

theorem step {request : String × ClaudeLocalOtelEvidence}
    (h : Assigns out row_view root_session_id members trace_by_request done state)
    (hstep : assign_request out row_view root_session_id members trace_by_request state request =
      .ok state') :
    Assigns out row_view root_session_id members trace_by_request (done ++ [request]) state' := by
  unfold assign_request at hstep
  dsimp only at hstep
  cases htrace : trace_by_request.get? request.1 with
  | none =>
    rw [htrace] at hstep
    cases hstep
  | some trace =>
    rw [htrace] at hstep
    dsimp only at hstep
    split_ifs at hstep with hclient hmember
    rw [Bool.not_eq_true', Bool.not_eq_false] at hmember
    have howner : ∀ member, owned_by root_session_id trace_by_request member request = true ↔
        member = claude_trace_owner_session_id root_session_id trace.agent_id := by
      intro member
      unfold owned_by
      rw [htrace, any_some, beq_iff_eq]
      exact eq_comm
    have howned : ∀ other ∈ done ++ [request], ∃ trace, trace_by_request.get? other.1 = some trace ∧
        members.contains (claude_trace_owner_session_id root_session_id trace.agent_id) = true := by
      intro other hother
      rcases mem_append.mp hother with hother | hother
      · exact h.owned other hother
      · obtain rfl := mem_singleton.mp hother
        exact ⟨trace, htrace, hmember⟩
    generalize claude_trace_owner_session_id root_session_id trace.agent_id = owner at hmember howner hstep
    obtain ⟨hhashes, hset⟩ := h.hashes owner
    have hrows := h.rows owner
    rw [if_pos hmember] at hrows
    rw [hmember, isSome_iff_exists] at hhashes
    obtain ⟨set, hhashes⟩ := hhashes
    rw [hhashes, hrows] at hstep
    cases hstep
    refine ⟨howned, fun member => ?_, fun member => ⟨?_, ?_⟩, ?_⟩
    · -- the row goes to its owner's rows, at their end
      dsimp only
      rw [get?_insert, filter_append, map_append]
      by_cases hother : member = owner
      · have hrequest := (howner member).mpr hother
        rw [if_pos hother, hother, if_pos hmember]
        rw [hother] at hrequest
        simp [hrequest]
      · have hrequest : owned_by root_session_id trace_by_request member request = false := by
          rw [← Bool.not_eq_true, howner]
          exact hother
        rw [if_neg hother, h.rows]
        simp [hrequest]
    · dsimp only
      rw [get?_insert]
      by_cases hother : member = owner
      · rw [if_pos hother, hother, hmember]
        rfl
      · rw [if_neg hother]
        exact (h.hashes member).1
    · dsimp only
      intro other hget hash
      rw [get?_insert] at hget
      simp only [mem_append, mem_singleton, or_and_right, exists_or, exists_eq_left, howner]
      by_cases hother : member = owner
      · rw [if_pos hother] at hget
        cases hget
        rw [hother, ← hset set hhashes hash]
        unfold SortedMap.contains
        rw [get?_insert]
        by_cases hhash : hash = sha256_hex out (as_bytes request.1)
        · simp [hhash]
        · simp [hhash]
      · rw [if_neg hother] at hget
        rw [(h.hashes member).2 other hget]
        simp [hother]
    · dsimp only
      rw [map_append]
      have hbefore := entries_perm_erase hrows
      have hafter := entries_insert_perm state.rows_by_member owner
        ((done.filter (owned_by root_session_id trace_by_request owner)).map
          (fun request => row_view request.2) ++ [row_view request.2])
      have hold := (hbefore.flatMap_right Prod.snd).symm.trans h.all
      refine (hafter.flatMap_right Prod.snd).trans ?_
      rw [flatMap_cons] at hold ⊢
      refine .trans ?_ (hold.append_right _)
      simp only [append_assoc]
      exact .append_left _ perm_append_comm

theorem run {requests : List (String × ClaudeLocalOtelEvidence)}
    (h : Assigns out row_view root_session_id members trace_by_request done state)
    (hrun : requests.foldlM (assign_request out row_view root_session_id members trace_by_request)
      state = .ok state') :
    Assigns out row_view root_session_id members trace_by_request (done ++ requests) state' := by
  induction requests generalizing done state with
  | nil =>
    cases hrun
    rwa [append_nil]
  | cons request rest ih =>
    rw [foldlM_cons] at hrun
    obtain ⟨next, hnext, hrest⟩ := bind_eq_ok.mp hrun
    have hdone := ih (h.step hnext) hrest
    rwa [append_assoc] at hdone

end Assigns

end

/-! ## The ledger -/

/-- The trace row of an API row. -/
def trace_of (trace_rows : List ClaudeTraceOwnershipEvidence) (row : ClaudeLocalOtelEvidence) :
    Option ClaudeTraceOwnershipEvidence :=
  trace_rows.find? (fun trace => trace.request_id == row.request_id)

/-- The member that an API row's trace row names. -/
def owner_of (root_session_id : String) (trace_rows : List ClaudeTraceOwnershipEvidence)
    (row : ClaudeLocalOtelEvidence) : Option String :=
  (trace_of trace_rows row).map (fun trace => claude_trace_owner_session_id root_session_id trace.agent_id)

/-- Each API row has one trace row and stands once in the ledger, under the member
that this trace row names. -/
structure ExactLedger {R : Type} (out : Outside) (row_view : ClaudeLocalOtelEvidence → R)
    (root_session_id : String) (members : SortedMap String Unit)
    (api_rows : List ClaudeLocalOtelEvidence) (trace_rows : List ClaudeTraceOwnershipEvidence)
    (ledger : ReducedClaudeUsageLedger R) : Prop where
  root : members.contains root_session_id = true
  requests : (api_rows.map ClaudeLocalOtelEvidence.request_id).Nodup
  traces : (trace_rows.map request_id).Nodup
  owned : ∀ row ∈ api_rows, ∃ member, owner_of root_session_id trace_rows row = some member ∧
    members.contains member = true
  each_once : (ledger.rows_by_member.entries.flatMap Prod.snd).Perm (api_rows.map row_view)
  members : ∀ member, ledger.rows_by_member.contains member = members.contains member ∧
    ledger.assigned_request_id_hashes.contains member = members.contains member
  rows : ∀ member rows, ledger.rows_by_member.get? member = some rows → rows.Perm
    ((api_rows.filter (fun row => owner_of root_session_id trace_rows row = some member)).map row_view)
  hashes : ∀ member set, ledger.assigned_request_id_hashes.get? member = some set → ∀ hash,
    set.contains hash = true ↔ ∃ row ∈ api_rows,
      owner_of root_session_id trace_rows row = some member ∧
        hash = sha256_hex out (as_bytes row.request_id)

theorem trace_of_eq {trace_rows : List ClaudeTraceOwnershipEvidence}
    (hnodup : (trace_rows.map request_id).Nodup)
    (row : ClaudeLocalOtelEvidence) :
    trace_of trace_rows row =
      (by_request request_id trace_rows).get? row.request_id := by
  apply Option.ext
  intro trace
  rw [get?_by_request hnodup]
  unfold trace_of
  constructor
  · intro h
    have heq := find?_some h
    exact ⟨mem_of_find?_eq_some h, by simpa using heq⟩
  · rintro ⟨hmem, heq⟩
    obtain ⟨found, hfound⟩ : ∃ found, trace_rows.find?
        (fun trace => trace.request_id == row.request_id) = some found := by
      rw [← isSome_iff_exists, find?_isSome]
      exact ⟨trace, hmem, by simpa using heq⟩
    have hid := find?_some hfound
    rw [hfound]
    refine congrArg some (inj_on_of_nodup_map hnodup (mem_of_find?_eq_some hfound) hmem ?_)
    rw [heq]
    simpa using hid

section

variable {R : Type} {out : Outside} {row_view : ClaudeLocalOtelEvidence → R}
  {root_session_id : String} {members : SortedMap String Unit}
  {api_rows : List ClaudeLocalOtelEvidence} {trace_rows : List ClaudeTraceOwnershipEvidence}
  {ledger : ReducedClaudeUsageLedger R}

theorem classify_spec (h : classify_claude_usage_ledger_with_rows out row_view root_session_id members
    api_rows trace_rows = .ok ledger) :
    ExactLedger out row_view root_session_id members api_rows trace_rows ledger := by
  unfold classify_claude_usage_ledger_with_rows at h
  split_ifs at h with hguard
  obtain ⟨api, hapi, h⟩ := bind_eq_ok.mp h
  obtain ⟨trace, htrace, h⟩ := bind_eq_ok.mp h
  obtain ⟨-, hrequests, rfl⟩ := collect_ok.mp hapi
  obtain ⟨-, htraces, rfl⟩ := collect_ok.mp htrace
  split_ifs at h
  obtain ⟨assigned, hassigned, h⟩ := bind_eq_ok.mp h
  cases h
  have hdone := (Assigns.start _).run hassigned
  rw [nil_append] at hdone
  have hentries := entries_by_request hrequests
  have howned : ∀ (row : ClaudeLocalOtelEvidence) member,
      owned_by root_session_id (by_request request_id trace_rows) member
        (row.request_id, row) = decide (owner_of root_session_id trace_rows row = some member) := by
    intro row member
    rw [Bool.eq_iff_iff, decide_eq_true_iff]
    unfold owned_by owner_of
    rw [trace_of_eq htraces]
    cases (by_request request_id trace_rows).get? row.request_id with
    | none => simp
    | some trace => simp
  have hroot : members.contains root_session_id = true := by
    by_contra hroot
    exact hguard (by simp [hroot])
  refine ⟨hroot, hrequests, htraces, fun row hrow => ?_, ?_, fun member => ⟨?_, (hdone.hashes member).1⟩,
    fun member rows hget => ?_, fun member set hget hash => ?_⟩
  · obtain ⟨trace, hget, hmember⟩ := hdone.owned (row.request_id, row)
      (hentries.mem_iff.mpr (mem_map_of_mem hrow))
    refine ⟨_, ?_, hmember⟩
    rw [owner_of, trace_of_eq htraces]
    rw [hget]
    rfl
  · refine hdone.all.trans ((hentries.map _).trans (List.Perm.of_eq ?_))
    rw [List.map_map]
    rfl
  · dsimp only
    rw [SortedMap.contains, hdone.rows]
    split_ifs with hmember <;> simp [hmember]
  · dsimp only at hget
    rw [hdone.rows] at hget
    split_ifs at hget
    cases hget
    refine ((hentries.filter _).map _).trans (List.Perm.of_eq ?_)
    rw [List.filter_map, List.map_map]
    exact congrArg (List.map row_view) (filter_congr (fun row _ => howned row member))
  · rw [(hdone.hashes member).2 set hget hash]
    constructor
    · rintro ⟨⟨k, row⟩, hmem, hmember, hhash⟩
      obtain ⟨other, hrow, heq⟩ := List.mem_map.mp (hentries.mem_iff.mp hmem)
      obtain ⟨rfl, rfl⟩ := Prod.mk.inj heq
      rw [howned, decide_eq_true_iff] at hmember
      exact ⟨other, hrow, hmember, hhash⟩
    · rintro ⟨row, hrow, hmember, hhash⟩
      refine ⟨(row.request_id, row), hentries.mem_iff.mpr (mem_map_of_mem hrow), ?_, hhash⟩
      rw [howned, decide_eq_true_iff]
      exact hmember

/-- The ledger is read off the sorted rows, so no order of the rows changes it. -/
theorem classify_perm {api_rows' : List ClaudeLocalOtelEvidence}
    {trace_rows' : List ClaudeTraceOwnershipEvidence} (hapi : api_rows.Perm api_rows')
    (htrace : trace_rows.Perm trace_rows')
    (h : classify_claude_usage_ledger_with_rows out row_view root_session_id members api_rows trace_rows =
      .ok ledger) :
    classify_claude_usage_ledger_with_rows out row_view root_session_id members api_rows' trace_rows' =
      .ok ledger := by
  unfold classify_claude_usage_ledger_with_rows at h ⊢
  have hempty : ∀ {α : Type} {l l' : List α}, l.Perm l' → l.isEmpty = l'.isEmpty := by
    intro α l l' hperm
    rw [Bool.eq_iff_iff, List.isEmpty_iff, List.isEmpty_iff]
    constructor
    · rintro rfl
      exact hperm.nil_eq.symm
    · rintro rfl
      exact hperm.eq_nil
  rw [← hempty hapi, ← hempty htrace]
  split_ifs at h ⊢
  obtain ⟨api, hcollected, h⟩ := bind_eq_ok.mp h
  obtain ⟨trace, htraced, h⟩ := bind_eq_ok.mp h
  exact bind_eq_ok.mpr ⟨api, collect_perm hapi hcollected,
    bind_eq_ok.mpr ⟨trace, collect_perm htrace htraced, h⟩⟩

end

end ottto_service.claude_usage_ledger
