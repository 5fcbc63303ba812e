-- The law of closed turns: closure is final. The exact ring forgets an id
-- after 64 others, the filter never does, so no later start binds a closed id
-- and no later native adds money for it.
import Ottto.Phases

open Words

namespace ottto_service.codex_usage_occurrence

open serde_json json_fields usage accumulator codex_counting_version
open ClosedTurnFilter Function UInt64

/-! ## The filter has no false negatives -/

namespace ClosedTurnFilter

theorem bit_ne_zero (position : Nat) : bit position ≠ 0 := by
  intro h
  have hnat : (bit position).toNat = 0 := by rw [h]; rfl
  unfold bit at hnat
  have hlt : position % 64 < 64 := Nat.mod_lt _ (by decide)
  rw [UInt64.toNat_shiftLeft, toNat_ofNat_of_lt' (by
    have : position % 64 < 2 ^ 64 := lt_trans hlt (by decide)
    exact this), Nat.mod_eq_of_lt hlt, toNat_one, Nat.one_shiftLeft] at hnat
  have hpow : 2 ^ (position % 64) < 2 ^ 64 := Nat.pow_lt_pow_right (by decide) hlt
  rw [Nat.mod_eq_of_lt hpow] at hnat
  exact absurd hnat (Nat.two_pow_pos _).ne'

theorem test_set_self (f : ClosedTurnFilter) (p : Nat) : (f.set p).test p = true := by
  unfold test set
  rw [Function.update_self, bne_iff_ne, or_and_distrib_right, UInt64.and_self]
  intro h
  exact bit_ne_zero p (UInt64.or_eq_zero_iff.mp h).2

variable {f : ClosedTurnFilter}

/-- Setting a bit clears no other bit. -/
theorem test_set_of_test {q : Nat} (h : f.test q = true) (p : Nat) :
    (f.set p).test q = true := by
  unfold test set at *
  rw [bne_iff_ne] at h ⊢
  by_cases hw : word q = word p
  · rw [hw, update_self, or_and_distrib_right, ← hw]
    intro hzero
    exact h (or_eq_zero_iff.mp hzero).1
  · rw [update_of_ne hw]
    exact h

theorem test_foldl_set {q : Nat} (positions : List Nat)
    (h : f.test q = true ∨ q ∈ positions) : (positions.foldl set f).test q = true := by
  induction positions generalizing f with
  | nil =>
    rcases h with h | h
    · exact h
    · cases h
  | cons p rest ih =>
    apply ih
    rcases h with h | h
    · exact .inl (test_set_of_test h p)
    · rcases List.mem_cons.mp h with rfl | h
      · exact .inl (test_set_self f q)
      · exact .inr h

variable (sha256 : List UInt8 → Fin 32 → UInt8)

theorem contains_insert_self (f : ClosedTurnFilter) (id : String) :
    (f.insert sha256 id).contains sha256 id = true := by
  unfold contains
  rw [List.all_eq_true]
  intro p hp
  exact test_foldl_set _ (.inr hp)

theorem contains_insert_of_contains {id : String}
    (h : f.contains sha256 id = true) (other : String) :
    (f.insert sha256 other).contains sha256 id = true := by
  unfold contains at *
  rw [List.all_eq_true] at h ⊢
  intro p hp
  exact test_foldl_set _ (.inl (h p hp))

end ClosedTurnFilter

/-! ## A finished id -/

namespace OccurrenceReducer

section

variable (sha256 : List UInt8 → Fin 32 → UInt8)

/-- The filter holds the id. -/
def Remembers (r : OccurrenceReducer) (id : String) : Prop :=
  ∃ filter, r.closed_filter = some filter ∧ filter.contains sha256 id = true

/-- The id was closed, and is not the open turn. -/
structure Finished (r : OccurrenceReducer) (id : String) : Prop where
  remembers : r.Remembers sha256 id
  not_open : ∀ turn, r.turn = some turn → turn.id ≠ id

variable {r : OccurrenceReducer} {id : String}

theorem closed_of_remembers (h : r.Remembers sha256 id) :
    r.closed sha256 id ≠ .No := by
  obtain ⟨filter, hfilter, hcontains⟩ := h
  unfold closed
  simp only [hfilter, hcontains, if_true]
  split <;> exact fun h => by cases h

@[simp] theorem remember_closed_filter (r : OccurrenceReducer) (id : String) :
    (r.remember_closed sha256 id).closed_filter =
      some ((r.closed_filter.getD ClosedTurnFilter.new).insert sha256 id) := by
  unfold remember_closed
  simp only
  split <;> rfl

@[simp] theorem remember_closed_turn (r : OccurrenceReducer) (id : String) :
    (r.remember_closed sha256 id).turn = r.turn := by
  unfold remember_closed
  simp only
  split <;> rfl

theorem remembers_remember_self (r : OccurrenceReducer) (id : String) :
    (r.remember_closed sha256 id).Remembers sha256 id :=
  ⟨_, remember_closed_filter sha256 r id, contains_insert_self sha256 _ id⟩

theorem remembers_remember (h : r.Remembers sha256 id)
    (other : String) : (r.remember_closed sha256 other).Remembers sha256 id := by
  obtain ⟨filter, hfilter, hcontains⟩ := h
  refine ⟨_, remember_closed_filter sha256 r other, ?_⟩
  rw [hfilter]
  exact contains_insert_of_contains sha256 hcontains other

/-! ## The lifecycle -/

theorem close_turn_none (r : OccurrenceReducer) (closing : Option String) :
    (r.close_codex_turn_content sha256 closing).1.turn = none := by
  unfold close_codex_turn_content
  rcases hturn : r.turn with _ | turn
  · simp only
    split
    · simpa using hturn
    · exact hturn
  · simp only [remember_closed_turn]
    split
    · unfold note_mismatch
      simp only
      split
      · simp
      · rfl
    · rfl

theorem remembers_close (h : r.Remembers sha256 id) (closing : Option String) :
    (r.close_codex_turn_content sha256 closing).1.Remembers sha256 id := by
  have hopen : ∀ counters, { r with turn := none, counters }.Remembers sha256 id := fun _ => h
  unfold close_codex_turn_content
  rcases r.turn with _ | turn
  · simp only
    split
    · exact remembers_remember sha256 h _
    · exact h
  · apply remembers_remember
    split
    · unfold note_mismatch
      simp only
      split
      · exact remembers_remember sha256 (hopen _) _
      · exact hopen _
    · exact hopen _

/-- A closure remembers the open turn. -/
theorem close_remembers_open {turn : BoundTurn} (h : r.turn = some turn) (closing : Option String) :
    (r.close_codex_turn_content sha256 closing).1.Remembers sha256 turn.id := by
  unfold close_codex_turn_content
  rw [h]
  exact remembers_remember_self sha256 _ turn.id

/-- A closure remembers the id that it names. -/
theorem close_remembers_named (r : OccurrenceReducer) {closing : Option String}
    (h : bounded_turn_id closing = some id) :
    (r.close_codex_turn_content sha256 closing).1.Remembers sha256 id := by
  have hclosing : closing = some id := Option.eq_some_of_filter_eq_some h
  unfold close_codex_turn_content
  rcases r.turn with _ | turn
  · simp only [h]
    exact remembers_remember_self sha256 r id
  · simp only
    by_cases hsame : closing = some turn.id
    · rw [hclosing] at hsame
      rw [← Option.some.inj hsame]
      exact remembers_remember_self sha256 _ id
    · apply remembers_remember
      rw [if_pos ⟨by rw [hclosing]; rfl, hsame⟩]
      unfold note_mismatch
      simp only [h]
      exact remembers_remember_self sha256 _ id

/-- A start binds no remembered id. -/
theorem finished_bind (h : r.Remembers sha256 id)
    (turn_id : Option String) : (r.bind_turn sha256 turn_id).Finished sha256 id := by
  unfold bind_turn
  rcases turn_id with _ | started
  · exact ⟨h, fun turn hturn => by cases hturn⟩
  · simp only
    split
    · exact ⟨h, fun turn hturn => by cases hturn⟩
    · exact ⟨h, fun turn hturn => by cases hturn⟩
    · rename_i hno
      refine ⟨h, fun turn hturn => ?_⟩
      cases hturn
      rintro rfl
      exact closed_of_remembers sha256 h hno

/-- A line that closes the turn: it names it at its end, or it is the open
turn when any turn starts or ends. -/
def Closes (r : OccurrenceReducer) (value : Value) (id : String) : Prop :=
  let event := string_at value ["payload", "type"]
  let ends := event = some "task_complete" ∨ event = some "turn_aborted"
  (ends ∧ string_at value ["payload", "turn_id"] = some id) ∨
    ((event = some "task_started" ∨ ends) ∧ ∃ turn, r.turn = some turn ∧ turn.id = id)

theorem finished_of_closes {value : Value}
    (hpos : 0 < id.utf8ByteSize) (hle : id.utf8ByteSize ≤ MAX_TURN_ID_BYTES)
    (h : r.Closes value id) : (r.turn_event sha256 value).1.Finished sha256 id := by
  unfold turn_event
  unfold Closes at h
  simp only at h ⊢
  have hnamed : bounded_turn_id (some id) = some id := by
    have hne : id ≠ "" := by
      rintro rfl
      cases hpos
    simp [bounded_turn_id, hne, hle]
  have hstart : some "task_started" ≠ some "task_complete" ∧
      some "task_started" ≠ some "turn_aborted" := by decide
  split_ifs with h1 h2
  · apply finished_bind
    rcases h with ⟨hends, -⟩ | ⟨-, turn, hturn, rfl⟩
    · rw [h1] at hends
      exact absurd hends (not_or.mpr hstart)
    · exact close_remembers_open sha256 (r := { r with line_ui := ui_t6_pair value }) hturn none
  · refine ⟨?_, fun turn hturn => ?_⟩
    · rcases h with ⟨-, hid⟩ | ⟨-, turn, hturn, rfl⟩
      · rw [hid]
        exact close_remembers_named sha256 _ hnamed
      · exact close_remembers_open sha256 (r := { r with line_ui := ui_t6_pair value }) hturn _
    · rw [close_turn_none] at hturn
      cases hturn
  · rcases h with ⟨hends, -⟩ | ⟨hany, -⟩
    · exact absurd hends h2
    · exact absurd hany (not_or.mpr ⟨h1, h2⟩)

theorem finished_turn_event (h : r.Finished sha256 id)
    (value : Value) : (r.turn_event sha256 value).1.Finished sha256 id := by
  have hline : { r with line_ui := ui_t6_pair value }.Remembers sha256 id := h.remembers
  unfold turn_event
  simp only
  split_ifs
  · exact finished_bind sha256 (remembers_close sha256 hline none) _
  · refine ⟨remembers_close sha256 hline _, fun turn hturn => ?_⟩
    rw [close_turn_none] at hturn
    cases hturn
  · exact ⟨hline, h.not_open⟩

variable {r' : OccurrenceReducer}

theorem finished_frames (h : r.Finished sha256 id)
    (hframe : r.Frames r') : r'.Finished sha256 id := by
  obtain ⟨⟨filter, hfilter, hcontains⟩, hopen⟩ := h
  refine ⟨⟨filter, hframe.closed_filter.trans hfilter, hcontains⟩, ?_⟩
  rw [hframe.turn]
  exact hopen

/-- The open turn may change, but not its id. -/
theorem finished_same_id {turn : BoundTurn}
    (h : r.Finished sha256 id) (hturn : r.turn = some turn) (turn' : BoundTurn)
    (hid : turn'.id = turn.id) (hfilter : r'.closed_filter = r.closed_filter)
    (hturn' : r'.turn = some turn') : r'.Finished sha256 id := by
  obtain ⟨⟨filter, hf, hcontains⟩, hopen⟩ := h
  refine ⟨⟨filter, hfilter.trans hf, hcontains⟩, fun turn'' h'' => ?_⟩
  cases hturn'.symm.trans h''
  rw [hid]
  exact hopen turn hturn

theorem finished_native (h : r.Finished sha256 id)
    {native : Option NativeRecord} {money : Option (NativeRecord × T6)}
    (hstep : NativeStep r native r' money) : r'.Finished sha256 id := by
  cases hstep with
  | ignored _ _ hframe => exact finished_frames sha256 h hframe
  | counted _ _ _ _ _ _ _ _ _ hframe => exact finished_frames sha256 h hframe
  | first n turn r₀ _ _ _ hturn _ _ _ h₀ hframe =>
    have hdiscard : (r₀.discard_staged turn).Finished sha256 id :=
      finished_same_id sha256 h hturn
        { turn with native := true, staged_events := 0, pending := .empty } rfl
        h₀.closed_filter rfl
    exact finished_frames sha256 hdiscard hframe

/-- A native that names a finished id adds no money. -/
theorem no_money_of_finished (h : r.Finished sha256 id)
    {n : NativeRecord} {money : Option (NativeRecord × T6)} (hid : n.turn_id = some id)
    (hstep : NativeStep r (some n) r' money) : money = none := by
  cases hstep with
  | ignored => rfl
  | counted n' turn _ _ hnative hturn hid' =>
    cases hnative
    exact absurd (Option.some.inj (hid'.symm.trans hid)) (h.not_open turn hturn)
  | first n' turn _ _ _ hnative hturn hid' =>
    cases hnative
    exact absurd (Option.some.inj (hid'.symm.trans hid)) (h.not_open turn hturn)

theorem finished_admission {delta : UsageTotals}
    {b : Option Bool} (h : r.Finished sha256 id) (hadmission : UiAdmission r delta r' b) :
    r'.Finished sha256 id := by
  obtain ⟨hremembers, hopen⟩ := h
  cases hadmission <;> exact ⟨hremembers, hopen⟩

end

end OccurrenceReducer

theorem BoundTurn.stage_id {time : Rfc3339} {turn staged : BoundTurn} {bucket activity : String}
    {key : RowKey} {context sources : SortedMap String String} {usage : UsageTotals}
    (h : turn.stage time bucket activity key context sources usage = some staged) :
    staged.id = turn.id := by
  obtain ⟨row, rfl, -⟩ := stage_cases h
  rfl

end ottto_service.codex_usage_occurrence

/-! ## Every later line -/

namespace ottto_service.accumulator.SnapshotAccumulator

open serde_json json_fields usage codex_counting_version codex_usage_occurrence OccurrenceReducer

variable {R : Type} (outside : Outside R)

/-- The session counts by V2 and the id is finished. -/
def Finished (s : SnapshotAccumulator R) (id : String) : Prop :=
  ∃ r, s.v2 = some r ∧ r.Finished outside.sha256 id

variable {s : SnapshotAccumulator R} {id : String}

theorem finished_noted (h : s.Finished outside id)
    (line : Line R) : (s.noted line).Finished outside id := h

theorem finished_lifecycle (h : s.Finished outside id)
    (line : Line R) : (s.lifecycle outside line).Finished outside id := by
  obtain ⟨r, hv2, hr⟩ := h
  exact ⟨_, (lifecycle_running outside hv2 line).1,
    finished_turn_event outside.sha256 hr line.value⟩

theorem finished_native_line (h : s.Finished outside id)
    (line : Line R) : (s.native outside line).Finished outside id := by
  obtain ⟨r, hv2, hr⟩ := h
  rcases native_cases outside hv2 line with ⟨-, hsame⟩ | ⟨r', money, hstep, hv2', -⟩
  · rw [hsame]
    exact ⟨r, hv2, hr⟩
  · exact ⟨r', hv2', finished_native outside.sha256 hr hstep⟩

theorem finished_ui_step {context : Context R} {l l' : Ledger} {call : UiCall}
    {timestamp : Option String} {r r' : OccurrenceReducer} {delta : Option UsageTotals}
    {bound : Option Bool} (h : r.Finished outside.sha256 id)
    (hstep : UiStep outside context l call timestamp r delta bound r' l') :
    r'.Finished outside.sha256 id := by
  have hadmitted : ∀ {d : UsageTotals} {r₁ : OccurrenceReducer} {b : Option Bool},
      UiAdmission r d r₁ b → r₁.Finished outside.sha256 id :=
    fun hadmission => finished_admission outside.sha256 h hadmission
  cases hstep with
  | skipped => exact h
  | refused _ _ hadmission => exact hadmitted hadmission
  | unbound _ _ hadmission => exact hadmitted hadmission
  | in_native _ _ _ hadmission => exact ⟨(hadmitted hadmission).remembers, (hadmitted hadmission).not_open⟩
  | direct _ _ _ hadmission => exact hadmitted hadmission
  | dropped _ _ _ hadmission => exact hadmitted hadmission
  | staged _ r₁ turn staged p hadmission hturn _ _ _ hstage =>
    exact finished_same_id outside.sha256 (hadmitted hadmission)
      (hadmission.turn_eq.trans hturn) staged (BoundTurn.stage_id hstage) rfl rfl
  | overflow _ r₁ turn _ hadmission hturn =>
    exact finished_same_id outside.sha256 (hadmitted hadmission)
      (hadmission.turn_eq.trans hturn)
      { turn with ui_published := true, staged_events := 0, pending := .empty }
      rfl rfl rfl

theorem finished_count_ui (h : s.Finished outside id)
    (line : Line R) : (s.count_ui outside line).Finished outside id := by
  obtain ⟨r, hv2, hr⟩ := h
  rcases count_ui_cases outside hv2 line with ⟨-, hsame⟩ | ⟨call, bound, r', -, hv2', hstep, -⟩
  · rw [hsame]
    exact ⟨r, hv2, hr⟩
  · exact ⟨r', hv2', finished_ui_step outside hr hstep⟩

theorem finished_apply (h : s.Finished outside id)
    (line : Line R) : (s.apply_codex_line outside line).Finished outside id := by
  unfold apply_codex_line
  simp only [observe_codex_counting_line_eq]
  apply finished_count_ui
  apply finished_native_line
  apply finished_lifecycle
  exact finished_noted outside h line

/-- The closing line itself leaves the id finished. -/
theorem finished_of_closing_line {line : Line R}
    {r : OccurrenceReducer} (hpos : 0 < id.utf8ByteSize)
    (hle : id.utf8ByteSize ≤ MAX_TURN_ID_BYTES) (hstarts : (s.noted line).Starts outside line r)
    (hcloses : r.Closes line.value id) : (s.apply_codex_line outside line).Finished outside id := by
  unfold apply_codex_line
  simp only [observe_codex_counting_line_eq]
  apply finished_count_ui
  apply finished_native_line
  exact ⟨_, (lifecycle_of_starts outside hstarts).1,
    finished_of_closes outside.sha256 hpos hle hcloses⟩

/-- A native line that names a finished id leaves the ledger. -/
theorem native_toLedger_of_finished (h : s.Finished outside id) {line : Line R} {n : NativeRecord}
    (hnative : native_record line.value s.source_session_id = some n)
    (hid : n.turn_id = some id) : (s.native outside line).toLedger = s.toLedger := by
  obtain ⟨r, hv2, hr⟩ := h
  rcases native_cases outside hv2 line with ⟨-, hsame⟩ | ⟨r', money, hstep, -, hledger⟩
  · rw [hsame]
  · rw [hnative] at hstep
    have hnone := no_money_of_finished outside.sha256 hr hid hstep
    rcases hledger with ⟨-, hsame⟩ | ⟨_, _, _, _, _, _, hsome, -⟩
    · exact hsame
    · rw [hnone] at hsome
      cases hsome

/-- The open turn of a session. -/
def turn (s : SnapshotAccumulator R) : Option BoundTurn := s.v2.bind OccurrenceReducer.turn

theorem finished_run {closing : Line R} {r : OccurrenceReducer} (hpos : 0 < id.utf8ByteSize)
    (hle : id.utf8ByteSize ≤ MAX_TURN_ID_BYTES) (hstarts : (s.noted closing).Starts outside closing r)
    (hcloses : r.Closes closing.value id) (after : List (Line R)) :
    (run (apply_codex_line outside) s (closing :: after)).Finished outside id := by
  rw [Run.cons]
  apply Run.invariant (fun s => SnapshotAccumulator.Finished outside s id)
  · intro s line h
    exact finished_apply outside h line
  · exact finished_of_closing_line outside hpos hle hstarts hcloses

/-- From any state: once a line has closed an id, no line after it binds the
id again, and no native line after it that carries the id adds money. -/
theorem closure_is_final (s : SnapshotAccumulator R) (closing : Line R) (r : OccurrenceReducer)
    (id : String) (hpos : 0 < id.utf8ByteSize) (hle : id.utf8ByteSize ≤ MAX_TURN_ID_BYTES)
    (hstarts : (s.noted closing).Starts outside closing r) (hcloses : r.Closes closing.value id)
    (after : List (Line R)) :
    let s' := run (apply_codex_line outside) s (closing :: after)
    (∀ turn, s'.turn = some turn → turn.id ≠ id) ∧
      ∀ (line : Line R) (n : NativeRecord),
        let before := (s'.noted line).lifecycle outside line
        (∀ turn, before.turn = some turn → turn.id ≠ id) ∧
          (native_record line.value before.source_session_id = some n → n.turn_id = some id →
            (before.native outside line).toLedger = before.toLedger) := by
  have hfinished := finished_run outside hpos hle hstarts hcloses after
  have hopen : ∀ {s : SnapshotAccumulator R}, s.Finished outside id →
      ∀ turn, s.turn = some turn → turn.id ≠ id := by
    rintro s ⟨r, hv2, hr⟩ turn hturn
    unfold SnapshotAccumulator.turn at hturn
    rw [hv2] at hturn
    exact hr.not_open turn hturn
  refine ⟨hopen hfinished, fun line n => ?_⟩
  have hbefore := finished_lifecycle outside (finished_noted outside hfinished line) line
  exact ⟨hopen hbefore, fun hnative hid => native_toLedger_of_finished outside hbefore hnative hid⟩

end ottto_service.accumulator.SnapshotAccumulator

/-! ## A short session -/

namespace ottto_service.accumulator

open serde_json json_fields usage codex_counting_version codex_usage_occurrence SnapshotAccumulator

def exampleHour : String := "2026-12-01T10:00:00Z"
def exampleHalf : String := "2026-12-01T10:30:00Z"

/-- Two instants of one hour. -/
def exampleTime : Rfc3339 :=
  .of_table [(exampleHour, 1796119200000000000), (exampleHalf, 1796121000000000000)]

/-- SHA-256 at the material of `t1`. -/
def exampleDigest (material : List UInt8) : Fin 32 → UInt8 :=
  if material = ClosedTurnFilter.material "t1" then
    ![234, 179, 251, 80, 58, 99, 80, 67, 115, 195, 148, 113, 73, 148, 10, 67, 197, 152, 113, 8,
      204, 23, 106, 170, 129, 5, 166, 112, 135, 78, 139, 222]
  else fun _ => 0

-- No line of the session has a selector, a tier or a native.
def exampleOutside : Outside Unit where
  time := exampleTime
  sha256 := exampleDigest
  selector_digest _ := ""
  tier_selector _ _ selector _ _ _ _ := (selector, none)
  tier_admitted replay _ := replay
  provider_context_bucket _ _ _ := none

def exampleLine (value : Value) (call : Option UiCall) : Line Unit :=
  { value, timestamp := some exampleHalf, selector := {}, note := id, ui := fun _ => call
    finish := fun _ context => context }

def exampleHeader : Line Unit :=
  exampleLine (.object [("type", .string "session_meta"),
    ("payload", .object [("timestamp", .string exampleHour)])]) none

def exampleEvent (event : String) : Line Unit :=
  exampleLine (.object [("type", .string "event_msg"),
    ("payload", .object [("type", .string event), ("turn_id", .string "t1")])]) none

def exampleUsage : UsageTotals := { input_tokens := 100, output_tokens := 20, request_count := 1 }

def exampleUi : Line Unit :=
  exampleLine (.object [("type", .string "event_msg"),
    ("payload", .object [("type", .string "token_count")])])
    (some { model := some "gpt-5", usage := exampleUsage, last_usage := some exampleUsage
            usage_event_identity := none, selector := {}, implicit_request_count := some 1
            effort := none })

/-- A session that counts by V2, with its turn `t1` open. -/
def exampleOpen : SnapshotAccumulator Unit :=
  run (apply_codex_line exampleOutside)
    (.fresh {} (some (.new .None (some 0)))) [exampleHeader, exampleEvent "task_started"]

theorem closure_of_t1_is_final :
    let s' := run (apply_codex_line exampleOutside) exampleOpen
      [exampleEvent "task_complete", exampleEvent "task_started"]
    ∀ turn, s'.turn = some turn → turn.id ≠ "t1" :=
  (closure_is_final exampleOutside exampleOpen (exampleEvent "task_complete")
    { turn := some (BoundTurn.opened "t1") } "t1" (by decide) (by decide)
    (SnapshotAccumulator.Starts.running _ rfl) (.inl ⟨.inl (by decide), by decide⟩)
    [exampleEvent "task_started"]).1

end ottto_service.accumulator
