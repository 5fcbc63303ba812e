-- Retained reductions (codex_counting_version.rs): when a session that was
-- read under old evidence may go on under fresh evidence, and that it then
-- ends as a new parse would.
import Ottto.Phases

open Words

namespace ottto_service.codex_usage_occurrence

open codex_counting_version

/-- Fresh evidence must have selected the same rule. Legacy that only the
evidence chose is not resumed when the evidence is gone. -/
def CodexCounting.reusable_under (self fresh : CodexCounting) : Bool :=
  self.cutover_unix_ms == fresh.cutover_unix_ms && match self.version with
    | none => self.evidence == fresh.evidence
    | some .Legacy => self.evidence == fresh.evidence || fresh.evidence == .LegacyAcked
    | some .V2 => fresh.evidence != .LegacyAcked

end ottto_service.codex_usage_occurrence

namespace ottto_service.codex_counting_version

open codex_usage_occurrence List Bool

/-! ## The recorded view of a configuration -/

def AckEvidence.view_name : AckEvidence → String
  | .None => "none"
  | .V2Marked => "v2_marked"
  | .LegacyAcked => "legacy_acked"

def AckEvidence.of_view_name (name : String) : Option AckEvidence :=
  [AckEvidence.None, .V2Marked, .LegacyAcked].find? (fun evidence => evidence.view_name == name)

def LEGACY_VIEW : String := "legacy"

/-- `i64` as `Display` writes it. -/
def i64_display (n : Int64) : String :=
  let digits := Nat.toDigits 10 n.toInt.natAbs
  String.ofList (if n.toInt < 0 then '-' :: digits else digits)

/-- A sign, if any, and the text after it. -/
def split_sign (text : List Char) : Bool × List Char :=
  match text with
  | '-' :: digits => (true, digits)
  | '+' :: digits => (false, digits)
  | digits => (false, digits)

/-- `str::parse::<i64>`: a sign, if any, and decimal digits. -/
def parse_i64 (s : String) : Option Int64 :=
  let (negative, digits) := split_sign s.toList
  if digits.isEmpty || !digits.all Char.isDigit then none
  else
    let magnitude : Int := Nat.ofDigitChars 10 digits 0
    i64_try_from (if negative then -magnitude else magnitude)

/-- `str::split_once` at a character. -/
def split_once (s : String) (c : Char) : Option (String × String) :=
  match s.toList.dropWhile (fun x => x != c) with
  | [] => none
  | _ :: rest => some (String.ofList (s.toList.takeWhile (fun x => x != c)), String.ofList rest)

def view (evidence : AckEvidence) (cutover_unix_ms : Int64) : String :=
  i64_display cutover_unix_ms ++ ":" ++ evidence.view_name

def reusable (old fresh : Option CodexCounting) : Bool :=
  match old, fresh with
  | none, none => true
  | some old, some fresh => old.reusable_under fresh
  | _, _ => false

/-- `reusable` against a recorded view. A view that is not recognised never
continues. -/
def reusable_under_view {R : Type} (accumulator : accumulator.SnapshotAccumulator R)
    (view : String) : Bool :=
  if view = LEGACY_VIEW then reusable accumulator.codex_counting none
  else
    match split_once view ':' with
    | none => false
    | some (cutover, evidence) =>
      match parse_i64 cutover, AckEvidence.of_view_name evidence with
      | some cutover, some evidence =>
        reusable accumulator.codex_counting (some (.new evidence (some cutover)))
      | _, _ => false

/-! ### A view reads back -/

theorem of_view_name_view_name (evidence : AckEvidence) :
    AckEvidence.of_view_name evidence.view_name = some evidence := by
  cases evidence <;> rfl

theorem i64_try_from_toInt (n : Int64) : i64_try_from n.toInt = some n := by
  have hlow := n.le_toInt
  have hhigh := n.toInt_lt
  unfold i64_try_from
  rw [if_pos (by omega), Int64.ofInt_toInt]

theorem parse_digits (n : Nat) :
    (Nat.toDigits 10 n).isEmpty = false ∧ (Nat.toDigits 10 n).all Char.isDigit = true ∧
      Nat.ofDigitChars 10 (Nat.toDigits 10 n) 0 = n := by
  refine ⟨?_, ?_, Nat.ofDigitChars_toDigits (by decide) (by decide)⟩
  · rw [isEmpty_eq_false_iff]
    exact Nat.toDigits_ne_nil
  · rw [all_eq_true]
    intro c hc
    exact Nat.isDigit_of_mem_toDigits (by decide) (by decide) hc

/-- Digits start with no sign. -/
theorem split_sign_digits {digits : List Char} (h : ∀ c ∈ digits, c.isDigit = true) :
    split_sign digits = (false, digits) := by
  unfold split_sign
  split
  · cases h '-' mem_cons_self
  · cases h '+' mem_cons_self
  · rfl

theorem parse_i64_display (n : Int64) : parse_i64 (i64_display n) = some n := by
  obtain ⟨hempty, hdigits, hvalue⟩ := parse_digits n.toInt.natAbs
  unfold parse_i64 i64_display
  simp only [String.toList_ofList]
  by_cases hneg : n.toInt < 0
  · have habs : -(n.toInt.natAbs : Int) = n.toInt := by omega
    simp only [hneg, if_true, split_sign, hempty, hdigits, hvalue, Bool.not_true, Bool.or_self,
      false_eq_true, if_false, habs, i64_try_from_toInt]
  · have habs : (n.toInt.natAbs : Int) = n.toInt := by omega
    simp only [hneg, if_false, split_sign_digits (all_eq_true.mp hdigits), hempty, hdigits,
      hvalue, Bool.not_true, Bool.or_self, false_eq_true, habs, i64_try_from_toInt]

theorem i64_display_no_colon (n : Int64) : ∀ c ∈ (i64_display n).toList, (c != ':') = true := by
  intro c hc
  unfold i64_display at hc
  simp only [String.toList_ofList] at hc
  have hdigit : ∀ c ∈ Nat.toDigits 10 n.toInt.natAbs, (c != ':') = true := by
    intro c hc
    have := Nat.isDigit_of_mem_toDigits (by decide) (by decide) hc
    rw [bne_iff_ne]
    rintro rfl
    cases this
  split at hc
  · rcases mem_cons.mp hc with rfl | hc
    · decide
    · exact hdigit c hc
  · exact hdigit c hc

/-- The text before the first separator, and the text after it. -/
theorem split_once_append {before : String} {c : Char}
    (h : ∀ x ∈ before.toList, (x != c) = true) (after : String) :
    split_once (before ++ String.singleton c ++ after) c = some (before, after) := by
  have hlist : (before ++ String.singleton c ++ after).toList =
      before.toList ++ c :: after.toList := by simp
  have hstop : (c != c) = false := by simp
  unfold split_once
  rw [hlist, dropWhile_append_of_pos h, takeWhile_append_of_pos h]
  simp only [dropWhile_cons, takeWhile_cons, hstop, false_eq_true, if_false,
    append_nil, String.ofList_toList]

theorem split_once_view (evidence : AckEvidence) (cutover : Int64) :
    split_once (view evidence cutover) ':' = some (i64_display cutover, evidence.view_name) :=
  split_once_append (i64_display_no_colon cutover) evidence.view_name

theorem view_ne_legacy (evidence : AckEvidence) (cutover : Int64) :
    view evidence cutover ≠ LEGACY_VIEW := by
  intro h
  have hsplit := split_once_view evidence cutover
  have hlegacy : split_once LEGACY_VIEW ':' = none := by decide
  rw [h, hlegacy] at hsplit
  cases hsplit

theorem reusable_under_view_eq {R : Type} (s : accumulator.SnapshotAccumulator R)
    (evidence : AckEvidence) (cutover : Int64) :
    reusable_under_view s (view evidence cutover) =
      reusable s.codex_counting (some (.new evidence (some cutover))) := by
  unfold reusable_under_view
  rw [if_neg (view_ne_legacy evidence cutover)]
  simp only [split_once_view, parse_i64_display, of_view_name_view_name]

end ottto_service.codex_counting_version

/-! ## A session under another configuration -/

namespace ottto_service.codex_usage_occurrence

open codex_counting_version

/-- The same counting, with its evidence and its cutover replaced. -/
def CodexCounting.with_config (self : CodexCounting) (config : AckEvidence × Option Int64) :
    CodexCounting :=
  { self with evidence := config.1, cutover_unix_ms := config.2 }

end ottto_service.codex_usage_occurrence

namespace ottto_service.accumulator.SnapshotAccumulator

open serde_json json_fields usage codex_counting_version codex_usage_occurrence Option CodexCounting

variable {R : Type} (outside : Outside R)

def with_config (s : SnapshotAccumulator R) (config : AckEvidence × Option Int64) :
    SnapshotAccumulator R :=
  { s with codex_counting := s.codex_counting.map (fun counting => counting.with_config config) }

variable (s : SnapshotAccumulator R) (config : AckEvidence × Option Int64)

@[simp] theorem with_config_counting_v2 :
    (s.with_config config).codex_counting_v2 = s.codex_counting_v2 := by
  unfold codex_counting_v2 with_config
  rcases s.codex_counting with _ | counting <;> rfl

@[simp] theorem with_config_occurrence :
    (s.with_config config).codex_occurrence = s.codex_occurrence := by
  unfold codex_occurrence with_config
  rcases s.codex_counting with _ | counting <;> rfl

@[simp] theorem with_config_with_occurrence (r : OccurrenceReducer) :
    (s.with_config config).with_occurrence r = (s.with_occurrence r).with_config config := by
  unfold with_occurrence with_config
  rcases s.codex_counting with _ | counting <;> rfl

@[simp] theorem with_config_toContext : (s.with_config config).toContext = s.toContext := rfl

@[simp] theorem with_config_last_identity :
    (s.with_config config).codex_last_usage_event_identity = s.codex_last_usage_event_identity := rfl

def version (s : SnapshotAccumulator R) : Option CountingVersion :=
  s.codex_counting.bind CodexCounting.version

@[simp] theorem version_with_occurrence (r : OccurrenceReducer) :
    (s.with_occurrence r).version = s.version := by
  unfold version with_occurrence
  rcases s.codex_counting with _ | counting <;> rfl

@[simp] theorem version_with_config : (s.with_config config).version = s.version := by
  unfold version with_config
  rcases s.codex_counting with _ | counting <;> rfl

theorem version_congr {s s' : SnapshotAccumulator R} (h : s.codex_counting = s'.codex_counting) :
    s.version = s'.version := by
  unfold version
  rw [h]

/-- A step that keeps the version and never reads the configuration. -/
structure Reads {α : Type} (f : SnapshotAccumulator R → SnapshotAccumulator R × α) : Prop where
  config : ∀ s config, f (s.with_config config) = ((f s).1.with_config config, (f s).2)
  version : ∀ s, (f s).1.version = s.version

/-! ## Each step reads the version and the reducer -/

@[simp] theorem with_config_add_usage (model : Option String) (usage : UsageTotals)
    (selector : SelectorCapture) (timestamp effort : Option String) :
    (s.with_config config).add_usage_with_selector outside model usage selector timestamp effort =
      (s.add_usage_with_selector outside model usage selector timestamp effort).with_config config := by
  unfold add_usage_with_selector place_usage
  split_ifs <;> rfl

@[simp] theorem version_add_usage (model : Option String) (usage : UsageTotals)
    (selector : SelectorCapture) (timestamp effort : Option String) :
    (s.add_usage_with_selector outside model usage selector timestamp effort).version =
      s.version :=
  version_congr (add_usage_counting ..)

theorem reads_admit (model : Option String) (usage : UsageTotals) (identity : Option String) :
    Reads (fun s : SnapshotAccumulator R =>
      s.admit_codex_cumulative_usage model usage identity) := by
  refine ⟨fun s config => ?_, fun s => ?_⟩
  · unfold admit_codex_cumulative_usage
    simp only [with_config_last_identity]
    split <;> rfl
  · unfold admit_codex_cumulative_usage
    simp only
    split <;> rfl

theorem reads_legacy_ui_repeat (last : Option UsageTotals) (total delta : UsageTotals)
    (may_drop : Bool) :
    Reads (fun s : SnapshotAccumulator R =>
      s.codex_legacy_ui_repeat last total delta may_drop) := by
  refine ⟨fun s config => ?_, fun s => ?_⟩
  · unfold codex_legacy_ui_repeat
    simp only [with_config_occurrence]
    rcases s.codex_occurrence with _ | reducer
    · rfl
    · simp only [with_config_with_occurrence]
      cases may_drop
      · rfl
      · simp only [if_true]
        split <;> rfl
  · unfold codex_legacy_ui_repeat
    simp only
    rcases s.codex_occurrence with _ | reducer
    · rfl
    · cases may_drop
      · exact version_with_occurrence s _
      · simp only [if_true]
        split <;> exact version_with_occurrence s _

theorem reads_legacy_usage (model : Option String) (usage : UsageTotals)
    (last : Option UsageTotals) (identity timestamp : Option String) (count : Option UInt64) :
    Reads (fun s : SnapshotAccumulator R =>
      s.decide_codex_legacy_usage outside model usage last identity timestamp count) := by
  have hadmission := reads_admit (R := R) model usage identity
  have hrepeat := fun delta may_drop => reads_legacy_ui_repeat (R := R) last usage delta may_drop
  refine ⟨fun s config => ?_, fun s => ?_⟩
  · unfold decide_codex_legacy_usage
    simp only [hadmission.config s config]
    rcases s.admit_codex_cumulative_usage model usage identity with
      ⟨s₁, _ | ⟨resolved, previous, reset⟩⟩
    · rfl
    · simp only
      split
      · rfl
      · simp only [(hrepeat _ _).config s₁ config]
        rcases s₁.codex_legacy_ui_repeat last usage
          (codex_legacy_delta usage last previous reset count)
          (dated_on_or_after outside.time timestamp CODEX_LEGACY_REPEAT_FROM_UNIX_SECONDS) with
          ⟨s₂, _ | _⟩ <;> rfl
  · have hversion := hadmission.version s
    unfold decide_codex_legacy_usage
    simp only at hversion ⊢
    generalize s.admit_codex_cumulative_usage model usage identity = result at hversion ⊢
    obtain ⟨s₁, _ | ⟨resolved, previous, reset⟩⟩ := result
    · exact hversion
    · simp only
      split
      · exact hversion
      · have hnext := (hrepeat (codex_legacy_delta usage last previous reset count)
          (dated_on_or_after outside.time timestamp
            CODEX_LEGACY_REPEAT_FROM_UNIX_SECONDS)).version s₁
        split <;>
          · rename_i heq
            rw [heq] at hnext
            exact hnext.trans hversion

theorem reads_usage (model : Option String) (usage : UsageTotals)
    (last : Option UsageTotals) (identity : Option String) (count : Option UInt64) :
    Reads (fun s : SnapshotAccumulator R =>
      s.decide_codex_usage model usage last identity count) := by
  have hadmission := reads_admit (R := R) model usage identity
  refine ⟨fun s config => ?_, fun s => ?_⟩
  · unfold decide_codex_usage
    simp only [hadmission.config s config]
    rcases s.admit_codex_cumulative_usage model usage identity with
      ⟨s₁, _ | ⟨resolved, previous, reset⟩⟩
    · rfl
    · simp only [with_config_occurrence]
      split
      · rfl
      · rcases s₁.codex_occurrence with _ | reducer
        · rfl
        · simp only [with_config_with_occurrence]
          split <;> rfl
  · have hversion := hadmission.version s
    unfold decide_codex_usage
    simp only at hversion ⊢
    generalize s.admit_codex_cumulative_usage model usage identity = result at hversion ⊢
    obtain ⟨s₁, _ | ⟨resolved, previous, reset⟩⟩ := result
    · exact hversion
    · simp only
      split
      · exact hversion
      · rcases s₁.codex_occurrence with _ | reducer
        · exact hversion
        · simp only
          split <;> exact (version_with_occurrence s₁ _).trans hversion

theorem reads_stage (model : String) (usage : UsageTotals) (selector : SelectorCapture)
    (timestamp effort : Option String) :
    Reads (fun s : SnapshotAccumulator R =>
      s.stage_codex_ui outside model usage selector timestamp effort) := by
  refine ⟨fun s config => ?_, fun s => ?_⟩
  · unfold stage_codex_ui
    simp only [with_config_occurrence, with_config_with_occurrence, with_config_toContext]
    split
    · rfl
    · rcases s.codex_occurrence with _ | reducer
      · rfl
      · simp only
        rcases reducer.turn with _ | turn
        · rfl
        · simp only
          split <;> rfl
  · unfold stage_codex_ui
    simp only
    split
    · rfl
    · rcases s.codex_occurrence with _ | reducer
      · rfl
      · simp only
        rcases reducer.turn with _ | turn
        · rfl
        · simp only
          split
          · rfl
          · exact version_with_occurrence s _

@[simp] theorem with_config_flush :
    (s.with_config config).flush_codex_turn outside = (s.flush_codex_turn outside).with_config config := by
  unfold flush_codex_turn
  simp only [with_config_occurrence, with_config_with_occurrence]
  rcases s.codex_occurrence with _ | reducer
  · rfl
  · simp only
    rcases reducer.turn with _ | turn <;> rfl

@[simp] theorem version_flush : (s.flush_codex_turn outside).version = s.version := by
  unfold flush_codex_turn
  rcases s.codex_occurrence with _ | reducer
  · rfl
  · simp only
    rcases reducer.turn with _ | turn
    · rfl
    · exact (version_congr rfl).trans (version_with_occurrence s _)

theorem reads_count_bound_ui (model : String) (delta : UsageTotals) (selector : SelectorCapture)
    (timestamp effort : Option String) :
    Reads (fun s : SnapshotAccumulator R =>
      s.count_bound_ui outside model delta selector timestamp effort) := by
  have hstage := reads_stage outside model delta selector timestamp effort
  refine ⟨fun s config => ?_, fun s => ?_⟩
  · unfold count_bound_ui
    simp only [with_config_occurrence, with_config_with_occurrence, with_config_add_usage,
      hstage.config s config]
    rcases s.codex_occurrence with _ | reducer
    · rfl
    · simp only
      rcases reducer.turn with _ | turn
      · rfl
      · simp only
        split_ifs
        · rfl
        · rfl
        · rcases s.stage_codex_ui outside model delta selector timestamp effort with
            ⟨s₁, _ | _ | _⟩
          · rfl
          · rfl
          · simp only [with_config_flush, with_config_add_usage]
  · have hversion := hstage.version s
    unfold count_bound_ui
    rcases s.codex_occurrence with _ | reducer
    · rfl
    · simp only
      rcases reducer.turn with _ | turn
      · rfl
      · simp only
        split_ifs
        · exact version_with_occurrence s _
        · exact version_add_usage outside s _ _ _ _ _
        · generalize s.stage_codex_ui outside model delta selector timestamp effort = result
            at hversion ⊢
          obtain ⟨s₁, _ | _ | _⟩ := result
          · exact hversion
          · exact hversion
          · simpa only [version_add_usage, version_flush] using hversion

theorem reads_cumulative_usage (model : Option String) (usage : UsageTotals)
    (last : Option UsageTotals) (identity : Option String) (selector : SelectorCapture)
    (timestamp : Option String) (count : Option UInt64) (effort : Option String) :
    Reads (fun s : SnapshotAccumulator R =>
      s.set_cumulative_usage_with_selector outside model usage last identity selector timestamp
        count effort) := by
  have hv2 := reads_usage (R := R) model usage last identity count
  have hlegacy := reads_legacy_usage outside model usage last identity timestamp count
  have hbound := fun model delta => reads_count_bound_ui outside model delta selector timestamp effort
  refine ⟨fun s config => ?_, fun s => ?_⟩
  · unfold set_cumulative_usage_with_selector
    simp only [with_config_counting_v2]
    split_ifs
    · unfold set_codex_v2_cumulative_usage
      simp only [hv2.config s config]
      rcases s.decide_codex_usage model usage last identity count with
        ⟨s₁, _ | ⟨resolved, delta, _ | _⟩⟩
      · rfl
      · simp only [with_config_add_usage]
      · exact (hbound resolved delta).config s₁ config
    · simp only [hlegacy.config s config]
      rcases s.decide_codex_legacy_usage outside model usage last identity timestamp count with
        ⟨s₁, _ | ⟨resolved, delta⟩⟩
      · rfl
      · simp only [with_config_add_usage]
  · have hversion := hv2.version s
    have hversion' := hlegacy.version s
    unfold set_cumulative_usage_with_selector
    split_ifs
    · unfold set_codex_v2_cumulative_usage
      generalize s.decide_codex_usage model usage last identity count = result at hversion ⊢
      obtain ⟨s₁, _ | ⟨resolved, delta, _ | _⟩⟩ := result
      · exact hversion
      · simpa only [version_add_usage] using hversion
      · exact ((hbound resolved delta).version s₁).trans hversion
    · generalize s.decide_codex_legacy_usage outside model usage last identity timestamp count =
        result at hversion' ⊢
      obtain ⟨s₁, _ | ⟨resolved, delta⟩⟩ := result
      · exact hversion'
      · simpa only [version_add_usage] using hversion'

theorem with_config_count_ui (line : Line R) :
    (s.with_config config).count_ui outside line = (s.count_ui outside line).with_config config := by
  unfold count_ui
  simp only [with_config_toContext]
  rcases line.ui s.toContext with _ | call
  · rfl
  · simp only [(reads_cumulative_usage outside call.model call.usage call.last_usage
      call.usage_event_identity call.selector line.timestamp call.implicit_request_count
      call.effort).config s config]
    rfl

theorem version_count_ui (line : Line R) : (s.count_ui outside line).version = s.version := by
  unfold count_ui
  rcases line.ui s.toContext with _ | call
  · rfl
  · exact (version_congr rfl).trans ((reads_cumulative_usage outside call.model call.usage
      call.last_usage call.usage_event_identity call.selector line.timestamp
      call.implicit_request_count call.effort).version s)

theorem with_config_native_selector (value : Value) (timestamp model : Option String)
    (selector : SelectorCapture) (native : NativeRecord) :
    (s.with_config config).native_selector outside value timestamp model selector native =
      s.native_selector outside value timestamp model selector native := rfl

theorem with_config_native (line : Line R) :
    (s.with_config config).native outside line = (s.native outside line).with_config config := by
  unfold native
  simp only [with_config_counting_v2]
  split_ifs
  · rfl
  · unfold admit_codex_native
    simp only [with_config_occurrence, with_config_toContext]
    rcases s.codex_occurrence with _ | reducer
    · rfl
    · simp only
      rcases reducer.note_codex_native_authority outside.sha256
        (native_record line.value s.source_session_id) with ⟨r, _ | ⟨native, money⟩⟩
      · exact with_config_with_occurrence s config r
      · simp only [with_config_with_occurrence, with_config_native_selector,
          with_config_add_usage]
        rfl
  · rfl

theorem version_native (line : Line R) : (s.native outside line).version = s.version := by
  unfold native
  split_ifs
  · rfl
  · unfold admit_codex_native
    rcases s.codex_occurrence with _ | reducer
    · rfl
    · simp only
      rcases reducer.note_codex_native_authority outside.sha256
        (native_record line.value s.source_session_id) with ⟨r, _ | ⟨native, money⟩⟩
      · exact version_with_occurrence s r
      · refine Eq.trans (version_congr ?_) (version_with_occurrence s r)
        simp
  · rfl

/-! ## The version is decided once -/

/-- The version that a line leaves. -/
def fixed_version (s : SnapshotAccumulator R) (line : Line R) : Option CountingVersion :=
  s.codex_counting.bind (fun counting => (counting.fix_version outside.time line.value).version)

theorem with_config_close (closing : Option String) (publish : Bool) :
    (s.with_config config).close_codex_turn outside closing publish =
      (s.close_codex_turn outside closing publish).with_config config := by
  unfold close_codex_turn
  simp only [with_config_occurrence, with_config_with_occurrence]
  rcases s.codex_occurrence with _ | reducer
  · rfl
  · simp only
    rcases reducer.close_codex_turn_content outside.sha256 closing with ⟨r, _ | pending⟩
    · rfl
    · cases publish <;> rfl

theorem with_config_bind (turn_id : Option String) :
    (s.with_config config).bind_codex_turn outside turn_id =
      (s.bind_codex_turn outside turn_id).with_config config := by
  unfold bind_codex_turn
  simp only [with_config_occurrence, with_config_with_occurrence]
  rcases s.codex_occurrence with _ | reducer <;> rfl

theorem with_config_turn_event (value : Value) (publish : Bool) :
    (s.with_config config).observe_codex_turn_event outside value publish =
      (s.observe_codex_turn_event outside value publish).with_config config := by
  unfold observe_codex_turn_event
  simp only [with_config_close, with_config_bind]
  split_ifs <;> rfl

/-- A configuration that selects the same version gives the same state. -/
theorem fix_version_evidence {time : Rfc3339} {counting : CodexCounting} {config : AckEvidence × Option Int64}
    {value : Value}
    (h : ((counting.with_config config).fix_version time value).version =
      (counting.fix_version time value).version) :
    (counting.with_config config).fix_version time value =
      (counting.fix_version time value).with_config config := by
  unfold CodexCounting.fix_version CodexCounting.with_config at h ⊢
  rcases hv : counting.version with _ | version
  · simp only [hv, Option.some.injEq] at h ⊢
    rw [h]
  · simp only [hv]

/-- The lifecycle reads the configuration only through the version it fixes. -/
theorem with_config_lifecycle {s : SnapshotAccumulator R} {config : AckEvidence × Option Int64}
    {line : Line R}
    (h : (s.with_config config).fixed_version outside line = s.fixed_version outside line) :
    (s.with_config config).lifecycle outside line = (s.lifecycle outside line).with_config config := by
  unfold lifecycle observe_codex_turn_lifecycle
  unfold fixed_version at h
  rcases hc : s.codex_counting with _ | counting
  · have hnone : (s.with_config config).codex_counting = none := by simp [with_config, hc]
    simp only [hnone]
  · have hsome : (s.with_config config).codex_counting = some (counting.with_config config) := by
      simp [with_config, hc]
    simp only [hc, hsome, bind_some] at h ⊢
    simp only [fix_version_evidence h]
    generalize counting.fix_version outside.time line.value = fixed
    obtain ⟨evidence, cutover_unix_ms, version, reducer⟩ := fixed
    by_cases hv2 : version = some .V2
    swap
    · simp only [CodexCounting.with_config, ne_eq, hv2, not_false_eq_true, if_true]
      rfl
    · simp only [CodexCounting.with_config, ne_eq, hv2, not_true_eq_false, if_false]
      rcases reducer with _ | reducer
      · rfl
      · simp only
        exact with_config_turn_event outside
          { s with
            codex_counting := some (CodexCounting.mk evidence cutover_unix_ms (some .V2)
              (some { reducer with line_ui := ui_t6_pair line.value })) } config line.value true

theorem version_close (closing : Option String) (publish : Bool) :
    (s.close_codex_turn outside closing publish).version = s.version := by
  unfold close_codex_turn
  rcases s.codex_occurrence with _ | reducer
  · rfl
  · simp only
    split
    · exact version_with_occurrence s _
    · cases publish
      · exact version_with_occurrence s _
      · exact (version_congr rfl).trans (version_with_occurrence s _)

theorem version_bind (turn_id : Option String) :
    (s.bind_codex_turn outside turn_id).version = s.version := by
  unfold bind_codex_turn
  rcases s.codex_occurrence with _ | reducer
  · rfl
  · exact version_with_occurrence s _

theorem version_turn_event (value : Value) (publish : Bool) :
    (s.observe_codex_turn_event outside value publish).version = s.version := by
  unfold observe_codex_turn_event
  simp only
  split_ifs
  · rw [version_bind, version_close]
  · exact version_close outside s _ _
  · rfl

theorem version_lifecycle (line : Line R) :
    (s.lifecycle outside line).version = s.fixed_version outside line := by
  unfold lifecycle observe_codex_turn_lifecycle fixed_version
  rcases hc : s.codex_counting with _ | counting
  · simp only [version, hc, bind_none]
  · simp only [bind_some]
    split_ifs
    · rfl
    · rcases hr : (counting.fix_version outside.time line.value).reducer with _ | reducer
      · rfl
      · simp only [version_turn_event]
        rfl

/-- A decided version is not decided again. -/
theorem fixed_version_decided {s : SnapshotAccumulator R} (h : s.version ≠ none) (line : Line R) :
    s.fixed_version outside line = s.version := by
  unfold fixed_version
  unfold version at h ⊢
  rcases hc : s.codex_counting with _ | counting
  · rfl
  · rw [hc] at h
    simp only [bind_some] at h ⊢
    rw [fix_version_decided h]

theorem version_apply (line : Line R) :
    (s.apply_codex_line outside line).version = s.fixed_version outside line := by
  unfold apply_codex_line
  simp only [observe_codex_counting_line_eq, version_count_ui, version_native, version_lifecycle]
  rfl

theorem with_config_apply {s : SnapshotAccumulator R} {config : AckEvidence × Option Int64} {line : Line R}
    (h : (s.with_config config).fixed_version outside line = s.fixed_version outside line) :
    (s.with_config config).apply_codex_line outside line =
      (s.apply_codex_line outside line).with_config config := by
  unfold apply_codex_line
  simp only [observe_codex_counting_line_eq]
  have hnoted : (s.with_config config).noted line = (s.noted line).with_config config := rfl
  rw [hnoted, with_config_lifecycle outside (s := s.noted line) h, with_config_native,
    with_config_count_ui]

/-! ## Runs -/

/-- The version that the first line selects under a configuration. -/
theorem fixed_version_fresh (context : Context R) (evidence : AckEvidence)
    (cutover : Option Int64) (line : Line R) :
    (fresh context (some (.new evidence cutover))).fixed_version outside line =
      some (match cutover with
        | none => .Legacy
        | some cutover => codex_counting_version.decide outside.time line.value evidence cutover) :=
  rfl

theorem fixed_version_ne_none {s : SnapshotAccumulator R} (h : s.codex_counting ≠ none)
    (line : Line R) : s.fixed_version outside line ≠ none := by
  obtain ⟨counting, hc⟩ := ne_none_iff_exists'.mp h
  unfold fixed_version fix_version
  rw [hc]
  rcases hv : counting.version with _ | version <;> simp [hv]

/-- A decided session runs the same under any configuration. -/
theorem with_config_run (config : AckEvidence × Option Int64) {s : SnapshotAccumulator R}
    (h : s.version ≠ none) (lines : List (Line R)) :
    run (apply_codex_line outside) (s.with_config config) lines =
        (run (apply_codex_line outside) s lines).with_config config ∧
      (run (apply_codex_line outside) s lines).version = s.version := by
  induction lines generalizing s with
  | nil => exact ⟨rfl, rfl⟩
  | cons line rest ih =>
    have hversion := version_with_config s config
    have hfixed := fixed_version_decided outside h line
    have hsame : (s.with_config config).fixed_version outside line =
        s.fixed_version outside line := by
      rw [hfixed, fixed_version_decided outside (by rw [hversion]; exact h) line, hversion]
    have hnext : (s.apply_codex_line outside line).version = s.version :=
      (version_apply outside s line).trans hfixed
    obtain ⟨h1, h2⟩ := ih (s := s.apply_codex_line outside line) (by rw [hnext]; exact h)
    rw [Run.cons, Run.cons, with_config_apply outside hsame]
    exact ⟨h1, h2.trans hnext⟩

/-- The configuration of a session stays. -/
theorem config_run (context : Context R) (evidence : AckEvidence) (cutover : Option Int64)
    (lines : List (Line R)) :
    (run (apply_codex_line outside) (fresh context (some (.new evidence cutover)))
      lines).with_config (evidence, cutover) =
    run (apply_codex_line outside) (fresh context (some (.new evidence cutover))) lines := by
  refine Run.invariant (fun s : SnapshotAccumulator R => s.with_config (evidence, cutover) = s)
    (fun s line h => ?_) rfl lines
  have happly : (s.with_config (evidence, cutover)).apply_codex_line outside line =
      (s.apply_codex_line outside line).with_config (evidence, cutover) :=
    with_config_apply outside (by rw [h])
  rw [h] at happly
  exact happly.symm

/-- A first line that selects the same version under both configurations. -/
theorem run_of_same_version {context : Context R} {old fresh : AckEvidence}
    {cutover : Option Int64} {first : Line R} (rest : List (Line R))
    (h : (SnapshotAccumulator.fresh context (some (.new fresh cutover))).fixed_version outside
        first =
      (SnapshotAccumulator.fresh context (some (.new old cutover))).fixed_version outside first) :
    run (apply_codex_line outside) (.fresh context (some (.new fresh cutover))) (first :: rest) =
      (run (apply_codex_line outside) (.fresh context (some (.new old cutover)))
        (first :: rest)).with_config (fresh, cutover) := by
  have hfirst : ((SnapshotAccumulator.fresh context (some (.new old cutover))).with_config
      (fresh, cutover)).apply_codex_line outside first =
      ((SnapshotAccumulator.fresh context (some (.new old cutover))).apply_codex_line outside
        first).with_config (fresh, cutover) := with_config_apply outside h
  have hdecided : ((SnapshotAccumulator.fresh context (some (.new old cutover))).apply_codex_line
      outside first).version ≠ none := by
    rw [version_apply]
    exact fixed_version_ne_none outside (by simp [SnapshotAccumulator.fresh]) first
  exact (congrArg (fun s => run (apply_codex_line outside) s rest) hfirst).trans
    (with_config_run outside (fresh, cutover) hdecided rest).1

/-- The version of the session is the one that its first line selected. -/
theorem version_run (context : Context R) (evidence : AckEvidence) (cutover : Option Int64)
    (first : Line R) (rest : List (Line R)) :
    (run (apply_codex_line outside) (.fresh context (some (.new evidence cutover)))
      (first :: rest)).version =
      (SnapshotAccumulator.fresh context (some (.new evidence cutover))).fixed_version outside
        first := by
  have hversion := version_apply outside
    (SnapshotAccumulator.fresh context (some (.new evidence cutover))) first
  have hdecided := fixed_version_ne_none outside
    (s := SnapshotAccumulator.fresh context (some (.new evidence cutover)))
    (by simp [SnapshotAccumulator.fresh]) first
  rw [← hversion] at hdecided
  exact (with_config_run outside (evidence, cutover) hdecided rest).2.trans hversion

/-- The reuse table: evidence under which the state may go on selects, at the
first line, the version that the old evidence selected. -/
theorem same_version_of_reusable {context : Context R} {old fresh : AckEvidence}
    {cutover : Option Int64} {first : Line R} (version : CountingVersion)
    (hold : (SnapshotAccumulator.fresh context (some (.new old cutover))).fixed_version outside
      first = some version)
    (hreusable : match version with
      | .Legacy => fresh = .LegacyAcked
      | .V2 => fresh ≠ .LegacyAcked) :
    (SnapshotAccumulator.fresh context (some (.new fresh cutover))).fixed_version outside first =
      (SnapshotAccumulator.fresh context (some (.new old cutover))).fixed_version outside first := by
  rw [hold]
  rw [fixed_version_fresh] at hold ⊢
  rcases cutover with _ | cutover
  · exact hold
  · simp only [Option.some.injEq] at hold ⊢
    rw [decide_eq] at hold ⊢
    cases version with
    | Legacy =>
      simp only at hreusable
      rw [if_pos hreusable]
    | V2 =>
      simp only at hreusable
      rw [if_neg hreusable]
      split at hold
      · cases hold
      · exact hold

/-- A retained reduction that the reuse table accepts goes on as a new parse
under the fresh evidence: the same version, usage and receipts, and nothing
but the evidence differs. A recorded view answers as the parser it records. -/
theorem resuming_is_a_fresh_parse :
    (∀ (context : Context R) (old fresh : AckEvidence) (old_cutover fresh_cutover : Option Int64)
      (before after : List (Line R)),
      let retained := run (apply_codex_line outside)
        (.fresh context (some (.new old old_cutover))) before
      let resumed := run (apply_codex_line outside) retained after
      let parsed := run (apply_codex_line outside)
        (.fresh context (some (.new fresh fresh_cutover))) (before ++ after)
      reusable retained.codex_counting (some (.new fresh fresh_cutover)) = true →
        resumed.version = parsed.version ∧ resumed.toLedger = parsed.toLedger ∧
          resumed.codex_occurrence = parsed.codex_occurrence ∧
          resumed.with_config (fresh, fresh_cutover) = parsed) ∧
    ∀ (s : SnapshotAccumulator R) (evidence : AckEvidence) (cutover : Int64),
      reusable_under_view s (view evidence cutover) =
        reusable s.codex_counting (some (.new evidence (some cutover))) := by
  refine ⟨?_, fun s evidence cutover => reusable_under_view_eq s evidence cutover⟩
  intro context old fresh old_cutover fresh_cutover before after retained resumed parsed hreusable
  have hresumed : resumed = run (apply_codex_line outside)
      (.fresh context (some (.new old old_cutover))) (before ++ after) :=
    (Run.append _ before after).symm
  suffices hparsed : resumed.with_config (fresh, fresh_cutover) = parsed by
    rw [← hparsed]
    exact ⟨(version_with_config _ _).symm, rfl, (with_config_occurrence _ _).symm, rfl⟩
  rcases hc : retained.codex_counting with _ | counting
  · rw [hc] at hreusable
    cases hreusable
  -- The retained state still holds the configuration it was read under.
  have hconfig : counting.with_config (old, old_cutover) = counting := by
    have h := congrArg codex_counting (config_run outside context old old_cutover before)
    simp only [with_config] at h
    rw [hc] at h
    exact Option.some.inj h
  have hevidence : counting.evidence = old := (congrArg CodexCounting.evidence hconfig).symm
  have hcutover : counting.cutover_unix_ms = old_cutover :=
    (congrArg cutover_unix_ms hconfig).symm
  rw [hc] at hreusable
  simp only [reusable, reusable_under, CodexCounting.new, hevidence, hcutover,
    Bool.and_eq_true, beq_iff_eq] at hreusable
  obtain ⟨rfl, htable⟩ := hreusable
  by_cases hsame : old = fresh
  · subst hsame
    rw [hresumed]
    exact config_run outside context old old_cutover (before ++ after)
  have hversion : retained.version = counting.version := by
    unfold version
    rw [hc]
    rfl
  rcases before with _ | ⟨first, rest⟩
  · -- Nothing was read: only the same evidence may go on.
    have hnone : counting.version = none := hversion.symm
    rw [hnone] at htable
    exact absurd (by simpa using htable) hsame
  · have hfirst := version_run outside context old old_cutover first rest
    rw [hresumed]
    refine (run_of_same_version outside (rest ++ after) ?_).symm
    rcases hv : counting.version with _ | version
    · rw [hv] at htable
      exact absurd (by simpa using htable) hsame
    · refine same_version_of_reusable outside version
        (by rw [← hfirst, ← hv, ← hversion]) ?_
      rw [hv] at htable
      cases version with
      | Legacy =>
        simp only [Bool.or_eq_true, beq_iff_eq, hsame, false_or] at htable
        exact htable
      | V2 => simpa using htable

end ottto_service.accumulator.SnapshotAccumulator
