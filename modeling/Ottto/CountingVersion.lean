-- The choice of the counting rule of a Codex session
-- (codex_counting_version.rs): the first owned record, the cutover and the
-- acknowledgement evidence decide it once.
import Ottto.Json
import Ottto.Rows

namespace ottto_service.codex_counting_version

open serde_json json_fields accumulator

inductive CountingVersion
  | Legacy
  | V2
deriving DecidableEq

inductive AckEvidence
  | None
  | V2Marked
  | LegacyAcked
deriving DecidableEq

def AckEvidence.combine (self other : AckEvidence) : AckEvidence :=
  match self, other with
  | .LegacyAcked, _ => .LegacyAcked
  | _, .LegacyAcked => .LegacyAcked
  | .V2Marked, _ => .V2Marked
  | _, .V2Marked => .V2Marked
  | .None, .None => .None

/-- `i64::try_from` of a number. -/
def i64_try_from (n : Int) : Option Int64 :=
  if -9223372036854775808 ≤ n ∧ n ≤ 9223372036854775807 then some (Int64.ofInt n) else none

/-- The creation time of the header in milliseconds. The division of `i128`
rounds to zero. -/
def created_unix_ms (time : Rfc3339) (payload : Value) : Option Int64 := do
  let timestamp ← payload.get "timestamp"
  let text ← timestamp.as_str
  let nanos ← time.parse text
  i64_try_from (nanos.tdiv 1000000)

def decide (time : Rfc3339) (first_owned_record : Value) (evidence : AckEvidence)
    (cutover_unix_ms : Int64) : CountingVersion :=
  if !string_eq_at first_owned_record ["type"] "session_meta" then .Legacy
  else
    match first_owned_record.get "payload" with
    | none => .Legacy
    | some payload =>
      if ((payload.get "history_base").map (fun base => !base.is_null)).getD false then .Legacy
      else
        match created_unix_ms time payload with
        | none => .Legacy
        | some created_unix_ms =>
          if created_unix_ms < cutover_unix_ms then .Legacy
          else
            match evidence with
            | .V2Marked => .V2
            | .None => .V2
            | .LegacyAcked => .Legacy

/-- The evidence is read at one place: a header that can select V2 does, but
for Legacy evidence. -/
theorem decide_eq (time : Rfc3339) (record : Value) (e : AckEvidence) (cutover : Int64) :
    decide time record e cutover =
      if e = .LegacyAcked then .Legacy else decide time record .None cutover := by
  unfold decide
  split_ifs with h1 h2 h2
  · rfl
  · rfl
  · rcases record.get "payload" with _ | payload
    · rfl
    · simp only
      split_ifs
      · rfl
      · rcases created_unix_ms time payload with _ | created
        · rfl
        · simp only [h2]
          split_ifs <;> rfl
  · rcases record.get "payload" with _ | payload
    · rfl
    · simp only
      split_ifs
      · rfl
      · rcases created_unix_ms time payload with _ | created
        · rfl
        · simp only
          split_ifs
          · rfl
          · cases e
            · rfl
            · rfl
            · exact absurd rfl h2

end ottto_service.codex_counting_version
