-- The entries of the ledger as an algebra: entries of different rows may be
-- published in either order, and two entries of one row may be published as
-- one. Both rest on the times being written by one formatter.
import Ottto.Reconcile

open Words

namespace ottto_service.accumulator

open usage codex_usage_occurrence List SortedMap UsageTotals UsageBucketState Ledger

/-! ## Canonical times -/

/-- A time as `format` writes it. -/
def Rfc3339.Canonical (time : Rfc3339) (s : String) : Prop := ∃ t, time.format t = some s

/-- The text that stays when a bucket or a row sees a time. -/
def earlier (time : Rfc3339) (current timestamp : String) : String :=
  if timestamp_is_before time timestamp current then timestamp else current

def later (time : Rfc3339) (current timestamp : String) : String :=
  if timestamp_is_after time timestamp current then timestamp else current

section Times

variable {time : Rfc3339}

/-- The instant of a canonical text. -/
def instant (time : Rfc3339) (s : String) : Int := (time.parse s).getD 0

theorem parse_canonical {s : String} (h : time.Canonical s) :
    time.parse s = some (instant time s) := by
  obtain ⟨t, ht⟩ := h
  have hparse := time.parse_format t s ht
  simp [instant, hparse]

variable {a b : String}

/-- One instant has one canonical text. -/
theorem canonical_ext (ha : time.Canonical a) (hb : time.Canonical b)
    (h : instant time a = instant time b) : a = b := by
  obtain ⟨s, hs⟩ := ha
  obtain ⟨t, ht⟩ := hb
  have h1 := time.parse_format s a hs
  have h2 := time.parse_format t b ht
  simp only [instant, h1, h2, Option.getD_some] at h
  rw [h, ht] at hs
  exact (Option.some.inj hs).symm

theorem canonical_earlier (ha : time.Canonical a) (hb : time.Canonical b) :
    time.Canonical (earlier time a b) := by
  unfold earlier
  split
  · exact hb
  · exact ha

theorem canonical_later (ha : time.Canonical a) (hb : time.Canonical b) :
    time.Canonical (later time a b) := by
  unfold later
  split
  · exact hb
  · exact ha

theorem instant_earlier (ha : time.Canonical a) (hb : time.Canonical b) :
    instant time (earlier time a b) = min (instant time a) (instant time b) := by
  unfold earlier timestamp_is_before
  simp only [parse_canonical ha, parse_canonical hb, decide_eq_true_eq]
  split
  · rw [min_eq_right (by omega)]
  · rw [min_eq_left (by omega)]

theorem instant_later (ha : time.Canonical a) (hb : time.Canonical b) :
    instant time (later time a b) = max (instant time a) (instant time b) := by
  unfold later timestamp_is_after
  simp only [parse_canonical ha, parse_canonical hb, decide_eq_true_eq]
  split
  · rw [max_eq_right (by omega)]
  · rw [max_eq_left (by omega)]

/-- A text that a bucket may hold. -/
def CanonicalOpt (time : Rfc3339) (s : Option String) : Prop := ∀ t ∈ s, time.Canonical t

/-- No time is after every time. -/
def firstInstant (time : Rfc3339) (s : Option String) : WithTop Int :=
  match s with
  | some t => (instant time t : WithTop Int)
  | none => ⊤

/-- No time is before every time. -/
def lastInstant (time : Rfc3339) (s : Option String) : WithBot Int :=
  match s with
  | some t => (instant time t : WithBot Int)
  | none => ⊥

theorem firstInstant_ext {a b : Option String} (ha : CanonicalOpt time a)
    (hb : CanonicalOpt time b) (h : firstInstant time a = firstInstant time b) : a = b := by
  rcases a with _ | a <;> rcases b with _ | b
  · rfl
  · exact absurd h.symm (WithTop.coe_ne_top)
  · exact absurd h (WithTop.coe_ne_top)
  · exact congrArg some (canonical_ext (ha a rfl) (hb b rfl) (WithTop.coe_injective h))

theorem lastInstant_ext {a b : Option String} (ha : CanonicalOpt time a)
    (hb : CanonicalOpt time b) (h : lastInstant time a = lastInstant time b) : a = b := by
  rcases a with _ | a <;> rcases b with _ | b
  · rfl
  · exact absurd h.symm (WithBot.coe_ne_bot)
  · exact absurd h (WithBot.coe_ne_bot)
  · exact congrArg some (canonical_ext (ha a rfl) (hb b rfl) (WithBot.coe_injective h))

end Times

/-! ## The times of a bucket -/

namespace UsageBucketState

variable {time : Rfc3339}

structure Canonical (time : Rfc3339) (b : UsageBucketState) : Prop where
  first : CanonicalOpt time b.first_activity_at
  last : CanonicalOpt time b.last_activity_at

theorem canonical_default : Canonical time {} := by
  refine ⟨fun t h => ?_, fun t h => ?_⟩
  · cases h
  · cases h

variable {b : UsageBucketState} {t : String}

theorem note_first (hb : b.Canonical time) (ht : time.Canonical t) :
    CanonicalOpt time (b.note_activity_at time t).first_activity_at ∧
      firstInstant time (b.note_activity_at time t).first_activity_at =
        min (firstInstant time b.first_activity_at) (instant time t : WithTop Int) := by
  unfold note_activity_at
  rcases hf : b.first_activity_at with _ | current
  · refine ⟨fun s hs => ?_, ?_⟩
    · cases hs
      exact ht
    · exact (min_eq_right le_top).symm
  · have hc : time.Canonical current := hb.first current hf
    have hvalue : (if timestamp_is_before time t current then some t else some current) =
        some (earlier time current t) := by
      unfold earlier
      split <;> rfl
    simp only [hvalue]
    refine ⟨fun s hs => ?_, ?_⟩
    · cases hs
      exact canonical_earlier hc ht
    · simp only [firstInstant, instant_earlier hc ht]
      exact WithTop.coe_min _ _

theorem note_last (hb : b.Canonical time) (ht : time.Canonical t) :
    CanonicalOpt time (b.note_activity_at time t).last_activity_at ∧
      lastInstant time (b.note_activity_at time t).last_activity_at =
        max (lastInstant time b.last_activity_at) (instant time t : WithBot Int) := by
  unfold note_activity_at
  rcases hf : b.last_activity_at with _ | current
  · refine ⟨fun s hs => ?_, ?_⟩
    · cases hs
      exact ht
    · exact (max_eq_right bot_le).symm
  · have hc : time.Canonical current := hb.last current hf
    have hvalue : (if timestamp_is_after time t current then some t else some current) =
        some (later time current t) := by
      unfold later
      split <;> rfl
    simp only [hvalue]
    refine ⟨fun s hs => ?_, ?_⟩
    · cases hs
      exact canonical_later hc ht
    · simp only [lastInstant, instant_later hc ht]
      exact WithBot.coe_max _ _

theorem canonical_note (hb : b.Canonical time)
    (ht : time.Canonical t) : (b.note_activity_at time t).Canonical time :=
  ⟨(note_first hb ht).1, (note_last hb ht).1⟩

/-- Two buckets with the same rows and the same instants are the same. -/
theorem ext_instants {a : UsageBucketState} (ha : a.Canonical time) (hb : b.Canonical time)
    (hrows : a.rows = b.rows)
    (hfirst : firstInstant time a.first_activity_at = firstInstant time b.first_activity_at)
    (hlast : lastInstant time a.last_activity_at = lastInstant time b.last_activity_at) :
    a = b := by
  have h1 := firstInstant_ext ha.first hb.first hfirst
  have h2 := lastInstant_ext ha.last hb.last hlast
  cases a
  cases b
  simp only at hrows h1 h2
  rw [hrows, h1, h2]

end UsageBucketState

/-! ## Entries -/

/-- An accepted usage: its hour, its first and last time, and its row. -/
structure Entry where
  bucket : String
  first : String
  last : String
  key : RowKey
  row : BucketRowAccumulator

/-- The times are canonical and in order. -/
structure Entry.Timed (time : Rfc3339) (e : Entry) : Prop where
  first : time.Canonical e.first
  last : time.Canonical e.last
  le : instant time e.first ≤ instant time e.last

/-- A row that takes another, with no check. -/
def BucketRowAccumulator.join (a b : BucketRowAccumulator) : BucketRowAccumulator :=
  { a with
    selector_sources := a.selector_sources.extend b.selector_sources
    usage := a.usage.plus b.usage }

theorem BucketRowAccumulator.join_assoc (a b c : BucketRowAccumulator) :
    (a.join b).join c = a.join (b.join c) := by
  unfold join
  simp only [extend_assoc, plus_assoc]

/-- Two entries of one row as one. -/
def Entry.join (time : Rfc3339) (a b : Entry) : Entry :=
  { a with
    first := earlier time a.first b.first
    last := later time a.last b.last
    row := a.row.join b.row }

/-- The bucket after an entry, with no check. -/
def UsageBucketState.take (time : Rfc3339) (b : UsageBucketState) (e : Entry) : UsageBucketState :=
  let noted := (b.note_activity_at time e.first).note_activity_at time e.last
  { noted with
    rows := b.rows.insert e.key (match b.rows.get? e.key with
      | some existing => existing.join e.row
      | none => e.row) }

/-- The ledger after an entry, with no check. -/
def Ledger.put (time : Rfc3339) (l : Ledger) (e : Entry) : Ledger :=
  { l with
    accepted_usage_totals := l.accepted_usage_totals.plus e.row.usage
    usage_buckets := l.usage_buckets.insert e.bucket
      (((l.usage_buckets.get? e.bucket).getD {}).take time e) }

section Algebra

variable {time : Rfc3339}

theorem Entry.join_timed {e₁ e₂ : Entry} (h₁ : e₁.Timed time) (h₂ : e₂.Timed time) :
    (e₁.join time e₂).Timed time := by
  refine ⟨canonical_earlier h₁.first h₂.first, canonical_later h₁.last h₂.last, ?_⟩
  simp only [Entry.join]
  rw [instant_earlier h₁.first h₂.first, instant_later h₁.last h₂.last]
  exact le_trans (min_le_left _ _) (le_trans h₁.le (le_max_left _ _))

namespace UsageBucketState

variable {b : UsageBucketState} {e : Entry}

theorem take_canonical (hb : b.Canonical time)
    (he : e.Timed time) : (b.take time e).Canonical time := by
  have h := canonical_note (canonical_note hb he.first) he.last
  exact ⟨h.first, h.last⟩

theorem take_first (hb : b.Canonical time)
    (he : e.Timed time) : firstInstant time (b.take time e).first_activity_at =
      min (firstInstant time b.first_activity_at) (instant time e.first : WithTop Int) := by
  have h1 := (note_first hb he.first).2
  have h2 := (note_first (canonical_note hb he.first) he.last).2
  rw [h1, min_assoc, ← WithTop.coe_min, min_eq_left he.le] at h2
  exact h2

theorem take_last (hb : b.Canonical time)
    (he : e.Timed time) : lastInstant time (b.take time e).last_activity_at =
      max (lastInstant time b.last_activity_at) (instant time e.last : WithBot Int) := by
  have h1 := (note_last hb he.first).2
  have h2 := (note_last (canonical_note hb he.first) he.last).2
  rw [h1, max_assoc, ← WithBot.coe_max, max_eq_right he.le] at h2
  exact h2

/-- Entries of different rows of one hour may be taken in either order. -/
theorem take_comm (hb : b.Canonical time) {e₁ e₂ : Entry}
    (h₁ : e₁.Timed time) (h₂ : e₂.Timed time) (hne : e₁.key ≠ e₂.key) :
    (b.take time e₁).take time e₂ = (b.take time e₂).take time e₁ := by
  have hb₁ := take_canonical hb h₁
  have hb₂ := take_canonical hb h₂
  apply ext_instants (take_canonical hb₁ h₂) (take_canonical hb₂ h₁)
  · simp only [take, get?_insert_ne _ _ hne, get?_insert_ne _ _ hne.symm]
    exact insert_comm _ _ _ hne
  · rw [take_first hb₁ h₂, take_first hb h₁, take_first hb₂ h₁, take_first hb h₂, min_right_comm]
  · rw [take_last hb₁ h₂, take_last hb h₁, take_last hb₂ h₁, take_last hb h₂, max_right_comm]

/-- Two entries of one row may be taken as one. -/
theorem take_join (hb : b.Canonical time) {e₁ e₂ : Entry}
    (h₁ : e₁.Timed time) (h₂ : e₂.Timed time) (hkey : e₁.key = e₂.key) :
    (b.take time e₁).take time e₂ = b.take time (e₁.join time e₂) := by
  have hb₁ := take_canonical hb h₁
  have hj := Entry.join_timed h₁ h₂
  apply ext_instants (take_canonical hb₁ h₂) (take_canonical hb hj)
  · simp only [take, Entry.join, ← hkey, get?_insert_self, insert_insert]
    congr 1
    rcases b.rows.get? e₁.key with _ | existing
    · rfl
    · exact BucketRowAccumulator.join_assoc existing e₁.row e₂.row
  · rw [take_first hb₁ h₂, take_first hb h₁, take_first hb hj, min_assoc, ← WithTop.coe_min]
    simp only [Entry.join]
    rw [instant_earlier h₁.first h₂.first]
  · rw [take_last hb₁ h₂, take_last hb h₁, take_last hb hj, max_assoc, ← WithBot.coe_max]
    simp only [Entry.join]
    rw [instant_later h₁.last h₂.last]

end UsageBucketState

namespace Ledger

/-- Every hour holds canonical times. -/
def Canonical (time : Rfc3339) (l : Ledger) : Prop :=
  ∀ b bucket, l.usage_buckets.get? b = some bucket → bucket.Canonical time

variable {l : Ledger}

theorem canonical_bucket (h : l.Canonical time) (b : String) :
    ((l.usage_buckets.get? b).getD {}).Canonical time := by
  rcases hget : l.usage_buckets.get? b with _ | bucket
  · exact canonical_default
  · exact h b bucket hget

theorem put_canonical (h : l.Canonical time) {e : Entry} (he : e.Timed time) :
    (l.put time e).Canonical time := by
  exact forall_insert (take_canonical (canonical_bucket h e.bucket) he) h

theorem put_comm (h : l.Canonical time) {e₁ e₂ : Entry} (h₁ : e₁.Timed time)
    (h₂ : e₂.Timed time) (hne : ¬ (e₁.bucket = e₂.bucket ∧ e₁.key = e₂.key)) :
    (l.put time e₁).put time e₂ = (l.put time e₂).put time e₁ := by
  unfold put
  simp only [plus_right_comm l.accepted_usage_totals e₁.row.usage]
  congr 1
  by_cases hb : e₁.bucket = e₂.bucket
  · have hkey : e₁.key ≠ e₂.key := fun hkey => hne ⟨hb, hkey⟩
    simp only [hb, get?_insert_self, insert_insert, Option.getD_some]
    rw [take_comm (canonical_bucket h e₂.bucket) h₁ h₂ hkey]
  · rw [get?_insert_ne _ _ (Ne.symm hb), get?_insert_ne _ _ hb]
    exact insert_comm _ _ _ hb

theorem put_join (h : l.Canonical time) {e₁ e₂ : Entry} (h₁ : e₁.Timed time)
    (h₂ : e₂.Timed time) (hb : e₁.bucket = e₂.bucket) (hkey : e₁.key = e₂.key) :
    (l.put time e₁).put time e₂ = l.put time (e₁.join time e₂) := by
  unfold put
  have hbucket : (e₁.join time e₂).bucket = e₁.bucket := rfl
  have husage : (e₁.join time e₂).row.usage = e₁.row.usage.plus e₂.row.usage := rfl
  simp only [hbucket, husage, plus_assoc, ← hb, get?_insert_self,
    insert_insert, Option.getD_some]
  rw [take_join (canonical_bucket h e₁.bucket) h₁ h₂ hkey]

/-- An entry may be put before or after entries of other rows. -/
theorem foldl_put_comm (h : l.Canonical time) {e : Entry} (he : e.Timed time)
    {es : List Entry} (hes : ∀ x ∈ es, x.Timed time)
    (hne : ∀ x ∈ es, ¬ (e.bucket = x.bucket ∧ e.key = x.key)) :
    es.foldl (put time) (l.put time e) = (es.foldl (put time) l).put time e := by
  induction es generalizing l with
  | nil => rfl
  | cons x rest ih =>
    have hx := hes x mem_cons_self
    rw [foldl_cons, foldl_cons, put_comm h he hx (hne x mem_cons_self)]
    apply ih (put_canonical h hx)
    · intro y hy
      exact hes y (mem_cons_of_mem _ hy)
    · intro y hy
      exact hne y (mem_cons_of_mem _ hy)

end Ledger

end Algebra

/-! ## Staged rows as entries -/

/-- The entry that a staged row is published as. -/
def stagedEntry (e : (String ×ₗ RowKey) × PendingRow) : Entry :=
  { bucket := (ofLex e.1).1
    first := e.2.first_activity_at
    last := e.2.last_activity_at
    key := (ofLex e.1).2
    row :=
      { selector_context := e.2.selector_context
        selector_sources := e.2.selector_sources
        usage := e.2.usage
        reasoning_effort := (ofLex e.1).2.reasoning_effort } }

/-- The entry that a placed usage is published as. -/
def placedEntry (p : ClaudeRowPlacement) (usage : UsageTotals) (effort : Option String) : Entry :=
  { bucket := p.bucket
    first := p.normalized_timestamp
    last := p.normalized_timestamp
    key := p.row_key
    row :=
      { selector_context := p.reduced_context
        selector_sources := p.reduced_sources
        usage := usage
        reasoning_effort := effort } }

/-- The ledger with the staged rows put on it, in the order of their keys. -/
def Ledger.putAll (time : Rfc3339) (l : Ledger) (entries : List ((String ×ₗ RowKey) × PendingRow)) :
    Ledger := (entries.map stagedEntry).foldl (Ledger.put time) l

theorem stagedEntry_ne {k k' : String ×ₗ RowKey} (h : k ≠ k') (row row' : PendingRow) :
    ¬ ((stagedEntry (k, row)).bucket = (stagedEntry (k', row')).bucket ∧
      (stagedEntry (k, row)).key = (stagedEntry (k', row')).key) := by
  rintro ⟨h1, h2⟩
  exact h (ofLex.injective (Prod.ext h1 h2))

/-- Staging an entry and publishing it after the staged rows give the same
ledger. The staged row of its key is new, or is the old one joined with it. -/
theorem Ledger.putAll_insert {time : Rfc3339} {l : Ledger} (h : l.Canonical time)
    {entries : List ((String ×ₗ RowKey) × PendingRow)}
    (hsorted : entries.Pairwise (fun a b => a.1 < b.1))
    (htimed : ∀ e ∈ entries, (stagedEntry e).Timed time) {k : String ×ₗ RowKey}
    {row : PendingRow} {e : Entry} (he : e.Timed time) (hb : e.bucket = (ofLex k).1)
    (hkey : e.key = (ofLex k).2)
    (hrow : match SortedMap.lookupEntry k entries with
      | none => stagedEntry (k, row) = e
      | some old => stagedEntry (k, row) = (stagedEntry (k, old)).join time e) :
    l.putAll time (SortedMap.insertEntry k row entries) = (l.putAll time entries).put time e := by
  -- The entries after the key are of other rows, so the new one moves past them.
  have hpast : ∀ {rest : List ((String ×ₗ RowKey) × PendingRow)} {l : Ledger}, l.Canonical time →
      (∀ x ∈ rest, (stagedEntry x).Timed time) → (∀ x ∈ rest, k < x.1) →
      (l.put time e).putAll time rest = (l.putAll time rest).put time e := by
    intro rest l hl hrest hlt
    apply foldl_put_comm hl he
    · intro x hx
      obtain ⟨y, hy, rfl⟩ := mem_map.mp hx
      exact hrest y hy
    · intro x hx
      obtain ⟨⟨k', row'⟩, hy, rfl⟩ := mem_map.mp hx
      rw [hb, hkey]
      exact stagedEntry_ne (hlt (k', row') hy).ne row row'
  induction entries generalizing l with
  | nil =>
    simp only [SortedMap.lookupEntry] at hrow
    simp only [SortedMap.insertEntry, putAll, map_cons, map_nil, foldl_cons,
      foldl_nil, hrow]
  | cons a rest ih =>
    obtain ⟨k', old⟩ := a
    obtain ⟨hhead, htail⟩ := pairwise_cons.mp hsorted
    have hold := htimed (k', old) mem_cons_self
    have hrest : ∀ x ∈ rest, (stagedEntry x).Timed time :=
      fun x hx => htimed x (mem_cons_of_mem _ hx)
    have hcons : ∀ (l : Ledger) (x : (String ×ₗ RowKey) × PendingRow)
        (xs : List ((String ×ₗ RowKey) × PendingRow)),
        l.putAll time (x :: xs) = (l.put time (stagedEntry x)).putAll time xs := fun _ _ _ => rfl
    unfold SortedMap.insertEntry
    split_ifs with hlt heq
    · have hnone : SortedMap.lookupEntry k ((k', old) :: rest) = none := by
        apply lookupEntry_eq_none_of_lt
        intro x hx
        rcases mem_cons.mp hx with rfl | hx
        · exact hlt
        · exact lt_trans hlt (hhead x hx)
      simp only [hnone] at hrow
      rw [hcons, hrow]
      apply hpast h htimed
      intro x hx
      rcases mem_cons.mp hx with rfl | hx
      · exact hlt
      · exact lt_trans hlt (hhead x hx)
    · subst heq
      simp only [SortedMap.lookupEntry, if_true] at hrow
      rw [hcons, hcons, hrow, ← put_join h hold he hb.symm hkey.symm]
      exact hpast (put_canonical h hold) hrest hhead
    · have hlookup : SortedMap.lookupEntry k ((k', old) :: rest) =
          SortedMap.lookupEntry k rest := by
        rw [SortedMap.lookupEntry, if_neg heq]
      rw [hlookup] at hrow
      rw [hcons, hcons]
      exact ih (put_canonical h hold) htail hrest hrow

/-! ## Publication as entries -/

theorem timestamp_not_before_self (time : Rfc3339) (t : String) :
    timestamp_is_before time t t = false := by
  unfold timestamp_is_before
  cases time.parse t <;> simp

theorem timestamp_not_after_self (time : Rfc3339) (t : String) :
    timestamp_is_after time t t = false := by
  unfold timestamp_is_after
  cases time.parse t <;> simp

theorem earlier_twice (time : Rfc3339) (current t : String) :
    earlier time (earlier time current t) t = earlier time current t := by
  unfold earlier
  by_cases h : timestamp_is_before time t current = true
  · simp [h, timestamp_not_before_self]
  · simp [h]

theorem later_twice (time : Rfc3339) (current t : String) :
    later time (later time current t) t = later time current t := by
  unfold later
  by_cases h : timestamp_is_after time t current = true
  · simp [h, timestamp_not_after_self]
  · simp [h]

theorem note_activity_eq (time : Rfc3339) (b : UsageBucketState) (t : String) :
    b.note_activity_at time t =
      { b with
        first_activity_at := some ((b.first_activity_at.map (earlier time · t)).getD t)
        last_activity_at := some ((b.last_activity_at.map (later time · t)).getD t) } := by
  unfold note_activity_at earlier later
  congr 1
  · rcases b.first_activity_at with _ | current
    · rfl
    · simp only [Option.map_some, Option.getD_some]
      split <;> rfl
  · rcases b.last_activity_at with _ | current
    · rfl
    · simp only [Option.map_some, Option.getD_some]
      split <;> rfl

/-- A bucket that saw a time twice saw it once. -/
theorem note_activity_twice (time : Rfc3339) (b : UsageBucketState) (t : String) :
    (b.note_activity_at time t).note_activity_at time t = b.note_activity_at time t := by
  simp only [note_activity_eq, Option.map_some, Option.getD_some]
  congr 2
  · rcases b.first_activity_at with _ | current
    · simp [earlier, timestamp_not_before_self]
    · exact earlier_twice time current t
  · rcases b.last_activity_at with _ | current
    · simp [later, timestamp_not_after_self]
    · exact later_twice time current t

namespace Ledger

variable {time : Rfc3339}

/-- A row that fits is joined. -/
theorem merge_row_eq_join {rows : SortedMap RowKey BucketRowAccumulator} {k : RowKey}
    {row : BucketRowAccumulator}
    (h : ∀ existing, rows.get? k = some existing → existing.usage.Fits row.usage) :
    merge_row rows k row = rows.insert k (match rows.get? k with
      | some existing => existing.join row
      | none => row) := by
  unfold merge_row
  rcases hget : rows.get? k with _ | existing
  · rfl
  · have hadd : existing.usage.add row.usage = some (existing.usage.plus row.usage) :=
      add_eq_some.mpr ⟨h existing hget, rfl⟩
    simp only [hadd, Option.getD_some, BucketRowAccumulator.join]

variable {l : Ledger} {e : Entry}

theorem enter_row_eq_put (h : l.Reconciled) (hfits : l.accepted_usage_totals.Fits e.row.usage) :
    ({ l with accepted_usage_totals := l.accepted_usage_totals.plus e.row.usage }.enter_row time
      e.bucket [e.first, e.last] e.key e.row) = l.put time e := by
  have hrows : ∀ existing, ((l.usage_buckets.get? e.bucket).getD {}).rows.get? e.key =
      some existing → existing.usage.Fits e.row.usage := by
    intro existing hget
    rcases hb : l.usage_buckets.get? e.bucket with _ | bucket
    · rw [hb] at hget
      cases hget
    · rw [hb] at hget
      exact row_fits h hb hget hfits
  unfold enter_row put UsageBucketState.take
  simp only [foldl_cons, foldl_nil, note_activity_at_rows, merge_row_eq_join hrows]

theorem publish_row_eq_put (h : l.Reconciled) {entry : (String ×ₗ RowKey) × PendingRow}
    (hfits : l.accepted_usage_totals.Fits entry.2.usage) :
    publish_row time l entry = l.put time (stagedEntry entry) := by
  have hadd : l.accepted_usage_totals.add entry.2.usage =
      some (l.accepted_usage_totals.plus entry.2.usage) :=
    add_eq_some.mpr ⟨hfits, rfl⟩
  unfold publish_row
  simp only [hadd]
  exact enter_row_eq_put (e := stagedEntry entry) h hfits

theorem put_count (time : Rfc3339) (h : l.accepted_usage_totals.Fits e.row.usage)
    (c : Counter) : (l.put time e).accepted_usage_totals.count c =
      l.accepted_usage_totals.count c + e.row.usage.count c :=
  plus_count h c

theorem put_reconciled (time : Rfc3339) (h : l.Reconciled)
    (hfits : l.accepted_usage_totals.Fits e.row.usage) : (l.put time e).Reconciled := by
  rw [← enter_row_eq_put h hfits]
  exact reconciled_enter_row time h (add_eq_some.mpr ⟨hfits, rfl⟩) _ _ _

/-- Staged rows that fit are all put. -/
theorem publish_eq_putAll (entries : List ((String ×ₗ RowKey) × PendingRow)) (h : l.Reconciled)
    (hfits : ∀ c, l.accepted_usage_totals.count c +
      SortedMap.sumEntries (fun row => row.usage.count c) entries < 2 ^ 64) :
    entries.foldl (publish_row time) l = l.putAll time entries ∧
      (l.putAll time entries).Reconciled ∧
      ∀ c, (l.putAll time entries).accepted_usage_totals.count c =
        l.accepted_usage_totals.count c +
          SortedMap.sumEntries (fun row => row.usage.count c) entries := by
  induction entries generalizing l with
  | nil => exact ⟨rfl, h, fun c => rfl⟩
  | cons entry rest ih =>
    simp only [sumEntries_cons] at hfits
    have hentry : l.accepted_usage_totals.Fits entry.2.usage := by
      intro c
      have := hfits c
      omega
    have hcount := put_count time (e := stagedEntry entry) hentry
    have husage : (stagedEntry entry).row.usage = entry.2.usage := rfl
    rw [husage] at hcount
    obtain ⟨h1, h2, h3⟩ := ih (put_reconciled time (e := stagedEntry entry) h hentry)
      (fun c => by rw [hcount c]; have := hfits c; omega)
    rw [foldl_cons, publish_row_eq_put h hentry]
    refine ⟨h1, h2, fun c => ?_⟩
    have hthis := h3 c
    rw [hcount c] at hthis
    rw [sumEntries_cons]
    exact hthis.trans (by omega)

/-- A usage published at once is an entry with one time. -/
theorem add_placed_eq_put (h : l.Reconciled) {placed : PlacedClaudeUsage}
    {p : ClaudeRowPlacement} (hplace : placed.placement = some p) {usage : UsageTotals}
    {effort : Option String} (hfits : l.accepted_usage_totals.Fits usage) :
    l.add_placed_usage time placed usage effort = l.put time (placedEntry p usage effort) := by
  have hadd : l.accepted_usage_totals.add usage = some (l.accepted_usage_totals.plus usage) :=
    add_eq_some.mpr ⟨hfits, rfl⟩
  rw [← enter_row_eq_put (e := placedEntry p usage effort) h hfits]
  unfold add_placed_usage placedEntry
  simp only [hplace, hadd]
  unfold enter_row
  simp only [foldl_cons, foldl_nil, note_activity_twice]

end Ledger

end ottto_service.accumulator
