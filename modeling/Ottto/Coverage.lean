-- The coverage law: inside one epoch, the money that natives have added in
-- each dimension never passes the distance from the base to the high water
-- mark, and it is that distance while the chain has no hole.
import Ottto.Occurrence
import Ottto.Runs

open Words

namespace ottto_service.codex_usage_occurrence

open Bool UInt64

/-- What `cover` makes of the epoch: the epoch before, whether a new one was
opened, the epoch after, and the money. -/
inductive Disposition (native : NativeRecord) : Option Epoch → Bool → Epoch → T6 → Prop
  | opened (before : Option Epoch) :
    Disposition native before true (Epoch.opened native) native.usage
  | chained (epoch : Epoch) (h : native.before = epoch.hwm) :
    Disposition native (some epoch) false { epoch with hwm := native.after } native.usage
  | inside (epoch : Epoch) : Disposition native (some epoch) false epoch T6.zero
  | gap (epoch : Epoch) (h : ∀ d, epoch.hwm d ≤ native.before d) :
    Disposition native (some epoch) false
      { epoch with hwm := native.after, contiguous := false } native.usage
  | overlap (epoch : Epoch) (h : ∀ d, epoch.hwm d ≤ native.after d) :
    Disposition native (some epoch) false
      { epoch with hwm := native.after, contiguous := false } (uncovered native epoch.hwm)

namespace OccurrenceReducer

/-- A new epoch was opened between the two: there was none, or the reset was
counted. -/
def opens_epoch (before after : OccurrenceReducer) : Bool :=
  before.epoch.isNone || before.counters.native_epoch_reset != after.counters.native_epoch_reset

@[simp] theorem note_native_epoch (r : OccurrenceReducer) (native : NativeRecord) :
    (r.note_native native).epoch = r.epoch := rfl

@[simp] theorem note_native_reset (r : OccurrenceReducer) (native : NativeRecord) :
    (r.note_native native).counters.native_epoch_reset = r.counters.native_epoch_reset := by
  unfold note_native
  simp only
  split <;> split <;> rfl

/-- The one reading of `cover` that the law needs. -/
theorem cover_disposition (r : OccurrenceReducer) (native : NativeRecord) :
    ∃ epoch, (r.cover native).1.epoch = some epoch ∧
      Disposition native r.epoch (opens_epoch r (r.cover native).1) epoch (r.cover native).2 := by
  unfold cover opens_epoch
  simp only [note_native_epoch]
  rcases hepoch : r.epoch with _ | epoch
  · exact ⟨_, rfl, by simpa using Disposition.opened none⟩
  simp only [Option.isNone_some, Bool.false_or]
  split_ifs with h1 h2 h3 h4 h5
  · exact ⟨_, rfl, by simpa using Disposition.chained epoch h1⟩
  · exact ⟨epoch, rfl, by simpa using Disposition.inside epoch⟩
  · exact ⟨epoch, rfl, by simpa using Disposition.inside epoch⟩
  · exact ⟨_, rfl, by simpa using Disposition.gap epoch (by simpa [all_le] using h4)⟩
  · have hle : ∀ d, epoch.hwm d ≤ native.after d := by
      simp only [all_le, and_eq_true, decide_eq_true_eq] at h5
      exact h5.1
    exact ⟨_, rfl, by simpa using Disposition.overlap epoch hle⟩
  · refine ⟨_, rfl, ?_⟩
    have hreset : (r.counters.native_epoch_reset !=
        r.counters.native_epoch_reset + 1) = true := by
      rw [bne_iff_ne]
      intro h
      cases UInt64.left_eq_add.mp h
    simp only [note_native_reset, hreset]
    exact Disposition.opened (some epoch)

/-! ## The run -/

/-- A reducer, and the money since its epoch was opened. -/
structure Coverage where
  reducer : OccurrenceReducer := {}
  counted : Fin 6 → Nat := fun _ => 0

def Coverage.cover (self : Coverage) (native : NativeRecord) : Coverage :=
  let (reducer, money) := self.reducer.cover native
  let earlier := if opens_epoch self.reducer reducer then fun _ => 0 else self.counted
  { reducer, counted := fun d => earlier d + (money d).toNat }

/-- The law in one dimension. -/
structure Covers (epoch : Epoch) (counted : Fin 6 → Nat) (d : Fin 6) : Prop where
  base_le : epoch.base d ≤ epoch.hwm d
  counted_le : counted d ≤ (epoch.hwm d).toNat - (epoch.base d).toNat
  contiguous : epoch.contiguous = true →
    counted d = (epoch.hwm d).toNat - (epoch.base d).toNat

theorem uncovered_toNat (native : NativeRecord) (hwm : T6) (d : Fin 6) :
    (uncovered native hwm d).toNat =
      (native.after d).toNat - max (native.before d).toNat (hwm d).toNat := by
  unfold uncovered
  rw [saturating_sub_toNat, max_toNat]

/-- Each disposition keeps the law. -/
theorem disposition_covers {native : NativeRecord} {before : Option Epoch} {opened : Bool}
    {epoch : Epoch} {money : T6} (h : Disposition native before opened epoch money)
    {counted : Fin 6 → Nat} (d : Fin 6) (hinv : ∀ e, before = some e → Covers e counted d) :
    Covers epoch (fun d => (if opened then 0 else counted d) + (money d).toNat) d := by
  have hint := native.interval d
  cases h with
  | opened =>
    refine ⟨le_iff_toNat_le.mpr ?_, ?_, fun _ => ?_⟩
    · simp only [Epoch.opened]
      omega
    · simp only [Epoch.opened, if_true]
      omega
    · simp only [Epoch.opened, if_true]
      omega
  | chained e hbefore =>
    obtain ⟨hbase, hle, hcont⟩ := hinv e rfl
    have hb : (native.before d).toNat = (e.hwm d).toNat := by rw [hbefore]
    rw [le_iff_toNat_le] at hbase
    refine ⟨le_iff_toNat_le.mpr ?_, ?_, fun hc => ?_⟩
    · simp only
      omega
    · simp only [false_eq_true, if_false]
      omega
    · have := hcont hc
      simp only [false_eq_true, if_false]
      omega
  | inside =>
    obtain ⟨hbase, hle, hcont⟩ := hinv epoch rfl
    refine ⟨hbase, ?_, fun hc => ?_⟩
    · simpa [T6.zero] using hle
    · simpa [T6.zero] using hcont hc
  | gap e hgap =>
    obtain ⟨hbase, hle, -⟩ := hinv e rfl
    have hg := le_iff_toNat_le.mp (hgap d)
    rw [le_iff_toNat_le] at hbase
    refine ⟨le_iff_toNat_le.mpr ?_, ?_, fun hc => by cases hc⟩
    · simp only
      omega
    · simp only [false_eq_true, if_false]
      omega
  | overlap e hover =>
    obtain ⟨hbase, hle, -⟩ := hinv e rfl
    have ho := le_iff_toNat_le.mp (hover d)
    rw [le_iff_toNat_le] at hbase
    refine ⟨le_iff_toNat_le.mpr ?_, ?_, fun hc => by cases hc⟩
    · simp only
      omega
    · -- The money starts at the high water mark or after it.
      simp only [false_eq_true, if_false, uncovered_toNat]
      omega

theorem cover_step_covers (c : Coverage) (native : NativeRecord)
    (h : ∀ e, c.reducer.epoch = some e → ∀ d, Covers e c.counted d) :
    ∀ e, (c.cover native).reducer.epoch = some e → ∀ d, Covers e (c.cover native).counted d := by
  intro e he d
  obtain ⟨epoch, hepoch, hdisp⟩ := cover_disposition c.reducer native
  have heq : epoch = e := Option.some.inj (hepoch.symm.trans he)
  subst heq
  have hstep := disposition_covers hdisp d (fun e' he' => h e' he' d)
  unfold Coverage.cover
  simp only
  split
  · rename_i hopen
    simpa [hopen] using hstep
  · rename_i hopen
    simpa [hopen] using hstep

/-- Natives never count one stretch of the counters twice inside an epoch. -/
theorem coverage_counts_each_stretch_once (natives : List NativeRecord) (epoch : Epoch)
    (h : (run Coverage.cover {} natives).reducer.epoch = some epoch) (d : Fin 6) :
    epoch.base d ≤ epoch.hwm d ∧
      (run Coverage.cover {} natives).counted d ≤
        (epoch.hwm d).toNat - (epoch.base d).toNat ∧
      (epoch.contiguous = true →
        (run Coverage.cover {} natives).counted d =
          (epoch.hwm d).toNat - (epoch.base d).toNat) := by
  have hinv := Run.invariant (f := Coverage.cover)
    (fun c => ∀ e, c.reducer.epoch = some e → ∀ d, Covers e c.counted d)
    cover_step_covers (s := {}) (fun e he => by cases he) natives
  obtain ⟨h1, h2, h3⟩ := hinv epoch h d
  exact ⟨h1, h2, h3⟩

/-- A first response of 100 input tokens. -/
def exampleNative : NativeRecord :=
  { id := "r1", turn_id := some "t1", usage := ![100, 0, 0, 20, 0, 120], before := T6.zero
    after := ![100, 0, 0, 20, 0, 120]
    interval := by decide }

/-- A second response, from where the first one ended. -/
def chainedNative : NativeRecord :=
  { id := "r2", turn_id := some "t1", usage := ![50, 0, 0, 10, 0, 60]
    before := ![100, 0, 0, 20, 0, 120], after := ![150, 0, 0, 30, 0, 180]
    interval := by decide }

/-- The first response seen again adds nothing to the two. -/
theorem coverage_of_a_chain :
    let epoch := { Epoch.opened exampleNative with hwm := chainedNative.after }
    let counted := (run Coverage.cover {} [exampleNative, chainedNative, exampleNative]).counted 0
    epoch.base 0 ≤ epoch.hwm 0 ∧ counted ≤ 150 ∧ (true = true → counted = 150) :=
  coverage_counts_each_stretch_once [exampleNative, chainedNative, exampleNative]
    { Epoch.opened exampleNative with hwm := chainedNative.after } rfl 0

end OccurrenceReducer

end ottto_service.codex_usage_occurrence
