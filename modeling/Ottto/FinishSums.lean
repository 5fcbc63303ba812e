-- The body that a page sums for a session: its counters are the sums over the folds of the session
-- wherever the wire can carry them, and the first fold's own entity can be given back.
import Ottto.FinishPage
import Ottto.EmitExact

namespace ottto_service.claude_request_money

open Words usage List Option ClaudeEntityBody

/-! ## Saturated sums -/

theorem tokens_add_counter (a b : ClaudeMoneyTokens) (m n : UInt64) (c : Counter) :
    ((a.add b).counter (saturating_add m n) c).toNat =
      min ((a.counter m c).toNat + (b.counter n c).toNat) (2 ^ 64 - 1) := by
  cases c <;> exact saturating_add_toNat _ _

namespace ClaudeEntityBody

/-- A counter over the grains of a body. -/
def counted (self : ClaudeEntityBody) (c : Counter) : Nat := grains_count self.grains.entries c

/-- A counter of what was removed from the evidence of a body. -/
def removed_count (self : ClaudeEntityBody) (c : Counter) : Nat :=
  (self.removed.counter self.removed_requests c).toNat

theorem grains_count_entries (grains : SortedMap GrainKey ClaudeGrainSide) (c : Counter) :
    grains_count grains.entries c = grains.sumValues (fun grain => grain.count c) := rfl

/-- Merging grains adds their counts, up to saturation. -/
theorem absorb_grain_count (grains : SortedMap GrainKey ClaudeGrainSide)
    (e : GrainKey × ClaudeGrainSide) (c : Counter) :
    min (grains_count (absorb_grain grains e).entries c) (2 ^ 64 - 1) =
      min (grains_count grains.entries c + e.2.count c) (2 ^ 64 - 1) := by
  have hsum := grains.sumValues_insert (fun grain => grain.count c) e.1
    (merge_grain ((grains.get? e.1).getD {}) e.2)
  rw [merge_grain_count] at hsum
  have hold : ((grains.get? e.1).map (fun grain => grain.count c)).getD 0 =
      ((grains.get? e.1).getD {}).count c := by
    cases grains.get? e.1 with
    | none => cases c <;> rfl
    | some grain => rfl
  have hle : ((grains.get? e.1).map (fun grain => grain.count c)).getD 0 ≤
      grains.sumValues (fun grain => grain.count c) := by
    cases hget : grains.get? e.1 with
    | none => exact Nat.zero_le _
    | some grain => exact grains.le_sumValues (fun grain => grain.count c) hget
  rw [hold] at hsum hle
  unfold absorb_grain
  rw [grains_count_entries, grains_count_entries]
  omega

theorem absorb_grains_count (other : List (GrainKey × ClaudeGrainSide))
    (grains : SortedMap GrainKey ClaudeGrainSide) (c : Counter) :
    min (grains_count (other.foldl absorb_grain grains).entries c) (2 ^ 64 - 1) =
      min (grains_count grains.entries c + grains_count other c) (2 ^ 64 - 1) := by
  induction other generalizing grains with
  | nil => simp [grains_count]
  | cons e other ih =>
    have hstep := absorb_grain_count grains e c
    have hcons : grains_count (e :: other) c = e.2.count c + grains_count other c := by
      simp [grains_count]
    rw [foldl_cons, ih, hcons]
    omega

/-- Activity leaves the money alone. -/
theorem note_activities (activity : List (String × Int × Int)) (self : ClaudeEntityBody) :
    let noted := activity.foldl (fun self e => self.note_activity e.1 e.2.1 e.2.2) self
    noted.grains = self.grains ∧ noted.removed = self.removed ∧
      noted.removed_requests = self.removed_requests := by
  induction activity generalizing self with
  | nil => exact ⟨rfl, rfl, rfl⟩
  | cons e activity ih => exact ih _

theorem sum_counted (self other : ClaudeEntityBody) (c : Counter) :
    min ((self.sum other).counted c) (2 ^ 64 - 1) =
      min (self.counted c + other.counted c) (2 ^ 64 - 1) := by
  unfold counted sum absorb_grains
  simp only
  rw [(note_activities _ _).1]
  exact absorb_grains_count other.grains.entries self.grains c

theorem sum_removed_count (self other : ClaudeEntityBody) (c : Counter) :
    (self.sum other).removed_count c =
      min (self.removed_count c + other.removed_count c) (2 ^ 64 - 1) := by
  unfold removed_count sum absorb_grains
  simp only
  rw [(note_activities _ _).2.1, (note_activities _ _).2.2]
  exact tokens_add_counter _ _ _ _ c

end ClaudeEntityBody

namespace finish

open claude_request_money (SnapshotItem)

/-! ## The folds of a session -/

/-- An item with its fold. -/
abbrev Folded : Type := SnapshotItem × FileFold

/-- The folds of a session, in the order of the page. -/
def folds_of (id : String) (items : List SnapshotItem) : List Folded :=
  items.filterMap (fun item =>
    if item.source_session_id = id then item.claude_money.map (fun fold => (item, fold)) else none)

variable {time : accumulator.Rfc3339} {telemetry : TelemetryRead}

/-- One fold of a session. -/
def take (time : accumulator.Rfc3339) (telemetry : TelemetryRead) (session : Option Session)
    (e : Folded) : Option Session :=
  some ((session.getD { complete := telemetry == .Loaded }).take_fold time e.1 e.2)

theorem take_entity_folds (self : Session) (fold : FileFold) :
    (self.take_entity fold).folds = self.folds + 1 := by
  unfold Session.take_entity
  split <;> simp_all

theorem take_fold_folds (self : Session) (item : SnapshotItem) (fold : FileFold) :
    (self.take_fold time item fold).folds = self.folds + 1 := by
  unfold Session.take_fold
  exact take_entity_folds _ fold

/-- What a session keeps of its folds. -/
structure Gathered (folds : List Folded) (session : Session) : Prop where
  size : session.folds = folds.length
  counted : ∀ c, min (session.entity.counted c) (2 ^ 64 - 1) =
    min ((folds.map (fun e => e.2.entity.counted c)).sum) (2 ^ 64 - 1)
  removed : ∀ c, session.entity.removed_count c =
    min ((folds.map (fun e => e.2.entity.removed_count c)).sum) (2 ^ 64 - 1)
  twin : session.first_original.isSome = decide (1 < folds.length)
  restored : folds.head?.map (fun e => e.2.entity) = some session.restored

theorem removed_count_lt (self : ClaudeEntityBody) (c : Counter) :
    self.removed_count c ≤ 2 ^ 64 - 1 := by
  have hlt := (self.removed.counter self.removed_requests c).toNat_lt
  unfold removed_count
  omega

/-- The first fold. -/
theorem Gathered.first (e : Folded) :
    Gathered [e] (({ complete := telemetry == .Loaded } : Session).take_fold time e.1 e.2) where
  size := rfl
  counted c := by
    simp only [map_singleton, sum_singleton]
    rfl
  removed c := by
    have hle := removed_count_lt e.2.entity c
    rw [map_singleton, sum_singleton, Nat.min_eq_left hle]
    rfl
  twin := rfl
  restored := rfl

/-- A path twin. -/
theorem Gathered.twin_fold {folds : List Folded} {session : Session} (h : Gathered folds session)
    (hfolds : folds ≠ []) (e : Folded) :
    Gathered (folds ++ [e]) (session.take_fold time e.1 e.2) := by
  have hlength : folds.length ≠ 0 := fun hzero => hfolds (length_eq_zero_iff.mp hzero)
  have hcount : session.folds ≠ 0 := by
    rw [h.size]
    exact hlength
  refine ⟨?_, ?_, ?_, ?_, ?_⟩
  · rw [take_fold_folds, h.size, length_append]
    rfl
  · intro c
    have hsum := session.entity.sum_counted e.2.entity c
    have hbefore := h.counted c
    rw [map_append, sum_append, map_singleton, sum_singleton]
    unfold Session.take_fold Session.take_entity
    rw [if_neg hcount]
    unfold ClaudeEntityBody.counted at hsum hbefore ⊢
    simp only
    omega
  · intro c
    have hsum := session.entity.sum_removed_count e.2.entity c
    have hbefore := h.removed c
    rw [map_append, sum_append, map_singleton, sum_singleton]
    unfold Session.take_fold Session.take_entity
    rw [if_neg hcount]
    unfold removed_count at hsum hbefore ⊢
    simp only
    omega
  · have htwin := h.twin
    unfold Session.take_fold Session.take_entity
    rw [if_neg hcount, length_append, length_singleton]
    simp only
    rw [h.size]
    split
    · next hone => simp [hone]
    · next hmany =>
      rw [htwin]
      congr 1
      exact propext ⟨fun _ => by omega, fun _ => by omega⟩
  · have hrestored := h.restored
    have htwin := h.twin
    rw [List.head?_append_of_ne_nil _ hfolds, hrestored]
    unfold Session.take_fold Session.take_entity Session.restored
    rw [if_neg hcount]
    simp only
    rw [h.size]
    split
    · next hone =>
      rw [hone] at htwin
      have hnone : session.first_original = none := by
        apply not_isSome_iff_eq_none.mp
        rw [htwin]
        decide
      rw [hnone]
      rfl
    · next hmany =>
      rw [decide_eq_true (show 1 < folds.length by omega)] at htwin
      obtain ⟨original, horiginal⟩ := isSome_iff_exists.mp htwin
      rw [horiginal]
      rfl

theorem Gathered.all {folds done : List Folded} {session : Session} (h : Gathered done session)
    (hdone : done ≠ []) : ∃ last, folds.foldl (take time telemetry) (some session) = some last ∧
      Gathered (done ++ folds) last := by
  induction folds generalizing done session with
  | nil => exact ⟨session, rfl, by rwa [append_nil]⟩
  | cons e folds ih =>
    obtain ⟨last, hlast, hgathered⟩ := ih (@Gathered.twin_fold time _ _ h hdone e) (by simp)
    refine ⟨last, hlast, ?_⟩
    rwa [append_assoc] at hgathered

/-- A session with folds gathers them all. -/
theorem gathered_folds {folds : List Folded} (hfolds : folds ≠ []) :
    ∃ session, folds.foldl (take time telemetry) none = some session ∧ Gathered folds session := by
  cases folds with
  | nil => exact absurd rfl hfolds
  | cons e folds => exact (Gathered.first e).all (by simp)

/-! ## Gathering a page -/

theorem gather_get (items : List SnapshotItem) (sessions : SortedMap String Session) (id : String) :
    (gather time telemetry sessions items).1.get? id =
      (folds_of id items).foldl (take time telemetry) (sessions.get? id) := by
  induction items generalizing sessions with
  | nil => rfl
  | cons item items ih =>
    unfold gather gather_item folds_of
    cases hmoney : item.claude_money with
    | none =>
      simp only [filterMap_cons, hmoney, map_none, ite_self]
      exact ih sessions
    | some fold =>
      simp only [filterMap_cons, hmoney, map_some]
      rw [ih]
      by_cases hid : item.source_session_id = id
      · subst hid
        rw [if_pos rfl, SortedMap.get?_insert_self]
        rfl
      · rw [if_neg hid, SortedMap.get?_insert_ne _ _ (fun h => hid h.symm)]
        rfl

end finish

end ottto_service.claude_request_money
