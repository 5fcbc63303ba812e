-- A page finishes each session once: its first item emits the sum of all its folds, or all its
-- items stay on the page as they were.
import Ottto.FinishSums

namespace ottto_service.claude_request_money.emit

open usage accumulator snapshots.wire Bool
open claude_request_money (SnapshotItem)

/-- What the emitter never writes. -/
structure SameOwner (item applied : SnapshotItem) : Prop where
  source_session_id : applied.source_session_id = item.source_session_id
  claude_money : applied.claude_money = item.claude_money
  claude_usage_request_ids : applied.claude_usage_request_ids = item.claude_usage_request_ids
  claude_usage_occurrences : applied.claude_usage_occurrences = item.claude_usage_occurrences
  source_started_at : applied.source_started_at = item.source_started_at
  request_evidence : applied.request_evidence = item.request_evidence
  root_session_ref : applied.root_session_ref = item.root_session_ref

theorem SameOwner.rfl' (item : SnapshotItem) : SameOwner item item :=
  ⟨rfl, rfl, rfl, rfl, rfl, rfl, rfl⟩

variable {time : Rfc3339} {snapshot_fingerprint : SnapshotItem → String}

theorem written_owner (item : SnapshotItem) (entity : ClaudeEntityBody) (staged : Staged)
    (summed : Bool) :
    SameOwner item (SnapshotItem.written time snapshot_fingerprint item entity staged summed) := by
  have hadvanced : SameOwner item (SnapshotItem.advanced time
      (SnapshotItem.with_body time item entity staged) entity summed) := by
    unfold SnapshotItem.advanced
    simp only
    split <;> exact ⟨rfl, rfl, rfl, rfl, rfl, rfl, rfl⟩
  obtain ⟨h1, h2, h3, h4, h5, h6, h7⟩ := hadvanced
  exact ⟨h1, h2, h3, h4, h5, h6, h7⟩

/-- What an emitted item says was removed from the evidence of its body. -/
def Removed (entity : ClaudeEntityBody) (applied : SnapshotItem) : Prop :=
  applied.removed_usage = some (removed entity.removed) ∧
    applied.removed_request_count = some entity.removed_requests ∧
      ∀ c, entity.removed_count c ≤ MAX

theorem removed_in_wire_numbers (tokens : ClaudeMoneyTokens) (requests : UInt64)
    (entity : ClaudeEntityBody) (c : Counter) :
    entity.removed.counter entity.removed_requests c ∈ wire_numbers tokens requests entity := by
  unfold wire_numbers removed
  cases c <;> simp [ClaudeMoneyTokens.counter]

theorem written_removed (item : SnapshotItem) (entity : ClaudeEntityBody) (staged : Staged)
    (summed : Bool) :
    let written := SnapshotItem.written time snapshot_fingerprint item entity staged summed
    written.removed_usage = some (removed entity.removed) ∧
      written.removed_request_count = some entity.removed_requests := by
  have hadvanced : ∀ advanced, advanced = SnapshotItem.advanced time
      (SnapshotItem.with_body time item entity staged) entity summed →
        advanced.removed_usage = some (removed entity.removed) ∧
          advanced.removed_request_count = some entity.removed_requests := by
    rintro advanced rfl
    unfold SnapshotItem.advanced
    simp only
    split <;> exact ⟨rfl, rfl⟩
  have hresult := hadvanced _ rfl
  exact hresult

theorem apply_owner (item : SnapshotItem) (entity : ClaudeEntityBody) (summed : Bool) :
    let applied := apply time snapshot_fingerprint item entity summed
    SameOwner item applied.2 ∧ (applied.1 = true → Removed entity applied.2) := by
  unfold apply
  split
  · exact ⟨.rfl' _, fun h => (false_ne_true h).elim⟩
  · split
    · exact ⟨.rfl' _, fun h => (false_ne_true h).elim⟩
    · cases stage_grains (exact_session_account_hash item) {} entity.grains.entries with
      | none => exact ⟨.rfl' _, fun h => (false_ne_true h).elim⟩
      | some staged =>
        simp only
        split
        · exact ⟨.rfl' _, fun h => (false_ne_true h).elim⟩
        · next hwire =>
          refine ⟨written_owner item entity staged summed, fun _ => ?_⟩
          obtain ⟨husage, hrequests⟩ := @written_removed time snapshot_fingerprint item entity
            staged summed
          refine ⟨husage, hrequests, ?_⟩
          intro c
          have hle := List.any_eq_false.mp (eq_false_iff.mpr hwire) _
            (removed_in_wire_numbers staged.tokens staged.requests entity c)
          rw [decide_eq_true_eq] at hle
          unfold ClaudeEntityBody.removed_count
          omega

end ottto_service.claude_request_money.emit

namespace ottto_service.claude_request_money.finish

open Words usage accumulator List Option SortedMap
open claude_request_money (SnapshotItem)
open claude_request_money.emit

variable {out : Outside} {telemetry : TelemetryRead}

/-! ## One session -/

/-- The item that a session's first fold emits its body on. -/
structure Emits (out : Outside) (session : Session) (item emitted : SnapshotItem) : Prop where
  applied : ∃ applied, apply out.time out.snapshot_fingerprint
    { item with claude_money := item.claude_money.map FileFold.moved_out } session.entity
      session.first_original.isSome = (true, applied) ∧
        emitted = SnapshotItem.emitted applied session

/-- How the items of a page end: `seen` are the sessions whose first item came before. -/
inductive Finished (out : Outside) (decided : String → Option Session) (withheld : Finset String) :
    Finset String → List SnapshotItem → List SnapshotItem → Prop
  | nil (seen : Finset String) : Finished out decided withheld seen [] []
  | bare {seen : Finset String} {item : SnapshotItem} {items kept : List SnapshotItem} :
      item.claude_money = none → Finished out decided withheld seen items kept →
        Finished out decided withheld seen (item :: items) (item :: kept)
  | held {seen : Finset String} {item : SnapshotItem} {items kept : List SnapshotItem} :
      item.claude_money.isSome = true → item.source_session_id ∈ withheld →
        Finished out decided withheld (insert item.source_session_id seen) items kept →
          Finished out decided withheld seen (item :: items) (item :: kept)
  | emitted {seen : Finset String} {item emitted : SnapshotItem} {items kept : List SnapshotItem}
      {session : Session} :
      item.claude_money.isSome = true → item.source_session_id ∉ withheld →
        item.source_session_id ∉ seen → decided item.source_session_id = some session →
          Emits out session item emitted →
            Finished out decided withheld (insert item.source_session_id seen) items kept →
              Finished out decided withheld seen (item :: items) (emitted :: kept)
  | dropped {seen : Finset String} {item : SnapshotItem} {items kept : List SnapshotItem} :
      item.claude_money.isSome = true → item.source_session_id ∉ withheld →
        item.source_session_id ∈ seen →
          Finished out decided withheld (insert item.source_session_id seen) items kept →
            Finished out decided withheld seen (item :: items) kept

variable {session : Session} {item : SnapshotItem}

theorem Emits.owner {emitted : SnapshotItem}
    (h : Emits out session item emitted) (hmoney : item.claude_money.isSome = true) :
    emitted.source_session_id = item.source_session_id ∧ emitted.claude_money.isSome = true := by
  obtain ⟨applied, happly, rfl⟩ := h.applied
  have howner := (@apply_owner out.time out.snapshot_fingerprint
    { item with claude_money := item.claude_money.map FileFold.moved_out } session.entity
      session.first_original.isSome).1
  rw [happly] at howner
  refine ⟨howner.source_session_id, ?_⟩
  unfold SnapshotItem.emitted
  simp only [isSome_map]
  rw [howner.claude_money, isSome_map, hmoney]

namespace Finished

variable {decided : String → Option Session} {withheld seen : Finset String}
  {items kept : List SnapshotItem}

/-- A withheld session keeps all its items. -/
theorem withheld_kept (h : Finished out decided withheld seen items kept) {id : String}
    (hid : id ∈ withheld) :
    kept.filter (fun item => item.source_session_id == id) =
      items.filter (fun item => item.source_session_id == id) := by
  induction h with
  | nil => rfl
  | bare _ _ ih => rw [filter_cons, filter_cons, ih]
  | held _ _ _ ih => rw [filter_cons, filter_cons, ih]
  | @emitted _ item _ _ _ _ hmoney hnot _ _ hemits _ ih =>
    have hne : item.source_session_id ≠ id := by
      rintro rfl
      exact hnot hid
    rw [filter_cons_of_neg, filter_cons_of_neg, ih]
    · simpa using hne
    · rw [(hemits.owner hmoney).1]
      simpa using hne
  | @dropped _ item _ _ _ hnot _ _ ih =>
    have hne : item.source_session_id ≠ id := by
      rintro rfl
      exact hnot hid
    rw [filter_cons_of_neg, ih]
    simpa using hne

/-- Items without a fold are never removed or changed. -/
theorem bare_kept (h : Finished out decided withheld seen items kept) :
    kept.filter (fun item => item.claude_money.isNone) =
      items.filter (fun item => item.claude_money.isNone) := by
  induction h with
  | nil => rfl
  | bare _ _ ih => rw [filter_cons, filter_cons, ih]
  | held _ _ _ ih => rw [filter_cons, filter_cons, ih]
  | emitted hmoney _ _ _ hemits _ ih =>
    rw [filter_cons_of_neg, filter_cons_of_neg, ih]
    · simp [isNone_iff_eq_none, ← not_isSome_iff_eq_none, hmoney]
    · simp [isNone_iff_eq_none, ← not_isSome_iff_eq_none, (hemits.owner hmoney).2]
  | dropped hmoney _ _ _ ih =>
    rw [filter_cons_of_neg, ih]
    simp [isNone_iff_eq_none, ← not_isSome_iff_eq_none, hmoney]

/-- An item of a session that has a fold. -/
def folded (id : String) (item : SnapshotItem) : Bool :=
  item.source_session_id == id && item.claude_money.isSome

/-- A session that is not withheld keeps its first folded item, which emits its body. -/
theorem emitted_once (h : Finished out decided withheld seen items kept) {id : String}
    (hid : id ∉ withheld) :
    (id ∈ seen → kept.filter (folded id) = []) ∧
      (id ∉ seen → ∀ first rest, items.filter (folded id) = first :: rest →
        ∃ session emitted, decided id = some session ∧ Emits out session first emitted ∧
          kept.filter (folded id) = [emitted]) := by
  induction h with
  | nil => exact ⟨fun _ => rfl, fun _ first rest h => by cases h⟩
  | @bare _ item _ _ hbare _ ih =>
    have hnot : ¬ folded id item = true := by simp [folded, hbare]
    rw [filter_cons_of_neg hnot, filter_cons_of_neg hnot]
    exact ih
  | @held _ item _ _ hmoney hheld _ ih =>
    have hne : item.source_session_id ≠ id := by
      rintro rfl
      exact hid hheld
    have hnot : ¬ folded id item = true := by simp [folded, hne]
    rw [filter_cons_of_neg hnot, filter_cons_of_neg hnot]
    refine ⟨fun hseen => ih.1 (Finset.mem_insert_of_mem hseen), fun hseen => ih.2 ?_⟩
    rw [Finset.mem_insert]
    rintro (rfl | h)
    · exact hne rfl
    · exact hseen h
  | @emitted _ item emitted _ _ session hmoney hnot hfirst hdecided hemits _ ih =>
    obtain ⟨hsession, hfold⟩ := hemits.owner hmoney
    by_cases hsame : item.source_session_id = id
    · subst hsame
      have hitem : folded item.source_session_id item = true := by simp [folded, hmoney]
      have hkept : folded item.source_session_id emitted = true := by simp [folded, hsession, hfold]
      rw [filter_cons_of_pos hitem, filter_cons_of_pos hkept,
        ih.1 (Finset.mem_insert_self _ _)]
      refine ⟨fun hseen => (hfirst hseen).elim, fun _ first rest hlist => ?_⟩
      cases hlist
      exact ⟨session, emitted, hdecided, hemits, rfl⟩
    · have hitem : ¬ folded id item = true := by simp [folded, hsame]
      have hkept : ¬ folded id emitted = true := by simp [folded, hsession, hsame]
      rw [filter_cons_of_neg hitem, filter_cons_of_neg hkept]
      refine ⟨fun hseen => ih.1 (Finset.mem_insert_of_mem hseen), fun hseen => ih.2 ?_⟩
      rw [Finset.mem_insert]
      rintro (rfl | h)
      · exact hsame rfl
      · exact hseen h
  | @dropped _ item _ _ hmoney hnot hsecond _ ih =>
    by_cases hsame : item.source_session_id = id
    · subst hsame
      exact ⟨fun _ => ih.1 (Finset.mem_insert_self _ _), fun hseen => (hseen hsecond).elim⟩
    · have hitem : ¬ folded id item = true := by simp [folded, hsame]
      rw [filter_cons_of_neg hitem]
      refine ⟨fun hseen => ih.1 (Finset.mem_insert_of_mem hseen), fun hseen => ih.2 ?_⟩
      rw [Finset.mem_insert]
      rintro (rfl | h)
      · exact hsame rfl
      · exact hseen h

/-- The items keep their order. -/
theorem order_kept (h : Finished out decided withheld seen items kept) :
    (kept.map (fun item => item.source_session_id)).Sublist
      (items.map (fun item => item.source_session_id)) := by
  induction h with
  | nil => exact .slnil
  | bare _ _ ih => exact ih.cons_cons _
  | held _ _ _ ih => exact ih.cons_cons _
  | emitted hmoney _ _ _ hemits _ ih =>
    rw [map_cons, map_cons, (hemits.owner hmoney).1]
    exact ih.cons_cons _
  | dropped _ _ _ _ ih => exact ih.cons _

end Finished

/-! ## The page -/

/-- The item as the page finds it again when its session is withheld. -/
theorem withheld_restored {applied : SnapshotItem} {fold : FileFold}
    (hmoney : item.claude_money = some fold) (hrestored : session.restored = fold.entity)
    (happlied : applied = { item with claude_money := some (FileFold.moved_out fold) }) :
    SnapshotItem.withheld applied session = item := by
  subst happlied
  unfold SnapshotItem.withheld
  rw [hrestored]
  cases item
  cases hmoney
  rfl

variable {sessions : SortedMap String Session}

/-- Of an item whose fold is the first of its session, the entity is moved out; the others are as
they were. -/
theorem gather_cons_bare {items : List SnapshotItem} (h : item.claude_money = none) :
    gather out.time telemetry sessions (item :: items) =
      ((gather out.time telemetry sessions items).1,
        item :: (gather out.time telemetry sessions items).2) := by
  rw [gather, gather_item, h]

theorem gather_cons_fold {sessions : SortedMap String Session} {item : SnapshotItem}
    {items : List SnapshotItem} {fold : FileFold} (h : item.claude_money = some fold) :
    ∃ session, gather out.time telemetry sessions (item :: items) =
      ((gather out.time telemetry (sessions.insert item.source_session_id session) items).1,
        (if ((sessions.get? item.source_session_id).getD
            { complete := telemetry == .Loaded }).folds = 0
          then { item with claude_money := some (FileFold.moved_out fold) } else item) ::
          (gather out.time telemetry (sessions.insert item.source_session_id session) items).2) ∧
      session.folds ≠ 0 := by
  refine ⟨((sessions.get? item.source_session_id).getD
    { complete := telemetry == .Loaded }).take_fold out.time item fold, ?_, ?_⟩
  · rw [gather, gather_item, h]
  · rw [take_fold_folds]
    omega

/-- The sessions of a page as they are decided. -/
def decided_of (out : Outside) (telemetry : TelemetryRead) (held : Finset String)
    (items : List SnapshotItem) (id : String) : Option Session :=
  ((folds_of id items).foldl (take out.time telemetry) none).map
    (fun session => session.decide (id ∈ held))

theorem decide_restored (session : Session) (held : Bool) :
    (session.decide held).restored = session.restored := by
  unfold Session.decide Session.restored
  cases session.first_original <;> rfl

/-- What emission has left to do behind the items that were seen. -/
structure Behind (decided : String → Option Session) (seen : Finset String)
    (sessions : SortedMap String Session) (emission : Emission) : Prop where
  seen_sessions : ∀ id, id ∈ seen ↔ (sessions.get? id).isSome = true
  counted : ∀ id session, sessions.get? id = some session → session.folds ≠ 0
  entities : ∀ id, emission.entities.get? id = if id ∈ seen then none else decided id
  withheld : emission.withheld ⊆ seen

variable {emission : Emission}

theorem insert_seen_sessions {decided : String → Option Session} {seen : Finset String}
    (h : Behind decided seen sessions emission) (id : String) (session : Session) (other : String) :
    other ∈ insert id seen ↔ ((sessions.insert id session).get? other).isSome = true := by
  rw [Finset.mem_insert, h.seen_sessions, get?_insert]
  split <;> simp_all

theorem insert_counted {decided : String → Option Session} {seen : Finset String}
    (h : Behind decided seen sessions emission) (id : String)
    (hfolds : session.folds ≠ 0) (other : String) (kept : Session)
    (hget : (sessions.insert id session).get? other = some kept) : kept.folds ≠ 0 := by
  exact forall_insert (p := fun _ kept => kept.folds ≠ 0) hfolds h.counted other kept hget

theorem folds_of_bare (items : List SnapshotItem) (id : String)
    (h : item.claude_money = none) : folds_of id (item :: items) = folds_of id items := by
  unfold folds_of
  rw [filterMap_cons, h, map_none, ite_self]

theorem folds_of_fold {fold : FileFold} (items : List SnapshotItem)
    (h : item.claude_money = some fold) :
    folds_of item.source_session_id (item :: items) =
      (item, fold) :: folds_of item.source_session_id items := by
  unfold folds_of
  rw [filterMap_cons, if_pos rfl, h, map_some]

theorem folds_of_other (items : List SnapshotItem) {id : String}
    (h : id ≠ item.source_session_id) : folds_of id (item :: items) = folds_of id items := by
  unfold folds_of
  rw [filterMap_cons, if_neg (fun heq => h heq.symm)]

theorem emit_bare (held : Finset String) (emission : Emission)
    (h : item.claude_money = none) : emit_item out held emission item = (emission, some item) := by
  unfold emit_item
  rw [h]
  rfl

/-- A path twin stays with its withheld session. -/
theorem emit_twin (held : Finset String) (hmoney : item.claude_money.isSome = true)
    (h : emission.entities.get? item.source_session_id = none) :
    emit_item out held emission item = (emission,
      if item.source_session_id ∈ emission.withheld then some item else none) := by
  unfold emit_item
  rw [if_neg (by simp [← not_isSome, hmoney]), h]

/-- The first item of a session emits its body or is withheld with the session. -/
theorem emit_first (held : Finset String) {emission : Emission} {item : SnapshotItem}
    {fold : FileFold} {session : Session} (hmoney : item.claude_money = some fold)
    (h : emission.entities.get? item.source_session_id = some session)
    (hrestored : session.restored = fold.entity) :
    let emitted := emit_item out held emission
      { item with claude_money := some (FileFold.moved_out fold) }
    emitted.1.entities = emission.entities.erase item.source_session_id ∧
      ((∃ kept, Emits out session item kept ∧ emitted.2 = some kept ∧
          emitted.1.withheld = emission.withheld) ∨
        emitted.2 = some item ∧
          emitted.1.withheld = insert item.source_session_id emission.withheld) := by
  unfold emit_item
  simp only [isNone_some, Bool.false_eq_true, if_false, h]
  have hatomic := (apply_spec out.time out.snapshot_fingerprint
    { item with claude_money := some (FileFold.moved_out fold) } session.entity
    session.first_original.isSome).1
  cases happly : apply out.time out.snapshot_fingerprint
      { item with claude_money := some (FileFold.moved_out fold) } session.entity
      session.first_original.isSome with
  | mk emitted applied =>
    cases emitted with
    | true =>
      refine ⟨rfl, .inl ⟨_, ⟨applied, ?_, rfl⟩, rfl, rfl⟩⟩
      rw [hmoney]
      exact happly
    | false =>
      rw [happly] at hatomic
      have happlied := hatomic rfl
      refine ⟨rfl, .inr ⟨congrArg some (withheld_restored hmoney hrestored happlied), ?_⟩⟩
      rw [happlied]
      rfl

theorem Behind.twin {decided : String → Option Session} {seen : Finset String} {id : String}
    (h : Behind decided seen sessions emission) (hfolds : session.folds ≠ 0) (hseen : id ∈ seen) :
    Behind decided (insert id seen) (sessions.insert id session) emission := by
  refine ⟨insert_seen_sessions h _ _, insert_counted h _ hfolds, ?_,
    h.withheld.trans (Finset.subset_insert _ _)⟩
  rw [Finset.insert_eq_of_mem hseen]
  exact h.entities

/-- The first item of a session takes its entity away. -/
theorem Behind.first {decided : String → Option Session} {seen : Finset String} {id : String}
    {next : Emission} (h : Behind decided seen sessions emission) (hfolds : session.folds ≠ 0)
    (hentities : next.entities = emission.entities.erase id)
    (hwithheld : next.withheld ⊆ insert id seen) :
    Behind decided (insert id seen) (sessions.insert id session) next := by
  refine ⟨insert_seen_sessions h _ _, insert_counted h _ hfolds, fun other => ?_, hwithheld⟩
  rw [hentities, get?_erase, h.entities]
  by_cases hsame : other = id
  · rw [if_pos hsame, if_pos (by simp [hsame])]
  · rw [if_neg hsame]
    simp only [Finset.mem_insert, hsame, false_or]

variable {items : List SnapshotItem}

theorem folds_of_cons_ne_nil (item : SnapshotItem) {id : String} (h : folds_of id items ≠ []) :
    folds_of id (item :: items) ≠ [] := by
  unfold folds_of at h ⊢
  rw [filterMap_cons]
  split
  · exact h
  · exact cons_ne_nil _ _

/-- Emission finishes the items, and what is withheld afterwards was withheld before or is a
session of these items. -/
structure Finishes (out : Outside) (decided : String → Option Session) (seen : Finset String)
    (items : List SnapshotItem) (before after : Emission) (kept : List SnapshotItem) : Prop where
  finished : Finished out decided after.withheld seen items kept
  unmoved : ∀ id ∈ seen, id ∈ after.withheld ↔ id ∈ before.withheld
  named : ∀ id ∈ after.withheld, id ∈ before.withheld ∨ folds_of id items ≠ []

namespace Finishes

variable {decided : String → Option Session} {seen : Finset String} {before after next : Emission}
  {kept : List SnapshotItem}

theorem bare (h : Finishes out decided seen items before after kept)
    (hmoney : item.claude_money = none) :
    Finishes out decided seen (item :: items) before after (item :: kept) :=
  ⟨.bare hmoney h.finished, h.unmoved, fun id hid =>
    (h.named id hid).imp_right (folds_of_cons_ne_nil item)⟩

/-- A later item of a session stays where the session is withheld. -/
theorem twin (h : Finishes out decided (insert item.source_session_id seen) items before after kept)
    (hmoney : item.claude_money.isSome = true) (hseen : item.source_session_id ∈ seen) :
    Finishes out decided seen (item :: items) before after
      ((if item.source_session_id ∈ before.withheld then some item else none).toList ++ kept) := by
  have hthis := h.unmoved _ (Finset.mem_insert_self _ _)
  refine ⟨?_, fun id hid => h.unmoved id (Finset.mem_insert_of_mem hid), fun id hid =>
    (h.named id hid).imp_right (folds_of_cons_ne_nil item)⟩
  split
  · next hheld => exact .held hmoney (hthis.mpr hheld) h.finished
  · next hnot => exact .dropped hmoney (fun hheld => hnot (hthis.mp hheld)) hseen h.finished

/-- The first item of a session emits its body. -/
theorem emitted {emitted : SnapshotItem}
    (h : Finishes out decided (insert item.source_session_id seen) items next after kept)
    (hmoney : item.claude_money.isSome = true) (hsame : next.withheld = before.withheld)
    (hfirst : item.source_session_id ∉ seen) (hwithheld : before.withheld ⊆ seen)
    (hdecided : decided item.source_session_id = some session)
    (hemits : Emits out session item emitted) :
    Finishes out decided seen (item :: items) before after (emitted :: kept) := by
  have hthis := h.unmoved _ (Finset.mem_insert_self _ _)
  have hnamed := h.named
  rw [hsame] at hthis hnamed
  refine ⟨.emitted hmoney (fun hheld => hfirst (hwithheld (hthis.mp hheld))) hfirst hdecided hemits
    h.finished, fun id hid => ?_, fun id hid =>
      (hnamed id hid).imp_right (folds_of_cons_ne_nil item)⟩
  rw [h.unmoved id (Finset.mem_insert_of_mem hid), hsame]

/-- The first item of a session is withheld with it. -/
theorem held (h : Finishes out decided (insert item.source_session_id seen) items next after kept)
    (hmoney : item.claude_money.isSome = true)
    (hinsert : next.withheld = insert item.source_session_id before.withheld)
    (hfirst : item.source_session_id ∉ seen)
    (hown : folds_of item.source_session_id (item :: items) ≠ []) :
    Finishes out decided seen (item :: items) before after (item :: kept) := by
  have hthis := h.unmoved _ (Finset.mem_insert_self _ _)
  have hnamed := h.named
  rw [hinsert] at hthis hnamed
  refine ⟨.held hmoney (hthis.mpr (Finset.mem_insert_self _ _)) h.finished, fun id hid => ?_,
    fun id hid => ?_⟩
  · rw [h.unmoved id (Finset.mem_insert_of_mem hid), hinsert, Finset.mem_insert]
    refine ⟨fun hor => hor.resolve_left ?_, .inr⟩
    rintro rfl
    exact hfirst hid
  · rcases hnamed id hid with hbefore | hnow
    · rcases Finset.mem_insert.mp hbefore with rfl | hbefore
      · exact .inr hown
      · exact .inl hbefore
    · exact .inr (folds_of_cons_ne_nil item hnow)

end Finishes

/-- Emitting the gathered items finishes them. -/
theorem emit_gathered {held : Finset String} {decided : String → Option Session}
    (items : List SnapshotItem) {seen : Finset String} {sessions : SortedMap String Session}
    {emission : Emission} (h : Behind decided seen sessions emission)
    (hdecided : ∀ id, folds_of id items ≠ [] → ∃ session, decided id = some session)
    (hfirst : ∀ id, id ∉ seen → ∀ first rest, folds_of id items = first :: rest →
      ∀ session, decided id = some session → session.restored = first.2.entity) :
    let emitted := emit_items out held emission (gather out.time telemetry sessions items).2
    Finishes out decided seen items emission emitted.1 emitted.2 := by
  induction items generalizing seen sessions emission with
  | nil => exact ⟨.nil seen, fun _ _ => .rfl, fun _ h => .inl h⟩
  | cons item items ih =>
    cases hmoney : item.claude_money with
    | none =>
      rw [gather_cons_bare hmoney]
      simp only [emit_items, emit_bare held emission hmoney]
      simp only [folds_of_bare items _ hmoney] at hdecided hfirst
      exact (ih h hdecided hfirst).bare hmoney
    | some fold =>
      have hfolded : item.claude_money.isSome = true := by rw [hmoney]; rfl
      have hown : folds_of item.source_session_id (item :: items) ≠ [] := by
        rw [folds_of_fold items hmoney]
        exact cons_ne_nil _ _
      obtain ⟨session, hgather, hcounted⟩ := @gather_cons_fold out telemetry sessions item items fold
        hmoney
      have htail : ∀ id, folds_of id items ≠ [] → ∃ session, decided id = some session :=
        fun id hid => hdecided id (folds_of_cons_ne_nil item hid)
      have hfirst_tail : ∀ id, id ∉ insert item.source_session_id seen → ∀ first rest,
          folds_of id items = first :: rest →
            ∀ session, decided id = some session → session.restored = first.2.entity := by
        intro id hid first rest hfolds
        rw [Finset.mem_insert, not_or] at hid
        apply hfirst id hid.2 first rest
        rw [folds_of_other items hid.1]
        exact hfolds
      rw [hgather]
      by_cases hseen : item.source_session_id ∈ seen
      · -- A later item of the session: the entity was taken by the first.
        have hentity : emission.entities.get? item.source_session_id = none := by
          rw [h.entities, if_pos hseen]
        have hold : ((sessions.get? item.source_session_id).getD
            { complete := telemetry == .Loaded }).folds ≠ 0 := by
          obtain ⟨old, hold⟩ := isSome_iff_exists.mp ((h.seen_sessions _).mp hseen)
          rw [hold]
          exact h.counted _ _ hold
        rw [if_neg hold]
        simp only [emit_items, emit_twin held hfolded hentity]
        exact (ih (h.twin hcounted hseen) htail hfirst_tail).twin hfolded hseen
      · -- The first item of the session.
        have hnew : sessions.get? item.source_session_id = none := by
          apply not_isSome_iff_eq_none.mp
          rw [← h.seen_sessions]
          exact hseen
        obtain ⟨decision, hdecision⟩ := hdecided item.source_session_id hown
        have hentity : emission.entities.get? item.source_session_id = some decision := by
          rw [h.entities, if_neg hseen, hdecision]
        have hrestored := hfirst item.source_session_id hseen _ _ (folds_of_fold items hmoney)
          decision hdecision
        obtain ⟨hentities, hemission⟩ := @emit_first out held emission item fold decision hmoney
          hentity hrestored
        rw [hnew, getD_none, if_pos rfl]
        simp only [emit_items]
        rcases hemission with ⟨kept, hemits, hkept_item, hsame⟩ | ⟨hkept_item, hinsert⟩
        · have hbehind := h.first hcounted hentities (by
            rw [hsame]
            exact h.withheld.trans (Finset.subset_insert _ _))
          rw [hkept_item]
          exact (ih hbehind htail hfirst_tail).emitted hfolded hsame hseen h.withheld hdecision hemits
        · have hbehind := h.first hcounted hentities (by
            rw [hinsert]
            exact Finset.insert_subset_insert _ h.withheld)
          rw [hkept_item]
          exact (ih hbehind htail hfirst_tail).held hfolded hinsert hseen hown

/-! ## What a finished session says -/

/-- What an item says was removed, by counter. -/
def removed_count (item : SnapshotItem) : Counter → Option Nat
  | .input_tokens => item.removed_usage.map (fun r => r.input_tokens.toNat)
  | .output_tokens => item.removed_usage.map (fun r => r.output_tokens.toNat)
  | .cache_read_tokens => item.removed_usage.map (fun r => r.cache_read_tokens.toNat)
  | .cache_creation_5m_tokens => item.removed_usage.map (fun r => r.cache_creation_5m_tokens.toNat)
  | .cache_creation_1h_tokens => item.removed_usage.map (fun r => r.cache_creation_1h_tokens.toNat)
  | .reasoning_output_tokens => item.removed_usage.map (fun r => r.reasoning_output_tokens.toNat)
  | .unattributed_total_tokens =>
    item.removed_usage.map (fun r => r.unattributed_total_tokens.toNat)
  | .request_count => item.removed_request_count.map (fun n => n.toNat)

/-- The one item that a session leaves on the page: its first, with the sums of all its folds. -/
structure EmittedOnce (folds : List Folded) (first emitted : SnapshotItem) : Prop where
  same : SameOwner { first with claude_money := emitted.claude_money } emitted
  totals : ∀ c, emitted.count c = (folds.map (fun e => e.2.entity.counted c)).sum
  removed : ∀ c, removed_count emitted c =
    some ((folds.map (fun e => e.2.entity.removed_count c)).sum)

theorem removed_count_of_removed {entity : ClaudeEntityBody}
    (h : Removed entity item) (c : Counter) :
    removed_count item c = some (entity.removed_count c) := by
  obtain ⟨husage, hrequests, _⟩ := h
  unfold removed_count
  cases c <;> simp only [husage, hrequests, map_some] <;> rfl

theorem Emits.once {folds : List Folded} {absent : Bool}
    {emitted : SnapshotItem} (hgathered : Gathered folds session)
    (h : Emits out (session.decide absent) item emitted) : EmittedOnce folds item emitted := by
  obtain ⟨applied, happly, rfl⟩ := h.applied
  have hexact := (apply_spec out.time out.snapshot_fingerprint
    { item with claude_money := item.claude_money.map FileFold.moved_out }
    (session.decide absent).entity (session.decide absent).first_original.isSome).2
  obtain ⟨howner, hremoved⟩ := @apply_owner out.time out.snapshot_fingerprint
    { item with claude_money := item.claude_money.map FileFold.moved_out }
    (session.decide absent).entity (session.decide absent).first_original.isSome
  rw [happly] at hexact howner hremoved
  have hexact := hexact rfl
  have hremoved := hremoved rfl
  obtain ⟨h1, _, h3, h4, h5, h6, h7⟩ := howner
  refine ⟨⟨h1, rfl, h3, h4, h5, h6, h7⟩, ?_, ?_⟩
  · intro c
    have hcount : (SnapshotItem.emitted applied (session.decide absent)).count c =
        applied.count c := by
      cases c <;> rfl
    have hsession : applied.count c = session.entity.counted c := hexact.session c
    have hbound : applied.count c ≤ 2 ^ 53 - 1 := hexact.bound c
    have hsum := hgathered.counted c
    omega
  · intro c
    have hsum := hgathered.removed c
    have hbound := hremoved.2.2 c
    have hentity : (session.decide absent).entity.removed_count c =
        session.entity.removed_count c := by
      cases c <;> rfl
    have happlied := removed_count_of_removed hremoved c
    have hcount : removed_count (SnapshotItem.emitted applied (session.decide absent)) c =
        removed_count applied c := by
      cases c <;> rfl
    unfold MAX at hbound
    rw [hcount, happlied]
    congr 1
    omega

theorem inherit_bare (time : Rfc3339) (items : List SnapshotItem) (settled : Bool) :
    (inherit_root_accounts time items settled).filter (fun item => item.claude_money.isNone) =
      items.filter (fun item => item.claude_money.isNone) := by
  unfold inherit_root_accounts
  generalize items.foldl (observe_root time) .empty = roots
  induction items with
  | nil => rfl
  | cons item items ih =>
    rw [map_cons, filter_cons, filter_cons, ih]
    simp only [isNone_map]
    split
    · next hbare =>
      have hnone : item.claude_money = none := isNone_iff_eq_none.mp hbare
      cases item
      cases hnone
      rfl
    · rfl

open Finished (folded)

theorem folds_of_folded {id : String} {items : List SnapshotItem} (h : folds_of id items ≠ []) :
    ∃ first rest, items.filter (folded id) = first :: rest := by
  apply exists_cons_of_ne_nil
  intro hnone
  apply h
  unfold folds_of
  rw [filterMap_eq_nil_iff]
  intro item hitem
  have hnot := filter_eq_nil_iff.mp hnone item hitem
  unfold folded at hnot
  split
  · next hid =>
    cases hmoney : item.claude_money with
    | none => rfl
    | some fold =>
      rw [hmoney] at hnot
      simp [hid] at hnot
  · rfl

/-- How a finished page stands to the page that it was: each session with folds is withheld as it
was, or its first item emits the sum of all its folds. -/
structure FinishedPage (inherited kept : List SnapshotItem) (withheld : Finset String) : Prop where
  sessions : ∀ id, folds_of id inherited ≠ [] →
    (id ∈ withheld ∧
      kept.filter (fun item => item.source_session_id == id) =
        inherited.filter (fun item => item.source_session_id == id)) ∨
    (id ∉ withheld ∧ ∃ first rest emitted,
      inherited.filter (folded id) = first :: rest ∧
      kept.filter (folded id) = [emitted] ∧
      EmittedOnce (folds_of id inherited) first emitted)
  withheld : ∀ id ∈ withheld, folds_of id inherited ≠ []
  bare : kept.filter (fun item => item.claude_money.isNone) =
    inherited.filter (fun item => item.claude_money.isNone)
  order : (kept.map (fun item => item.source_session_id)).Sublist
    (inherited.map (fun item => item.source_session_id))

theorem finish_gathered_page (inherited : List SnapshotItem) (held : Finset String)
    (hold_reasons : HoldReasons) :
    let finished := finish_gathered out held hold_reasons
      (gather out.time telemetry .empty inherited)
    FinishedPage inherited finished.1 finished.2.1 := by
  have hsessions : ∀ id, (gather out.time telemetry .empty inherited).1.get? id =
      (folds_of id inherited).foldl (take out.time telemetry) none := by
    intro id
    rw [gather_get, get?_empty]
  have hbehind : Behind (decided_of out telemetry held inherited) ∅ .empty
      { entities := (gather out.time telemetry .empty inherited).1.filterMap
          (fun id session => some (session.decide (id ∈ held)))
        hold_reasons } := by
    refine ⟨by simp, by simp, ?_, Finset.Subset.refl _⟩
    intro id
    rw [get?_filterMap, hsessions, if_neg (Finset.notMem_empty id), decided_of,
      map_eq_bind]
    rfl
  have hdecided : ∀ id, folds_of id inherited ≠ [] → ∃ session,
      decided_of out telemetry held inherited id = some (session.decide (id ∈ held)) ∧
        Gathered (folds_of id inherited) session := by
    intro id hfolds
    obtain ⟨session, hsession, hgathered⟩ := @gathered_folds out.time telemetry _ hfolds
    refine ⟨session, ?_, hgathered⟩
    rw [decided_of, hsession, map_some]
  obtain ⟨hfinished, _, hwithheld⟩ := @emit_gathered out telemetry held
    (decided_of out telemetry held inherited) inherited ∅ .empty _ hbehind
    (fun id hfolds => (hdecided id hfolds).elim (fun session h => ⟨session.decide _, h.1⟩)) (by
      intro id _ first rest hfolds session hsession
      obtain ⟨own, hown, hgathered⟩ := hdecided id (by
        rw [hfolds]
        exact cons_ne_nil _ _)
      rw [hown] at hsession
      cases hsession
      have hrestored := hgathered.restored
      rw [hfolds] at hrestored
      rw [decide_restored]
      exact (Option.some.inj hrestored).symm)
  refine ⟨?_, ?_, hfinished.bare_kept, hfinished.order_kept⟩
  · intro id hfolds
    by_cases hid : id ∈ (finish_gathered out held hold_reasons
        (gather out.time telemetry .empty inherited)).2.1
    · exact .inl ⟨hid, hfinished.withheld_kept hid⟩
    · right
      obtain ⟨first, rest, hlist⟩ := folds_of_folded hfolds
      obtain ⟨session, emitted, hdecision, hemits, hkept⟩ :=
        (hfinished.emitted_once hid).2 (Finset.notMem_empty id) first rest hlist
      obtain ⟨own, hown, hgathered⟩ := hdecided id hfolds
      rw [hown] at hdecision
      cases hdecision
      exact ⟨hid, first, rest, emitted, hlist, hkept, hemits.once hgathered⟩
  · intro id hid
    exact (hwithheld id hid).resolve_left (Finset.notMem_empty id)

/-- Finishing a page emits one summed body for each session or leaves the session untouched; items
without a fold stay as they are. -/
theorem finish_page_emits_once_or_withholds (out : Outside) (items : List SnapshotItem)
    (telemetry : TelemetryRead) (hold_reasons : HoldReasons) :
    let finished := finish_page out items true telemetry hold_reasons
    FinishedPage (inherit_root_accounts out.time items true) finished.1 finished.2.1 ∧
      finished.1.filter (fun item => item.claude_money.isNone) =
        items.filter (fun item => item.claude_money.isNone) := by
  have hpage := fun held hold_reasons => @finish_gathered_page out telemetry
    (inherit_root_accounts out.time items true) held hold_reasons
  refine ⟨hpage _ _, ?_⟩
  rw [← inherit_bare out.time items true]
  exact (hpage _ _).bare

end ottto_service.claude_request_money.finish
