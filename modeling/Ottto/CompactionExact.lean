-- What the bounded lists of compactions leave is what collecting every compaction would
-- (snapshots/compaction_events.rs).
import Ottto.CompactionEvents

namespace ottto_service.compaction_events

open accumulator List Option Bool CodexCompactionSizes NewestKeys
open scoped claude_copy_removals

/-! ## Bounded events -/

/-- The newest distinct times of some entries, each the first of its time. -/
def kept {β : Type} (entries : List (String × β)) : List (String × β) :=
  (NewestKeys.dedup (NewestKeys.sorted entries)).drop
    ((NewestKeys.dedup (NewestKeys.sorted entries)).length - MAX_COMPACTION_TIMESTAMPS)

theorem bounded_eq_kept (events : List SnapshotCompactionEvent) :
    bounded_compaction_events events =
      (kept (events.map (fun event => (event.at_text, event)))).map Prod.snd := by
  have hsort : (events.insertionSort (fun a b => a.at_text ≤ b.at_text)).map
      (fun event => (event.at_text, event)) =
        NewestKeys.sorted (events.map (fun event => (event.at_text, event))) :=
    map_insertionSort (r := fun a b : SnapshotCompactionEvent => a.at_text ≤ b.at_text)
      (s := fun a b : String × SnapshotCompactionEvent => a.1 ≤ b.1)
      (fun event => (event.at_text, event)) events (fun _ _ _ _ => .rfl)
  have hdedup : ∀ l : List SnapshotCompactionEvent,
      (l.destutter (fun a b => a.at_text ≠ b.at_text)).map (fun event => (event.at_text, event)) =
        NewestKeys.dedup (l.map (fun event => (event.at_text, event))) := fun _ =>
    map_destutter (R := fun a b : SnapshotCompactionEvent => a.at_text ≠ b.at_text)
      (fun _ _ _ _ => .rfl)
  unfold bounded_compaction_events kept
  rw [← hsort, ← hdedup, length_map, ← map_drop, List.map_map]
  exact (map_id _).symm

theorem kept_mapped {β γ : Type} (f : String → β → γ) (entries : List (String × β)) :
    kept (entries.map (NewestKeys.mapped f)) = (kept entries).map (NewestKeys.mapped f) := by
  unfold kept
  rw [sorted_mapped, dedup_mapped, length_map, map_drop]

/-! ## Codex -/

/-- One call on the sizes. -/
inductive Noted
  | marker (at_text : String) (before : Option UInt64)
  | request (context_tokens : UInt64)

namespace CodexCompactionSizes

def noted (self : CodexCompactionSizes) : Noted → CodexCompactionSizes
  | .marker at_text before => self.note_marker at_text before
  | .request context_tokens => self.note_counted_request context_tokens

end CodexCompactionSizes

/-- The markers, with the size each carries. -/
def markers (calls : List Noted) : List (String × Option UInt64) :=
  calls.filterMap (fun call =>
    match call with
    | .marker at_text before => some (at_text, before.bind non_zero)
    | .request _ => none)

def is_marker (at_text : String) : Noted → Bool
  | .marker text _ => decide (text = at_text)
  | .request _ => false

def counted_size : Noted → Option UInt64
  | .marker _ _ => none
  | .request context_tokens => non_zero context_tokens

/-- The first non-zero request after the first marker of a time. -/
def first_after (calls : List Noted) (at_text : String) : Option UInt64 :=
  (calls.dropWhile (fun call => !is_marker at_text call)).findSome? counted_size

/-- Every marker as an event of its own. -/
def marker_events (calls : List Noted) : List SnapshotCompactionEvent :=
  (markers calls).map (fun e => { at_text := e.1, before := e.2, after := first_after calls e.1 })

variable {calls : List Noted} {at_text : String}

theorem mem_markers {before : Option UInt64} (h : (at_text, before) ∈ markers calls) :
    calls.any (is_marker at_text) = true := by
  obtain ⟨call, hcall, hsome⟩ := mem_filterMap.mp h
  rw [List.any_eq_true]
  refine ⟨call, hcall, ?_⟩
  cases call with
  | marker text size =>
    simp only [Option.some.injEq, Prod.mk.injEq] at hsome
    simp [is_marker, hsome.1]
  | request context_tokens => cases hsome

/-- A call after the first marker of a time counts when nothing before it did. -/
theorem first_after_snoc (h : calls.any (is_marker at_text) = true) (call : Noted) :
    first_after (calls ++ [call]) at_text = (first_after calls at_text).or (counted_size call) := by
  unfold first_after
  have hne : calls.dropWhile (fun call => !is_marker at_text call) ≠ [] := by
    intro hempty
    rw [dropWhile_eq_nil_iff] at hempty
    obtain ⟨marker, hmarker, hmarked⟩ := any_eq_true.mp h
    have hnot := hempty marker hmarker
    simp [hmarked] at hnot
  have hdrop : (calls ++ [call]).dropWhile (fun call => !is_marker at_text call) =
      calls.dropWhile (fun call => !is_marker at_text call) ++ [call] := by
    rw [dropWhile_append]
    simp [hne]
  rw [hdrop, findSome?_append]
  simp

/-- A time without a marker before has no request after it yet. -/
theorem first_after_new (h : calls.any (is_marker at_text) = false) (before : Option UInt64) :
    first_after (calls ++ [.marker at_text before]) at_text = none := by
  unfold first_after
  have hall : ∀ call ∈ calls, (!is_marker at_text call) = true := by
    intro call hcall
    have hnot := any_eq_false.mp h call hcall
    simpa using hnot
  rw [dropWhile_append_of_pos hall]
  simp [is_marker, counted_size]

/-- The entries that the markers alone would leave. -/
def bounded (entries : List (String × Option UInt64)) : SortedMap String (Option UInt64) :=
  entries.foldl (fun m e => NewestKeys.note MAX_COMPACTION_TIMESTAMPS m e.1 e.2) .empty

theorem bounded_snoc (entries : List (String × Option UInt64)) (e : String × Option UInt64) :
    bounded (entries ++ [e]) =
      NewestKeys.note MAX_COMPACTION_TIMESTAMPS (bounded entries) e.1 e.2 := by
  unfold bounded
  rw [foldl_append]
  rfl

theorem bounded_entries (entries : List (String × Option UInt64)) :
    (bounded entries).entries = kept entries := foldl_note entries

theorem mem_of_mem_bounded {entries : List (String × Option UInt64)} {e : String × Option UInt64}
    (h : e ∈ (bounded entries).entries) : e ∈ entries := by
  rw [bounded_entries] at h
  have hdedup := mem_of_mem_drop h
  have hsorted := (destutter_sublist _ _).subset hdedup
  exact (mem_insertionSort _).mp hsorted

/-- The sizes after some calls. -/
structure SizesOf (calls : List Noted) (sizes : CodexCompactionSizes) : Prop where
  entries : sizes.entries.entries = (bounded (markers calls)).entries.map
    (NewestKeys.mapped (fun at_text before => ⟨before, first_after calls at_text⟩))
  pending : sizes.pending_after = false →
    ∀ e ∈ (bounded (markers calls)).entries, first_after calls e.1 ≠ none

theorem sizesOf_nil : SizesOf [] {} := ⟨rfl, fun _ _ he => nomatch he⟩

theorem mapped_congr {β γ : Type} {f g : String → β → γ} {l : List (String × β)}
    (h : ∀ e ∈ l, f e.1 e.2 = g e.1 e.2) :
    l.map (NewestKeys.mapped f) = l.map (NewestKeys.mapped g) := by
  apply map_congr_left
  intro e he
  exact congrArg (Prod.mk e.1) (h e he)

variable {sizes : CodexCompactionSizes}

/-- What comes after a call, for the times that are kept. -/
theorem first_after_kept (call : Noted) {e : String × Option UInt64}
    (he : e ∈ (bounded (markers calls)).entries) :
    first_after (calls ++ [call]) e.1 = (first_after calls e.1).or (counted_size call) :=
  first_after_snoc (mem_markers (mem_of_mem_bounded he)) call

/-- The values after a call that counts for none of the times that are kept. -/
theorem SizesOf.entries_of_same (h : SizesOf calls sizes) {call : Noted}
    (hsame : ∀ e ∈ (bounded (markers calls)).entries,
      first_after (calls ++ [call]) e.1 = first_after calls e.1) :
    sizes.entries.entries = (bounded (markers calls)).entries.map
      (NewestKeys.mapped (fun text before => ⟨before, first_after (calls ++ [call]) text⟩)) := by
  rw [h.entries]
  apply mapped_congr
  intro e he
  rw [hsame e he]

theorem SizesOf.marker (h : SizesOf calls sizes) (at_text : String) (before : Option UInt64) :
    SizesOf (calls ++ [.marker at_text before]) (sizes.note_marker at_text before) := by
  have hmarkers : markers (calls ++ [.marker at_text before]) =
      markers calls ++ [(at_text, before.bind non_zero)] := by
    simp [markers, filterMap_append]
  have hsame : ∀ e ∈ (bounded (markers calls)).entries,
      first_after (calls ++ [.marker at_text before]) e.1 = first_after calls e.1 := by
    intro e he
    rw [first_after_kept _ he]
    exact or_none
  have hentries := h.entries_of_same hsame
  have hadmits := @NewestKeys.admits_mapped _ _ _ MAX_COMPACTION_TIMESTAMPS _ _ _ _ hentries at_text
  unfold note_marker
  rw [hadmits]
  cases hnew : NewestKeys.admits MAX_COMPACTION_TIMESTAMPS (bounded (markers calls)) at_text with
  | true =>
    rw [if_pos rfl]
    -- A time that is let in has not been seen before.
    have hunseen : calls.any (is_marker at_text) = false := by
      rw [eq_false_iff]
      intro hseen
      obtain ⟨call, hcall, hmarked⟩ := any_eq_true.mp hseen
      cases call with
      | request context_tokens => cases hmarked
      | marker text size =>
        have htext : text = at_text := of_decide_eq_true hmarked
        have hmem : (at_text, size.bind non_zero) ∈ markers calls := by
          refine mem_filterMap.mpr ⟨.marker text size, hcall, ?_⟩
          rw [← htext]
        have hnot := @NewestKeys.not_admits_of_mem _ _ _ _ _ _ MAX_COMPACTION_TIMESTAMPS hmem
        unfold bounded at hnew
        rw [hnot] at hnew
        cases hnew
    have hnone := first_after_new hunseen before
    refine ⟨?_, fun hpending => by cases hpending⟩
    have hnoted := @NewestKeys.note_mapped _ _ _ MAX_COMPACTION_TIMESTAMPS _ _ _ _ hentries at_text
      (before.bind non_zero)
    rw [hnone] at hnoted
    rw [hmarkers, bounded_snoc]
    exact hnoted
  | false =>
    rw [if_neg Bool.false_ne_true]
    have hbounded : bounded (markers (calls ++ [.marker at_text before])) =
        bounded (markers calls) := by
      rw [hmarkers, bounded_snoc]
      exact note_of_not_admits hnew
    refine ⟨?_, ?_⟩
    · rw [hbounded]
      exact hentries
    · intro hpending e he
      rw [hbounded] at he
      rw [hsame e he]
      exact h.pending hpending e he

theorem SizesOf.request (h : SizesOf calls sizes) (context_tokens : UInt64) :
    SizesOf (calls ++ [.request context_tokens]) (sizes.note_counted_request context_tokens) := by
  have hmarkers : markers (calls ++ [.request context_tokens]) = markers calls := by
    simp [markers, filterMap_append]
  have hkept : ∀ e ∈ (bounded (markers calls)).entries,
      first_after (calls ++ [.request context_tokens]) e.1 =
        (first_after calls e.1).or (non_zero context_tokens) := fun e he => first_after_kept _ he
  unfold note_counted_request
  cases hpending : sizes.pending_after with
  | false =>
    -- Every time that is kept has its size.
    have hsame : ∀ e ∈ (bounded (markers calls)).entries,
        first_after (calls ++ [.request context_tokens]) e.1 = first_after calls e.1 := by
      intro e he
      obtain ⟨size, hsize⟩ := Option.ne_none_iff_exists'.mp (h.pending hpending e he)
      rw [hkept e he, hsize]
      rfl
    refine ⟨?_, ?_⟩
    · rw [hmarkers]
      exact h.entries_of_same hsame
    · intro _ e he
      rw [hmarkers] at he
      rw [hsame e he]
      exact h.pending hpending e he
  | true =>
    cases hcounted : non_zero context_tokens with
    | none =>
      refine ⟨?_, fun hnot => ?_⟩
      · rw [hmarkers]
        apply h.entries_of_same
        intro e he
        rw [hkept e he, hcounted]
        exact Option.or_none
      · exact absurd (hnot.symm.trans hpending) Bool.false_ne_true
    | some size =>
      refine ⟨?_, ?_⟩
      · rw [hmarkers]
        have hfilled : ((sizes.entries.mapValues
            (fun entry => { entry with after := entry.after.or (some size) })).entries) =
              sizes.entries.entries.map
                (fun e => (e.1, { e.2 with after := e.2.after.or (some size) })) := rfl
        rw [Bool.not_true, if_neg Bool.false_ne_true]
        refine hfilled.trans ?_
        rw [h.entries, List.map_map]
        apply map_congr_left
        intro e he
        simp only [Function.comp, NewestKeys.mapped, hkept e he, hcounted]
      · intro _ e he
        rw [hmarkers] at he
        rw [hkept e he, hcounted]
        cases first_after calls e.1 <;> simp

theorem SizesOf.run (h : SizesOf calls sizes) (more : List Noted) :
    SizesOf (calls ++ more) (more.foldl CodexCompactionSizes.noted sizes) := by
  induction more generalizing calls sizes with
  | nil => simpa using h
  | cons call more ih =>
    rw [append_cons]
    apply ih
    cases call with
    | marker at_text before => exact h.marker at_text before
    | request context_tokens => exact h.request context_tokens

/-- The streamed sizes are those of all markers. -/
theorem codex_events_eq (calls : List Noted) :
    (calls.foldl CodexCompactionSizes.noted {}).into_events =
      bounded_compaction_events (marker_events calls) := by
  have hsizes := sizesOf_nil.run calls
  rw [nil_append] at hsizes
  have hpairs : (marker_events calls).map (fun event => (event.at_text, event)) =
      (markers calls).map (NewestKeys.mapped (fun text before =>
        ({ at_text := text, before, after := first_after calls text } : SnapshotCompactionEvent))) := by
    unfold marker_events
    rw [List.map_map]
    rfl
  rw [bounded_eq_kept, hpairs, kept_mapped, ← bounded_entries]
  unfold into_events
  rw [hsizes.entries, List.map_map, List.map_map]
  rfl

end ottto_service.compaction_events
