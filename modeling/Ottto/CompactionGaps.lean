-- Each compaction of a Claude transcript gets the requests around it (snapshots/compaction_events.rs).
import Ottto.CompactionExact
import Ottto.SortDedup

namespace ottto_service.compaction_events

open accumulator List
open scoped claude_copy_removals

/-! ## The end of a list in some order -/

section Ends

variable {α γ κ : Type} [LinearOrder κ]

/-- The value of an element with the largest key, if there is any. -/
structure EndOf (key : α → κ) (value : α → γ) (l : List α) (found : Option γ) : Prop where
  empty : found = none → l = []
  largest : ∀ x, found = some x → ∃ r ∈ l, value r = x ∧ ∀ other ∈ l, key other ≤ key r

variable {key : α → κ} {value : α → γ} {l more : List α} {found found' : Option γ} {r : α}

theorem endOf_nil : EndOf key value [] none := ⟨fun _ => rfl, by simp⟩

theorem EndOf.congr (h : EndOf key value l found) (hmem : ∀ r, r ∈ l ↔ r ∈ more) :
    EndOf key value more found := by
  refine ⟨?_, ?_⟩
  · intro hnone
    have hempty := h.empty hnone
    rw [eq_nil_iff_forall_not_mem]
    intro r hr
    rw [← hmem r, hempty] at hr
    cases hr
  · intro x hx
    obtain ⟨r, hr, hrx, hall⟩ := h.largest x hx
    exact ⟨r, (hmem r).mp hr, hrx, fun other hother => hall other ((hmem other).mpr hother)⟩

/-- Elements of which none has a smaller key decide, if there are any. -/
theorem EndOf.append (h : EndOf key value l found) (h' : EndOf key value more found')
    (hle : ∀ a ∈ l, ∀ b ∈ more, key a ≤ key b) : EndOf key value (l ++ more) (found'.or found) := by
  cases hfound' : found' with
  | none =>
    rw [h'.empty hfound', append_nil, Option.none_or]
    exact h
  | some x =>
    refine ⟨by simp, ?_⟩
    rintro _ ⟨⟩
    obtain ⟨r, hr, hx, hall⟩ := h'.largest x hfound'
    refine ⟨r, mem_append_right _ hr, hx, ?_⟩
    intro other hother
    rcases mem_append.mp hother with hother | hother
    · exact hle other hother r hr
    · exact hall other hother

/-- One more element, which is taken unless what was found has a key as large. -/
theorem EndOf.snoc (h : EndOf key value l found) {keep : Bool}
    (hkeep : keep = true → ∃ x, found = some x ∧ ∀ top, value top = x → key r ≤ key top)
    (htake : keep = false → ∀ x, found = some x → ∀ top, value top = x → key top ≤ key r) :
    EndOf key value (l ++ [r]) (if keep then found else some (value r)) := by
  cases hkept : keep with
  | true =>
    rw [if_pos rfl]
    obtain ⟨x, hx, hle⟩ := hkeep hkept
    obtain ⟨top, htop, htop_x, hall⟩ := h.largest x hx
    refine ⟨by simp [hx], ?_⟩
    intro y hy
    cases hx.symm.trans hy
    refine ⟨top, mem_append_left _ htop, htop_x, ?_⟩
    intro other hother
    rcases mem_append.mp hother with hother | hother
    · exact hall other hother
    · rw [mem_singleton.mp hother]
      exact hle top htop_x
  | false =>
    rw [if_neg Bool.false_ne_true]
    refine ⟨by simp, ?_⟩
    rintro _ ⟨⟩
    refine ⟨r, by simp, rfl, ?_⟩
    intro other hother
    rcases mem_append.mp hother with hother | hother
    · cases hx : found with
      | none =>
        rw [h.empty hx] at hother
        cases hother
      | some x =>
        obtain ⟨top, htop, htop_x, hall⟩ := h.largest x hx
        exact (hall other hother).trans (htake hkept x hx top htop_x)
    · rw [mem_singleton.mp hother]

/-- Elements with different keys have one end. -/
theorem EndOf.unique (h : EndOf key value l found) (h' : EndOf key value l found')
    (hinj : ∀ a ∈ l, ∀ b ∈ l, key a = key b → a = b) : found = found' := by
  cases hfound : found with
  | none =>
    cases hfound' : found' with
    | none => rfl
    | some x =>
      obtain ⟨r, hr, -⟩ := h'.largest x hfound'
      rw [h.empty hfound] at hr
      cases hr
  | some x =>
    obtain ⟨r, hr, hx, hall⟩ := h.largest x hfound
    cases hfound' : found' with
    | none =>
      rw [h'.empty hfound'] at hr
      cases hr
    | some x' =>
      obtain ⟨r', hr', hx', hall'⟩ := h'.largest x' hfound'
      have heq := hinj r hr r' hr' (le_antisymm (hall' r hr) (hall r' hr'))
      rw [← hx, ← hx', heq]

theorem endOf_argmax (key : α → κ) (value : α → γ) (l : List α) :
    EndOf key value l ((l.argmax key).map value) := by
  refine ⟨?_, ?_⟩
  · intro hnone
    rw [Option.map_eq_none_iff, argmax_eq_none] at hnone
    exact hnone
  · intro x hx
    obtain ⟨r, hr, hrx⟩ := Option.map_eq_some_iff.mp hx
    exact ⟨r, argmax_mem hr, hrx, fun other hother => le_of_mem_argmax hother hr⟩

end Ends

/-! ## Claude: the requests of a gap -/

def last_of (request : OwnRequest) : UInt64 × UInt64 × Option String :=
  (request.sequence, request.effective_input_context, request.timestamp)

def first_of (request : OwnRequest) : UInt64 × UInt64 :=
  (request.sequence, request.effective_input_context)

def sequence_of (request : OwnRequest) : UInt64 := request.sequence

/-- Sequences downwards. -/
def reversed (request : OwnRequest) : UInt64ᵒᵈ := OrderDual.toDual request.sequence

abbrev LastOf (requests : List OwnRequest) (last : Option (UInt64 × UInt64 × Option String)) : Prop :=
  EndOf sequence_of last_of requests last

abbrev FirstOf (requests : List OwnRequest) (first : Option (UInt64 × UInt64)) : Prop :=
  EndOf reversed first_of requests first

/-- What is kept of the requests of one gap. -/
def summary (requests : List OwnRequest) : ClaudeRequestGap :=
  requests.foldl ClaudeRequestGap.note {}

theorem summary_spec (requests : List OwnRequest) :
    LastOf requests (summary requests).last ∧ FirstOf requests (summary requests).first := by
  induction requests using List.reverseRecOn with
  | nil => exact ⟨endOf_nil, endOf_nil⟩
  | append_singleton requests r ih =>
    obtain ⟨hlast, hfirst⟩ := ih
    have hstep : summary (requests ++ [r]) = (summary requests).note r := by
      unfold summary
      rw [foldl_append]
      rfl
    rw [hstep]
    constructor
    · apply hlast.snoc
      · intro hkeep
        obtain ⟨x, hx, hle⟩ := (Option.any_eq_true _ _).mp hkeep
        refine ⟨x, hx, ?_⟩
        rintro top rfl
        exact of_decide_eq_true hle
      · intro htake x hx top htop
        rw [hx, Option.any_some, decide_eq_false_iff_not, not_le] at htake
        subst htop
        exact htake.le
    · apply hfirst.snoc
      · intro hkeep
        obtain ⟨x, hx, hle⟩ := (Option.any_eq_true _ _).mp hkeep
        refine ⟨x, hx, ?_⟩
        rintro top rfl
        exact of_decide_eq_true hle
      · intro htake x hx top htop
        rw [hx, Option.any_some, decide_eq_false_iff_not, not_le] at htake
        subst htop
        exact htake.le

/-- Groups of requests of which each is no later than the next. -/
def Ascending (parts : List (List OwnRequest)) : Prop :=
  parts.Pairwise (fun l m => ∀ a ∈ l, ∀ b ∈ m, a.sequence ≤ b.sequence)

variable {requests before : List OwnRequest}

variable {k : Nat}

theorem latest_from_get {latest : Option (UInt64 × UInt64 × Option String)}
    (parts : List (List OwnRequest)) (hbefore : LastOf before latest)
    (hasc : Ascending (before :: parts)) (hk : k < parts.length) :
    ∃ last, (latest_from latest (parts.map summary))[k]? = some last ∧
      LastOf (before ++ (parts.take (k + 1)).flatten) last := by
  induction parts generalizing before latest k with
  | nil => cases hk
  | cons part parts ih =>
    obtain ⟨hfirst, hrest⟩ := pairwise_cons.mp hasc
    obtain ⟨hpart, hparts⟩ := pairwise_cons.mp hrest
    have hnext : LastOf (before ++ part) ((summary part).last.or latest) :=
      hbefore.append (summary_spec part).1 (hfirst part mem_cons_self)
    cases k with
    | zero => exact ⟨_, rfl, by simpa using hnext⟩
    | succ k =>
      have hasc_next : Ascending ((before ++ part) :: parts) := by
        refine pairwise_cons.mpr ⟨?_, hparts⟩
        intro m hm a ha b hb
        rcases mem_append.mp ha with ha | ha
        · exact hfirst m (mem_cons_of_mem _ hm) a ha b hb
        · exact hpart m hm a ha b hb
      obtain ⟨last, hget, hlast⟩ := ih hnext hasc_next (Nat.lt_of_succ_lt_succ hk)
      exact ⟨last, hget, by simpa using hlast⟩

theorem earliest_of_get (parts : List (List OwnRequest)) (hasc : Ascending parts)
    (hk : k < parts.length) :
    ∃ first, (earliest_of (parts.map summary))[k]? = some first ∧
      FirstOf (parts.drop k).flatten first := by
  induction parts generalizing k with
  | nil => cases hk
  | cons part parts ih =>
    obtain ⟨hpart, hparts⟩ := pairwise_cons.mp hasc
    cases k with
    | zero =>
      have hlater : FirstOf parts.flatten (earliest_of (parts.map summary)).head?.join := by
        cases parts with
        | nil => exact endOf_nil
        | cons next parts =>
          obtain ⟨first, hget, hfirst⟩ := ih hparts (Nat.zero_lt_succ _)
          rw [head?_eq_getElem?, hget]
          exact hfirst
      refine ⟨_, rfl, ?_⟩
      refine (hlater.append (summary_spec part).2 ?_).congr ?_
      · intro a ha b hb
        obtain ⟨m, hm, ha⟩ := mem_flatten.mp ha
        exact hpart m hm b hb a ha
      · intro r
        simp [or_comm]
    | succ k => exact ih hparts (Nat.lt_of_succ_lt_succ hk)

/-! ## Claude: the cuts -/

variable {cuts : List UInt64}

variable {cut : UInt64}

/-- Before the partition point the test holds, and from there on it fails. -/
theorem lt_partition_point {test : UInt64 → Bool} (hcuts : cuts.Pairwise (fun a b => a < b))
    (htest : ∀ a b, a < b → test b = true → test a = true)
    (hk : cuts[k]? = some cut) : k < partition_point cuts test ↔ test cut = true := by
  unfold partition_point
  induction cuts generalizing k with
  | nil => cases hk
  | cons c cuts ih =>
    obtain ⟨hc, hrest⟩ := pairwise_cons.mp hcuts
    rw [takeWhile_cons]
    cases hhead : test c with
    | false =>
      have hnot : test cut = false := by
        cases k with
        | zero =>
          obtain rfl : c = cut := by simpa using hk
          exact hhead
        | succ k =>
          rw [Bool.eq_false_iff]
          intro htrue
          have hmem : cut ∈ cuts := mem_of_getElem? (by simpa using hk)
          rw [htest c cut (hc cut hmem) htrue] at hhead
          cases hhead
      simp [hnot]
    | true =>
      rw [if_pos rfl, length_cons]
      cases k with
      | zero =>
        obtain rfl : c = cut := by simpa using hk
        exact iff_of_true (Nat.zero_lt_succ _) hhead
      | succ k =>
        rw [← ih hrest (by simpa using hk)]
        exact Nat.succ_lt_succ_iff

theorem partition_point_le (test : UInt64 → Bool) : partition_point cuts test ≤ cuts.length :=
  (takeWhile_sublist _).length_le

/-- The gap that a request falls in. -/
def gap_of (cuts : List UInt64) (request : OwnRequest) : Nat :=
  partition_point cuts (fun cut => decide (cut ≤ request.sequence))

theorem gap_of_le_iff (hcuts : cuts.Pairwise (fun a b => a < b))
    (hk : cuts[k]? = some cut) (r : OwnRequest) : gap_of cuts r ≤ k ↔ r.sequence < cut := by
  have hlt := @lt_partition_point _ _ _ (fun cut => decide (cut ≤ r.sequence)) hcuts (by
    intro a b hab hb
    exact decide_eq_true (hab.le.trans (of_decide_eq_true hb))) hk
  rw [decide_eq_true_eq] at hlt
  rw [← not_lt, ← not_le (a := cut)]
  exact not_congr hlt

/-- The counted requests of one gap. -/
def in_gap (cuts : List UInt64) (requests : List OwnRequest) (gap : Nat) : List OwnRequest :=
  requests.filter (fun r => decide (r.effective_input_context ≠ 0 ∧ gap_of cuts r = gap))

variable {r : OwnRequest}

theorem mem_in_gap {gap : Nat} :
    r ∈ in_gap cuts requests gap ↔ r ∈ requests ∧ r.effective_input_context ≠ 0 ∧ gap_of cuts r = gap := by
  simp [in_gap]

/-- Each gap has the summary of its own requests. -/
theorem gaps_eq (cuts : List UInt64) (requests : List OwnRequest) :
    requests.foldl (note_request cuts) (List.replicate (cuts.length + 1) ({} : ClaudeRequestGap)) =
      ((List.range (cuts.length + 1)).map (in_gap cuts requests)).map summary := by
  have hget : ∀ (requests : List OwnRequest) (gaps : List ClaudeRequestGap) (k : Nat),
      (requests.foldl (note_request cuts) gaps)[k]? = gaps[k]?.map (fun gap =>
        (in_gap cuts requests k).foldl ClaudeRequestGap.note gap) := by
    intro requests
    induction requests with
    | nil => simp [in_gap]
    | cons r requests ih =>
      intro gaps k
      rw [foldl_cons, ih]
      unfold note_request in_gap
      by_cases hcounts : r.effective_input_context = 0
      · rw [if_pos hcounts, filter_cons_of_neg (by simp [hcounts])]
      · rw [if_neg hcounts, getElem?_modify]
        by_cases hgap : gap_of cuts r = k
        · rw [filter_cons_of_pos (by simp [hcounts, hgap])]
          unfold gap_of at hgap
          cases gaps[k]? <;> simp [hgap]
        · rw [filter_cons_of_neg (by simp [hgap])]
          unfold gap_of at hgap
          cases gaps[k]? <;> simp [hgap]
  apply ext_getElem?
  intro k
  rw [hget, getElem?_replicate, map_map, getElem?_map]
  by_cases hk : k < cuts.length + 1
  · rw [if_pos hk, getElem?_range hk]
    rfl
  · rw [if_neg hk, getElem?_eq_none (by simpa using hk)]
    rfl

theorem in_gaps_ascending (hcuts : cuts.Pairwise (fun a b => a < b)) :
    Ascending ((List.range (cuts.length + 1)).map (in_gap cuts requests)) := by
  unfold Ascending
  rw [pairwise_map, pairwise_iff_getElem]
  intro i j hi hj hij a ha b hb
  rw [length_range] at hj
  rw [getElem_range] at ha hb
  have hcut := getElem?_eq_getElem (show i < cuts.length by omega)
  have hbefore := (gap_of_le_iff hcuts hcut a).mp (mem_in_gap.mp ha).2.2.le
  have hafter : ¬ gap_of cuts b ≤ i := by
    rw [(mem_in_gap.mp hb).2.2]
    omega
  rw [gap_of_le_iff hcuts hcut b, not_lt] at hafter
  exact hbefore.le.trans hafter

theorem mem_gaps_to (hk : k < cuts.length) :
    r ∈ ((((List.range (cuts.length + 1)).map (in_gap cuts requests)).take cuts.length).take
        (k + 1)).flatten ↔
      r ∈ requests ∧ r.effective_input_context ≠ 0 ∧ gap_of cuts r ≤ k := by
  rw [take_take, ← map_take, take_range, min_eq_left (by omega),
    min_eq_left (by omega), mem_flatten]
  simp only [mem_map, mem_range]
  constructor
  · rintro ⟨_, ⟨gap, hgap, rfl⟩, hmem⟩
    obtain ⟨hr, hcounts, rfl⟩ := mem_in_gap.mp hmem
    exact ⟨hr, hcounts, by omega⟩
  · rintro ⟨hr, hcounts, hgap⟩
    exact ⟨_, ⟨gap_of cuts r, by omega, rfl⟩, mem_in_gap.mpr ⟨hr, hcounts, rfl⟩⟩

theorem mem_gaps_from :
    r ∈ ((((List.range (cuts.length + 1)).map (in_gap cuts requests)).drop 1).drop k).flatten ↔
      r ∈ requests ∧ r.effective_input_context ≠ 0 ∧ k < gap_of cuts r := by
  rw [drop_drop, ← map_drop, mem_flatten]
  simp only [mem_map]
  constructor
  · rintro ⟨_, ⟨gap, hgap, rfl⟩, hmem⟩
    obtain ⟨hr, hcounts, rfl⟩ := mem_in_gap.mp hmem
    obtain ⟨i, hi, hget⟩ := mem_drop_iff_getElem.mp hgap
    rw [getElem_range] at hget
    exact ⟨hr, hcounts, by omega⟩
  · rintro ⟨hr, hcounts, hgap⟩
    refine ⟨_, ⟨gap_of cuts r, ?_, rfl⟩, mem_in_gap.mpr ⟨hr, hcounts, rfl⟩⟩
    have hle : gap_of cuts r ≤ cuts.length := partition_point_le _
    rw [mem_drop_iff_getElem]
    exact ⟨gap_of cuts r - (1 + k), by rw [length_range]; omega,
      by rw [getElem_range]; omega⟩

/-- A cut is found where it stands. -/
theorem partition_point_get (hcuts : cuts.Pairwise (fun a b => a < b)) (hcut : cut ∈ cuts) :
    cuts[partition_point cuts (fun other => decide (other < cut))]? = some cut := by
  obtain ⟨k, hk⟩ := mem_iff_getElem?.mp hcut
  have hbefore : ∀ {j : Nat} {other : UInt64}, cuts[j]? = some other →
      (j < partition_point cuts (fun other => decide (other < cut)) ↔ other < cut) := by
    intro j other hj
    have hlt := @lt_partition_point _ _ _ (fun other => decide (other < cut)) hcuts (by
      intro a b hab hb
      exact decide_eq_true (hab.trans (of_decide_eq_true hb))) hj
    rwa [decide_eq_true_eq] at hlt
  have hle : partition_point cuts (fun other => decide (other < cut)) ≤ k :=
    not_lt.mp (fun hlt => lt_irrefl cut ((hbefore hk).mp hlt))
  obtain heq | hlt := hle.eq_or_lt
  · rw [heq]
    exact hk
  · obtain ⟨hlength, hget⟩ := List.getElem?_eq_some_iff.mp hk
    have hearlier := pairwise_iff_getElem.mp hcuts _ k (hlt.trans hlength) hlength hlt
    rw [hget] at hearlier
    have hnot := (hbefore (List.getElem?_eq_getElem (hlt.trans hlength))).mpr hearlier
    exact absurd hnot (lt_irrefl _)

/-! ## Claude: every event -/

/-- The counted request with the largest sequence below a number. -/
def request_before (requests : List OwnRequest) (count : UInt64) : Option OwnRequest :=
  (requests.filter (fun r => decide (r.effective_input_context ≠ 0 ∧ r.sequence < count))).argmax
    sequence_of

/-- The counted request with the smallest sequence from a number on. -/
def request_after (requests : List OwnRequest) (count : UInt64) : Option OwnRequest :=
  (requests.filter (fun r => decide (r.effective_input_context ≠ 0 ∧ count ≤ r.sequence))).argmin
    sequence_of

variable (time : Rfc3339)

/-- The event of one observation, from all requests. -/
def event_of (requests : List OwnRequest) (e : String × ClaudeCompactionObservation) :
    SnapshotCompactionEvent where
  at_text := e.1
  before := (request_before requests e.2.response_count_before).map
    (fun request => request.effective_input_context)
  after := (request_after requests e.2.response_count_before).map
    (fun request => request.effective_input_context)
  trigger := (event_trigger time ((request_before requests e.2.response_count_before).bind
    (fun request => request.timestamp)) e.1 e.2.trigger).map ClaudeCompactionTrigger.wire

theorem first_of_argmin (l : List OwnRequest) : FirstOf l ((l.argmin sequence_of).map first_of) := by
  refine ⟨?_, ?_⟩
  · intro hnone
    rw [Option.map_eq_none_iff, argmin_eq_none] at hnone
    exact hnone
  · intro x hx
    obtain ⟨r, hr, hrx⟩ := Option.map_eq_some_iff.mp hx
    exact ⟨r, argmin_mem hr, hrx, fun other hother =>
      le_of_mem_argmin (f := sequence_of) hother hr⟩

theorem sequence_injective (hdistinct : (requests.map sequence_of).Nodup) {a b : OwnRequest}
    (ha : a ∈ requests) (hb : b ∈ requests) (hab : a.sequence = b.sequence) : a = b :=
  inj_on_of_nodup_map hdistinct ha hb hab

theorem last_eq (hdistinct : (requests.map sequence_of).Nodup)
    (hcuts : cuts.Pairwise (fun a b => a < b)) (hk : cuts[k]? = some cut)
    {gaps : List ClaudeRequestGap}
    (hgaps : gaps = ((List.range (cuts.length + 1)).map (in_gap cuts requests)).map summary) :
    (latest_from none (gaps.take cuts.length))[k]? = some ((request_before requests cut).map last_of) := by
  have hlength := (List.getElem?_eq_some_iff.mp hk).1
  obtain ⟨last, hget, hlast⟩ := @latest_from_get [] _ none
    (((List.range (cuts.length + 1)).map (in_gap cuts requests)).take cuts.length) endOf_nil
    (pairwise_cons.mpr ⟨by simp, (in_gaps_ascending hcuts).sublist (take_sublist _ _)⟩)
    (show k < _ by simpa using hlength)
  rw [map_take, ← hgaps] at hget
  rw [hget]
  apply congrArg some
  have hall := @EndOf.congr _ _ _ _ _ _ _ (requests.filter
      (fun r => decide (r.effective_input_context ≠ 0 ∧ r.sequence < cut))) _ hlast (by
    intro r
    rw [nil_append, mem_gaps_to hlength, gap_of_le_iff hcuts hk]
    simp)
  refine hall.unique (endOf_argmax _ _ _) ?_
  intro a ha b hb hab
  exact sequence_injective hdistinct (mem_of_mem_filter ha) (mem_of_mem_filter hb) hab

theorem first_eq (hdistinct : (requests.map sequence_of).Nodup)
    (hcuts : cuts.Pairwise (fun a b => a < b)) (hk : cuts[k]? = some cut)
    {gaps : List ClaudeRequestGap}
    (hgaps : gaps = ((List.range (cuts.length + 1)).map (in_gap cuts requests)).map summary) :
    (earliest_of (gaps.drop 1))[k]? = some ((request_after requests cut).map first_of) := by
  have hlength := (List.getElem?_eq_some_iff.mp hk).1
  obtain ⟨first, hget, hfirst⟩ := earliest_of_get
    (((List.range (cuts.length + 1)).map (in_gap cuts requests)).drop 1)
    ((in_gaps_ascending hcuts).sublist (drop_sublist _ _)) (show k < _ by simpa using hlength)
  rw [map_drop, ← hgaps] at hget
  rw [hget]
  apply congrArg some
  have hall := @EndOf.congr _ _ _ _ _ _ _ (requests.filter
      (fun r => decide (r.effective_input_context ≠ 0 ∧ cut ≤ r.sequence))) _ hfirst (by
    intro r
    rw [mem_gaps_from, ← not_le (a := gap_of cuts r), gap_of_le_iff hcuts hk, not_lt]
    simp)
  refine hall.unique (first_of_argmin _) ?_
  intro a ha b hb hab
  exact sequence_injective hdistinct (mem_of_mem_filter ha) (mem_of_mem_filter hb)
    (OrderDual.toDual.injective hab)

variable (observations : List ClaudeCompactionObservation) (paired : Finset Nat)

theorem candidates_eq : (candidates observations paired).entries = kept (timed observations paired) :=
  NewestKeys.foldl_note _

theorem claude_events_eq (hdistinct : (requests.map sequence_of).Nodup) :
    (claude_compaction_events time observations paired requests).1 =
      bounded_compaction_events ((timed observations paired).map (event_of time requests)) := by
  have hpairs : ((timed observations paired).map (event_of time requests)).map
      (fun event => (event.at_text, event)) = (timed observations paired).map
        (NewestKeys.mapped (fun text observation => event_of time requests (text, observation))) := by
    rw [map_map]
    rfl
  rw [bounded_eq_kept, hpairs, kept_mapped, ← candidates_eq, map_map]
  unfold claude_compaction_events
  by_cases hempty : (candidates observations paired).entries.isEmpty = true
  · rw [if_pos hempty, isEmpty_iff.mp hempty]
    rfl
  · rw [if_neg hempty]
    apply map_congr_left
    intro e he
    have hcuts : (claude_compaction_events.cut_points
        (candidates observations paired).entries).Pairwise (fun a b => a < b) :=
      SortDedup.sort_dedup_sorted
    have hmem : e.2.response_count_before ∈ claude_compaction_events.cut_points
        (candidates observations paired).entries :=
      SortDedup.mem_sort_dedup.mpr (mem_map.mpr ⟨e, he, rfl⟩)
    have hk := partition_point_get hcuts hmem
    have hlast := last_eq hdistinct hcuts hk (gaps_eq _ requests)
    have hfirst := first_eq hdistinct hcuts hk (gaps_eq _ requests)
    simp only [hlast, hfirst, Option.join_some, Function.comp, NewestKeys.mapped, event_of,
      Option.map_map, Option.bind_map]
    rfl

/-- Both selections leave what bounding all events would. -/
theorem compaction_events_exact (hdistinct : (requests.map sequence_of).Nodup) :
    (claude_compaction_events time observations paired requests).1 =
        bounded_compaction_events ((timed observations paired).map (event_of time requests)) ∧
      ∀ calls : List Noted, (calls.foldl CodexCompactionSizes.noted {}).into_events =
        bounded_compaction_events (marker_events calls) :=
  ⟨claude_events_eq time observations paired hdistinct, codex_events_eq⟩

/-- An hour, and the next one. -/
def two_hours : Rfc3339 :=
  .of_table [("2026-12-01T10:00:00Z", 1796119200000000000), ("2026-12-01T11:00:00Z", 1796122800000000000)]

def first_boundary : ClaudeCompactionObservation where
  kind := .CurrentBoundary
  timestamp := some "2026-12-01T10:00:00Z"
  response_count_before := 1
  trigger := some .Auto

/-- An hour after the request before it. -/
def second_boundary : ClaudeCompactionObservation :=
  { first_boundary with timestamp := some "2026-12-01T11:00:00Z", response_count_before := 2 }

def three_requests : List OwnRequest :=
  [{ sequence := 1, effective_input_context := 7, timestamp := some "2026-12-01T10:00:00Z" },
    { sequence := 0, effective_input_context := 5 }, { sequence := 2, effective_input_context := 3 }]

theorem compaction_events_exact_two :
    bounded_compaction_events
        ((timed [second_boundary, first_boundary] ∅).map (event_of two_hours three_requests)) =
        [{ at_text := "2026-12-01T10:00:00Z", before := some 5, after := some 7,
           trigger := some "auto" },
         { at_text := "2026-12-01T11:00:00Z", before := some 7, after := some 3,
           trigger := some "idle" }] ∧
      (claude_compaction_events two_hours [second_boundary, first_boundary] ∅ three_requests).1 =
        bounded_compaction_events
          ((timed [second_boundary, first_boundary] ∅).map (event_of two_hours three_requests)) :=
  ⟨by decide, (compaction_events_exact two_hours [second_boundary, first_boundary] ∅ (by decide)).1⟩

/-- Of sixty-six instants, here by their numbers, the two oldest go. -/
example :
    ((List.range 66).foldl (fun m instant => NewestKeys.note MAX_COMPACTION_TIMESTAMPS m instant ())
      (.empty : SortedMap Nat Unit)).keys = (List.range 66).drop 2 := by
  decide +kernel

end ottto_service.compaction_events
