-- The context points of a session (snapshots/local_context_points.rs): requests are put in the order
-- of their sequence through a window of a fixed width, and thinned as they are pushed.
import Ottto.Rows
import Ottto.Smallest

namespace ottto_service.local_context_points

open accumulator List
open scoped Smallest

def LOCAL_CONTEXT_POINT_CAP : Nat := 64
def LOCAL_CONTEXT_POINT_SLOT_SECONDS : Nat := 15 * 60
def LOCAL_CONTEXT_POINT_BIG_CHANGE_TOKENS : Nat := 20000
def LOCAL_CONTEXT_POINT_ORDER_WINDOW : Nat := 4096
def LOCAL_CONTEXT_POINT_ORDER_PASSES : Nat := 8

/-! ## The points -/

/-- The fields are `u32`, which every value written to them fits. -/
structure LocalContextPoint where
  at_unix_seconds : Nat
  prompt_tokens : Nat

abbrev LocalContextPoints : Type := List LocalContextPoint

/-- The request as a point, where it has tokens and a time that a point can carry. -/
def usable (time : Rfc3339) (at_text : Option String) (prompt_tokens : Nat) :
    Option LocalContextPoint :=
  if prompt_tokens = 0 then none
  else
    ((at_text.bind time.parse).map (fun instant => instant / 10 ^ 9)).bind (fun seconds =>
      if 0 ≤ seconds ∧ seconds < 2 ^ 32 then
        some { at_unix_seconds := seconds.toNat, prompt_tokens := min prompt_tokens (2 ^ 32 - 1) }
      else none)

namespace LocalContextPoints

/-- Every even position of a list. -/
def evens (points : LocalContextPoints) : LocalContextPoints :=
  (points.zipIdx.filter (fun e => decide (e.2 % 2 = 0))).map Prod.fst

/-- One more point, for which a full list is halved first. -/
def append (points : LocalContextPoints) (point : LocalContextPoint) : LocalContextPoints :=
  (if points.length = LOCAL_CONTEXT_POINT_CAP then points.evens else points) ++ [point]

/-- A usable request after the points. -/
def place (points : LocalContextPoints) (point : LocalContextPoint) : LocalContextPoints :=
  match points.getLast? with
  | none => [point]
  | some tail =>
    let has_pinned_first_and_tail := decide (2 ≤ points.length)
    -- Lines that are out of order never draw backwards.
    let point := { point with at_unix_seconds := max point.at_unix_seconds tail.at_unix_seconds }
    let same_second := decide (point.at_unix_seconds = tail.at_unix_seconds)
    let same_slot := decide (point.at_unix_seconds / LOCAL_CONTEXT_POINT_SLOT_SECONDS =
      tail.at_unix_seconds / LOCAL_CONTEXT_POINT_SLOT_SECONDS)
    let big_change := decide (max (tail.prompt_tokens / 5) LOCAL_CONTEXT_POINT_BIG_CHANGE_TOKENS ≤
      (tail.prompt_tokens - point.prompt_tokens) + (point.prompt_tokens - tail.prompt_tokens))
    if same_second && !has_pinned_first_and_tail then points
    else if same_second || (has_pinned_first_and_tail && same_slot && !big_change) then
      points.dropLast ++ [point]
    else points.append point

def push (time : Rfc3339) (points : LocalContextPoints) (at_text : Option String)
    (prompt_tokens : Nat) : LocalContextPoints :=
  match usable time at_text prompt_tokens with
  | none => points
  | some point => points.place point

end LocalContextPoints

/-! ## Requests in order -/

section Requests

variable {T σ : Type}

/-- What a request is fed to the points as. -/
def feed_point (time : Rfc3339) (point : T → Option (Option String × Nat))
    (points : LocalContextPoints) (request : T) : LocalContextPoints :=
  match point request with
  | none => points
  | some (at_text, prompt_tokens) => points.push time at_text prompt_tokens

def from_ordered_requests (time : Rfc3339) (point : T → Option (Option String × Nat))
    (requests : List T) : LocalContextPoints :=
  requests.foldl (feed_point time point) []

/-- A request with its sequence and its position, which make its key unique. -/
structure PointOrderEntry (T : Type) where
  key : Nat ×ₗ Nat
  request : T

def entries (sequence : T → Nat) (requests : List T) : List (PointOrderEntry T) :=
  requests.zipIdx.map (fun e => ⟨toLex (sequence e.1, e.2), e.1⟩)

variable (feed : σ → T → σ) (width : Nat)

/-- One pass: the smallest requests past those that were fed. -/
def pass (all : List (PointOrderEntry T)) (state : σ × Option (Nat ×ₗ Nat)) :
    σ × Option (Nat ×ₗ Nat) :=
  let window := all.foldl (fun window entry =>
    if state.2.any (fun fed => decide (entry.key ≤ fed)) then window
    else Smallest.offer PointOrderEntry.key width window entry) []
  ((Smallest.sort PointOrderEntry.key window).foldl
      (fun state entry => feed state entry.request) state.1,
    (window.argmax PointOrderEntry.key).map PointOrderEntry.key)

/-- The requests fed in the order of their sequence, through passes of one window each. -/
def feed_by_sequence (passes : Nat) (sequence : T → Nat) (requests : List T) (init : σ) : Option σ :=
  if width * passes < requests.length then none
  else
    some ((pass feed width (entries sequence requests))^[(requests.length + (width - 1)) / width]
      (init, none)).1

def from_requests_by_sequence (time : Rfc3339) (sequence : T → Nat)
    (point : T → Option (Option String × Nat)) (requests : List T) : Option LocalContextPoints :=
  feed_by_sequence (feed_point time point) LOCAL_CONTEXT_POINT_ORDER_WINDOW
    LOCAL_CONTEXT_POINT_ORDER_PASSES sequence requests []

/-! ## The order of the keys -/

variable {feed width} {sequence : T → Nat} {requests : List T}

theorem entries_nodup : ((entries sequence requests).map PointOrderEntry.key).Nodup := by
  unfold entries
  rw [map_map]
  have hpositions : (requests.zipIdx.map Prod.snd).Nodup := by
    rw [zipIdx_map_snd]
    exact nodup_range'
  refine List.Nodup.of_map (fun key => (ofLex key).2) ?_
  rw [map_map]
  exact hpositions

/-- Requests with equal sequences stay as they were. -/
def by_sequence (sequence : T → Nat) (requests : List T) : List T :=
  requests.insertionSort (fun a b => sequence a ≤ sequence b)

theorem map_orderedInsert (a : T) (start : Nat) (sorted : List (PointOrderEntry T))
    (hlater : ∀ e ∈ sorted, start < (ofLex e.key).2 ∧ (ofLex e.key).1 = sequence e.request) :
    (sorted.orderedInsert (fun a b => a.key ≤ b.key) ⟨toLex (sequence a, start), a⟩).map
        PointOrderEntry.request =
      (sorted.map PointOrderEntry.request).orderedInsert
        (fun a b => sequence a ≤ sequence b) a := by
  induction sorted with
  | nil => rfl
  | cons e sorted ih =>
    obtain ⟨hstart, hsequence⟩ := hlater e mem_cons_self
    have hle : toLex (sequence a, start) ≤ e.key ↔ sequence a ≤ sequence e.request := by
      rw [Prod.Lex.le_iff, ← hsequence]
      simp only [ofLex_toLex]
      omega
    have hrest := ih (fun e he => hlater e (mem_cons_of_mem _ he))
    simp only [orderedInsert_cons, map_cons, hle]
    split_ifs
    · rfl
    · rw [map_cons, hrest]

/-- Sorting by sequence and position is sorting by sequence and keeping ties in order. -/
theorem map_sort_entries : (Smallest.sort PointOrderEntry.key (entries sequence requests)).map
    PointOrderEntry.request = by_sequence sequence requests := by
  have hfrom : ∀ (start : Nat) (requests : List T),
      (Smallest.sort PointOrderEntry.key ((requests.zipIdx start).map
        (fun e => (⟨toLex (sequence e.1, e.2), e.1⟩ : PointOrderEntry T)))).map
          PointOrderEntry.request = by_sequence sequence requests := by
    intro start requests
    induction requests generalizing start with
    | nil => rfl
    | cons a requests ih =>
      have hrest := ih (start + 1)
      unfold Smallest.sort by_sequence at hrest ⊢
      rw [zipIdx_cons, map_cons, insertionSort_cons, insertionSort_cons, ← hrest]
      apply map_orderedInsert
      intro e he
      obtain ⟨f, hf, rfl⟩ := mem_map.mp ((mem_insertionSort _).mp he)
      have hposition := le_snd_of_mem_zipIdx hf
      exact ⟨hposition, rfl⟩
  exact hfrom 0 requests

/-! ## The passes -/

/-- One pass feeds the next window of the order. -/
theorem pass_eq {all front back : List (PointOrderEntry T)}
    (hkeys : (all.map PointOrderEntry.key).Nodup)
    (hsplit : Smallest.sort PointOrderEntry.key all = front ++ back) (state : σ) :
    pass feed width all (state, front.getLast?.map PointOrderEntry.key) =
      ((back.take width).foldl (fun state entry => feed state entry.request) state,
        (back.take width).getLast?.map PointOrderEntry.key) := by
  have hwindow : Smallest.sort PointOrderEntry.key (all.foldl (fun window entry =>
      if (front.getLast?.map PointOrderEntry.key).any (fun fed => decide (entry.key ≤ fed)) then window
      else Smallest.offer PointOrderEntry.key width window entry) []) = back.take width := by
    cases hlast : front.getLast? with
    | none =>
      rw [getLast?_eq_none_iff] at hlast
      subst hlast
      have hsort := @Smallest.sort_offers _ _ _ _ width _ hkeys
      rw [hsplit] at hsort
      simpa using hsort
    | some top =>
      obtain ⟨before, rfl⟩ := getLast?_eq_some_iff.mp hlast
      rw [append_assoc, singleton_append] at hsplit
      have hleft := Smallest.sort_filter_lt hkeys hsplit
      have hkeys_left : ((all.filter (fun e => decide (top.key < e.key))).map
          PointOrderEntry.key).Nodup := hkeys.sublist (filter_sublist.map _)
      have hsort := @Smallest.sort_offers _ _ _ _ width _ hkeys_left
      rw [hleft] at hsort
      rw [← hsort, foldl_filter]
      congr 2
      funext window entry
      by_cases hle : entry.key ≤ top.key
      · simp [hle, not_lt.mpr hle]
      · simp [hle, not_le.mp hle]
  unfold pass
  dsimp only
  rw [Smallest.map_argmax, hwindow]

/-- What some passes have fed, as long as there is more to feed before each of them. -/
theorem passes_eq {all : List (PointOrderEntry T)} (hkeys : (all.map PointOrderEntry.key).Nodup)
    (init : σ) (passes : Nat) (hmore : ∀ i < passes, width * i < all.length) :
    (pass feed width all)^[passes] (init, none) =
      (((Smallest.sort PointOrderEntry.key all).take (width * passes)).foldl
          (fun state entry => feed state entry.request) init,
        ((Smallest.sort PointOrderEntry.key all).take (width * passes)).getLast?.map
          PointOrderEntry.key) := by
  induction passes with
  | zero => simp
  | succ passes ih =>
    have hlength := (@Smallest.sort_perm _ _ _ PointOrderEntry.key all).length_eq
    have hlt := hmore passes (Nat.lt_succ_self passes)
    generalize hsorted : Smallest.sort PointOrderEntry.key all = sorted at ih hlength
    have htake : sorted.take (width * (passes + 1)) =
        sorted.take (width * passes) ++ (sorted.drop (width * passes)).take width := by
      rw [Nat.mul_succ, take_add]
    rw [Function.iterate_succ_apply', ih (fun i hi => hmore i (hi.trans (Nat.lt_succ_self passes))),
      pass_eq hkeys (hsorted.trans (take_append_drop (width * passes) sorted).symm), htake,
      foldl_append]
    congr 1
    by_cases hwidth : width = 0
    · subst hwidth
      simp
    · have hnext : (sorted.drop (width * passes)).take width ≠ [] := by
        rw [ne_eq, take_eq_nil_iff, drop_eq_nil_iff]
        omega
      rw [getLast?_append_of_ne_nil _ hnext]

/-- Requests that fit the passes are fed once each, in the order of a stable sort. -/
theorem feed_by_sequence_eq (hwidth : 0 < width) (passes : Nat) (requests : List T) (init : σ) :
    feed_by_sequence feed width passes sequence requests init =
      if width * passes < requests.length then none
      else some ((by_sequence sequence requests).foldl feed init) := by
  unfold feed_by_sequence
  by_cases hlong : width * passes < requests.length
  · rw [if_pos hlong, if_pos hlong]
  · rw [if_neg hlong, if_neg hlong]
    have hlength : (entries sequence requests).length = requests.length := by simp [entries]
    have hmore : ∀ i < (requests.length + (width - 1)) / width,
        width * i < (entries sequence requests).length := by
      intro i hi
      have hle := (Nat.le_div_iff_mul_le hwidth).mp (Nat.succ_le_of_lt hi)
      rw [Nat.succ_mul, Nat.mul_comm] at hle
      omega
    have hall : requests.length ≤ width * ((requests.length + (width - 1)) / width) := by
      have hdiv := Nat.div_add_mod (requests.length + (width - 1)) width
      have hmod := Nat.mod_lt (requests.length + (width - 1)) hwidth
      omega
    have hsorted := (@Smallest.sort_perm _ _ _ PointOrderEntry.key
      (entries sequence requests)).length_eq
    rw [passes_eq entries_nodup init _ hmore, take_of_length_le (by omega),
      ← map_sort_entries, foldl_map]

end Requests

/-! ## Thinning -/

theorem evens_from (points : LocalContextPoints) (start : Nat) :
    ((points.zipIdx (start + 2)).filter (fun e => decide (e.2 % 2 = 0))).map Prod.fst =
      ((points.zipIdx start).filter (fun e => decide (e.2 % 2 = 0))).map Prod.fst := by
  induction points generalizing start with
  | nil => rfl
  | cons point points ih =>
    have hrest := ih (start + 1)
    rw [show start + 1 + 2 = start + 2 + 1 by omega] at hrest
    simp only [zipIdx_cons, filter_cons, Nat.add_mod_right]
    split_ifs
    · rw [map_cons, map_cons, hrest]
    · exact hrest

theorem evens_cons_cons (a b : LocalContextPoint) (points : LocalContextPoints) :
    LocalContextPoints.evens (a :: b :: points) = a :: LocalContextPoints.evens points := by
  unfold LocalContextPoints.evens
  rw [zipIdx_cons, zipIdx_cons, filter_cons_of_pos (by simp),
    filter_cons_of_neg (by simp), map_cons]
  exact congrArg (a :: ·) (evens_from points 0)

theorem evens_sublist (points : LocalContextPoints) : (LocalContextPoints.evens points).Sublist points := by
  unfold LocalContextPoints.evens
  have hsub := (filter_sublist (p := fun e : LocalContextPoint × Nat => decide (e.2 % 2 = 0))
    (l := points.zipIdx)).map Prod.fst
  rwa [zipIdx_map_fst] at hsub

theorem length_evens (points : LocalContextPoints) :
    (LocalContextPoints.evens points).length = (points.length + 1) / 2 := by
  induction points using List.twoStepInduction with
  | nil => rfl
  | singleton a => simp [LocalContextPoints.evens]
  | cons_cons a b points ih =>
    rw [evens_cons_cons, length_cons, ih]
    simp only [length_cons]
    omega

theorem head?_evens (points : LocalContextPoints) :
    (LocalContextPoints.evens points).head? = points.head? := by
  cases points with
  | nil => rfl
  | cons a points =>
    cases points with
    | nil => rfl
    | cons b points =>
      rw [evens_cons_cons]
      rfl

/-- The first point, the last one and those at even positions. -/
def thinned (points : LocalContextPoints) : LocalContextPoints :=
  (points.zipIdx.filter (fun e =>
    decide (e.2 = 0 ∨ e.2 + 1 = points.length ∨ e.2 % 2 = 0))).map Prod.fst

/-- Halving before the push is pushing and then thinning. -/
theorem append_eq_thinned {points : LocalContextPoints}
    (hfew : points.length ≤ LOCAL_CONTEXT_POINT_CAP) (point : LocalContextPoint) :
    points.append point =
      if LOCAL_CONTEXT_POINT_CAP < (points ++ [point]).length then thinned (points ++ [point])
      else points ++ [point] := by
  unfold LocalContextPoints.append
  rw [length_append, length_singleton]
  by_cases hfull : points.length = LOCAL_CONTEXT_POINT_CAP
  · rw [if_pos hfull, if_pos (by omega)]
    have hcap : LOCAL_CONTEXT_POINT_CAP % 2 = 0 := rfl
    have hlast : points.length % 2 = 0 := by rw [hfull, hcap]
    have hsame : ∀ e : LocalContextPoint × Nat,
        decide (e.2 = 0 ∨ e.2 + 1 = (points ++ [point]).length ∨ e.2 % 2 = 0) =
          decide (e.2 % 2 = 0) := by
      intro e
      rw [length_append, length_singleton, decide_eq_decide]
      omega
    unfold thinned LocalContextPoints.evens
    simp only [hsame]
    rw [zipIdx_append, filter_append, map_append]
    simp [hlast]
  · rw [if_neg hfull, if_neg (by omega)]

/-! ## A run of pushes -/

/-- The points of some usable requests. -/
structure Curve (requests points : LocalContextPoints) : Prop where
  few : points.length ≤ LOCAL_CONTEXT_POINT_CAP
  rising : points.Pairwise (fun a b => a.at_unix_seconds < b.at_unix_seconds)
  first : points.head? = requests.head?
  last : 2 ≤ points.length →
    points.getLast?.map LocalContextPoint.prompt_tokens =
      requests.getLast?.map LocalContextPoint.prompt_tokens

variable {requests points : LocalContextPoints}

theorem curve_nil : Curve [] [] := ⟨Nat.zero_le _, .nil, rfl, fun _ => rfl⟩

/-- A later point after earlier ones that begin as the requests do. -/
theorem curve_snoc {front : LocalContextPoints} {request point : LocalContextPoint}
    (hfew : front.length < LOCAL_CONTEXT_POINT_CAP)
    (hrising : front.Pairwise (fun a b => a.at_unix_seconds < b.at_unix_seconds))
    (hlater : ∀ p ∈ front, p.at_unix_seconds < point.at_unix_seconds)
    (hfirst : front.head? = requests.head?) (hne : front ≠ [])
    (hprompt : point.prompt_tokens = request.prompt_tokens) :
    Curve (requests ++ [request]) (front ++ [point]) := by
  refine ⟨?_, ?_, ?_, ?_⟩
  · rw [length_append, length_singleton]
    exact hfew
  · refine pairwise_append.mpr ⟨hrising, pairwise_singleton _ _, ?_⟩
    intro p hp q hq
    rw [mem_singleton.mp hq]
    exact hlater p hp
  · have hrequests : requests ≠ [] := by
      intro hempty
      rw [hempty, head?_nil, head?_eq_none_iff] at hfirst
      exact hne hfirst
    rw [head?_append_of_ne_nil _ hne, head?_append_of_ne_nil _ hrequests, hfirst]
  · intro _
    simp [hprompt]

theorem Curve.place (h : Curve requests points) (request : LocalContextPoint) :
    Curve (requests ++ [request]) (points.place request) := by
  obtain ⟨hfew, hrising, hfirst, hlast⟩ := h
  unfold LocalContextPoints.place
  cases htail : points.getLast? with
  | none =>
    rw [getLast?_eq_none_iff] at htail
    subst htail
    have hempty : requests = [] := head?_eq_none_iff.mp hfirst.symm
    subst hempty
    exact ⟨by simp [LOCAL_CONTEXT_POINT_CAP], pairwise_singleton _ _, rfl, fun _ => rfl⟩
  | some tail =>
    obtain ⟨front, rfl⟩ := getLast?_eq_some_iff.mp htail
    have hne : front ++ [tail] ≠ [] := by simp
    have hbefore : ∀ p ∈ front, p.at_unix_seconds < tail.at_unix_seconds := by
      intro p hp
      exact (pairwise_append.mp hrising).2.2 p hp tail (by simp)
    have hlength : (front ++ [tail]).length = front.length + 1 := by simp
    dsimp only
    split_ifs with hdrop hreplace
    · -- Only the first point is there, and it keeps its second.
      simp only [Bool.and_eq_true, Bool.not_eq_true', decide_eq_true_eq, decide_eq_false_iff_not,
        not_le] at hdrop
      refine ⟨hfew, hrising, ?_, fun hpair => by omega⟩
      rw [hfirst, head?_append_of_ne_nil]
      intro hempty
      rw [hempty, head?_nil, head?_eq_none_iff] at hfirst
      exact hne hfirst
    · have hpinned : 2 ≤ (front ++ [tail]).length := by
        simp only [Bool.and_eq_true, Bool.or_eq_true, Bool.not_eq_true', decide_eq_true_eq,
          decide_eq_false_iff_not, not_and, not_le] at hdrop hreplace
        rcases hreplace with hsame | ⟨⟨hpinned, -⟩, -⟩
        · have hfalse := hdrop hsame
          omega
        · exact hpinned
      have hfront : front ≠ [] := by
        rintro rfl
        simp at hpinned
      rw [dropLast_concat]
      refine curve_snoc (by omega) (pairwise_append.mp hrising).1 ?_ ?_ hfront rfl
      · intro p hp
        exact (hbefore p hp).trans_le (le_max_right _ _)
      · rw [← hfirst, head?_append_of_ne_nil _ hfront]
    · have hsecond : tail.at_unix_seconds < max request.at_unix_seconds tail.at_unix_seconds := by
        simp only [Bool.or_eq_true, Bool.and_eq_true, Bool.not_eq_true', decide_eq_true_eq,
          decide_eq_false_iff_not, not_or] at hreplace
        exact lt_of_le_of_ne (le_max_right _ _) (Ne.symm hreplace.1)
      have hlater : ∀ p ∈ front ++ [tail],
          p.at_unix_seconds < max request.at_unix_seconds tail.at_unix_seconds := by
        intro p hp
        rcases mem_append.mp hp with hp | hp
        · exact (hbefore p hp).trans hsecond
        · rw [mem_singleton.mp hp]
          exact hsecond
      unfold LocalContextPoints.append
      split_ifs with hfull
      · have hsub := evens_sublist (front ++ [tail])
        have hhalf := length_evens (front ++ [tail])
        have hcap : LOCAL_CONTEXT_POINT_CAP = 64 := rfl
        refine curve_snoc (by omega) (hrising.sublist hsub) (fun p hp => hlater p (hsub.subset hp))
          ?_ ?_ rfl
        · rw [head?_evens, hfirst]
        · apply ne_nil_of_length_pos
          omega
      · exact curve_snoc (lt_of_le_of_ne hfew hfull) hrising hlater hfirst hne rfl

/-- One push: a time and a prompt size. -/
abbrev Pushed : Type := Option String × Nat

def pushed (time : Rfc3339) (points : LocalContextPoints) (call : Pushed) : LocalContextPoints :=
  points.push time call.1 call.2

/-- The usable requests among some pushes, with their prompt sizes up to `u32::MAX`. -/
def usables (time : Rfc3339) (calls : List Pushed) : LocalContextPoints :=
  calls.filterMap (fun call => usable time call.1 call.2)

theorem Curve.run {time : Rfc3339} (h : Curve requests points) (calls : List Pushed) :
    Curve (requests ++ usables time calls) (calls.foldl (pushed time) points) := by
  induction calls generalizing requests points with
  | nil => simpa [usables] using h
  | cons call calls ih =>
    have hstep : pushed time points call =
        match usable time call.1 call.2 with
        | none => points
        | some request => points.place request := rfl
    have hmore : usables time (call :: calls) =
        (usable time call.1 call.2).toList ++ usables time calls := by
      unfold usables
      rw [filterMap_cons]
      cases usable time call.1 call.2 <;> rfl
    rw [foldl_cons, hstep, hmore, ← append_assoc]
    cases usable time call.1 call.2 with
    | none => simpa using ih h
    | some request => exact ih (h.place request)

/-- Requests that fit the passes are consumed in the order of a stable sort, each once; any pushes
leave a curve, and a full list is thinned as if the new point had been appended first. -/
theorem context_points_exact :
    (∀ {T σ : Type} (feed : σ → T → σ) (sequence : T → Nat) (requests : List T) (init : σ),
      feed_by_sequence feed LOCAL_CONTEXT_POINT_ORDER_WINDOW LOCAL_CONTEXT_POINT_ORDER_PASSES sequence
          requests init =
        if LOCAL_CONTEXT_POINT_ORDER_WINDOW * LOCAL_CONTEXT_POINT_ORDER_PASSES < requests.length then
          none
        else some ((by_sequence sequence requests).foldl feed init)) ∧
    (∀ {T : Type} (time : Rfc3339) (sequence : T → Nat) (point : T → Option Pushed)
        (requests : List T),
      from_requests_by_sequence time sequence point requests =
        if LOCAL_CONTEXT_POINT_ORDER_WINDOW * LOCAL_CONTEXT_POINT_ORDER_PASSES < requests.length then
          none
        else some (from_ordered_requests time point (by_sequence sequence requests))) ∧
    ∀ (time : Rfc3339) (calls : List Pushed),
      Curve (usables time calls) (calls.foldl (pushed time) []) ∧
        ∀ point, LocalContextPoints.append (calls.foldl (pushed time) []) point =
          if LOCAL_CONTEXT_POINT_CAP < (calls.foldl (pushed time) [] ++ [point]).length then
            thinned (calls.foldl (pushed time) [] ++ [point])
          else calls.foldl (pushed time) [] ++ [point] := by
  have hwidth : 0 < LOCAL_CONTEXT_POINT_ORDER_WINDOW := by decide
  refine ⟨?_, ?_, ?_⟩
  · intro T σ feed sequence requests init
    exact feed_by_sequence_eq hwidth _ requests init
  · intro T time sequence point requests
    exact feed_by_sequence_eq hwidth _ requests []
  · intro time calls
    have hcurve : Curve (usables time calls) (calls.foldl (pushed time) []) := curve_nil.run calls
    exact ⟨hcurve, fun point => append_eq_thinned hcurve.few point⟩

def two_seconds : Rfc3339 :=
  .of_table [("2026-12-01T10:00:00Z", 1796119200000000000), ("2026-12-01T10:00:01Z", 1796119201000000000)]

/-- The last point of two, whose request had `u32::MAX + 1` tokens. -/
theorem the_last_prompt_is_capped :
    ([(some "2026-12-01T10:00:00Z", 1), (some "2026-12-01T10:00:01Z", 2 ^ 32)].foldl (pushed two_seconds) []).map
        LocalContextPoint.prompt_tokens = [1, 2 ^ 32 - 1] := by
  decide +kernel

end ottto_service.local_context_points
