-- A set kept as a list of half-open ranges, in their order and apart from each other. Nothing here is
-- about one program.
import Mathlib.Data.List.TakeWhile
import Mathlib.Tactic

namespace Ranges

open List

variable {α : Type} [LinearOrder α] {ranges : List (α × α)} {s s' x : α}

/-- `x` is in one of the ranges. -/
def Covers (ranges : List (α × α)) (x : α) : Prop := ∃ range ∈ ranges, range.1 ≤ x ∧ x < range.2

/-- No range is empty, and each ends before the next one starts. -/
structure Ordered (ranges : List (α × α)) : Prop where
  filled : ∀ range ∈ ranges, range.1 < range.2
  apart : ranges.Pairwise (fun a b => a.2 ≤ b.1)

/-- `s'` is the next element after `s`. -/
def Next (s s' : α) : Prop := ∀ x, x < s' ↔ x ≤ s

/-- The ranges that end at `s` or before it, and the others. -/
def split_at (ranges : List (α × α)) (s : α) : List (α × α) × List (α × α) :=
  (ranges.takeWhile (fun range => decide (range.2 ≤ s)),
    ranges.dropWhile (fun range => decide (range.2 ≤ s)))

theorem split_at_append (ranges : List (α × α)) (s : α) :
    (split_at ranges s).1 ++ (split_at ranges s).2 = ranges := takeWhile_append_dropWhile

theorem Next.lt (h : Next s s') : s < s' := (h s).mpr le_rfl

@[simp] theorem not_covers_nil : ¬ Covers [] x := by simp [Covers]

theorem covers_append {a b : List (α × α)} : Covers (a ++ b) x ↔ Covers a x ∨ Covers b x := by
  simp [Covers, or_and_right, exists_or]

variable {range : α × α}

theorem covers_cons {rest : List (α × α)} :
    Covers (range :: rest) x ↔ (range.1 ≤ x ∧ x < range.2) ∨ Covers rest x := by
  simp [Covers]

theorem ordered_nil : Ordered ([] : List (α × α)) := ⟨by simp, .nil⟩

/-- The parts of an ordered list are ordered, and whatever is left ends before what is right starts. -/
theorem ordered_append {a b : List (α × α)} : Ordered (a ++ b) ↔
    Ordered a ∧ Ordered b ∧ ∀ r ∈ a, ∀ r' ∈ b, r.2 ≤ r'.1 := by
  constructor
  · intro h
    obtain ⟨ha, hb, hab⟩ := pairwise_append.mp h.apart
    refine ⟨⟨?_, ha⟩, ⟨?_, hb⟩, hab⟩
    · exact fun r hr => h.filled r (mem_append_left _ hr)
    · exact fun r hr => h.filled r (mem_append_right _ hr)
  · rintro ⟨ha, hb, hab⟩
    refine ⟨?_, pairwise_append.mpr ⟨ha.apart, hb.apart, hab⟩⟩
    intro r hr
    rcases mem_append.mp hr with hr | hr
    · exact ha.filled r hr
    · exact hb.filled r hr

theorem ordered_cons {rest : List (α × α)} : Ordered (range :: rest) ↔
    range.1 < range.2 ∧ (∀ r ∈ rest, range.2 ≤ r.1) ∧ Ordered rest := by
  constructor
  · intro h
    obtain ⟨hhead, hrest⟩ := pairwise_cons.mp h.apart
    exact ⟨h.filled range mem_cons_self, hhead,
      ⟨fun r hr => h.filled r (mem_cons_of_mem _ hr), hrest⟩⟩
  · rintro ⟨hfilled, hhead, hrest⟩
    refine ⟨?_, pairwise_cons.mpr ⟨hhead, hrest.apart⟩⟩
    intro r hr
    rcases mem_cons.mp hr with rfl | hr
    · exact hfilled
    · exact hrest.filled r hr

theorem ends_before (r : α × α) (h : r ∈ (split_at ranges s).1) : r.2 ≤ s := by
  have hends := mem_takeWhile_imp h
  simpa using hends

/-- Past the split every range ends after `s`: the first does, and the others start after it. -/
theorem Ordered.ends_after (h : Ordered ranges) (r : α × α) (hr : r ∈ (split_at ranges s).2) :
    s < r.2 := by
  have hordered : Ordered (split_at ranges s).2 :=
    (ordered_append.mp (by rwa [split_at_append])).2.1
  have hfirst : ∀ first rest, (split_at ranges s).2 = first :: rest → s < first.2 := by
    intro first rest heq
    have hnot := List.head?_dropWhile_not (fun range : α × α => decide (range.2 ≤ s)) ranges
    unfold split_at at heq
    dsimp only at heq
    rw [heq] at hnot
    simpa using hnot
  cases hrest : (split_at ranges s).2 with
  | nil => rw [hrest] at hr; cases hr
  | cons first rest =>
    have hs := hfirst first rest hrest
    rw [hrest] at hr hordered
    obtain ⟨_, hhead, hrest_ordered⟩ := ordered_cons.mp hordered
    rcases mem_cons.mp hr with rfl | hr
    · exact hs
    · exact hs.trans_le ((hhead r hr).trans (hrest_ordered.filled r hr).le)

theorem not_covers_of_ends (h : ∀ r ∈ ranges, r.2 ≤ x) : ¬ Covers ranges x := by
  rintro ⟨r, hr, _, hlt⟩
  exact absurd (h r hr) (not_le_of_gt hlt)

theorem not_covers_of_starts (h : ∀ r ∈ ranges, x < r.1) : ¬ Covers ranges x := by
  rintro ⟨r, hr, hle, _⟩
  exact absurd hle (not_le_of_gt (h r hr))

/-- The first range past the split decides. -/
theorem Ordered.covers_iff (h : Ordered ranges) (s : α) : Covers ranges s ↔
    ((split_at ranges s).2.head?.any (fun range => decide (range.1 ≤ s))) = true := by
  have hafter := fun r hr => h.ends_after (s := s) r hr
  have hordered : Ordered (split_at ranges s).2 :=
    (ordered_append.mp (by rwa [split_at_append])).2.1
  rw [← split_at_append ranges s, covers_append,
    or_iff_right (not_covers_of_ends (fun r hr => ends_before r hr)), split_at_append]
  cases hrest : (split_at ranges s).2 with
  | nil => simp
  | cons first rest =>
    rw [hrest] at hafter hordered
    have hfirst := hafter first mem_cons_self
    have hothers : ¬ Covers rest s := by
      apply not_covers_of_starts
      intro r hr
      exact hfirst.trans_le ((ordered_cons.mp hordered).2.1 r hr)
    rw [covers_cons, or_iff_left hothers]
    simp [hfirst]

/-- One more element, as a range of its own between its neighbours. -/
theorem Ordered.insert (h : Ordered ranges) (hnext : Next s s') (hfree : ¬ Covers ranges s) :
    Ordered ((split_at ranges s).1 ++ (s, s') :: (split_at ranges s).2) := by
  have hsplit := ordered_append.mp (show Ordered _ by rwa [split_at_append ranges s])
  have hstarts : ∀ r ∈ (split_at ranges s).2, s' ≤ r.1 := by
    intro r hr
    by_contra hlt
    have hle : r.1 ≤ s := (hnext _).mp (not_le.mp hlt)
    apply hfree
    rw [← split_at_append ranges s]
    exact ⟨r, mem_append_right _ hr, hle, h.ends_after r hr⟩
  refine ordered_append.mpr ⟨hsplit.1, ordered_cons.mpr ⟨hnext.lt, hstarts, hsplit.2.1⟩, ?_⟩
  intro r hr r' hr'
  rcases mem_cons.mp hr' with rfl | hr'
  · exact ends_before r hr
  · exact hsplit.2.2 r hr r' hr'

theorem covers_insert (hnext : Next s s') (x : α) :
    Covers ((split_at ranges s).1 ++ (s, s') :: (split_at ranges s).2) x ↔
      Covers ranges x ∨ x = s := by
  have hone : s ≤ x ∧ x < s' ↔ x = s := by
    rw [hnext x]
    exact ⟨fun ⟨hle, hge⟩ => le_antisymm hge hle, fun heq => ⟨heq.ge, heq.le⟩⟩
  rw [covers_append, covers_cons, hone, or_left_comm, ← covers_append, split_at_append, or_comm]

/-- One element taken out of the first range past the split: the parts of it on either side of the
element stay. -/
def without (range : α × α) (s s' : α) : List (α × α) :=
  (if range.1 < s then [(range.1, s)] else []) ++ (if s' < range.2 then [(s', range.2)] else [])

theorem covers_without (hnext : Next s s') (hlo : range.1 ≤ s) (hhi : s < range.2)
    (x : α) : Covers (without range s s') x ↔ (range.1 ≤ x ∧ x < range.2) ∧ x ≠ s := by
  have hs' : s' ≤ range.2 := le_of_not_gt (fun hlt => absurd ((hnext _).mp hlt) (not_le_of_gt hhi))
  have hafter : s' ≤ x ↔ s < x := by
    rw [← not_lt, hnext x, not_le]
  have hleft : Covers (if range.1 < s then [(range.1, s)] else []) x ↔ range.1 ≤ x ∧ x < s := by
    split
    · simp [covers_cons]
    · next hge =>
      simp only [not_covers_nil, false_iff, not_and, not_lt]
      exact fun hx => (not_lt.mp hge).trans hx
  have hright : Covers (if s' < range.2 then [(s', range.2)] else []) x ↔ s < x ∧ x < range.2 := by
    split
    · simp [covers_cons, hafter]
    · next hge =>
      simp only [not_covers_nil, false_iff, not_and, not_lt]
      exact fun hx => (not_lt.mp hge).trans (hafter.mpr hx)
  unfold without
  rw [covers_append, hleft, hright]
  constructor
  · rintro (⟨hx, hlt⟩ | ⟨hlt, hx⟩)
    · exact ⟨⟨hx, hlt.trans hhi⟩, hlt.ne⟩
    · exact ⟨⟨hlo.trans hlt.le, hx⟩, hlt.ne'⟩
  · rintro ⟨⟨hx, hlt⟩, hne⟩
    rcases lt_or_gt_of_ne hne with h | h
    · exact .inl ⟨hx, h⟩
    · exact .inr ⟨h, hlt⟩

theorem ordered_without (hnext : Next s s') : Ordered (without range s s') := by
  unfold without
  refine ordered_append.mpr ⟨?_, ?_, ?_⟩
  · split
    · next hlt => exact ordered_cons.mpr ⟨hlt, by simp, ordered_nil⟩
    · exact ordered_nil
  · split
    · next hlt => exact ordered_cons.mpr ⟨hlt, by simp, ordered_nil⟩
    · exact ordered_nil
  · intro r hr r' hr'
    split at hr <;> split at hr' <;> simp_all
    exact hnext.lt.le

/-- What stays of a range lies within it. -/
theorem within_without (hnext : Next s s') (hlo : range.1 ≤ s) (hhi : s < range.2)
    {r : α × α} (hr : r ∈ without range s s') : range.1 ≤ r.1 ∧ r.2 ≤ range.2 := by
  unfold without at hr
  rcases mem_append.mp hr with hr | hr
  · split at hr
    · obtain rfl := mem_singleton.mp hr
      exact ⟨le_rfl, hhi.le⟩
    · cases hr
  · split at hr
    · obtain rfl := mem_singleton.mp hr
      exact ⟨hlo.trans hnext.lt.le, le_rfl⟩
    · cases hr

/-- An ordered list after one element of a range is taken out. -/
theorem Ordered.take_out {before after : List (α × α)}
    (h : Ordered (before ++ range :: after)) (hnext : Next s s') (hlo : range.1 ≤ s)
    (hhi : s < range.2) : Ordered (before ++ (without range s s' ++ after)) := by
  obtain ⟨hbefore, hrest, hcross⟩ := ordered_append.mp h
  obtain ⟨hfilled, hhead, hafter⟩ := ordered_cons.mp hrest
  refine ordered_append.mpr ⟨hbefore, ordered_append.mpr ⟨ordered_without hnext, hafter, ?_⟩, ?_⟩
  · intro r hr r' hr'
    exact (within_without hnext hlo hhi hr).2.trans (hhead r' hr')
  · intro r hr r' hr'
    rcases mem_append.mp hr' with hr' | hr'
    · exact (hcross r hr range mem_cons_self).trans (within_without hnext hlo hhi hr').1
    · exact hcross r hr r' (mem_cons_of_mem _ hr')

theorem Ordered.covers_take_out {before after : List (α × α)}
    (h : Ordered (before ++ range :: after)) (hnext : Next s s') (hlo : range.1 ≤ s)
    (hhi : s < range.2) (x : α) : Covers (before ++ (without range s s' ++ after)) x ↔
      Covers (before ++ range :: after) x ∧ x ≠ s := by
  obtain ⟨_, hrest, hcross⟩ := ordered_append.mp h
  have hbefore : Covers before x → x ≠ s := by
    rintro ⟨r, hr, _, hlt⟩ rfl
    exact absurd (hlt.trans_le (hcross r hr range mem_cons_self)) (not_lt_of_ge hlo)
  have hafter : Covers after x → x ≠ s := by
    rintro ⟨r, hr, hle, _⟩ rfl
    exact absurd (hhi.trans_le ((ordered_cons.mp hrest).2.1 r hr)) (not_lt_of_ge hle)
  rw [covers_append, covers_append, covers_without hnext hlo hhi, covers_append, covers_cons]
  tauto

/-- One more element above all others goes into the last range, or opens one. -/
def push (ranges : List (α × α)) (s s' : α) : List (α × α) :=
  match ranges.getLast? with
  | some (start, stop) => if stop = s then ranges.dropLast ++ [(start, s')] else ranges ++ [(s, s')]
  | none => [(s, s')]

theorem push_eq (ranges : List (α × α)) (s s' : α) : push ranges s s' = ranges ++ [(s, s')] ∨
    ∃ before start, ranges = before ++ [(start, s)] ∧ push ranges s s' = before ++ [(start, s')] := by
  unfold push
  cases hlast : ranges.getLast? with
  | none =>
    left
    rw [List.getLast?_eq_none_iff.mp hlast]
    rfl
  | some last =>
    obtain ⟨start, stop⟩ := last
    dsimp only
    split
    · next heq =>
      subst heq
      obtain ⟨before, rfl⟩ := List.getLast?_eq_some_iff.mp hlast
      exact .inr ⟨before, start, rfl, by rw [dropLast_concat]⟩
    · exact .inl rfl

theorem Ordered.push (h : Ordered ranges) (hnext : Next s s') (habove : ∀ r ∈ ranges, r.2 ≤ s) :
    Ordered (push ranges s s') ∧ ∀ x, Covers (push ranges s s') x ↔ Covers ranges x ∨ x = s := by
  have hone : ∀ x, s ≤ x ∧ x < s' ↔ x = s := by
    intro x
    rw [hnext x]
    exact ⟨fun ⟨hle, hge⟩ => le_antisymm hge hle, fun heq => ⟨heq.ge, heq.le⟩⟩
  rcases push_eq ranges s s' with hpush | ⟨before, start, rfl, hpush⟩
  · rw [hpush]
    refine ⟨ordered_append.mpr ⟨h, ordered_cons.mpr ⟨hnext.lt, by simp, ordered_nil⟩, ?_⟩, ?_⟩
    · intro r hr r' hr'
      obtain rfl := mem_singleton.mp hr'
      exact habove r hr
    · intro x
      rw [covers_append, covers_cons, hone x, or_iff_left not_covers_nil]
  · rw [hpush]
    obtain ⟨hbefore, hlast, hcross⟩ := ordered_append.mp h
    have hfilled : start < s := (ordered_cons.mp hlast).1
    refine ⟨ordered_append.mpr ⟨hbefore,
      ordered_cons.mpr ⟨hfilled.trans hnext.lt, by simp, ordered_nil⟩, ?_⟩, ?_⟩
    · intro r hr r' hr'
      obtain rfl := mem_singleton.mp hr'
      exact hcross r hr (start, s) mem_cons_self
    · intro x
      rw [covers_append, covers_append, covers_cons, covers_cons, or_iff_left not_covers_nil,
        or_iff_left not_covers_nil, or_assoc, hnext x]
      have hlonger : start ≤ x ∧ x ≤ s ↔ (start ≤ x ∧ x < s) ∨ x = s := by
        constructor
        · rintro ⟨hle, hlast⟩
          rcases hlast.lt_or_eq with hlt | heq
          · exact .inl ⟨hle, hlt⟩
          · exact .inr heq
        · rintro (⟨hle, hlt⟩ | rfl)
          · exact ⟨hle, hlt.le⟩
          · exact ⟨hfilled.le, le_rfl⟩
      rw [hlonger]

/-- The ends of the ranges after a push. -/
theorem push_ends (hnext : Next s s') (habove : ∀ r ∈ ranges, r.2 ≤ s) :
    ∀ r ∈ push ranges s s', r.2 ≤ s' := by
  intro r hr
  have hold : ∀ r ∈ ranges, r.2 ≤ s' := fun r hr => (habove r hr).trans hnext.lt.le
  rcases push_eq ranges s s' with hpush | ⟨before, start, rfl, hpush⟩
  · rw [hpush] at hr
    rcases mem_append.mp hr with hr | hr
    · exact hold r hr
    · obtain rfl := mem_singleton.mp hr
      exact le_rfl
  · rw [hpush] at hr
    rcases mem_append.mp hr with hr | hr
    · exact hold r (mem_append_left _ hr)
    · obtain rfl := mem_singleton.mp hr
      exact le_rfl

end Ranges
