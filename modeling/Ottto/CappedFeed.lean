-- A feed of items that arrive one at a time or in batches. A reader keeps at least `n` of them when
-- there are so many: it looks at its count after each arrival, and reads each batch the same way,
-- on a count of its own.
import Mathlib.Tactic

namespace capped_feed

open List

inductive Feed (α : Type)
  | item (a : α)
  | batch (inner : List (Feed α))

variable {α : Type}

mutual

/-- All the items, in order. -/
def Feed.leaves : Feed α → List α
  | .item a => [a]
  | .batch inner => leaves inner

def leaves : List (Feed α) → List α
  | [] => []
  | x :: xs => x.leaves ++ leaves xs

end

mutual

def Feed.kept (n : Nat) : Feed α → List α
  | .item a => [a]
  | .batch inner => keep n [] inner

/-- What the reader holds in the end, from `out` on. -/
def keep (n : Nat) (out : List α) : List (Feed α) → List α
  | [] => out
  | x :: xs => if n ≤ (out ++ x.kept n).length then out ++ x.kept n else keep n (out ++ x.kept n) xs

end

/-- Some batch holds both the `n`th item and the one after it, and does not hold the first one. -/
inductive Straddles (n : Nat) : List (Feed α) → Prop
  | across {pre inner post : List (Feed α)} (hpre : leaves pre ≠ []) (hstart : (leaves pre).length < n)
      (hend : n < (leaves pre ++ leaves inner).length) : Straddles n (pre ++ .batch inner :: post)
  /-- Nothing came before this batch, so it may hold the first item. -/
  | inside {pre inner post : List (Feed α)} (hpre : leaves pre = []) (h : Straddles n inner) :
      Straddles n (pre ++ .batch inner :: post)

mutual

/-- An arrival gives all its items, or at least `n` of its first ones. -/
theorem Feed.kept_spec (n : Nat) : ∀ x : Feed α, x.kept n <+: x.leaves ∧
    ((x.kept n).length < n → x.kept n = x.leaves)
  | .item a => by
    rw [Feed.kept, Feed.leaves]
    exact ⟨prefix_refl _, fun _ => rfl⟩
  | .batch inner => by
    have h := keep_spec n [] inner
    rw [nil_append] at h
    rw [Feed.kept, Feed.leaves]
    exact h

theorem keep_spec (n : Nat) (out : List α) : ∀ xs : List (Feed α),
    keep n out xs <+: out ++ leaves xs ∧
      ((keep n out xs).length < n → keep n out xs = out ++ leaves xs)
  | [] => by
    rw [keep, leaves, append_nil]
    exact ⟨prefix_refl _, fun _ => rfl⟩
  | x :: xs => by
    obtain ⟨hinit, hall⟩ := Feed.kept_spec n x
    rw [keep, leaves]
    split
    · rename_i hfull
      refine ⟨?_, fun hless => absurd hless (Nat.not_lt.mpr hfull)⟩
      rw [← append_assoc]
      exact ((prefix_append_right_inj out).mpr hinit).trans (prefix_append _ _)
    · rename_i hroom
      have hx : x.kept n = x.leaves := hall (by rw [length_append] at hroom; omega)
      have h := keep_spec n (out ++ x.kept n) xs
      rw [hx, append_assoc] at h
      rw [hx]
      exact h

end

variable {n : Nat} {out : List α} {x : Feed α} {xs : List (Feed α)}

theorem keep_full (h : n ≤ (out ++ x.kept n).length) : keep n out (x :: xs) = out ++ x.kept n := by
  rw [keep, if_pos h]

theorem keep_on
    (h : ¬ n ≤ (out ++ x.kept n).length) : keep n out (x :: xs) = keep n (out ++ x.kept n) xs := by
  rw [keep, if_neg h]

/-- The batch after `out` holds the `n`th item and the one after it, and not the first. -/
def Crosses (n : Nat) (out : List α) (inner : List (Feed α)) : Prop :=
  (out = [] ∧ Straddles n inner) ∨
    (out ≠ [] ∧ out.length < n ∧ n < (out ++ leaves inner).length)

theorem straddles_iff :
    Straddles n xs ↔
      ∃ pre inner post, xs = pre ++ .batch inner :: post ∧ Crosses n (leaves pre) inner := by
  constructor
  · intro h
    cases h with
    | across hpre hstart hend => exact ⟨_, _, _, rfl, .inr ⟨hpre, hstart, hend⟩⟩
    | inside hpre h => exact ⟨_, _, _, rfl, .inl ⟨hpre, h⟩⟩
  · rintro ⟨pre, inner, post, rfl, ⟨hpre, h⟩ | ⟨hpre, hstart, hend⟩⟩
    · exact Straddles.inside hpre h
    · exact Straddles.across hpre hstart hend

/-- The batch that crosses is the first arrival, or one of the others. -/
theorem crosses_in_cons :
    (∃ pre inner post, x :: xs = pre ++ .batch inner :: post ∧ Crosses n (out ++ leaves pre) inner) ↔
      (∃ inner, x = .batch inner ∧ Crosses n out inner) ∨
        ∃ pre inner post, xs = pre ++ .batch inner :: post ∧
          Crosses n (out ++ x.leaves ++ leaves pre) inner := by
  constructor
  · rintro ⟨_ | ⟨y, pre⟩, inner, post, heq, h⟩
    · rw [leaves, append_nil] at h
      exact .inl ⟨inner, (List.cons.inj heq).1, h⟩
    · obtain ⟨rfl, rfl⟩ := List.cons.inj heq
      rw [leaves, ← append_assoc] at h
      exact .inr ⟨pre, inner, post, rfl, h⟩
  · rintro (⟨inner, rfl, h⟩ | ⟨pre, inner, post, rfl, h⟩)
    · refine ⟨[], inner, xs, rfl, ?_⟩
      rwa [leaves, append_nil]
    · refine ⟨x :: pre, inner, post, rfl, ?_⟩
      rwa [leaves, ← append_assoc]

/-- One batch: what is kept of it goes over the limit exactly when it crosses it. -/
theorem batch_over_iff (hout : out.length < n) {inner : List (Feed α)}
    (hinner : n < (keep n [] inner).length ↔ Straddles n inner) :
    n < (out ++ keep n [] inner).length ↔ Crosses n out inner := by
  obtain ⟨hinit, hall⟩ := keep_spec n [] inner
  rw [nil_append] at hinit hall
  have hle := hinit.length_le
  by_cases hnil : out = []
  · simp [Crosses, hnil, hinner]
  · have hpos := length_pos_iff.mpr hnil
    simp only [Crosses, hnil, false_and, not_false_eq_true, true_and, false_or, hout, ne_eq,
      length_append]
    constructor
    · intro h
      omega
    · intro h
      by_cases hroom : (keep n [] inner).length < n
      · rw [hall hroom]
        exact h
      · omega

/-- More than `n` items are held exactly when a batch crosses the limit. The batch read on its own
has the same question at its start. -/
theorem keep_over_iff (out : List α) (hout : out.length < n) : ∀ xs : List (Feed α),
    n < (keep n out xs).length ↔
      ∃ pre inner post, xs = pre ++ .batch inner :: post ∧ Crosses n (out ++ leaves pre) inner
  | [] => by
    rw [keep]
    constructor
    · intro h
      omega
    · rintro ⟨pre, inner, post, h, -⟩
      simp at h
  | .item a :: xs => by
    have hfirst : ¬ ∃ inner, Feed.item a = .batch inner ∧ Crosses n out inner := by
      rintro ⟨inner, h, -⟩
      cases h
    rw [crosses_in_cons, or_iff_right hfirst, keep, Feed.kept, Feed.leaves]
    have hlen : (out ++ [a]).length = out.length + 1 := by simp
    split
    · constructor
      · intro h
        omega
      · rintro ⟨pre, inner, post, -, ⟨hnil, -⟩ | ⟨-, hless, -⟩⟩
        · simp at hnil
        · simp only [length_append, length_singleton] at hless
          omega
    · exact keep_over_iff (out ++ [a]) (by omega) xs
  | .batch inner :: xs => by
    have hstart : n < (keep n [] inner).length ↔ Straddles n inner := by
      rw [keep_over_iff [] (Nat.zero_lt_of_lt hout) inner, straddles_iff]
      rfl
    have hbatch := batch_over_iff hout hstart
    obtain ⟨hinit, hall⟩ := keep_spec n [] inner
    rw [nil_append] at hinit hall
    have hle := hinit.length_le
    have hfirst : (∃ inner', Feed.batch inner = .batch inner' ∧ Crosses n out inner') ↔
        Crosses n out inner := by
      constructor
      · rintro ⟨inner', h, hcross⟩
        cases h
        exact hcross
      · intro h
        exact ⟨inner, rfl, h⟩
    rw [crosses_in_cons, keep, Feed.kept, Feed.leaves, hfirst]
    split
    · rename_i hfull
      have hrest : ¬ ∃ pre inner' post, xs = pre ++ .batch inner' :: post ∧
          Crosses n (out ++ leaves inner ++ leaves pre) inner' := by
        rw [length_append] at hfull
        rintro ⟨pre, inner', post, -, ⟨hnil, -⟩ | ⟨-, hless, -⟩⟩
        · have := congrArg List.length hnil
          simp only [length_append, length_nil] at this
          omega
        · simp only [length_append] at hless
          omega
      rw [or_iff_left hrest]
      exact hbatch
    · rename_i hroom
      have hkept : keep n [] inner = leaves inner :=
        hall (by rw [length_append] at hroom; omega)
      have hcross : ¬ Crosses n out inner := by
        rw [← hbatch]
        omega
      rw [or_iff_right hcross, hkept]
      exact keep_over_iff (out ++ leaves inner) (by rw [← hkept]; omega) xs

/-- A reader that starts with nothing. -/
theorem keep_le_iff (hn : 0 < n) (xs : List (Feed α)) :
    (keep n [] xs).length ≤ n ↔ ¬ Straddles n xs := by
  have h := keep_over_iff [] hn xs
  simp only [nil_append] at h
  rw [straddles_iff, ← h, Nat.not_lt]

theorem keep_all (h : (keep n [] xs).length < n) :
    keep n [] xs = leaves xs :=
  (keep_spec n [] xs).2 h

/-- The first item held is the first item there is. -/
theorem keep_head (hn : 0 < n) (xs : List (Feed α)) :
    (keep n [] xs).head? = (leaves xs).head? := by
  obtain ⟨hinit, hall⟩ := keep_spec n [] xs
  rw [nil_append] at hinit hall
  cases hkeep : keep n [] xs with
  | nil =>
    rw [← hall (by rw [hkeep]; exact hn), hkeep]
  | cons a rest =>
    obtain ⟨more, hmore⟩ := hinit
    rw [← hmore, hkeep]
    rfl

end capped_feed
