-- Scans that read a map one bounded page at a time, while what they read is deleted.
-- Nothing here is about one program.
import Mathlib.Data.List.TakeWhile
import Ottto.SortedMap

namespace paging

open List Bool SortedMap

variable {α β : Type} [LinearOrder α]

/-- The first keys that pass, at most `limit`. -/
def page (limit : Nat) (p : α → Bool) (m : SortedMap α β) : List α := (m.keys.filter p).take limit

def eraseAll (m : SortedMap α β) (keys : List α) : SortedMap α β := keys.foldl SortedMap.erase m

section

variable {limit : Nat} {p own gone : α → Bool} {m : SortedMap α β}

theorem mem_page {k : α} (h : k ∈ page limit p m) : k ∈ m.keys ∧ p k = true :=
  mem_filter.mp ((take_sublist _ _).subset h)

theorem get?_eraseAll (keys : List α) (m : SortedMap α β) (k : α) :
    (eraseAll m keys).get? k = if k ∈ keys then none else m.get? k := by
  induction keys generalizing m with
  | nil => simp [eraseAll]
  | cons first keys ih =>
    have hcons : eraseAll m (first :: keys) = eraseAll (m.erase first) keys := rfl
    rw [hcons, ih, get?_erase]
    by_cases hfirst : k = first
    · simp [hfirst]
    · simp [hfirst]

theorem keys_erase (m : SortedMap α β) (k : α) : (m.erase k).keys.Sublist m.keys :=
  .map Prod.fst filter_sublist

theorem keys_eraseAll (keys : List α) (m : SortedMap α β) :
    (eraseAll m keys).keys.Sublist m.keys := by
  induction keys generalizing m with
  | nil => exact .refl _
  | cons first keys ih => exact (ih (m.erase first)).trans (keys_erase m first)

theorem size_eraseAll_lt {keys : List α} (hsome : keys ≠ []) (hkeys : ∀ k ∈ keys, k ∈ m.keys) :
    (eraseAll m keys).size < m.size := by
  cases keys with
  | nil => exact absurd rfl hsome
  | cons first keys =>
    have hin : m.contains first = true := mem_keys_iff.mp (hkeys first mem_cons_self)
    have hrest : (eraseAll (m.erase first) keys).size ≤ (m.erase first).size := by
      have hlength := (keys_eraseAll keys (m.erase first)).length_le
      rw [SortedMap.keys, SortedMap.keys, length_map, length_map] at hlength
      exact hlength
    have hfirst := size_erase m hin
    show (eraseAll (m.erase first) keys).size < m.size
    omega

end

/-! ## Pages of one range, until none is left -/

/-- Deletes the first page over and over. -/
def drain (limit : Nat) (p : α → Bool) (m : SortedMap α β) : SortedMap α β :=
  if h : page limit p m = [] then m
  else
    have : (eraseAll m (page limit p m)).size < m.size :=
      size_eraseAll_lt h (fun _ hk => (mem_page hk).1)
    drain limit p (eraseAll m (page limit p m))
termination_by m.size

section

variable {limit : Nat} {p : α → Bool} {m : SortedMap α β}

theorem page_eq_nil (hlimit : 0 < limit) : page limit p m = [] ↔ ∀ k ∈ m.keys, p k = false := by
  unfold page
  rw [take_eq_nil_iff, filter_eq_nil_iff]
  simp [Nat.ne_of_gt hlimit]

theorem filterKeys_of_all (h : ∀ k ∈ m.keys, p k = true) : m.filterKeys p = m := by
  ext1 k
  rw [get?_filterKeys]
  split
  · rfl
  case isFalse hp =>
    by_contra hsome
    exact hp (h k (mem_keys_iff.mpr (Option.isSome_iff_ne_none.mpr (Ne.symm hsome))))

/-- Whatever the size of a page, all that passes goes and nothing else does. -/
theorem drain_eq (hlimit : 0 < limit) (m : SortedMap α β) :
    drain limit p m = m.filterKeys (fun k => !p k) := by
  induction hsize : m.size using Nat.strong_induction_on generalizing m with
  | _ size ih =>
    rw [drain]
    split
    case isTrue hnone =>
      have hall := (page_eq_nil hlimit).mp hnone
      exact (filterKeys_of_all (fun k hk => by simp [hall k hk])).symm
    case isFalse hsome =>
      have hless : (eraseAll m (page limit p m)).size < m.size :=
        size_eraseAll_lt hsome (fun _ hk => (mem_page hk).1)
      rw [ih _ (hsize ▸ hless) _ rfl]
      ext1 k
      rw [get?_filterKeys, get?_filterKeys, get?_eraseAll]
      by_cases hpage : k ∈ page limit p m
      · simp [(mem_page hpage).2]
      · simp [hpage]

end

/-! ## A walk in key order -/

/-- The keys that a walk has still to see. -/
def later (m : SortedMap α β) (after : α) : Nat := (m.keys.filter (fun k => decide (after < k))).length

theorem later_lt {m n : SortedMap α β} {after last : α} (hkeys : n.keys.Sublist m.keys)
    (hlast : last ∈ m.keys) (hafter : after < last) : later n last < later m after := by
  have hfewer : later n last ≤ later m last := (hkeys.filter _).length_le
  have hstrict : later m last < later m after := by
    unfold later
    have hsub : m.keys.filter (fun k => decide (last < k)) =
        (m.keys.filter (fun k => decide (after < k))).filter (fun k => decide (last < k)) := by
      rw [filter_filter]
      apply filter_congr
      intro k _
      by_cases hk : last < k
      · simp [hk, lt_trans hafter hk]
      · simp [hk]
    rw [hsub]
    apply length_filter_lt_length_iff_exists.mpr
    exact ⟨last, mem_filter.mpr ⟨hlast, by simpa using hafter⟩, by simp⟩
  omega

/-- The keys of the next page that are its own, up to one that is not. -/
def mine (limit : Nat) (p own : α → Bool) (after : α) (m : SortedMap α β) : List α :=
  (page limit (fun k => p k && decide (after < k)) m).takeWhile own

theorem mem_mine {limit : Nat} {p own : α → Bool} {after k : α} {m : SortedMap α β}
    (h : k ∈ mine limit p own after m) :
    k ∈ m.keys ∧ p k = true ∧ after < k ∧ own k = true := by
  obtain ⟨hin, hp⟩ := mem_page ((takeWhile_sublist _).subset h)
  have hown := mem_takeWhile_imp h
  rw [and_eq_true, decide_eq_true_eq] at hp
  exact ⟨hin, hp.1, hp.2, hown⟩

/-- Goes on behind the last key it saw, and deletes what is gone of its own. -/
def sweep (limit : Nat) (p own gone : α → Bool) (after : α) (m : SortedMap α β) : SortedMap α β :=
  match h : (mine limit p own after m).getLast? with
  | none => m
  | some last =>
    have : later (eraseAll m ((mine limit p own after m).filter gone)) last < later m after :=
      have hlast := mem_mine (mem_of_getLast? h)
      later_lt (keys_eraseAll _ m) hlast.1 hlast.2.2.1
    sweep limit p own gone last (eraseAll m ((mine limit p own after m).filter gone))
termination_by later m after

section

variable {limit : Nat} {p own gone : α → Bool} {after : α}

/-- The keys that a walk has before it, in their order. -/
theorem mine_prefix (limit : Nat) (p own : α → Bool) (after : α) (m : SortedMap α β) :
    mine limit p own after m <+: m.keys.filter (fun k => p k && decide (after < k)) :=
  (List.takeWhile_prefix own).trans (List.take_prefix limit _)

theorem ahead_sorted (m : SortedMap α β) (q : α → Bool) :
    (m.keys.filter q).Pairwise (fun a b => a < b) :=
  (pairwise_map.mpr m.sorted).filter q

/-- What comes first of a range that starts with the walk's own keys. -/
theorem mine_eq_nil (hlimit : 0 < limit) {m : SortedMap α β}
    (hconvex : ∀ a b, p a = true → p b = true → after < a → a < b → own b = true → own a = true)
    (h : mine limit p own after m = []) :
    ∀ k ∈ m.keys, p k = true → after < k → own k = false := by
  intro k hk hp hafter
  have hsorted := ahead_sorted m (fun k => p k && decide (after < k))
  have hin : k ∈ m.keys.filter (fun k => p k && decide (after < k)) :=
    mem_filter.mpr ⟨hk, by simp [hp, hafter]⟩
  have hfirst : ∀ x ∈ m.keys.filter (fun k => p k && decide (after < k)),
      p x = true ∧ after < x := by
    intro x hx
    simpa using (mem_filter.mp hx).2
  unfold mine page at h
  generalize m.keys.filter (fun k => p k && decide (after < k)) = ahead at h hin hsorted hfirst
  cases ahead with
  | nil => cases hin
  | cons x ahead =>
    obtain ⟨n, rfl⟩ : ∃ n, limit = n + 1 := ⟨limit - 1, by omega⟩
    rw [take_succ_cons, takeWhile_cons] at h
    have hx : own x = false := by
      by_contra hx
      simp [eq_true_of_not_eq_false hx] at h
    by_contra hown
    rcases mem_cons.mp hin with rfl | hrest
    · exact hown hx
    · obtain ⟨hpx, hafterx⟩ := hfirst x mem_cons_self
      have hless := (pairwise_cons.mp hsorted).1 k hrest
      have := hconvex x k hpx hp hafterx hless (eq_true_of_not_eq_false hown)
      rw [hx] at this
      cases this

/-- Up to the last key of its page, a walk has seen all that are its own. -/
theorem mem_mine_of_le {m : SortedMap α β} {last k : α}
    (hlast : (mine limit p own after m).getLast? = some last) (hk : k ∈ m.keys) (hp : p k = true)
    (hafter : after < k) (hle : ¬ last < k) : k ∈ mine limit p own after m := by
  obtain ⟨rest, hrest⟩ := mine_prefix limit p own after m
  have hin : k ∈ m.keys.filter (fun k => p k && decide (after < k)) :=
    mem_filter.mpr ⟨hk, by simp [hp, hafter]⟩
  have hsorted := ahead_sorted m (fun k => p k && decide (after < k))
  rw [← hrest] at hin hsorted
  rcases mem_append.mp hin with hmine | hbehind
  · exact hmine
  · exact absurd ((pairwise_append.mp hsorted).2.2 last (mem_of_getLast? hlast) k hbehind) hle

/-- A walk over a range whose own keys come first deletes what is gone of them, and
nothing else, whatever the size of a page. -/
theorem sweep_eq (hlimit : 0 < limit)
    (hconvex : ∀ a b, p a = true → p b = true → after < a → a < b → own b = true → own a = true)
    (m : SortedMap α β) :
    sweep limit p own gone after m =
      m.filterKeys (fun k => !(p k && decide (after < k) && own k && gone k)) := by
  induction hsize : later m after using Nat.strong_induction_on generalizing m after with
  | _ size ih =>
    rw [sweep]
    split
    case h_1 hnone =>
      have hall := mine_eq_nil hlimit hconvex (List.getLast?_eq_none_iff.mp hnone)
      apply (filterKeys_of_all _).symm
      intro k hk
      by_cases hp : p k = true
      · by_cases hafter : after < k
        · simp [hall k hk hp hafter]
        · simp [hafter]
      · simp [hp]
    case h_2 last hlast =>
      obtain ⟨hin, -, hafter, -⟩ := mem_mine (mem_of_getLast? hlast)
      have hless : later (eraseAll m ((mine limit p own after m).filter gone)) last < later m after :=
        later_lt (keys_eraseAll _ m) hin hafter
      rw [ih _ (hsize ▸ hless) (fun a b hpa hpb ha => hconvex a b hpa hpb (lt_trans hafter ha)) _ rfl]
      ext1 k
      rw [get?_filterKeys, get?_filterKeys, get?_eraseAll]
      by_cases hk : k ∈ m.keys
      · by_cases hgone : p k = true ∧ after < k ∧ own k = true ∧ gone k = true
        · obtain ⟨hp, hk', hown, hg⟩ := hgone
          by_cases hbehind : last < k
          · simp [hp, hk', hown, hg, hbehind]
          · have hmine := mem_mine_of_le hlast hk hp hk' hbehind
            simp [hp, hk', hown, hg, hmine]
        · have hkept : k ∉ (mine limit p own after m).filter gone := by
            intro hdeleted
            obtain ⟨hmine, hg⟩ := mem_filter.mp hdeleted
            obtain ⟨-, hp, hk', hown⟩ := mem_mine hmine
            exact hgone ⟨hp, hk', hown, hg⟩
          have hbefore : (p k && decide (after < k) && own k && gone k) = false := by
            by_contra htrue
            simp only [not_eq_false, and_eq_true, decide_eq_true_eq] at htrue
            exact hgone ⟨htrue.1.1.1, htrue.1.1.2, htrue.1.2, htrue.2⟩
          have hbehind : (p k && decide (last < k) && own k && gone k) = false := by
            by_contra htrue
            simp only [not_eq_false, and_eq_true, decide_eq_true_eq] at htrue
            exact hgone ⟨htrue.1.1.1, lt_trans hafter htrue.1.1.2, htrue.1.2, htrue.2⟩
          simp [hkept, hbefore, hbehind]
      · have hnone : m.get? k = none := by
          by_contra hsome
          exact hk (mem_keys_iff.mpr (Option.isSome_iff_ne_none.mpr hsome))
        simp [hnone]

end

end paging
