-- An ordered map, as `BTreeMap` of the Rust standard library: one entry for
-- each key, and a walk over the entries in the order of the keys. Nothing
-- here is about one program.
import Mathlib.Data.String.Basic
import Mathlib.Data.Prod.Lex
import Mathlib.Tactic

/-- Entries with strictly rising keys. -/
structure SortedMap (α : Type) (β : Type) [LinearOrder α] where
  entries : List (α × β)
  sorted : entries.Pairwise (fun a b => a.1 < b.1)

namespace SortedMap

open List Option

variable {α β γ : Type} [LinearOrder α]

instance [DecidableEq β] : DecidableEq (SortedMap α β) := fun m n =>
  decidable_of_iff (m.entries = n.entries) (by cases m; cases n; simp)

/-! ## The operations on a list of entries -/

def lookupEntry (k : α) : List (α × β) → Option β
  | [] => none
  | (k', v) :: rest => if k = k' then some v else lookupEntry k rest

def insertEntry (k : α) (v : β) : List (α × β) → List (α × β)
  | [] => [(k, v)]
  | (k', v') :: rest =>
    if k < k' then (k, v) :: (k', v') :: rest
    else if k = k' then (k, v) :: rest
    else (k', v') :: insertEntry k v rest

def eraseEntry (k : α) (l : List (α × β)) : List (α × β) := l.filter (fun e => e.1 ≠ k)

variable {k : α} {v : β} {l : List (α × β)}

theorem mem_insertEntry {e : α × β} (h : e ∈ insertEntry k v l) : e = (k, v) ∨ e ∈ l := by
  induction l with
  | nil => simpa [insertEntry] using h
  | cons a l ih =>
    obtain ⟨k', v'⟩ := a
    unfold insertEntry at h
    split_ifs at h with h1 h2
    · simpa using h
    · simp only [mem_cons] at h ⊢
      rcases h with h | h
      · exact .inl h
      · exact .inr (.inr h)
    · simp only [mem_cons] at h ⊢
      rcases h with h | h
      · exact .inr (.inl h)
      · rcases ih h with h | h
        · exact .inl h
        · exact .inr (.inr h)

theorem insertEntry_sorted (k : α) (v : β) (h : l.Pairwise (fun a b => a.1 < b.1)) :
    (insertEntry k v l).Pairwise (fun a b => a.1 < b.1) := by
  induction l with
  | nil => simp [insertEntry]
  | cons a l ih =>
    obtain ⟨k', v'⟩ := a
    obtain ⟨hhead, htail⟩ := pairwise_cons.mp h
    unfold insertEntry
    split_ifs with h1 h2
    · refine pairwise_cons.mpr ⟨?_, h⟩
      intro e he
      rcases mem_cons.mp he with rfl | he
      · exact h1
      · exact lt_trans h1 (hhead e he)
    · subst h2
      exact pairwise_cons.mpr ⟨hhead, htail⟩
    · refine pairwise_cons.mpr ⟨?_, ih htail⟩
      intro e he
      rcases mem_insertEntry he with rfl | he
      · exact lt_of_le_of_ne (not_lt.mp h1) (Ne.symm h2)
      · exact hhead e he

theorem lookupEntry_eq_none_of_lt (h : ∀ e ∈ l, k < e.1) :
    lookupEntry k l = none := by
  induction l with
  | nil => rfl
  | cons a l ih =>
    obtain ⟨k', v'⟩ := a
    have hlt : k < k' := h (k', v') (by simp)
    rw [lookupEntry, if_neg hlt.ne]
    exact ih (fun e he => h e (mem_cons_of_mem _ he))

theorem lookupEntry_insertEntry (k k' : α) (v : β) (h : l.Pairwise (fun a b => a.1 < b.1)) :
    lookupEntry k' (insertEntry k v l) = if k' = k then some v else lookupEntry k' l := by
  induction l with
  | nil => simp [insertEntry, lookupEntry]
  | cons a l ih =>
    obtain ⟨k₁, v₁⟩ := a
    obtain ⟨hhead, htail⟩ := pairwise_cons.mp h
    unfold insertEntry
    by_cases hk : k' = k
    · subst hk
      rw [if_pos rfl]
      split_ifs with h1 h2
      · simp [lookupEntry]
      · simp [lookupEntry]
      · rw [lookupEntry, if_neg h2, ih htail]
        simp
    · rw [if_neg hk]
      split_ifs with h1 h2
      · rw [lookupEntry, if_neg hk]
      · subst h2
        rw [lookupEntry, if_neg hk, lookupEntry, if_neg hk]
      · rw [lookupEntry, ih htail, if_neg hk, lookupEntry]

theorem mem_iff_lookupEntry
    (h : l.Pairwise (fun a b => a.1 < b.1)) : (k, v) ∈ l ↔ lookupEntry k l = some v := by
  induction l with
  | nil => simp [lookupEntry]
  | cons a l ih =>
    obtain ⟨k', v'⟩ := a
    obtain ⟨hhead, htail⟩ := pairwise_cons.mp h
    rw [mem_cons, lookupEntry]
    by_cases hk : k = k'
    · subst hk
      have hnot : (k, v) ∉ l := fun hm => lt_irrefl k (hhead (k, v) hm)
      simp [hnot, eq_comm]
    · simp [hk, ih htail]

theorem lookupEntry_eraseEntry (k k' : α) (l : List (α × β)) :
    lookupEntry k' (eraseEntry k l) = if k' = k then none else lookupEntry k' l := by
  induction l with
  | nil => simp [eraseEntry, lookupEntry]
  | cons a l ih =>
    obtain ⟨k₁, v₁⟩ := a
    unfold eraseEntry at ih ⊢
    by_cases h1 : k₁ = k
    · subst h1
      simp only [ne_eq, not_true_eq_false, decide_false, Bool.false_eq_true, not_false_eq_true,
        filter_cons_of_neg, lookupEntry]
      rw [ih]
      split_ifs <;> rfl
    · simp only [ne_eq, h1, not_false_eq_true, decide_true, filter_cons_of_pos, lookupEntry]
      rw [ih]
      split_ifs with h2 h3
      · subst h2; exact absurd h3 h1
      · rfl
      · rfl
      · rfl

/-- Two sorted lists with the same lookups are the same list. -/
theorem eq_of_lookupEntry_eq {l₁ l₂ : List (α × β)}
    (h₁ : l₁.Pairwise (fun a b => a.1 < b.1)) (h₂ : l₂.Pairwise (fun a b => a.1 < b.1))
    (h : ∀ k, lookupEntry k l₁ = lookupEntry k l₂) : l₁ = l₂ := by
  have hmem : ∀ e, e ∈ l₁ ↔ e ∈ l₂ := by
    rintro ⟨k, v⟩
    rw [mem_iff_lookupEntry h₁, mem_iff_lookupEntry h₂, h]
  have hnodup : ∀ {l : List (α × β)}, l.Pairwise (fun a b => a.1 < b.1) → l.Nodup := by
    intro l hl
    exact hl.imp (fun {a b} hab he => by subst he; exact lt_irrefl _ hab)
  have hperm : l₁.Perm l₂ := (perm_ext_iff_of_nodup (hnodup h₁) (hnodup h₂)).mpr hmem
  refine hperm.eq_of_pairwise ?_ h₁ h₂
  intro a b _ _ hab hba
  exact absurd hba (lt_asymm hab)

/-! ## The map -/

def empty : SortedMap α β := ⟨[], .nil⟩

instance : Inhabited (SortedMap α β) := ⟨empty⟩

def get? (m : SortedMap α β) (k : α) : Option β := lookupEntry k m.entries

def contains (m : SortedMap α β) (k : α) : Bool := (m.get? k).isSome

def insert (m : SortedMap α β) (k : α) (v : β) : SortedMap α β :=
  ⟨insertEntry k v m.entries, insertEntry_sorted k v m.sorted⟩

def erase (m : SortedMap α β) (k : α) : SortedMap α β :=
  ⟨eraseEntry k m.entries, m.sorted.filter _⟩

def size (m : SortedMap α β) : Nat := m.entries.length

/-- Every entry of `other` written over `m`, as `extend` does. -/
def extend (m other : SortedMap α β) : SortedMap α β :=
  other.entries.foldl (fun m e => m.insert e.1 e.2) m

/-- The entries whose key passes the test. -/
def filterKeys (p : α → Bool) (m : SortedMap α β) : SortedMap α β :=
  ⟨m.entries.filter (fun e => p e.1), m.sorted.filter _⟩

/-- The entries that pass the test, as `retain` keeps them. -/
def retain (p : α → β → Bool) (m : SortedMap α β) : SortedMap α β :=
  ⟨m.entries.filter (fun e => p e.1 e.2), m.sorted.filter _⟩

theorem filterMap_sorted {γ : Type} (f : α → β → Option γ) (h : l.Pairwise (fun a b => a.1 < b.1)) :
    (l.filterMap (fun e => (f e.1 e.2).map (fun v => (e.1, v)))).Pairwise
      (fun a b => a.1 < b.1) := by
  rw [pairwise_filterMap]
  refine h.imp ?_
  rintro a b hab a' ha b' hb
  obtain ⟨_, -, rfl⟩ := map_eq_some_iff.mp ha
  obtain ⟨_, -, rfl⟩ := map_eq_some_iff.mp hb
  exact hab

/-- The entries that map to a value, as `filter_map` collects them. -/
def filterMap {γ : Type} (f : α → β → Option γ) (m : SortedMap α β) : SortedMap α γ :=
  ⟨m.entries.filterMap (fun e => (f e.1 e.2).map (fun v => (e.1, v))), filterMap_sorted f m.sorted⟩

/-- The same keys, each value mapped. -/
def mapValues (f : β → γ) (m : SortedMap α β) : SortedMap α γ :=
  ⟨m.entries.map (fun e => (e.1, f e.2)), pairwise_map.mpr m.sorted⟩

def isEmpty (m : SortedMap α β) : Bool := m.entries.isEmpty

def keys (m : SortedMap α β) : List α := m.entries.map Prod.fst

def values (m : SortedMap α β) : List β := m.entries.map Prod.snd

variable {m : SortedMap α β}

theorem ext_entries {n : SortedMap α β} (h : m.entries = n.entries) : m = n := by
  obtain ⟨l₁, h₁⟩ := m
  obtain ⟨l₂, h₂⟩ := n
  cases h
  rfl

@[ext] theorem ext_get? {n : SortedMap α β} (h : ∀ k, m.get? k = n.get? k) : m = n := by
  obtain ⟨l₁, h₁⟩ := m
  obtain ⟨l₂, h₂⟩ := n
  have : l₁ = l₂ := eq_of_lookupEntry_eq h₁ h₂ h
  subst this
  rfl

@[simp] theorem get?_empty (k : α) : (empty : SortedMap α β).get? k = none := rfl

@[simp] theorem entries_empty : (empty : SortedMap α β).entries = [] := rfl

theorem get?_insert (m : SortedMap α β) (k k' : α) (v : β) :
    (m.insert k v).get? k' = if k' = k then some v else m.get? k' :=
  lookupEntry_insertEntry k k' v m.sorted

@[simp] theorem get?_insert_self (m : SortedMap α β) (k : α) (v : β) :
    (m.insert k v).get? k = some v := by
  simp [get?_insert]

theorem get?_insert_ne (m : SortedMap α β) {k k' : α} (v : β) (h : k' ≠ k) :
    (m.insert k v).get? k' = m.get? k' := by
  simp [get?_insert, h]

theorem insertEntry_of_lt (v : β) (h : ∀ e ∈ l, e.1 < k) :
    insertEntry k v l = l ++ [(k, v)] := by
  induction l with
  | nil => rfl
  | cons a l ih =>
    obtain ⟨k', v'⟩ := a
    have hlt : k' < k := h (k', v') (by simp)
    rw [insertEntry, if_neg hlt.not_gt, if_neg hlt.ne', cons_append,
      ih (fun e he => h e (mem_cons_of_mem _ he))]

/-- A key above all others goes last. -/
theorem entries_insert_of_lt (m : SortedMap α β) (v : β) (h : ∀ e ∈ m.entries, e.1 < k) :
    (m.insert k v).entries = m.entries ++ [(k, v)] := insertEntry_of_lt v h

theorem get?_erase (m : SortedMap α β) (k k' : α) :
    (m.erase k).get? k' = if k' = k then none else m.get? k' :=
  lookupEntry_eraseEntry k k' m.entries

theorem mem_entries :
    (k, v) ∈ m.entries ↔ m.get? k = some v :=
  mem_iff_lookupEntry m.sorted

variable {a : α} {b : β}

/-- What holds of the new entry and of the old ones holds of every entry after an insertion. -/
theorem forall_insert {p : α → β → Prop} (hv : p k v) (hm : ∀ a b, m.get? a = some b → p a b)
    (a : α) (b : β) (h : (m.insert k v).get? a = some b) : p a b := by
  rw [get?_insert] at h
  split at h
  · next heq =>
    cases h
    rwa [heq]
  · exact hm a b h

theorem get?_of_erase (h : (m.erase k).get? a = some b) : m.get? a = some b := by
  rw [get?_erase] at h
  split at h
  · cases h
  · exact h

theorem get?_retain (p : α → β → Bool) (m : SortedMap α β) (k : α) :
    (m.retain p).get? k = (m.get? k).filter (p k) := by
  apply Option.ext
  intro v
  rw [← mem_entries, filter_eq_some_iff, ← mem_entries]
  unfold retain
  rw [mem_filter]

theorem get?_filterKeys (p : α → Bool) (m : SortedMap α β) (k : α) :
    (m.filterKeys p).get? k = if p k then m.get? k else none := by
  show (m.retain (fun k _ => p k)).get? k = _
  rw [get?_retain]
  cases m.get? k <;> cases p k <;> simp

theorem get?_of_filterKeys {p : α → Bool} (h : (m.filterKeys p).get? a = some b) :
    m.get? a = some b := by
  rw [get?_filterKeys] at h
  split at h
  · exact h
  · cases h

theorem get?_filterMap {γ : Type} (f : α → β → Option γ) (m : SortedMap α β) (k : α) :
    (m.filterMap f).get? k = (m.get? k).bind (f k) := by
  apply Option.ext
  intro v
  rw [← mem_entries, bind_eq_some_iff]
  unfold filterMap
  rw [mem_filterMap]
  constructor
  · rintro ⟨⟨k', w⟩, hmem, hf⟩
    obtain ⟨v', hv, heq⟩ := map_eq_some_iff.mp hf
    cases heq
    exact ⟨w, mem_entries.mp hmem, hv⟩
  · rintro ⟨w, hget, hf⟩
    exact ⟨(k, w), mem_entries.mpr hget, by rw [hf]; rfl⟩

theorem get?_mapValues (f : β → γ) (m : SortedMap α β) (k : α) :
    (m.mapValues f).get? k = (m.get? k).map f := by
  show lookupEntry k (m.entries.map (fun e => (e.1, f e.2))) = (lookupEntry k m.entries).map f
  induction m.entries with
  | nil => rfl
  | cons e l ih =>
    obtain ⟨k', v⟩ := e
    by_cases hk : k = k'
    · simp [lookupEntry, hk]
    · simpa [lookupEntry, hk] using ih

theorem get?_foldl_insert (l : List (α × β)) (h : l.Pairwise (fun a b => a.1 < b.1))
    (m : SortedMap α β) (k : α) :
    (l.foldl (fun m e => m.insert e.1 e.2) m).get? k = (lookupEntry k l).or (m.get? k) := by
  induction l generalizing m with
  | nil => rfl
  | cons a l ih =>
    obtain ⟨k', v'⟩ := a
    obtain ⟨hhead, htail⟩ := pairwise_cons.mp h
    rw [foldl_cons, ih htail, get?_insert, lookupEntry]
    by_cases hk : k = k'
    · subst hk
      rw [if_pos rfl, if_pos rfl, lookupEntry_eq_none_of_lt hhead]
      rfl
    · rw [if_neg hk, if_neg hk]

theorem get?_extend (m other : SortedMap α β) (k : α) :
    (m.extend other).get? k = (other.get? k).or (m.get? k) :=
  get?_foldl_insert other.entries other.sorted m k

theorem extend_assoc (m n p : SortedMap α β) : (m.extend n).extend p = m.extend (n.extend p) := by
  ext1 k
  simp only [get?_extend]
  cases p.get? k <;> rfl

/-- `range(first..)` for as long as the keys pass. -/
def rangeWhile (m : SortedMap α β) (first : α) (p : α → Bool) : List (α × β) :=
  (m.entries.dropWhile (fun e => decide (e.1 < first))).takeWhile (fun e => p e.1)

/-- A range is a filter, where the keys that pass come first from `first` on. -/
theorem rangeWhile_eq_filter (m : SortedMap α β) {first : α} {p : α → Bool}
    (hfirst : ∀ k, p k = true → first ≤ k)
    (hconvex : ∀ a b, first ≤ a → a < b → p b = true → p a = true) :
    m.rangeWhile first p = m.entries.filter (fun e => p e.1) := by
  unfold rangeWhile
  have hsorted := m.sorted
  generalize m.entries = l at hsorted
  induction l with
  | nil => rfl
  | cons e l ih =>
    obtain ⟨hhead, htail⟩ := pairwise_cons.mp hsorted
    have ih := ih htail
    by_cases hbefore : e.1 < first
    · have hnot : ¬ p e.1 = true := fun hp => absurd hbefore (not_lt.mpr (hfirst _ hp))
      rw [dropWhile_cons, if_pos (decide_eq_true hbefore), filter_cons, if_neg hnot]
      exact ih
    · rw [dropWhile_cons, if_neg (by simpa using hbefore), takeWhile_cons, filter_cons]
      have hfrom : first ≤ e.1 := not_lt.mp hbefore
      by_cases hp : p e.1 = true
      · have hrest : l.dropWhile (fun e => decide (e.1 < first)) = l := by
          cases l with
          | nil => rfl
          | cons e' l' =>
            have hlt := lt_of_le_of_lt hfrom (hhead e' mem_cons_self)
            rw [dropWhile_cons, if_neg (by simpa using le_of_lt hlt)]
        rw [hrest] at ih
        simp only [hp, if_true, ih]
      · simp only [hp, if_false, Bool.false_eq_true]
        symm
        apply filter_eq_nil_iff.mpr
        intro e' he' hp'
        exact hp (hconvex e.1 e'.1 hfrom (hhead e' he') hp')

/-- `entry(k).or_insert(v)`. -/
def orInsert (m : SortedMap α β) (k : α) (v : β) : SortedMap α β :=
  if (m.get? k).isSome then m else m.insert k v

theorem get?_orInsert (m : SortedMap α β) (k k' : α) (v : β) :
    (m.orInsert k v).get? k' = (m.get? k').or (if k' = k then some v else none) := by
  unfold orInsert
  by_cases hthere : (m.get? k).isSome
  · rw [if_pos hthere]
    by_cases hk : k' = k
    · obtain ⟨old, hold⟩ := isSome_iff_exists.mp hthere
      rw [hk, hold]
      rfl
    · rw [if_neg hk, or_none]
  · rw [if_neg hthere, get?_insert]
    by_cases hk : k' = k
    · rw [if_pos hk, if_pos hk, hk, not_isSome_iff_eq_none.mp hthere]
      rfl
    · rw [if_neg hk, if_neg hk, or_none]

/-- Entries that are let in where the key is free. -/
theorem get?_foldl_orInsert (p : α → Bool) (l : List (α × β)) (m : SortedMap α β) (k : α) :
    (l.foldl (fun m e => if p e.1 then m.orInsert e.1 e.2 else m) m).get? k =
      (m.get? k).or (if p k then lookupEntry k l else none) := by
  induction l generalizing m with
  | nil => simp [lookupEntry]
  | cons e l ih =>
    obtain ⟨k', v⟩ := e
    rw [foldl_cons, ih, lookupEntry]
    by_cases hk : k = k'
    · subst hk
      by_cases hp : p k = true
      · simp only [if_pos hp, get?_orInsert, if_true]
        cases m.get? k <;> rfl
      · simp only [if_neg hp]
    · by_cases hp : p k' = true
      · simp only [if_pos hp, get?_orInsert, if_neg hk, or_none]
      · simp only [if_neg hp, if_neg hk]

theorem insert_insert (m : SortedMap α β) (k : α) (v w : β) :
    (m.insert k v).insert k w = m.insert k w := by
  ext1 k'
  simp only [get?_insert]
  split_ifs <;> rfl

theorem insert_comm (m : SortedMap α β) {k' : α} (v v' : β) (h : k ≠ k') :
    (m.insert k v).insert k' v' = (m.insert k' v').insert k v := by
  ext1 j
  simp only [get?_insert]
  split_ifs with h1 h2
  · subst h1; exact absurd h2.symm h
  · rfl
  · rfl
  · rfl

/-! ## An entry and the others -/

theorem entries_nodup (m : SortedMap α β) : m.entries.Nodup :=
  m.sorted.imp (fun h heq => (ne_of_lt h) (congrArg Prod.fst heq))

theorem keys_nodup (m : SortedMap α β) : m.keys.Nodup :=
  pairwise_map.mpr (m.sorted.imp (fun hlt => ne_of_lt hlt))

theorem mem_keys_iff : k ∈ m.keys ↔ (m.get? k).isSome := by
  rw [isSome_iff_exists]
  constructor
  · intro hk
    obtain ⟨e, he, rfl⟩ := mem_map.mp hk
    exact ⟨e.2, mem_entries.mp he⟩
  · rintro ⟨v, hv⟩
    exact mem_map.mpr ⟨(k, v), mem_entries.mpr hv, rfl⟩

theorem entries_perm_erase (h : m.get? k = some v) :
    m.entries.Perm ((k, v) :: (m.erase k).entries) := by
  have habsent : (k, v) ∉ (m.erase k).entries := by
    intro hmem
    have hget := mem_entries.mp hmem
    rw [get?_erase, if_pos rfl] at hget
    cases hget
  rw [perm_ext_iff_of_nodup m.entries_nodup
    (nodup_cons.mpr ⟨habsent, (m.erase k).entries_nodup⟩)]
  intro e
  rw [mem_cons]
  constructor
  · intro he
    have hget := mem_entries.mp he
    by_cases hk : e.1 = k
    · left
      rw [hk, h] at hget
      exact Prod.ext hk (Option.some.inj hget).symm
    · right
      apply mem_entries.mpr
      rw [get?_erase, if_neg hk, hget]
  · rintro (rfl | he)
    · exact mem_entries.mpr h
    · have hget := mem_entries.mp he
      rw [get?_erase] at hget
      by_cases hk : e.1 = k
      · rw [if_pos hk] at hget
        cases hget
      · rw [if_neg hk] at hget
        exact mem_entries.mpr hget

theorem erase_insert (m : SortedMap α β) (k : α) (v : β) : (m.insert k v).erase k = m.erase k := by
  ext k' : 1
  rw [get?_erase, get?_erase, get?_insert]
  by_cases hk : k' = k
  · rw [if_pos hk, if_pos hk]
  · rw [if_neg hk, if_neg hk, if_neg hk]

theorem entries_insert_perm (m : SortedMap α β) (k : α) (v : β) :
    (m.insert k v).entries.Perm ((k, v) :: (m.erase k).entries) := by
  have h := entries_perm_erase (m.get?_insert_self k v)
  rwa [erase_insert] at h

theorem erase_of_absent (h : m.get? k = none) : m.erase k = m := by
  ext k' : 1
  rw [get?_erase]
  by_cases hk : k' = k
  · rw [if_pos hk, hk, h]
  · rw [if_neg hk]

theorem eq_empty_iff : m = empty ↔ ∀ k, m.get? k = none := by
  constructor
  · rintro rfl k
    rfl
  · intro h
    ext k : 1
    rw [h, get?_empty]

theorem isEmpty_iff : m.isEmpty = true ↔ m = empty := by
  unfold isEmpty
  rw [List.isEmpty_iff]
  constructor
  · exact fun h => ext_entries h
  · rintro rfl
    rfl

/-! ## Sums over the entries -/

/-- The sum of a measure of the entries. -/
def total (f : α → β → Nat) (m : SortedMap α β) : Nat := (m.entries.map (fun e => f e.1 e.2)).sum

theorem total_insertEntry (f : α → β → Nat) (k : α) (v : β)
    (h : l.Pairwise (fun a b => a.1 < b.1)) :
    ((insertEntry k v l).map (fun e => f e.1 e.2)).sum + ((lookupEntry k l).map (f k)).getD 0 =
      (l.map (fun e => f e.1 e.2)).sum + f k v := by
  induction l with
  | nil => simp [insertEntry, lookupEntry]
  | cons a l ih =>
    obtain ⟨k', v'⟩ := a
    obtain ⟨hhead, htail⟩ := pairwise_cons.mp h
    unfold insertEntry lookupEntry
    split_ifs with h1 h2 h2
    · exact absurd h2 h1.ne
    · have hnone : lookupEntry k l = none :=
        lookupEntry_eq_none_of_lt (fun e he => lt_trans h1 (hhead e he))
      simp only [hnone, map_cons, sum_cons, map_none, getD_none]
      omega
    · subst h2
      simp only [map_cons, sum_cons, map_some, getD_some]
      omega
    · have := ih htail
      simp only [map_cons, sum_cons]
      omega

/-- Writing a key moves the sum by the new entry less the old one. -/
theorem total_insert (f : α → β → Nat) (m : SortedMap α β) (k : α) (v : β) :
    (m.insert k v).total f + ((m.get? k).map (f k)).getD 0 = m.total f + f k v :=
  total_insertEntry f k v m.sorted

theorem total_erase (f : α → β → Nat) (m : SortedMap α β) (k : α) :
    (m.erase k).total f + ((m.get? k).map (f k)).getD 0 = m.total f := by
  cases hget : m.get? k with
  | none =>
    rw [erase_of_absent hget]
    rfl
  | some v =>
    -- the erased entry, put back
    have hback : (m.erase k).insert k v = m := by
      ext k' : 1
      rw [get?_insert, get?_erase]
      split
      · rename_i heq
        rw [heq, hget]
      · rfl
    have hnone : (m.erase k).get? k = none := by
      rw [get?_erase, if_pos rfl]
    have h := (m.erase k).total_insert f k v
    rw [hback, hnone] at h
    exact h.symm

theorem le_total (f : α → β → Nat) (h : m.get? k = some v) :
    f k v ≤ m.total f := by
  have := m.total_erase f k
  rw [h] at this
  simp only [map_some, getD_some] at this
  omega

/-! ## Sums over the values -/

/-- The sum of a measure over the entries of a list. -/
def sumEntries (f : β → Nat) (l : List (α × β)) : Nat := (l.map (fun e => f e.2)).sum

def sumValues (f : β → Nat) (m : SortedMap α β) : Nat := sumEntries f m.entries

omit [LinearOrder α] in
@[simp] theorem sumEntries_nil (f : β → Nat) : sumEntries f ([] : List (α × β)) = 0 := rfl

omit [LinearOrder α] in
@[simp] theorem sumEntries_cons (f : β → Nat) (e : α × β) (l : List (α × β)) :
    sumEntries f (e :: l) = f e.2 + sumEntries f l := by
  simp [sumEntries]

@[simp] theorem sumValues_empty (f : β → Nat) : (empty : SortedMap α β).sumValues f = 0 := rfl

theorem sumEntries_insertEntry (f : β → Nat) (k : α) (v : β)
    (h : l.Pairwise (fun a b => a.1 < b.1)) :
    sumEntries f (insertEntry k v l) + ((lookupEntry k l).map f).getD 0 =
      sumEntries f l + f v :=
  total_insertEntry (fun _ => f) k v h

/-- Writing a key moves the sum by the new value less the old one. -/
theorem sumValues_insert (f : β → Nat) (m : SortedMap α β) (k : α) (v : β) :
    (m.insert k v).sumValues f + ((m.get? k).map f).getD 0 = m.sumValues f + f v :=
  sumEntries_insertEntry f k v m.sorted

omit [LinearOrder α] in
theorem le_sumEntries (f : β → Nat) {e : α × β} (h : e ∈ l) :
    f e.2 ≤ sumEntries f l := by
  induction l with
  | nil => cases h
  | cons a l ih =>
    rw [sumEntries_cons]
    rcases mem_cons.mp h with rfl | h
    · omega
    · have := ih h
      omega

theorem le_sumValues (f : β → Nat) (h : m.get? k = some v) :
    f v ≤ m.sumValues f :=
  le_sumEntries f (mem_entries.mpr h)

/-! ## Sizes -/

theorem size_eq_sumValues (m : SortedMap α β) : m.size = m.sumValues (fun _ => 1) := by
  unfold size sumValues sumEntries
  simp

theorem size_insert (m : SortedMap α β) (k : α) (v : β) :
    (m.insert k v).size = if m.contains k then m.size else m.size + 1 := by
  have h := m.sumValues_insert (fun _ => 1) k v
  rw [size_eq_sumValues, size_eq_sumValues]
  unfold contains
  rcases hget : m.get? k with _ | w
  · rw [hget] at h
    simpa using h
  · rw [hget] at h
    simpa using h

theorem size_erase (m : SortedMap α β) (h : m.contains k = true) :
    (m.erase k).size + 1 = m.size := by
  obtain ⟨v, hv⟩ := isSome_iff_exists.mp h
  have hsum := m.total_erase (fun _ _ => 1) k
  rw [hv] at hsum
  rw [size_eq_sumValues, size_eq_sumValues]
  exact hsum

end SortedMap
