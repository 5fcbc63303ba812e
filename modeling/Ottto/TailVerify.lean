-- The allocation-free verifier of the durable tail (durable_tail_codec.rs):
-- on every body and from every position it accepts what decode accepts, and
-- stops where decode stops.
import Ottto.TailTypes

namespace ottto_service.durable_tail_codec

open List Option DurableKey HDigest HDigestKey

/-! ## The agreement of one type -/

section agree

variable {a : List UInt8} {α β κ ν K : Type}

/-- A verify walk is a take whose value is dropped. -/
def Agree (verify : Dec a → Option (Dec a)) (take : Dec a → Option (α × Dec a)) : Prop :=
  ∀ d, verify d = (take d).map Prod.snd

/-- A key view is read where the value is, and two views are equal exactly
when their values are. -/
structure Viewed (R : K → α → Prop) (key : Dec a → Option (K × Dec a))
    (take : Dec a → Option (α × Dec a)) : Prop where
  unique : Relator.BiUnique R
  same : ∀ d, Option.Rel (fun v w => R v.1 w.1 ∧ v.2 = w.2) (key d) (take d)

variable {key : Dec a → Option (K × Dec a)} {take : Dec a → Option (α × Dec a)}

theorem Viewed.cases {R : K → α → Prop} (h : Viewed R key take) (d : Dec a) :
    (key d = none ∧ take d = none) ∨
      ∃ v x d', key d = some (v, d') ∧ take d = some (x, d') ∧ R v x := by
  have hsame := h.same d
  generalize key d = view at hsame ⊢
  generalize take d = value at hsame ⊢
  cases hsame with
  | none => exact .inl ⟨rfl, rfl⟩
  | @some v w hvw =>
    obtain ⟨v, d'⟩ := v
    obtain ⟨w, d''⟩ := w
    obtain ⟨hR, rfl⟩ := hvw
    exact .inr ⟨v, w, d', rfl, rfl, hR⟩

theorem Viewed.refl (take : Dec a → Option (α × Dec a)) : Viewed Eq take take := by
  refine ⟨⟨fun _ _ _ h h' => h.trans h'.symm, fun _ _ _ h h' => h.symm.trans h'⟩, ?_⟩
  intro d
  cases take d with
  | none => exact Option.Rel.none
  | some r => exact Option.Rel.some ⟨rfl, rfl⟩

variable {verify : Dec a → Option (Dec a)}

theorem Agree.cases (h : Agree verify take) (d : Dec a) :
    (verify d = none ∧ take d = none) ∨ ∃ x d', verify d = some d' ∧ take d = some (x, d') := by
  have hd := h d
  cases htake : take d with
  | none => exact .inl ⟨by rw [hd, htake]; rfl, rfl⟩
  | some r => exact .inr ⟨r.1, r.2, by rw [hd, htake]; rfl, rfl⟩

theorem Agree.map (h : Agree verify take) (f : α → β) :
    Agree verify (fun d => (take d).map (fun r => (f r.1, r.2))) := by
  intro d
  simp only [h d, Option.map_map]
  rfl

/-! ## Sequences -/

theorem verify_items_agree (h : Agree verify take) (n : Nat) :
    Agree (Durable.verify_items verify n) (Durable.take_items take n) := by
  induction n with
  | zero =>
    intro d
    rfl
  | succ n ih =>
    intro d
    rcases h.cases d with ⟨hv, ht⟩ | ⟨x, d', hv, ht⟩
    · simp [Durable.verify_items, Durable.take_items, hv, ht]
    · simp only [Durable.verify_items, Durable.take_items, hv, ht, bind_eq_bind,
        bind_some, ih d']
      cases Durable.take_items take n d' <;> rfl

variable {d d' : Dec a}

theorem take_items_length {n : Nat}
    {items : List α} (h : Durable.take_items take n d = some (items, d')) : items.length = n := by
  induction n generalizing d items with
  | zero =>
    cases h
    rfl
  | succ n ih =>
    simp only [Durable.take_items, bind_eq_bind, bind_eq_some_iff] at h
    obtain ⟨⟨x, d₁⟩, -, ⟨rest, d₂⟩, hrest, heq⟩ := h
    cases heq
    rw [length_cons, ih hrest]

/-- What is read first is the same on both sides. -/
theorem Agree.after (read : Dec a → Option (β × Dec a)) {verify : β → Dec a → Option (Dec a)}
    {take : β → Dec a → Option (α × Dec a)} (h : ∀ x, Agree (verify x) (take x)) :
    Agree (fun d => (read d).bind (fun r => verify r.1 r.2))
      (fun d => (read d).bind (fun r => take r.1 r.2)) := by
  intro d
  cases hread : read d with
  | none => simp only [hread, bind_none, map_none]
  | some r =>
    simp only [hread, bind_some]
    exact h r.1 r.2

theorem verify_seq_agree
    (h : Agree verify take) : Agree (Durable.verify_seq verify) (Durable.take_seq take) :=
  Agree.after Dec.take_len (verify_items_agree h)

/-! ## Sets and maps -/

/-- The views met on the way from `start` to `stop`, one for each entry. -/
def Walk (key : Dec a → Option (K × Dec a)) (value : Dec a → Option (Dec a)) (start : Dec a) :
    List K → Dec a → Prop
  | [], stop => start = stop
  | view :: views, stop =>
    ∃ d d', key start = some (view, d) ∧ value d = some d' ∧ Walk key value d' views stop

variable {value : Dec a → Option (Dec a)} {start : Dec a} {views : List K}

theorem Walk.snoc {stop : Dec a} {view : K} (h : Walk key value start views stop)
    (hkey : key stop = some (view, d)) (hvalue : value d = some d') :
    Walk key value start (views ++ [view]) d' := by
  induction views generalizing start with
  | nil =>
    cases h
    exact ⟨d, d', hkey, hvalue, rfl⟩
  | cons first views ih =>
    obtain ⟨d₁, d₂, hfirst, hskip, hrest⟩ := h
    exact ⟨d₁, d₂, hfirst, hskip, ih hrest⟩

/-- The re-walk finds `current` exactly among the views behind it. -/
theorem rewalk_eq [LinearOrder K] {stop : Dec a}
    (h : Walk key value start views stop) (current : K) :
    rewalk key value current views.length start = if current ∈ views then none else some () := by
  induction views generalizing start with
  | nil => simp [rewalk]
  | cons first views ih =>
    obtain ⟨d₁, d₂, hfirst, hskip, hrest⟩ := h
    rw [length_cons, rewalk]
    simp only [hfirst, hskip, bind_eq_bind, bind_some, ih hrest, mem_cons]
    by_cases heq : first = current
    · simp [heq]
    · simp [heq, Ne.symm heq]

/-- A view above the last of rising views is above all of them. -/
theorem rises_above [LinearOrder K] {current : K} (hsorted : views.Pairwise (· < ·))
    (hrises : rises views.getLast? current = true) : ∀ view ∈ views, view < current := by
  intro view hview
  cases hlast : views.getLast? with
  | none =>
    rw [List.getLast?_eq_none_iff] at hlast
    simp [hlast] at hview
  | some last =>
    rw [hlast] at hrises
    have hcurrent : last < current := of_decide_eq_true hrises
    obtain ⟨front, rfl⟩ := List.getLast?_eq_some_iff.mp hlast
    rcases mem_append.mp hview with hfront | hend
    · exact lt_trans ((pairwise_append.mp hsorted).2.2 view hfront last (by simp)) hcurrent
    · rw [mem_singleton.mp hend]
      exact hcurrent

/-- Where the two loops stand after the same entries: the views are behind
the walk, and the tree holds their values. -/
structure Abreast [LinearOrder κ] [LinearOrder K] (R : K → κ → Prop)
    (key : Dec a → Option (K × Dec a)) (value : Dec a → Option (Dec a)) (start : Dec a)
    (views : List K) (sorted : Bool) (out : SortedMap κ ν) (d : Dec a) : Prop where
  walk : Walk key value start views d
  rising : sorted = true → views.Pairwise (· < ·)
  held : ∀ k, out.contains k = true ↔ ∃ view ∈ views, R view k

variable {R : K → κ → Prop}

theorem Abreast.guard [LinearOrder κ] [LinearOrder K] {sorted : Bool} {out : SortedMap κ ν}
    (h : Abreast R key value start views sorted out d) (current : K) :
    (if (sorted && rises views.getLast? current) = true then some ()
      else rewalk key value current views.length start) =
      if current ∈ views then none else some () := by
  by_cases hsorted : (sorted && rises views.getLast? current) = true
  · rw [if_pos hsorted]
    obtain ⟨hs, hr⟩ := Bool.and_eq_true_iff.mp hsorted
    rw [if_neg]
    intro hmem
    exact lt_irrefl current (rises_above (h.rising hs) hr current hmem)
  · rw [if_neg hsorted, rewalk_eq h.walk]

theorem Abreast.next [LinearOrder κ] [LinearOrder K] (hR : Relator.BiUnique R) {d₁ d₂ : Dec a}
    {sorted : Bool} {out : SortedMap κ ν}
    (h : Abreast R key value start views sorted out d) {view : K} {k : κ} (v : ν)
    (hkey : key d = some (view, d₁)) (hvalue : value d₁ = some d₂) (hview : R view k) :
    Abreast R key value start (views ++ [view]) (sorted && rises views.getLast? view)
      (out.insert k v) d₂ := by
  refine ⟨h.walk.snoc hkey hvalue, ?_, ?_⟩
  · intro hsorted
    obtain ⟨hs, hr⟩ := Bool.and_eq_true_iff.mp hsorted
    rw [pairwise_append]
    refine ⟨h.rising hs, pairwise_singleton _ _, ?_⟩
    intro x hx y hy
    rw [mem_singleton.mp hy]
    exact rises_above (h.rising hs) hr x hx
  · intro k'
    have hcontains : (out.insert k v).contains k' = true ↔ k' = k ∨ out.contains k' = true := by
      unfold SortedMap.contains
      rw [SortedMap.get?_insert]
      by_cases hk : k' = k <;> simp [hk]
    rw [hcontains, h.held k']
    constructor
    · rintro (rfl | ⟨x, hx, hxk⟩)
      · exact ⟨view, by simp, hview⟩
      · exact ⟨x, by simp [hx], hxk⟩
    · rintro ⟨x, hx, hxk⟩
      rcases mem_append.mp hx with hx | hx
      · exact .inr ⟨x, hx, hxk⟩
      · rw [mem_singleton.mp hx] at hxk
        exact .inl (hR.2 hxk hview)

-- Induction on the entries to go. The verifier looks for the current key
-- before it walks the value, decode after it: both are corrupt.
theorem verify_entries_loop_agree [LinearOrder κ] [LinearOrder K]
    {take : Dec a → Option (κ × Dec a)} {take' : Dec a → Option (ν × Dec a)}
    (hkey : Viewed R key take) (hvalue : Agree verify take') (start : Dec a) (left : Nat) :
    ∀ (views : List K) (sorted : Bool) (out : SortedMap κ ν) (d : Dec a),
      Abreast R key verify start views sorted out d →
      verify_entries_loop key verify start left views.length views.getLast? sorted d =
        (take_entries take take' left out d).map Prod.snd := by
  induction left with
  | zero =>
    intro views sorted out d _
    rfl
  | succ left ih =>
    intro views sorted out d h
    rw [verify_entries_loop, take_entries]
    rcases hkey.cases d with ⟨hk, ht⟩ | ⟨view, k, d₁, hk, ht, hview⟩
    · simp [hk, ht]
    · simp only [hk, ht, bind_eq_bind, bind_some, h.guard view]
      have hheld : out.contains k = true ↔ view ∈ views := by
        rw [h.held k]
        constructor
        · rintro ⟨x, hx, hxk⟩
          rwa [hkey.unique.1 hview hxk]
        · intro hmem
          exact ⟨view, hmem, hview⟩
      rcases hvalue.cases d₁ with ⟨hv, ht'⟩ | ⟨v, d₂, hv, ht'⟩
      · simp [hv, ht']
      · simp only [hv, ht', bind_some]
        by_cases hmem : view ∈ views
        · simp [hmem, hheld.mpr hmem]
        · have hnew : out.contains k ≠ true := fun hc => hmem (hheld.mp hc)
          have hnext := ih _ _ _ _ (h.next hkey.unique v hk hv hview)
          rw [length_append, List.getLast?_concat] at hnext
          rw [if_neg hmem, if_neg hnew, bind_some]
          exact hnext

theorem take_len_word {len : Nat} (h : d.take_len = some (len, d')) :
    len ≤ usize_max := by
  simp only [Dec.take_len, bind_eq_bind, bind_eq_some_iff] at h
  obtain ⟨⟨word, d₁⟩, -, hlen⟩ := h
  split at hlen
  · cases hlen
  · cases hlen
    have hword : word.toNat < 2 ^ 64 := word.toNat_lt
    exact Nat.le_sub_one_of_lt hword

theorem verify_entries_agree [LinearOrder κ] [LinearOrder K] {take : Dec a → Option (κ × Dec a)}
    {take' : Dec a → Option (ν × Dec a)}
    (hkey : Viewed R key take) (hvalue : Agree verify take') :
    Agree (fun d => verify_entries d key verify) (take_map take take') := by
  intro d
  simp only [verify_entries, verify_entries_bounded, take_map]
  cases hlen : d.take_len with
  | none => rfl
  | some r =>
    obtain ⟨len, d₁⟩ := r
    have hmax : ¬ len > usize_max := not_lt.mpr (take_len_word hlen)
    simp only [bind_eq_bind, bind_some, if_neg hmax]
    apply verify_entries_loop_agree hkey hvalue d₁ len [] true SortedMap.empty d₁
    refine ⟨rfl, fun _ => .nil, ?_⟩
    intro k
    simp [SortedMap.contains]

end agree

/-! ## Each impl -/

def Durable.Agrees {α : Type} (T : Durable α) : Prop :=
  ∀ a : List UInt8, Agree (T.verify : Dec a → _) T.take

def HDigest.Agrees {α : Type} (T : HDigest α) : Prop :=
  ∀ a : List UInt8, Agree (T.verify_h : Dec a → _) T.take_h

structure DurableKey.Agrees {α : Type} (T : DurableKey α) : Prop where
  durable : T.toDurable.Agrees
  viewed : ∃ R : T.View → α → Prop, ∀ a : List UInt8, Viewed R (T.key : Dec a → _) T.take

structure HDigestKey.Agrees {α : Type} (T : HDigestKey α) : Prop where
  digest : T.toHDigest.Agrees
  viewed : ∃ R : T.View → α → Prop, ∀ a : List UInt8, Viewed R (T.key_h : Dec a → _) T.take_h

namespace Durable

variable {α β γ κ ν : Type}

theorem scalar_agrees (put : α → Enc → Except Refuse Enc)
    (take : {a : List UInt8} → Dec a → Option (α × Dec a)) : (scalar put take).Agrees :=
  fun _ _ => rfl

theorem string_agrees : string.Agrees := by
  intro a d
  simp only [string]
  cases d.len_prefixed with
  | none => rfl
  | some r =>
    simp only [bind_eq_bind, bind_some]
    cases from_utf8 r.1 <;> rfl

theorem path_buf_agrees : path_buf.Agrees := fun a =>
  (string_agrees a).map (fun text => PathBuf.mk (as_bytes text))

variable {T : Durable α}

theorem option_agrees (h : T.Agrees) : T.option.Agrees := by
  intro a d
  simp only [option]
  cases d.byte with
  | none => rfl
  | some r =>
    obtain ⟨tag, d₁⟩ := r
    simp only [bind_eq_bind, bind_some]
    by_cases hzero : tag = 0
    · simp [hzero]
    · by_cases hone : tag = 1
      · rw [if_neg hzero, if_pos hone, if_neg hzero, if_pos hone]
        exact (h a).map some d₁
      · simp [hzero, hone]

theorem boxed_agrees (h : T.Agrees) : T.boxed.Agrees := h

theorem vec_agrees (h : T.Agrees) : T.vec.Agrees := fun a => verify_seq_agree (h a)

theorem try_into_of_length {n : Nat} {items : List α} (h : items.length = n) :
    try_into n items = some ⟨items.toArray, by simpa using h⟩ := by
  unfold try_into
  rw [dif_pos]

theorem array_agrees (h : T.Agrees) (n : Nat) : (T.array n).Agrees := by
  intro a d
  simp only [array, verify_items_agree (h a) n d]
  cases hitems : take_items T.take n d with
  | none => rfl
  | some r =>
    simp only [bind_eq_bind, bind_some, try_into_of_length (take_items_length hitems)]
    rfl

theorem resize_with_length {n : Nat} (pad : α) {items : List α} (h : items.length ≤ n) :
    (resize_with n pad items).length = n := by
  unfold resize_with
  rw [length_append, length_take, length_replicate]
  omega

theorem grown_agrees (h : T.Agrees) (n : Nat) (pad : α) :
    (T.grown n pad).Agrees := by
  intro a d
  simp only [grown]
  cases hlen : grown_len n d with
  | none => rfl
  | some r =>
    obtain ⟨stored, d₁⟩ := r
    have hstored : stored ≤ n := by
      simp only [grown_len, bind_eq_bind, bind_eq_some_iff] at hlen
      obtain ⟨⟨word, d'⟩, -, hlen⟩ := hlen
      split at hlen
      · cases hlen
        assumption
      · cases hlen
    simp only [bind_eq_bind, bind_some, verify_items_agree (h a) stored d₁]
    cases hitems : take_items T.take stored d₁ with
    | none => rfl
    | some r =>
      have hshort : r.1.length ≤ n := by
        rw [take_items_length hitems]
        exact hstored
      simp only [bind_some, try_into_of_length (resize_with_length pad hshort)]
      rfl

theorem pair_agrees {A : Durable α} {B : Durable β} (hA : A.Agrees) (hB : B.Agrees) :
    (A.pair B).Agrees := by
  intro a d
  simp only [pair]
  rcases (hA a).cases d with ⟨hv, ht⟩ | ⟨x, d₁, hv, ht⟩
  · simp [hv, ht]
  · simp only [hv, ht, bind_eq_bind, bind_some, hB a d₁]
    cases B.take d₁ <;> rfl

theorem triple_agrees {A : Durable α} {B : Durable β} {C : Durable γ} (hA : A.Agrees)
    (hB : B.Agrees) (hC : C.Agrees) : (A.triple B C).Agrees := by
  intro a d
  simp only [triple]
  rcases (hA a).cases d with ⟨hv, ht⟩ | ⟨x, d₁, hv, ht⟩
  · simp [hv, ht]
  · have hrest := pair_agrees hB hC a d₁
    simp only [pair] at hrest
    simp only [hv, ht, bind_eq_bind, bind_some] at hrest ⊢
    rw [hrest]
    cases B.take d₁ with
    | none => rfl
    | some r =>
      simp only [bind_some]
      cases C.take r.2 <;> rfl

theorem btree_map_agrees [LinearOrder κ] {K : DurableKey κ} {V : Durable ν} (hK : K.Agrees)
    (hV : V.Agrees) : (btree_map K V).Agrees := by
  intro a
  let _ := K.order
  obtain ⟨R, hR⟩ := hK.viewed
  exact verify_entries_agree (hR a) (hV a)

theorem btree_set_agrees [LinearOrder α] {T : DurableKey α} (hT : T.Agrees) :
    (btree_set T).Agrees := by
  intro a
  let _ := T.order
  obtain ⟨R, hR⟩ := hT.viewed
  exact verify_entries_agree (hR a) (fun _ => rfl)

theorem struct_agrees (parts : α ≃ β) {T : Durable β} (h : T.Agrees) :
    (durable_struct parts T).Agrees := fun a => (h a).map parts.symm

end Durable

namespace HDigest

open Durable

variable {α κ ν : Type}

theorem raw_length {a : List UInt8} {d d' : Dec a} {len : Nat} {slice : List UInt8}
    (h : d.raw len = some (slice, d')) : slice.length = len := by
  unfold Dec.raw at h
  split at h
  · cases h
    rw [length_take, length_drop]
    omega
  · cases h

theorem digest32_agrees : digest32.Agrees := by
  intro a d
  simp only [digest32]
  cases hraw : d.raw 32 with
  | none => rfl
  | some r =>
    simp only [bind_eq_bind, bind_some, try_into_of_length (raw_length hraw)]
    rfl

theorem hex64_agrees : hex64.Agrees := by
  intro a d
  simp only [hex64]
  cases d.raw 32 <;> rfl

theorem option_agrees {T : HDigest α} (h : T.Agrees) : T.option.Agrees := by
  intro a d
  simp only [option]
  cases d.varint with
  | none => rfl
  | some r =>
    obtain ⟨tag, d₁⟩ := r
    simp only [bind_eq_bind, bind_some]
    by_cases hzero : tag = 0
    · simp [hzero]
    · by_cases hone : tag = 1
      · rw [if_neg hzero, if_pos hone, if_neg hzero, if_pos hone]
        exact (h a).map some d₁
      · simp [hzero, hone]

theorem owned_vec_agrees {T : HDigest α} (h : T.Agrees) : T.owned_vec.Agrees :=
  fun a => verify_seq_agree (h a)

theorem btree_set_agrees [LinearOrder α] {T : HDigestKey α} (hT : T.Agrees) :
    (btree_set T).Agrees := by
  intro a
  let _ := T.order
  obtain ⟨R, hR⟩ := hT.viewed
  exact verify_entries_agree (hR a) (fun _ => rfl)

theorem btree_map_agrees [LinearOrder κ] {K : HDigestKey κ} {V : Durable ν} (hK : K.Agrees)
    (hV : V.Agrees) : (btree_map K V).Agrees := by
  intro a
  let _ := K.order
  obtain ⟨R, hR⟩ := hK.viewed
  exact verify_entries_agree (hR a) (hV a)

end HDigest

/-! ## Key views -/

variable {α : Type}

/-- The relations of the parts, one for each place of a tuple. -/
theorem Viewed.pair {a : List UInt8} {β K L : Type} {R : K → α → Prop} {S : L → β → Prop}
    {key : Dec a → Option (K × Dec a)} {take : Dec a → Option (α × Dec a)}
    {key' : Dec a → Option (L × Dec a)} {take' : Dec a → Option (β × Dec a)}
    (h : Viewed R key take) (h' : Viewed S key' take') :
    Viewed (fun (v : K ×ₗ L) (x : α × β) => R (ofLex v).1 x.1 ∧ S (ofLex v).2 x.2)
      (fun d => (key d).bind (fun r => (key' r.2).bind (fun r' => some (toLex (r.1, r'.1), r'.2))))
      (fun d => (take d).bind (fun r => (take' r.2).bind (fun r' => some ((r.1, r'.1), r'.2)))) := by
  refine ⟨⟨?_, ?_⟩, ?_⟩
  · rintro v w x ⟨hv, hv'⟩ ⟨hw, hw'⟩
    exact ofLex.injective (Prod.ext (h.unique.1 hv hw) (h'.unique.1 hv' hw'))
  · rintro v x y ⟨hx, hx'⟩ ⟨hy, hy'⟩
    exact Prod.ext (h.unique.2 hx hy) (h'.unique.2 hx' hy')
  · intro d
    rcases h.cases d with ⟨hk, ht⟩ | ⟨v, x, d₁, hk, ht, hR⟩
    · simp only [hk, ht, bind_none]
      exact Option.Rel.none
    · simp only [hk, ht, bind_some]
      rcases h'.cases d₁ with ⟨hk', ht'⟩ | ⟨w, y, d₂, hk', ht', hS⟩
      · simp only [hk', ht', bind_none]
        exact Option.Rel.none
      · simp only [hk', ht', bind_some]
        exact Option.Rel.some ⟨⟨hR, hS⟩, rfl⟩

/-- After the same tag, `none` for zero and the inner read for one. -/
theorem Viewed.tagged {a : List UInt8} {K τ : Type} [DecidableEq τ] {R : K → α → Prop}
    {key : Dec a → Option (K × Dec a)} {take : Dec a → Option (α × Dec a)}
    (tag : Dec a → Option (τ × Dec a)) (zero one : τ) (h : Viewed R key take) :
    Viewed (fun (v : WithBot K) (x : Option α) => Option.Rel R v x)
      (fun d => (tag d).bind (fun r => if r.1 = zero then some (none, r.2)
        else if r.1 = one then (key r.2).map (fun r => (some r.1, r.2)) else none))
      (fun d => (tag d).bind (fun r => if r.1 = zero then some (none, r.2)
        else if r.1 = one then (take r.2).map (fun r => (some r.1, r.2)) else none)) := by
  refine ⟨⟨?_, ?_⟩, ?_⟩
  · intro v w x hv hw
    cases hv with
    | none => cases hw; rfl
    | some hR => cases hw with | some hR' => exact congrArg some (h.unique.1 hR hR')
  · intro v x y hx hy
    cases hx with
    | none => cases hy; rfl
    | some hR => cases hy with | some hR' => exact congrArg some (h.unique.2 hR hR')
  · intro d
    cases tag d with
    | none => exact Option.Rel.none
    | some r =>
      simp only [bind_some]
      by_cases hzero : r.1 = zero
      · rw [if_pos hzero, if_pos hzero]
        exact Option.Rel.some ⟨Option.Rel.none, rfl⟩
      · rw [if_neg hzero, if_neg hzero]
        by_cases hone : r.1 = one
        · rw [if_pos hone, if_pos hone]
          rcases h.cases r.2 with ⟨hk, ht⟩ | ⟨v, x, d₁, hk, ht, hR⟩
          · rw [hk, ht]
            exact Option.Rel.none
          · rw [hk, ht]
            exact Option.Rel.some ⟨Option.Rel.some hR, rfl⟩
        · rw [if_neg hone, if_neg hone]
          exact Option.Rel.none

namespace HDigestKey

variable {α : Type}

/-- What a digest is, of the bytes it is read from. -/
theorem digest_agrees {T : HDigest α} (of : List UInt8 → Option α) (hT : T.Agrees)
    (hread : ∀ (a : List UInt8) (d : Dec a),
      T.take_h d = (d.raw 32).bind (fun r => (of r.1).map (fun x => (x, r.2))))
    (htotal : ∀ bytes : List UInt8, bytes.length = 32 → (of bytes).isSome = true)
    (hinj : ∀ (b c : List UInt8) (x : α), of b = some x → of c = some x → b = c) :
    (digest T).Agrees := by
  refine ⟨hT, fun bytes x => of bytes = some x, ?_⟩
  intro a
  refine ⟨⟨fun b c x hb hc => hinj b c x hb hc, ?_⟩, ?_⟩
  · intro b x y hx hy
    exact Option.some.inj (hx.symm.trans hy)
  · intro d
    show Option.Rel _ (d.raw 32) (T.take_h d)
    rw [hread]
    cases hraw : d.raw 32 with
    | none => exact Option.Rel.none
    | some r =>
      obtain ⟨x, hx⟩ := isSome_iff_exists.mp (htotal r.1 (raw_length hraw))
      rw [bind_some, hx]
      exact Option.Rel.some ⟨hx, rfl⟩

theorem digest32_agrees : digest32.Agrees := by
  apply digest_agrees (Durable.try_into 32) HDigest.digest32_agrees
  · intro a d
    simp only [HDigest.digest32]
    cases d.raw 32 with
    | none => rfl
    | some r =>
      simp only [bind_eq_bind, bind_some]
      cases Durable.try_into 32 r.1 <;> rfl
  · intro bytes hlen
    rw [Durable.try_into_of_length hlen]
    rfl
  · intro b c x hb hc
    unfold Durable.try_into at hb hc
    split at hb
    · split at hc
      · cases hb
        cases hc
        rfl
      · cases hc
    · cases hb

theorem hex64_agrees : hex64.Agrees := by
  apply digest_agrees (fun bytes => some (HDigest.hex bytes)) HDigest.hex64_agrees
  · intro a d
    simp only [HDigest.hex64]
    cases d.raw 32 <;> rfl
  · intro bytes _
    rfl
  · intro b c x hb hc
    apply HDigest.hex_injective
    exact (Option.some.inj hb).trans (Option.some.inj hc).symm

theorem option_agrees {T : HDigestKey α} (h : T.Agrees) : T.option.Agrees := by
  obtain ⟨R, hR⟩ := h.viewed
  exact ⟨HDigest.option_agrees h.digest, _, fun a => (hR a).tagged Dec.varint 0 1⟩

end HDigestKey

namespace DurableKey

variable {α β γ : Type}

theorem scalar_agrees {T : Durable α} (h : T.Agrees) (order : LinearOrder α) :
    (scalar T order).Agrees := ⟨h, Eq, fun _ => Viewed.refl _⟩

theorem string_agrees : string.Agrees := ⟨Durable.string_agrees, Eq, fun _ => Viewed.refl _⟩

theorem option_agrees {T : DurableKey α} (h : T.Agrees) : T.option.Agrees := by
  obtain ⟨R, hR⟩ := h.viewed
  exact ⟨Durable.option_agrees h.durable, _, fun a => (hR a).tagged Dec.byte 0 1⟩

theorem pair_agrees {A : DurableKey α} {B : DurableKey β} (hA : A.Agrees) (hB : B.Agrees) :
    (A.pair B).Agrees := by
  obtain ⟨R, hR⟩ := hA.viewed
  obtain ⟨S, hS⟩ := hB.viewed
  exact ⟨Durable.pair_agrees hA.durable hB.durable, _, fun a => (hR a).pair (hS a)⟩

theorem triple_agrees {A : DurableKey α} {B : DurableKey β} {C : DurableKey γ} (hA : A.Agrees)
    (hB : B.Agrees) (hC : C.Agrees) : (A.triple B C).Agrees := by
  obtain ⟨R, hR⟩ := hA.viewed
  obtain ⟨S, hS⟩ := hB.viewed
  obtain ⟨Q, hQ⟩ := hC.viewed
  refine ⟨Durable.triple_agrees hA.durable hB.durable hC.durable,
    fun (v : A.View ×ₗ B.View ×ₗ C.View) x =>
      R (ofLex v).1 x.1 ∧ S (ofLex (ofLex v).2).1 x.2.1 ∧ Q (ofLex (ofLex v).2).2 x.2.2, ?_⟩
  intro a
  have hall := (hR a).pair ((hS a).pair (hQ a))
  refine ⟨hall.unique, ?_⟩
  intro d
  have hd := hall.same d
  simp only [bind_assoc, bind_some] at hd
  exact hd

/-- A struct's view is that of its fields: the struct literal is one to one. -/
theorem struct_agrees (parts : α ≃ β) {T : DurableKey β} (h : T.Agrees) :
    (durable_key_struct parts T).Agrees := by
  obtain ⟨R, hR⟩ := h.viewed
  refine ⟨Durable.struct_agrees parts h.durable, fun v x => R v (parts x), ?_⟩
  intro a
  refine ⟨⟨fun v w x hv hw => (hR a).unique.1 hv hw, ?_⟩, ?_⟩
  · intro v x y hx hy
    exact parts.injective ((hR a).unique.2 hx hy)
  · intro d
    show Option.Rel _ (T.key d) ((T.take d).map (fun r => (parts.symm r.1, r.2)))
    rcases (hR a).cases d with ⟨hk, ht⟩ | ⟨v, x, d₁, hk, ht, hvx⟩
    · rw [hk, ht]
      exact Option.Rel.none
    · rw [hk, ht]
      refine Option.Rel.some ⟨?_, rfl⟩
      rw [Equiv.apply_symm_apply]
      exact hvx

theorem field_agrees {T : HDigestKey α} (h : T.Agrees) (path : String) :
    (durable_field.key_H T path).Agrees := ⟨h.digest, h.viewed⟩

end DurableKey

/-! ## Variants -/

def Arms.Agrees {α : Type} (T : Arms α) : Prop :=
  ∀ (a : List UInt8) (tag : UInt64), Agree (T.verify tag : Dec a → _) (T.take tag)

section arms

variable {α β γ : Type}

theorem no_arms_agree : no_arms.Agrees := fun _ _ _ => rfl

theorem arm_agrees (tag : UInt64) (decode_only : Bool) {body : Durable β} {rest : Arms γ}
    (hbody : body.Agrees) (hrest : rest.Agrees) : (arm tag decode_only body rest).Agrees := by
  intro a read d
  simp only [arm]
  by_cases htag : read = tag
  · rw [if_pos htag, if_pos htag]
    exact (hbody a).map Sum.inl d
  · rw [if_neg htag, if_neg htag]
    exact (hrest a read).map Sum.inr d

theorem enum_agrees (parts : α ≃ β) {arms : Arms β} (h : arms.Agrees) :
    (durable_enum parts arms).Agrees := by
  intro a d
  simp only [durable_enum]
  cases d.varint with
  | none => rfl
  | some r =>
    exact (h a r.1).map parts.symm r.2

end arms

/-! ## The impls written by hand -/

theorem retired_agrees {T : Durable α} (h : T.Agrees) (neutral : α) :
    (retired T neutral).Agrees := fun a => (h a).map (fun _ => ())

theorem selector_capture_agrees : selector_capture.Agrees := by
  have hmap : string_map.Agrees :=
    Durable.btree_map_agrees string_agrees Durable.string_agrees
  exact Durable.pair_agrees hmap hmap

/-! ## Every type -/

theorem HKeyTy.agrees : {α : Type} → (t : HKeyTy α) → t.key.Agrees
  | _, .hex64 => hex64_agrees
  | _, .digest32 => digest32_agrees
  | _, .option t => option_agrees t.agrees

mutual

theorem KeyTy.agrees : {α : Type} → (t : KeyTy α) → t.key.Agrees
  | _, .u8 => scalar_agrees (Durable.scalar_agrees _ _) _
  | _, .u16 => scalar_agrees (Durable.scalar_agrees _ _) _
  | _, .u32 => scalar_agrees (Durable.scalar_agrees _ _) _
  | _, .u64 => scalar_agrees (Durable.scalar_agrees _ _) _
  | _, .usize => scalar_agrees (Durable.scalar_agrees _ _) _
  | _, .i32 => scalar_agrees (Durable.scalar_agrees _ _) _
  | _, .i64 => scalar_agrees (Durable.scalar_agrees _ _) _
  | _, .i128 => scalar_agrees (Durable.scalar_agrees _ _) _
  | _, .u128 => scalar_agrees (Durable.scalar_agrees _ _) _
  | _, .bool => scalar_agrees (Durable.scalar_agrees _ _) _
  | _, .unit => scalar_agrees (Durable.scalar_agrees _ _) _
  | _, .non_zero_u64 => scalar_agrees (Durable.scalar_agrees _ _) _
  | _, .static_str => scalar_agrees (Durable.scalar_agrees _ _) _
  | _, .string => string_agrees
  | _, .option t => option_agrees t.agrees
  | _, .pair t u => pair_agrees t.agrees u.agrees
  | _, .triple t u w => triple_agrees t.agrees u.agrees w.agrees
  | _, .durable_struct name parts fields => struct_agrees parts (fields.agrees name)

theorem KeyFields.agrees : {α : Type} → (t : KeyFields α) → (name : String) → (t.key name).Agrees
  | _, .nil, _ => scalar_agrees (Durable.scalar_agrees _ _) _
  | _, .stored _ _ t rest, name => pair_agrees t.agrees (rest.agrees name)
  | _, .H _ t rest, name =>
    pair_agrees (field_agrees t.agrees _) (rest.agrees name)

end

mutual

theorem Ty.agrees : {α : Type} → (t : Ty α) → t.durable.Agrees
  | _, .key t => t.agrees.durable
  | _, .path_buf => Durable.path_buf_agrees
  | _, .option t => Durable.option_agrees t.agrees
  | _, .boxed t => Durable.boxed_agrees t.agrees
  | _, .vec t => Durable.vec_agrees t.agrees
  | _, .vec_deque t => Durable.vec_agrees t.agrees
  | _, .owned_vec t => Durable.vec_agrees t.agrees
  | _, .array t n => Durable.array_agrees t.agrees n
  | _, .btree_set _ t => Durable.btree_set_agrees t.agrees
  | _, .btree_map _ k v => Durable.btree_map_agrees k.agrees v.agrees
  | _, .owned_map _ k v => Durable.btree_map_agrees k.agrees v.agrees
  | _, .pair t u => Durable.pair_agrees t.agrees u.agrees
  | _, .triple t u w => Durable.triple_agrees t.agrees u.agrees w.agrees
  | _, .durable_struct name parts fields => Durable.struct_agrees parts (fields.agrees name)
  | _, .durable_enum name parts variants => enum_agrees parts (variants.agrees name)
  | _, .retired t neutral => retired_agrees t.agrees neutral
  | _, .retired_overflow => Durable.scalar_agrees _ _
  | _, .selector_capture => selector_capture_agrees

theorem HTy.agrees : {α : Type} → (t : HTy α) → t.digest.Agrees
  | _, .key t => t.agrees.digest
  | _, .option t => option_agrees t.agrees
  | _, .owned_vec t => owned_vec_agrees t.agrees
  | _, .btree_set _ t => btree_set_agrees t.agrees
  | _, .btree_map _ k v => btree_map_agrees k.agrees v.agrees

theorem Fields.agrees : {α : Type} → (t : Fields α) → (name : String) → (t.durable name).Agrees
  | _, .nil, _ => Durable.scalar_agrees _ _
  | _, .stored _ _ t rest, name => Durable.pair_agrees t.agrees (rest.agrees name)
  | _, .H _ t rest, name => Durable.pair_agrees t.agrees (rest.agrees name)
  | _, .G _ t n _ default rest, name =>
    Durable.pair_agrees (Durable.grown_agrees t.agrees n default) (rest.agrees name)
  | _, .X _ _ rest, name => Durable.pair_agrees (fun _ _ => rfl) (rest.agrees name)
  | _, .E _ _ rest, name => Durable.pair_agrees (fun _ _ => rfl) (rest.agrees name)
  | _, .I _ _ rest, name => Durable.pair_agrees (fun _ _ => rfl) (rest.agrees name)

theorem Variants.agrees : {tags : List UInt64} → {α : Type} → (t : Variants tags α) →
    (name : String) → (t.arms name).Agrees
  | _, _, .nil, _ => no_arms_agree
  | _, _, .cons tag _ decode_only fields rest _, name =>
    arm_agrees tag decode_only (fields.agrees _) (rest.agrees name)

end

/-- A verify walk from any position of any body succeeds exactly when decode
does, and then both stop at the same position. -/
theorem verify_accepts_what_take_accepts {α : Type} (t : Ty α) (body : List UInt8)
    (d d' : Dec body) :
    t.durable.verify d = some d' ↔ ∃ v, t.durable.take d = some (v, d') := by
  rw [t.agrees body d, map_eq_some_iff]
  constructor
  · rintro ⟨⟨v, stop⟩, htake, rfl⟩
    exact ⟨v, htake⟩
  · rintro ⟨v, htake⟩
    exact ⟨(v, d'), htake, rfl⟩

end ottto_service.durable_tail_codec
