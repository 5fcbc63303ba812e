-- Which member of a family holds a request: the index of masked hashes answers as the walk over all
-- members does (snapshots/claude_request_money/e2.rs).
import Mathlib.Data.Nat.Size
import Ottto.CopyRemovals
import Ottto.FileFold
import Ottto.Sha256

/-! ## Walks over ascending lists -/

namespace AscendingWalk

open List

variable {σ ε ι : Type} {step : σ → ι → Except ε σ}

/-- What a step leaves as it is may be left out. -/
theorem foldlM_filter {p : ι → Bool} (hskip : ∀ s a, p a = false → step s a = .ok s)
    (l : List ι) (s : σ) : (l.filter p).foldlM step s = l.foldlM step s := by
  induction l generalizing s with
  | nil => rfl
  | cons a l ih =>
    rw [foldlM_cons]
    cases hp : p a with
    | true =>
      rw [filter_cons_of_pos hp, foldlM_cons]
      exact congrArg (step s a >>= ·) (funext ih)
    | false =>
      rw [filter_cons_of_neg (by simp [hp]), hskip s a hp, ih]
      rfl

/-- An element that comes twice in an ascending list does no more than once. -/
theorem foldlM_repeated [LinearOrder ι]
    (htwice : ∀ s a s', step s a = .ok s' → step s' a = .ok s') {l m : List ι}
    (hl : l.Pairwise (· ≤ ·)) (hm : m.Pairwise (· < ·)) (h : ∀ a, a ∈ l ↔ a ∈ m) (s : σ) :
    l.foldlM step s = m.foldlM step s := by
  induction l generalizing m s with
  | nil =>
    have hempty : m = [] := eq_nil_iff_forall_not_mem.mpr (fun a ha => by simpa using (h a).mpr ha)
    rw [hempty]
  | cons a l ih =>
    obtain ⟨hhead, hrest⟩ := pairwise_cons.mp hl
    cases m with
    | nil => exact absurd ((h a).mp mem_cons_self) (not_mem_nil)
    | cons b m =>
      obtain ⟨hfirst, hm_rest⟩ := pairwise_cons.mp hm
      have hab : a = b := by
        apply le_antisymm
        · rcases mem_cons.mp ((h b).mpr mem_cons_self) with hb | hb
          · exact hb.ge
          · exact hhead b hb
        · rcases mem_cons.mp ((h a).mp mem_cons_self) with ha | ha
          · exact ha.ge
          · exact (hfirst a ha).le
      subst hab
      by_cases hagain : a ∈ l
      · -- The next element is this one again.
        have hsame : ∀ x, x ∈ l ↔ x ∈ a :: m := by
          intro x
          rw [← h x, mem_cons]
          exact ⟨.inr, fun hx => hx.elim (fun heq => heq ▸ hagain) id⟩
        rw [← ih hrest hm hsame]
        obtain ⟨l', rfl⟩ : ∃ l', l = a :: l' := by
          cases l with
          | nil => cases hagain
          | cons c l' =>
            have hca : c = a := by
              apply le_antisymm
              · rcases mem_cons.mp hagain with heq | hmem
                · exact heq.ge
                · exact (pairwise_cons.mp hrest).1 a hmem
              · exact hhead c mem_cons_self
            exact ⟨l', by rw [hca]⟩
        rw [foldlM_cons, foldlM_cons]
        cases hstep : step s a with
        | error e => rfl
        | ok s' =>
          show step s' a >>= (fun s => l'.foldlM step s) = l'.foldlM step s'
          rw [htwice s a s' hstep]
          rfl
      · have hsame : ∀ x, x ∈ l ↔ x ∈ m := by
          intro x
          have hx := h x
          simp only [mem_cons] at hx
          constructor
          · intro hmem
            rcases hx.mp (.inr hmem) with heq | hxm
            · exact absurd (heq ▸ hmem) hagain
            · exact hxm
          · intro hmem
            rcases hx.mpr (.inr hmem) with heq | hxl
            · exact absurd (heq ▸ hfirst x hmem) (lt_irrefl _)
            · exact hxl
        rw [foldlM_cons, foldlM_cons]
        exact congrArg (step s a >>= ·) (funext (ih hrest hm_rest hsame))

end AscendingWalk

namespace ottto_service.claude_request_money

open Words List Option AscendingWalk UInt64
open durable_tail_codec.Durable (as_bytes from_le_bytes)
open scoped claude_copy_removals

/-! ## The items of a page -/

def claude_request_hash (request_id : String) : UInt64 :=
  ((Sha256.digest (as_bytes request_id)).take 8).foldl
    (fun hash byte => (hash <<< 8) ||| byte.toUInt64) 0

structure MemberFold extends FileFold where
  /-- The request hashes that two responses of this file claim. -/
  ambiguous : SortedMap UInt64 Unit := .empty

def MemberFold.is_ambiguous (self : MemberFold) (request_id : String) : Bool :=
  !self.ambiguous.isEmpty && self.ambiguous.contains (claude_request_hash request_id)

structure FamilyItem extends toReported : claude_reported_usage.SnapshotItem where
  claude_money : Option MemberFold := none

/-- `while ids.next_if(|id| id < key) {}`, then the key stays unless it is the next id. -/
def keys_outside : List String → List String → List String
  | _, [] => []
  | ids, key :: keys =>
    let ids := ids.dropWhile (fun id => decide (id < key))
    if ids.head? = some key then keys_outside ids keys else key :: keys_outside ids keys

/-- An item's request ids: its request set, then the occurrence keys outside it. -/
def item_request_ids (item : FamilyItem) : List String :=
  item.claude_usage_request_ids.keys ++
    keys_outside item.claude_usage_request_ids.keys item.claude_usage_occurrences.keys

/-! ## The index -/

def MIX : UInt64 := 0x517cc1b727220a95

def rotate_left (x n : UInt64) : UInt64 := (x <<< n) ||| (x >>> (64 - n))

def le_word (bytes : List UInt8) : UInt64 := UInt64.ofNat (from_le_bytes bytes)

/-- `count` words of eight bytes each, mixed into the hash. -/
def mix_words : Nat → UInt64 → List UInt8 → UInt64
  | 0, hash, _ => hash
  | count + 1, hash, bytes =>
    mix_words count ((rotate_left hash 5 ^^^ le_word (bytes.take 8)) * MIX) (bytes.drop 8)

def membership_hash (request_id : String) : UInt64 :=
  let bytes := as_bytes request_id
  let words := bytes.length / 8
  let hash := mix_words words (UInt64.ofNat bytes.length) bytes
  (rotate_left hash 5 ^^^ le_word (bytes.drop (8 * words))) * MIX

/-- The member index stands in the low bits, the hash in the others. -/
structure FamilyMembership where
  entries : List UInt64
  member_mask : UInt64

/-- `u64::MAX.checked_shr(64 - bits).unwrap_or(0)` for the bits of the last index. -/
def member_mask (length : Nat) : UInt64 :=
  let bits := (length - 1).size
  if 64 - bits < 64 then u64Max >>> UInt64.ofNat (64 - bits) else 0

def member_entries (items : List FamilyItem) (mask : UInt64) (index : Nat) : List UInt64 :=
  ((items[index]?).elim [] item_request_ids).map
    (fun id => (membership_hash id &&& ~~~mask) ||| UInt64.ofNat index)

def family_membership (items : List FamilyItem) (members : List Nat) : FamilyMembership :=
  let mask := member_mask items.length
  { entries := (members.flatMap (member_entries items mask)).insertionSort (· ≤ ·)
    member_mask := mask }

/-- `partition_point` over the masked keys, then the keys that share the hash. -/
def matching_members (view : FamilyMembership) (request_id : String) : List Nat :=
  let hash_mask := ~~~view.member_mask
  let hash := membership_hash request_id &&& hash_mask
  ((view.entries.dropWhile (fun key => decide (key &&& hash_mask < hash))).takeWhile
    (fun key => key &&& hash_mask == hash)).map (fun key => (key &&& view.member_mask).toNat)

/-! ## The decision -/

inductive Holders where
  | One (index : Nat)
  | HeldNotAttachable
  | Many
  | None

structure Walk where
  found : Option Nat := none
  held : Bool := false

/-- One member: same-session twins share the first holder. -/
def hold_member (items : List FamilyItem) (request_id : String) (walk : Walk) (index : Nat) :
    Except Holders Walk :=
  match items[index]? with
  | none => .ok walk
  | some item =>
    match item.claude_usage_occurrences.get? request_id, item.claude_money with
    | none, _ => .ok walk
    | some _, none => .ok { walk with held := true }
    | some occurrence, some fold =>
      if fold.is_skipped occurrence.sequence then .ok { walk with held := true }
      else if fold.is_ambiguous request_id then .error .Many
      else
        match walk.found with
        | none => .ok { walk with found := some index }
        | some first =>
          if (items[first]?).map (fun first => first.source_session_id) =
              some item.source_session_id then .ok walk
          else .error .Many

def decide_members (items : List FamilyItem) (request_id : String) (indices : List Nat) : Holders :=
  match indices.foldlM (hold_member items request_id) {} with
  | .error many => many
  | .ok walk =>
    match walk.found with
    | some index => .One index
    | none => if walk.held then .HeldNotAttachable else .None

def holders (items : List FamilyItem) (view : FamilyMembership) (request_id : String) : Holders :=
  decide_members items request_id (matching_members view request_id)

/-! ## The request ids of an item -/

/-- The keys that the merge walk drops are the ids. -/
theorem keys_outside_eq {ids keys : List String} (hids : ids.Pairwise (· < ·))
    (hkeys : keys.Pairwise (· < ·)) :
    keys_outside ids keys = keys.filter (fun key => decide (key ∉ ids)) := by
  induction keys generalizing ids with
  | nil => rfl
  | cons key keys ih =>
    obtain ⟨hfirst, hrest⟩ := pairwise_cons.mp hkeys
    have hleft : (ids.dropWhile (fun id => decide (id < key))).Pairwise (· < ·) :=
      hids.sublist (dropWhile_sublist _)
    have hdropped : ∀ later, key ≤ later →
        (later ∈ ids ↔ later ∈ ids.dropWhile (fun id => decide (id < key))) := by
      intro later hlater
      conv_lhs => rw [← takeWhile_append_dropWhile (p := fun id => decide (id < key)) (l := ids)]
      rw [mem_append]
      refine or_iff_right (fun hmem => ?_)
      have hlt := mem_takeWhile_imp hmem
      exact absurd (of_decide_eq_true hlt) (not_lt_of_ge hlater)
    have hhead : (ids.dropWhile (fun id => decide (id < key))).head? = some key ↔ key ∈ ids := by
      rw [hdropped key le_rfl]
      have hnot := head?_dropWhile_not (fun id => decide (id < key)) ids
      cases hcases : ids.dropWhile (fun id => decide (id < key)) with
      | nil => simp
      | cons head tail =>
        rw [hcases] at hnot hleft
        have hle : key ≤ head := not_lt.mp (of_decide_eq_false hnot)
        rw [head?_cons, Option.some.injEq, mem_cons]
        constructor
        · intro heq
          exact .inl heq.symm
        · rintro (heq | hmem)
          · exact heq.symm
          · exact absurd ((pairwise_cons.mp hleft).1 key hmem) (not_lt_of_ge hle)
    have hothers : keys.filter (fun later => decide (later ∉ ids.dropWhile
        (fun id => decide (id < key)))) = keys.filter (fun later => decide (later ∉ ids)) := by
      apply filter_congr
      intro later hlater
      exact decide_eq_decide.mpr (not_congr (hdropped later (hfirst later hlater).le).symm)
    unfold keys_outside
    dsimp only
    rw [ih hleft hrest, hothers, filter_cons]
    by_cases hmem : key ∈ ids
    · rw [if_pos (hhead.mpr hmem), if_neg (by simpa using hmem)]
    · rw [if_neg (mt hhead.mp hmem), if_pos (by simpa using hmem)]

theorem keys_ascending {β : Type} (m : SortedMap String β) : m.keys.Pairwise (· < ·) :=
  pairwise_map.mpr m.sorted

theorem mem_keys_iff {β : Type} {m : SortedMap String β} {k : String} :
    k ∈ m.keys ↔ (m.get? k).isSome = true := by
  unfold SortedMap.keys
  rw [List.mem_map, Option.isSome_iff_exists]
  constructor
  · rintro ⟨e, he, rfl⟩
    exact ⟨e.2, SortedMap.mem_entries.mp he⟩
  · rintro ⟨v, hv⟩
    exact ⟨(k, v), SortedMap.mem_entries.mpr hv, rfl⟩

theorem mem_item_request_ids {item : FamilyItem} {id : String} : id ∈ item_request_ids item ↔
    (item.claude_usage_request_ids.get? id).isSome = true ∨
      (item.claude_usage_occurrences.get? id).isSome = true := by
  unfold item_request_ids
  rw [keys_outside_eq (keys_ascending _) (keys_ascending _), mem_append, mem_filter,
    decide_eq_true_eq, ← mem_keys_iff, ← mem_keys_iff]
  tauto

theorem item_request_ids_nodup (item : FamilyItem) : (item_request_ids item).Nodup := by
  unfold item_request_ids
  rw [keys_outside_eq (keys_ascending _) (keys_ascending _)]
  have hnodup : ∀ {β : Type} (m : SortedMap String β), m.keys.Nodup :=
    fun m => (keys_ascending m).imp (fun hlt => hlt.ne)
  refine nodup_append.mpr ⟨hnodup _, (hnodup _).filter _, ?_⟩
  rintro id hid other hother rfl
  exact absurd hid (of_decide_eq_true (mem_filter.mp hother).2)

/-! ## The masks -/

/-- The low bits that a mask keeps. -/
structure Masks (mask : UInt64) (bits : Nat) : Prop where
  fits : bits ≤ 64
  value : mask.toNat = 2 ^ bits - 1

theorem member_mask_spec {length : Nat} (h : length < 2 ^ 64) :
    Masks (member_mask length) (length - 1).size := by
  have hfits : (length - 1).size ≤ 64 := Nat.size_le.mpr (by omega)
  refine ⟨hfits, ?_⟩
  unfold member_mask
  dsimp only
  generalize (length - 1).size = bits at hfits
  split
  · next hlt =>
    have hshift : (UInt64.ofNat (64 - bits)).toNat = 64 - bits := by
      rw [toNat_ofNat', Nat.mod_eq_of_lt (by omega)]
    rw [UInt64.toNat_shiftRight, hshift, Nat.mod_eq_of_lt hlt, u64Max_toNat,
      Nat.shiftRight_eq_div_pow]
    have hsplit : 2 ^ 64 = 2 ^ (64 - bits) * 2 ^ bits := by
      rw [← pow_add]
      congr 1
      omega
    have hpos : 0 < 2 ^ (64 - bits) := by positivity
    have hbits : 0 < 2 ^ bits := by positivity
    rw [hsplit]
    exact (Nat.div_eq_iff hpos).mpr (by
      constructor
      · rw [Nat.sub_mul, Nat.mul_comm (2 ^ bits)]
        omega
      · rw [Nat.sub_mul, Nat.mul_comm (2 ^ bits)]
        have := Nat.le_mul_of_pos_right (2 ^ (64 - bits)) hbits
        omega)
  · next hge =>
    have hzero : bits = 0 := by omega
    subst hzero
    rfl

variable {mask : UInt64} {bits : Nat}

theorem Masks.low (h : Masks mask bits) (x : UInt64) : (x &&& mask).toNat = x.toNat % 2 ^ bits := by
  rw [UInt64.toNat_and, h.value, Nat.and_two_pow_sub_one_eq_mod]

theorem Masks.high (h : Masks mask bits) (x : UInt64) :
    (x &&& ~~~mask).toNat = x.toNat / 2 ^ bits * 2 ^ bits := by
  have hx := x.toNat_lt
  have hmask : mask.toNat < 2 ^ 64 := mask.toNat_lt
  rw [UInt64.toNat_and, toNat_not]
  apply Nat.eq_of_testBit_eq
  intro i
  have hnot : (UInt64.size - 1 - mask.toNat).testBit i = (decide (i < 64) && !mask.toNat.testBit i) := by
    rw [← Nat.testBit_two_pow_sub_succ hmask i]
    congr 1
    unfold UInt64.size
    omega
  rw [Nat.testBit_and, hnot, h.value, Nat.testBit_two_pow_sub_one, Nat.testBit_mul_two_pow,
    Nat.testBit_div_two_pow]
  by_cases hi : i < bits
  · simp [hi, Nat.not_le_of_lt hi]
  · have hle : bits ≤ i := Nat.le_of_not_lt hi
    by_cases hi64 : i < 64
    · simp [hi, hle, hi64]
    · have hout : x.toNat.testBit i = false :=
        Nat.testBit_lt_two_pow (lt_of_lt_of_le hx (Nat.pow_le_pow_right (by decide) (by omega)))
      simp [hle, hi64, hout]

theorem Masks.mono (h : Masks mask bits) {a b : UInt64} (hab : a ≤ b) :
    a &&& ~~~mask ≤ b &&& ~~~mask := by
  rw [le_iff_toNat_le, h.high, h.high]
  exact Nat.mul_le_mul_right _ (Nat.div_le_div_right (le_iff_toNat_le.mp hab))

/-- Of two keys that share the high bits, the lower one has the lower index. -/
theorem Masks.low_mono (h : Masks mask bits) {a b : UInt64} (hab : a ≤ b)
    (hhigh : a &&& ~~~mask = b &&& ~~~mask) : (a &&& mask).toNat ≤ (b &&& mask).toNat := by
  have heq := congrArg UInt64.toNat hhigh
  rw [h.high, h.high] at heq
  rw [h.low, h.low]
  have ha := Nat.div_add_mod' a.toNat (2 ^ bits)
  have hb := Nat.div_add_mod' b.toNat (2 ^ bits)
  have hle := le_iff_toNat_le.mp hab
  omega

/-- The key of a member that the mask has room for. -/
theorem Masks.entry (h : Masks mask bits) (hash : UInt64) {index : Nat} (hindex : index < 2 ^ bits) :
    ((hash &&& ~~~mask) ||| UInt64.ofNat index) &&& ~~~mask = hash &&& ~~~mask ∧
      (((hash &&& ~~~mask) ||| UInt64.ofNat index) &&& mask).toNat = index := by
  have hword : (UInt64.ofNat index).toNat = index := by
    have hle : 2 ^ bits ≤ 2 ^ 64 := Nat.pow_le_pow_right (by decide) h.fits
    rw [UInt64.toNat_ofNat', Nat.mod_eq_of_lt (by omega)]
  have hkept : UInt64.ofNat index &&& mask = UInt64.ofNat index := by
    apply UInt64.toNat_inj.mp
    rw [h.low, hword, Nat.mod_eq_of_lt hindex]
  have hout : UInt64.ofNat index &&& ~~~mask = 0 := by
    rw [← hkept, UInt64.and_assoc]
    simp
  rw [or_and_distrib_right, or_and_distrib_right, hout, hkept, UInt64.and_assoc, UInt64.and_assoc]
  simp [hword]

/-! ## The matches -/

/-- In an ascending list the values of one height stand together. -/
theorem matches_eq_filter {f : UInt64 → UInt64} (hf : ∀ a b, a ≤ b → f a ≤ f b) {l : List UInt64}
    (hl : l.Pairwise (· ≤ ·)) (c : UInt64) :
    (l.dropWhile (fun key => decide (f key < c))).takeWhile (fun key => f key == c) =
      l.filter (fun key => f key == c) := by
  induction l with
  | nil => rfl
  | cons a l ih =>
    obtain ⟨hhead, hrest⟩ := pairwise_cons.mp hl
    rw [dropWhile_cons]
    by_cases hlt : f a < c
    · rw [if_pos (decide_eq_true hlt), ih hrest, filter_cons_of_neg]
      simpa using hlt.ne
    · rw [if_neg (by simpa using hlt)]
      -- Nothing after it is below `c`.
      have hnone : ∀ b ∈ l, ¬ f b < c := fun b hb hbc => hlt ((hf a b (hhead b hb)).trans_lt hbc)
      have hsame : l.dropWhile (fun key => decide (f key < c)) = l := by
        cases l with
        | nil => rfl
        | cons b l =>
          rw [dropWhile_cons, if_neg (by simpa using hnone b mem_cons_self)]
      by_cases heq : f a = c
      · have ih := ih hrest
        rw [hsame] at ih
        rw [takeWhile_cons, filter_cons, if_pos (by simpa using heq),
          if_pos (by simpa using heq), ih]
      · have habove : c < f a := lt_of_le_of_ne (not_lt.mp hlt) (Ne.symm heq)
        have hempty : l.filter (fun key => f key == c) = [] := by
          apply filter_eq_nil_iff.mpr
          intro b hb hbc
          exact absurd (habove.trans_le (hf a b (hhead b hb))) (by simp [beq_iff_eq.mp hbc])
        rw [takeWhile_cons, filter_cons, if_neg (by simpa using heq),
          if_neg (by simpa using heq), hempty]

section Page

variable {items : List FamilyItem} {members : List Nat} {request_id : String}

theorem matching_eq (hpage : items.length < 2 ^ 64) :
    matching_members (family_membership items members) request_id =
      ((family_membership items members).entries.filter (fun key =>
        key &&& ~~~member_mask items.length ==
          membership_hash request_id &&& ~~~member_mask items.length)).map
        (fun key => (key &&& member_mask items.length).toNat) := by
  have hmask := member_mask_spec hpage
  have hsorted : (family_membership items members).entries.Pairwise (· ≤ ·) :=
    pairwise_insertionSort (· ≤ ·) _
  unfold matching_members
  dsimp only
  rw [show (family_membership items members).member_mask = member_mask items.length from rfl,
    matches_eq_filter (f := fun key => key &&& ~~~member_mask items.length)
      (fun a b => hmask.mono) hsorted]

theorem matching_ascending (hpage : items.length < 2 ^ 64) :
    (matching_members (family_membership items members) request_id).Pairwise (· ≤ ·) := by
  have hmask := member_mask_spec hpage
  have hsorted : (family_membership items members).entries.Pairwise (· ≤ ·) :=
    pairwise_insertionSort (· ≤ ·) _
  rw [matching_eq hpage, pairwise_map]
  refine (hsorted.filter _).imp_of_mem ?_
  intro a b ha hb hab
  apply hmask.low_mono hab
  have ha' := beq_iff_eq.mp (mem_filter.mp ha).2
  have hb' := beq_iff_eq.mp (mem_filter.mp hb).2
  exact ha'.trans hb'.symm

/-- The members that have a request id of the same masked hash. -/
theorem mem_matching (hpage : items.length < 2 ^ 64) (hin : ∀ index ∈ members, index < items.length)
    {index : Nat} : index ∈ matching_members (family_membership items members) request_id ↔
      index ∈ members ∧ ∃ item, items[index]? = some item ∧ ∃ id ∈ item_request_ids item,
        membership_hash id &&& ~~~member_mask items.length =
          membership_hash request_id &&& ~~~member_mask items.length := by
  have hmask := member_mask_spec hpage
  have hroom : ∀ index ∈ members, index < 2 ^ (items.length - 1).size := by
    intro index hindex
    have hlt := hin index hindex
    exact lt_of_le_of_lt (by omega) (Nat.lt_size_self (items.length - 1))
  have hentries : ∀ key, key ∈ (family_membership items members).entries ↔
      ∃ index ∈ members, ∃ item, items[index]? = some item ∧ ∃ id ∈ item_request_ids item,
        (membership_hash id &&& ~~~member_mask items.length) ||| UInt64.ofNat index = key := by
    intro key
    unfold family_membership member_entries
    dsimp only
    rw [mem_insertionSort, mem_flatMap]
    refine exists_congr (fun index => and_congr_right (fun hindex => ?_))
    rw [List.mem_map, getElem?_eq_getElem (hin index hindex)]
    simp
  rw [matching_eq hpage, List.mem_map]
  constructor
  · rintro ⟨key, hkey, rfl⟩
    obtain ⟨hmem, hhash⟩ := mem_filter.mp hkey
    obtain ⟨index, hindex, item, hitem, id, hid, rfl⟩ := (hentries key).mp hmem
    obtain ⟨hhigh, hlow⟩ := hmask.entry (membership_hash id) (hroom index hindex)
    rw [hlow]
    refine ⟨hindex, item, hitem, id, hid, ?_⟩
    rw [← hhigh]
    exact beq_iff_eq.mp hhash
  · rintro ⟨hindex, item, hitem, id, hid, hhash⟩
    obtain ⟨hhigh, hlow⟩ := hmask.entry (membership_hash id) (hroom index hindex)
    refine ⟨_, mem_filter.mpr ⟨(hentries _).mpr ⟨index, hindex, item, hitem, id, hid, rfl⟩, ?_⟩,
      hlow⟩
    rw [beq_iff_eq, hhigh, hhash]

/-- The member has a response of the request. -/
def has_response (items : List FamilyItem) (request_id : String) (index : Nat) : Bool :=
  (items[index]?).any (fun item => (item.claude_usage_occurrences.get? request_id).isSome)

theorem has_response_iff {index : Nat} : has_response items request_id index = true ↔
    ∃ item, items[index]? = some item ∧
      (item.claude_usage_occurrences.get? request_id).isSome = true := by
  unfold has_response
  cases items[index]? <;> simp

theorem hold_member_skips (walk : Walk) (index : Nat)
    (h : has_response items request_id index = false) :
    hold_member items request_id walk index = .ok walk := by
  unfold has_response at h
  unfold hold_member
  cases hitem : items[index]? with
  | none => rfl
  | some item =>
    rw [hitem, any_some, isSome_eq_false_iff, isNone_iff_eq_none] at h
    dsimp only
    rw [h]

/-- A member that was decided once is decided again the same way. -/
theorem hold_member_twice (walk : Walk) (index : Nat) (walk' : Walk)
    (h : hold_member items request_id walk index = .ok walk') :
    hold_member items request_id walk' index = .ok walk' := by
  unfold hold_member at h ⊢
  cases hitem : items[index]? with
  | none => rfl
  | some item =>
    rw [hitem] at h
    dsimp only at h ⊢
    cases hoccurrence : item.claude_usage_occurrences.get? request_id with
    | none => rfl
    | some occurrence =>
      cases hfold : item.claude_money with
      | none =>
        rw [hoccurrence, hfold] at h
        cases h
        rfl
      | some fold =>
        rw [hoccurrence, hfold] at h
        dsimp only at h ⊢
        split at h
        · next hskipped =>
          cases h
          rw [if_pos hskipped]
        · next hskipped =>
          rw [if_neg hskipped]
          split at h
          · cases h
          · next hambiguous =>
            rw [if_neg hambiguous]
            cases hfound : walk.found with
            | none =>
              rw [hfound] at h
              cases h
              simp [hitem]
            | some first =>
              rw [hfound] at h
              dsimp only at h
              split at h
              · next hsession =>
                cases h
                rw [hfound]
                dsimp only
                rw [if_pos hsession]
              · cases h

/-- The index of a family answers as the walk over all its members does, and an item's request ids
are its set and its occurrence keys, each once. -/
theorem membership_index_is_exact (hpage : items.length < 2 ^ 64)
    (hmembers : members.Pairwise (· < ·)) (hin : ∀ index ∈ members, index < items.length)
    (request_id : String) :
    holders items (family_membership items members) request_id =
      decide_members items request_id members ∧
    ∀ item : FamilyItem, (item_request_ids item).Nodup ∧
      ∀ id, id ∈ item_request_ids item ↔
        id ∈ item.claude_usage_request_ids.keys ∨ id ∈ item.claude_usage_occurrences.keys := by
  refine ⟨?_, fun item => ⟨item_request_ids_nodup item, fun id => ?_⟩⟩
  · have hskip := fun walk index => @hold_member_skips items request_id
      walk index
    have hsame : ∀ index,
        index ∈ (matching_members (family_membership items members) request_id).filter
          (has_response items request_id) ↔
        index ∈ members.filter (has_response items request_id) := by
      intro index
      rw [mem_filter, mem_filter, mem_matching hpage hin]
      constructor
      · rintro ⟨⟨hindex, -⟩, hhas⟩
        exact ⟨hindex, hhas⟩
      · rintro ⟨hindex, hhas⟩
        obtain ⟨item, hitem, hsome⟩ := has_response_iff.mp hhas
        exact ⟨⟨hindex, item, hitem, request_id, mem_item_request_ids.mpr (.inr hsome), rfl⟩, hhas⟩
    unfold holders decide_members
    rw [← foldlM_filter hskip
        (matching_members (family_membership items members) request_id),
      ← foldlM_filter hskip members,
      foldlM_repeated hold_member_twice ((matching_ascending hpage).filter _)
        (hmembers.filter _) hsame]
  · rw [mem_item_request_ids, mem_keys_iff, mem_keys_iff]

def first_request : String := "req_0001daaaaafa"

/-- Another request id of the same hash. -/
def second_request : String := "req_xfCQyaaaad9E"

/-- A page of one session at two paths, with a request each, of one hash. -/
def twins : List FamilyItem :=
  [{ source_session_id := "s", claude_usage_occurrences := SortedMap.empty.insert first_request {} },
    { source_session_id := "s", claude_usage_occurrences := SortedMap.empty.insert second_request {} }]

/-- The index names both members for the second request, and the answer is that of the walk. -/
theorem membership_index_is_exact_twins :
    first_request ≠ second_request ∧
    matching_members (family_membership twins [0, 1]) second_request = [0, 1] ∧
    holders twins (family_membership twins [0, 1]) second_request =
      decide_members twins second_request [0, 1] ∧
    ∀ item : FamilyItem, (item_request_ids item).Nodup ∧
      ∀ id, id ∈ item_request_ids item ↔
        id ∈ item.claude_usage_request_ids.keys ∨ id ∈ item.claude_usage_occurrences.keys :=
  ⟨by decide, by decide +kernel,
    membership_index_is_exact (by decide) (by decide) (by decide) second_request⟩

end Page

end ottto_service.claude_request_money
