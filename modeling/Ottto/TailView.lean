-- A Tail file as its owner sees it: the reduction with its pages, and the
-- unresolved revisions. What the store's writes do to it, and how the rows and
-- the head represent it.
import Ottto.TailContent

namespace ottto_service.state_v2.tail

open Results List BitVec SortedMap

/-! ## The view -/

structure View where
  revision : UInt32 := 0
  metas : SortedMap Collection CollectionMeta := .empty
  common : Common := {}
  reduction : Option Bytes := none
  pages : Collection → SortedMap Nat Bytes := fun _ => .empty

namespace StagedFile

/-- The obsolete pages go, the changed ones are written. -/
def applied (s : StagedFile) (c : Content) : Content :=
  s.pages.entries.foldl (fun c e => c.set (.page (ofLex e.1).1 (ofLex e.1).2) e.2)
    (s.obsolete.entries.foldl (fun c e => c.unset (.page (ofLex e.1).1 (ofLex e.1).2)) c)

end StagedFile

/-- The values with the ids they are given. -/
def numbered : UInt64 → List Bytes → List (Nat × Bytes)
  | _, [] => []
  | next, value :: values => (next.toNat, value) :: numbered (next + 1) values

namespace Observation

/-- The revisions that are replaced, resolved and added. -/
def applied (o : Observation) (next : UInt64) (c : Content) : Content :=
  (numbered next o.added).foldl (fun c e => c.set (.page .Revisions e.1) e.2)
    (o.resolved.entries.foldl (fun c e => c.unset (.page .Revisions e.1))
      (o.replaced.entries.foldl (fun c e => c.set (.page .Revisions e.1) e.2) c))

end Observation

namespace View

variable (v : View)

/-- The reduction and its pages go, the debt stays. -/
def bare : View :=
  { v with metas := .empty, reduction := none,
           pages := fun c => if c = .Revisions then v.pages c else .empty }

def stage (s : StagedFile) : View :=
  { revision := s.revision
    metas := v.metas.extend s.collections
    common := { v.common with representation := .Tail }
    reduction := some s.head
    pages := (s.applied { pages := v.pages }).pages }

def observe (o : Observation) : View :=
  { v with
    common := ⟨o.representation, o.summary, v.common.next_revision_id + UInt64.ofNat o.added.length,
      o.inventory.or v.common.inventory⟩
    pages := (o.applied v.common.next_revision_id { pages := v.pages }).pages }

/-- Only a Tail file keeps a reduction. -/
def settle : View :=
  if v.common.representation ≠ .Tail ∧ v.reduction.isSome then v.bare else v

/-- A head with no reduction, debt or inventory goes. -/
def kept : Option View :=
  if v.reduction.isNone ∧ (v.pages .Revisions).isEmpty ∧ v.common.inventory.isNone then none
  else some v

/-- What a write leaves before the head is written or goes. -/
def written (view : Option View) (staged : Option StagedFile) (debt : Option Observation) : View :=
  let v := view.getD {}
  let v := if staged.any (fun s => s.change == .Reset) then v.bare else v
  let v := (staged.map v.stage).getD v
  let v := (debt.map v.observe).getD v
  v.settle

def write (view : Option View) (staged : Option StagedFile) (debt : Option Observation) :
    Option View := (written view staged debt).kept

/-- The ids a write gives to new revisions. -/
def given (view : Option View) (debt : Option Observation) : List Nat :=
  ((debt.map (fun o => numbered (view.getD {}).common.next_revision_id o.added)).getD []).map Prod.fst

def retire (view : Option View) : Option View :=
  let v := (view.getD {}).bare
  if (v.pages .Revisions).isEmpty then none else some v

def move (head : Bytes) (inventory : InventoryFacts) : View :=
  { v with common := { v.common with inventory := some inventory },
           reduction := v.reduction.map (fun _ => head) }

/-- What every stored view keeps. -/
structure Valid : Prop where
  metas_debt : v.metas.get? .Revisions = none
  named : ∀ c, c ≠ .Revisions → v.metas.get? c = none → v.pages c = .empty
  bare : v.reduction = none → v.metas = .empty
  fits : ∀ c position value, (v.pages c).get? position = some value → Fits (.page c position) value
  ids : ∀ id, ((v.pages .Revisions).get? id).isSome → id < v.common.next_revision_id.toNat

end View

/-! ## The membership of pages -/

section

variable {File : Type} {out : Outside File}

/-- The XOR of the terms of the pages. -/
def terms (out : Outside File) (c : Collection) (pages : SortedMap Nat Bytes) : BitVec 256 :=
  (pages.entries.map (fun e => term out c e.1 (stored out e.2))).foldl (· ^^^ ·) 0

theorem nothing_xor (t : BitVec 256) : (0 : BitVec 256) ^^^ t = t := zero_xor

theorem foldl_xor_cons (t : BitVec 256) (ts : List (BitVec 256)) :
    (t :: ts).foldl (· ^^^ ·) 0 = ts.foldl (· ^^^ ·) 0 ^^^ t := by
  have hstart : ∀ (ts : List (BitVec 256)) (a : BitVec 256),
      ts.foldl (· ^^^ ·) a = ts.foldl (· ^^^ ·) 0 ^^^ a := by
    intro ts
    induction ts with
    | nil => intro a; simp
    | cons t ts ih =>
      intro a
      rw [foldl_cons, foldl_cons, ih (a ^^^ t), ih (0 ^^^ t), nothing_xor,
        BitVec.xor_comm a t, xor_assoc]
  rw [foldl_cons, hstart, nothing_xor]

theorem foldl_xor_perm {ts us : List (BitVec 256)} (h : ts.Perm us) :
    ts.foldl (· ^^^ ·) 0 = us.foldl (· ^^^ ·) 0 := by
  induction h with
  | nil => rfl
  | cons t _ ih => rw [foldl_xor_cons, foldl_xor_cons, ih]
  | swap a b l =>
    rw [foldl_xor_cons, foldl_xor_cons, foldl_xor_cons, foldl_xor_cons, xor_assoc,
      BitVec.xor_comm a b, ← xor_assoc]
  | trans _ _ ih1 ih2 => rw [ih1, ih2]

theorem terms_insert (c : Collection) (pages : SortedMap Nat Bytes) (position : Nat) (value : Bytes) :
    terms out c (pages.insert position value) =
      terms out c (pages.erase position) ^^^ term out c position (stored out value) := by
  unfold terms
  rw [foldl_xor_perm ((pages.entries_insert_perm position value).map _), map_cons,
    foldl_xor_cons]

theorem terms_erase (c : Collection) {pages : SortedMap Nat Bytes} {position : Nat} {old : Bytes}
    (h : pages.get? position = some old) :
    terms out c (pages.erase position) =
      terms out c pages ^^^ term out c position (stored out old) := by
  have hall : terms out c pages =
      terms out c (pages.erase position) ^^^ term out c position (stored out old) := by
    unfold terms
    rw [foldl_xor_perm ((entries_perm_erase h).map _), map_cons, foldl_xor_cons]
  rw [hall, xor_assoc, BitVec.xor_self, xor_zero]

/-- The stored membership of a collection with these pages. -/
def membership (out : Outside File) (c : Collection) (found : CollectionMeta)
    (pages : SortedMap Nat Bytes) : Membership :=
  ⟨found, UInt64.ofNat pages.size, terms out c pages⟩

/-- The debt's own membership: one revision a page. -/
def debt_meta (pages : SortedMap Nat Bytes) : CollectionMeta := ⟨.Slot, 1, UInt64.ofNat pages.size⟩

/-- The table of a view: its collections, and its debt if there is any. -/
def View.table (out : Outside File) (v : View) : MembershipTable :=
  let table := v.metas.filterMap (fun c found => some (membership out c found (v.pages c)))
  if (v.pages .Revisions).isEmpty then table
  else table.insert .Revisions
    (membership out .Revisions (debt_meta (v.pages .Revisions)) (v.pages .Revisions))

theorem View.get?_table {v : View} (h : v.metas.get? .Revisions = none) (c : Collection) :
    (v.table out).get? c =
      if c = .Revisions then
        if (v.pages .Revisions).isEmpty then none
        else some (membership out .Revisions (debt_meta (v.pages .Revisions)) (v.pages .Revisions))
      else (v.metas.get? c).map (fun found => membership out c found (v.pages c)) := by
  have hplain : ∀ c, (v.metas.filterMap (fun c found => some (membership out c found (v.pages c)))).get? c =
      (v.metas.get? c).map (fun found => membership out c found (v.pages c)) := by
    intro c
    rw [get?_filterMap]
    cases v.metas.get? c <;> rfl
  unfold View.table
  by_cases hempty : (v.pages .Revisions).isEmpty = true
  · simp only [if_pos hempty, hplain]
    by_cases hc : c = .Revisions
    · rw [if_pos hc, hc, h]
      rfl
    · rw [if_neg hc]
  · simp only [if_neg hempty, get?_insert, hplain]

/-- The rows and the head of a file represent its view; without one it has no rows. -/
def Represents (tx : Tx out) (file : File) : Option View → Prop
  | none => Stores tx file {}
  | some v => v.Valid ∧ ∃ bytes,
      encode_head v.revision (v.table out) v.common v.reduction = .ok bytes ∧
        Fits .head bytes ∧ Stores tx file ⟨some bytes, v.pages⟩

def View.decoded (out : Outside File) (v : View) : Decoded :=
  ⟨v.revision, v.table out, v.common, v.reduction⟩

variable {tx : Tx out} {file : File} {view : Option View}

theorem Represents.of_same {tx' : Tx out}
    (h : Represents tx file view) (hsame : SameRows tx tx' file) : Represents tx' file view := by
  cases view with
  | none => exact Stores.of_same h hsame
  | some v =>
    obtain ⟨hvalid, bytes, hbytes, hfits, hstores⟩ := h
    exact ⟨hvalid, bytes, hbytes, hfits, hstores.of_same hsame⟩

theorem read_head_spec
    (h : Represents tx file view) : tx.read_head file = .ok (view.map (View.decoded out)) := by
  cases view with
  | none =>
    have hrow := Stores.row h .head
    simp only [Tx.row] at hrow
    unfold Tx.read_head
    rw [hrow]
    rfl
  | some v =>
    obtain ⟨hvalid, bytes, hbytes, hfits, hstores⟩ := h
    have hrow := hstores.row .head
    simp only [Tx.row] at hrow
    unfold Tx.read_head
    rw [hrow]
    refine bind_eq_ok.mpr ⟨bytes, read_value_spec hstores rfl hfits.2, ?_⟩
    exact bind_eq_ok.mpr ⟨_, decode_encode_head hbytes, rfl⟩

theorem View.valid_default : ({} : View).Valid where
  metas_debt := rfl
  named := fun _ _ _ => rfl
  bare := fun _ => rfl
  fits := by
    intro c position value h
    cases h
  ids := by
    intro id h
    cases h

theorem View.bare_valid {v : View} (h : v.Valid) : v.bare.Valid where
  metas_debt := rfl
  named := fun c hc _ => if_neg hc
  bare := fun _ => rfl
  fits := by
    intro c position value hvalue
    unfold View.bare at hvalue
    by_cases hc : c = .Revisions
    · simp only [if_pos hc] at hvalue
      exact h.fits c position value hvalue
    · simp only [if_neg hc] at hvalue
      cases hvalue
  ids := h.ids

theorem Represents.valid (h : Represents tx file view) : (view.getD {}).Valid := by
  cases view with
  | none => exact View.valid_default
  | some v => exact h.1

/-- The content of a view before its head is written. -/
theorem Represents.stores (h : Represents tx file view) :
    ∃ head, Stores tx file ⟨head, (view.getD {}).pages⟩ := by
  cases view with
  | none => exact ⟨none, h⟩
  | some v =>
    obtain ⟨-, bytes, -, -, hstores⟩ := h
    exact ⟨some bytes, hstores⟩

end

end ottto_service.state_v2.tail
