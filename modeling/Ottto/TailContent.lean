-- What the rows of a Tail file hold: a value at each place, whether inline,
-- compressed or in fragments. The operations on rows refine those on content.
import Ottto.TailStore

namespace ottto_service.state_v2.tail

open Results List Option Function SortedMap Tx

/-! ## Content -/

/-- The values of a file: its head, and its pages and revisions by position. -/
structure Content where
  head : Option Bytes := none
  pages : Collection → SortedMap Nat Bytes := fun _ => .empty

namespace Content

variable (c : Content)

def get (place : Place) : Option Bytes :=
  match place with
  | .head => c.head
  | .page collection position => (c.pages collection).get? position

def set (place : Place) (value : Bytes) : Content :=
  match place with
  | .head => { c with head := some value }
  | .page collection position =>
    { c with pages := Function.update c.pages collection ((c.pages collection).insert position value) }

def unset (place : Place) : Content :=
  match place with
  | .head => { c with head := none }
  | .page collection position =>
    { c with pages := Function.update c.pages collection ((c.pages collection).erase position) }

/-- The revisions alone, or nothing. -/
def debt (keep_debt : Bool) : Content where
  pages := fun collection =>
    if keep_debt ∧ collection = .Revisions then c.pages collection else .empty

theorem get_set (place other : Place) (value : Bytes) :
    (c.set place value).get other = if other = place then some value else c.get other := by
  cases place with
  | head => cases other <;> simp [set, get]
  | page collection position =>
    cases other with
    | head => simp [set, get]
    | page collection' position' =>
      by_cases hc : collection' = collection
      · subst hc
        simp only [set, get, update_self, get?_insert, Place.page.injEq, true_and]
      · simp only [set, get, update_of_ne hc, Place.page.injEq, hc, false_and, if_false]

theorem get_unset (place other : Place) :
    (c.unset place).get other = if other = place then none else c.get other := by
  cases place with
  | head => cases other <;> simp [unset, get]
  | page collection position =>
    cases other with
    | head => simp [unset, get]
    | page collection' position' =>
      by_cases hc : collection' = collection
      · subst hc
        simp only [unset, get, update_self, get?_erase, Place.page.injEq, true_and]
      · simp only [unset, get, update_of_ne hc, Place.page.injEq, hc, false_and, if_false]

theorem get_debt (keep_debt : Bool) (place : Place) :
    (c.debt keep_debt).get place =
      if keep_debt ∧ place.owner = Collection.Revisions.owner then c.get place else none := by
  cases place with
  | head =>
    have hne : (Place.head).owner ≠ Collection.Revisions.owner := by decide
    simp only [debt, get, hne, and_false, if_false]
  | page collection position =>
    have hiff : collection.owner = Collection.Revisions.owner ↔ collection = .Revisions := by
      cases collection <;> decide
    simp only [debt, get, Place.owner, hiff]
    split_ifs <;> rfl

theorem ext_get {c d : Content} (h : ∀ place, c.get place = d.get place) : c = d := by
  have hhead : c.head = d.head := h .head
  have hpages : c.pages = d.pages := by
    funext collection
    ext position : 1
    exact h (.page collection position)
  cases c
  cases d
  simp_all

end Content

/-! ## Rows that hold a content -/

/-- The place whose fragments have this owner and position. -/
def placeOf (owner position : Nat) : Option Place :=
  if owner = HEAD_OWNER then (if position = 0 then some .head else none)
  else if owner < 2 then none
  else (Collection.ALL[owner - 2]?).map (fun c => .page c position)

theorem placeOf_place (place : Place) : placeOf place.owner place.position = some place := by
  cases place with
  | head => rfl
  | page c position =>
    have hone : c.owner ≠ HEAD_OWNER := by cases c <;> decide
    have htwo : ¬ c.owner < 2 := by cases c <;> decide
    have hget : Collection.ALL[c.owner - 2]? = some c := c.get_index
    unfold placeOf
    simp only [Place.owner, Place.position, if_neg hone, if_neg htwo, hget, map_some]

theorem placeOf_eq_some {owner position : Nat} {place : Place}
    (h : placeOf owner position = some place) : place.owner = owner ∧ place.position = position := by
  unfold placeOf at h
  by_cases hhead : owner = HEAD_OWNER
  · rw [if_pos hhead] at h
    by_cases hzero : position = 0
    · rw [if_pos hzero] at h
      cases h
      exact ⟨hhead.symm, hzero.symm⟩
    · rw [if_neg hzero] at h
      cases h
  · rw [if_neg hhead] at h
    by_cases htwo : owner < 2
    · rw [if_pos htwo] at h
      cases h
    · rw [if_neg htwo] at h
      obtain ⟨c, hc, rfl⟩ := map_eq_some_iff.mp h
      obtain ⟨hlt, hget⟩ := List.getElem?_eq_some_iff.mp hc
      have hindex : ∀ n, ∀ hn : n < Collection.ALL.length, (Collection.ALL.get ⟨n, hn⟩).index = n := by
        decide
      have hown := hindex (owner - 2) hlt
      rw [get_eq_getElem, hget] at hown
      refine ⟨?_, rfl⟩
      show c.index + 2 = owner
      omega

theorem fragKey_inj {o p n o' p' n' : Nat} :
    fragKey o p n = fragKey o' p' n' ↔ o = o' ∧ p = p' ∧ n = n' := by
  unfold fragKey
  constructor
  · intro h
    have h1 := Prod.mk.inj (toLex.injective h)
    have h2 := Prod.mk.inj (toLex.injective h1.2)
    exact ⟨h1.1, h2.1, h2.2⟩
  · rintro ⟨rfl, rfl, rfl⟩
    rfl

theorem fragKey_surjective (key : FragKey) :
    ∃ o p n, key = fragKey o p n := ⟨_, _, _, rfl⟩

section

variable {File : Type} {out : Outside File}

/-- The fragment of a value with this number. -/
def fragmentRow (out : Outside File) (number : Nat) (value : Bytes) : Option Row :=
  if number < fragments value then some (inline out (chunk value number)) else none

/-- The rows of the file are those of the content. -/
structure Stores (tx : Tx out) (file : File) (c : Content) : Prop where
  row : ∀ place, tx.row file place = (c.get place).map (stored out)
  frag : ∀ owner position number,
    (tx.frag (out.frag_file file)).get? (fragKey owner position number) =
      ((placeOf owner position).bind c.get).bind (fragmentRow out number)

/-- No other file's rows differ, and no marker. -/
structure Elsewhere (tx tx' : Tx out) (file : File) : Prop where
  head : ∀ other, other ≠ file → tx'.head other = tx.head other
  page : ∀ other, other ≠ file → tx'.page other = tx.page other
  frag : ∀ other, other ≠ file → tx'.frag (out.frag_file other) = tx.frag (out.frag_file other)
  set_aside : tx'.set_aside = tx.set_aside

theorem Elsewhere.refl (tx : Tx out) (file : File) : Elsewhere tx tx file :=
  ⟨fun _ _ => rfl, fun _ _ => rfl, fun _ _ => rfl, rfl⟩

theorem Elsewhere.trans {tx tx' tx'' : Tx out} {file : File} (h : Elsewhere tx tx' file)
    (h' : Elsewhere tx' tx'' file) : Elsewhere tx tx'' file where
  head := fun other hne => (h'.head other hne).trans (h.head other hne)
  page := fun other hne => (h'.page other hne).trans (h.page other hne)
  frag := fun other hne => (h'.frag other hne).trans (h.frag other hne)
  set_aside := h'.set_aside.trans h.set_aside

/-- Two transactions hold the same rows of a file. -/
structure SameRows (tx tx' : Tx out) (file : File) : Prop where
  head : tx'.head file = tx.head file
  page : tx'.page file = tx.page file
  frag : tx'.frag (out.frag_file file) = tx.frag (out.frag_file file)

variable {tx tx' : Tx out} {file : File} {c : Content}

theorem Stores.of_same (h : Stores tx file c)
    (hsame : SameRows tx tx' file) : Stores tx' file c where
  row := by
    intro place
    rw [← h.row]
    cases place with
    | head => exact hsame.head
    | page collection position =>
      unfold Tx.row
      simp only [hsame.page]
  frag := by
    intro owner position number
    rw [hsame.frag]
    exact h.frag owner position number

theorem Elsewhere.same {other : File} (h : Elsewhere tx tx' file)
    (hne : other ≠ file) : SameRows tx tx' other :=
  ⟨h.head other hne, h.page other hne, h.frag other hne⟩

/-- The content decides the rows. -/
theorem Stores.same (h : Stores tx file c)
    (h' : Stores tx' file c) : SameRows tx tx' file where
  head := (h'.row .head).trans (h.row .head).symm
  page := by
    funext collection
    ext position : 1
    exact (h'.row (.page collection position)).trans (h.row (.page collection position)).symm
  frag := by
    ext key : 1
    obtain ⟨owner, position, number, rfl⟩ := fragKey_surjective key
    rw [h.frag, h'.frag]

/-- The pages of a collection, as they are stored. -/
theorem Stores.page (h : Stores tx file c) (collection : Collection) :
    tx.page file collection = (c.pages collection).mapValues (stored out) := by
  ext position : 1
  rw [get?_mapValues]
  exact h.row (.page collection position)

/-! ## Writing a value -/

theorem admit_position_eq_ok {position : Nat}
    {u : Unit} : admit_position position = .ok u ↔ position < 2 ^ 63 := by
  unfold admit_position
  rw [ensure_eq_ok, decide_eq_true_iff]

@[simp] theorem row_setFrag (tx : Tx out) (file file' : File) (rows : SortedMap FragKey Row)
    (place : Place) : (tx.setFrag file rows).row file' place = tx.row file' place := by
  cases place <;> rfl

@[simp] theorem frag_setFrag (tx : Tx out) (file : File) (rows : SortedMap FragKey Row) :
    (tx.setFrag file rows).frag (out.frag_file file) = rows :=
  update_self _ _ _

theorem elsewhere_setFrag (tx : Tx out) (file : File) (rows : SortedMap FragKey Row) :
    Elsewhere tx (tx.setFrag file rows) file where
  head := fun _ _ => rfl
  page := fun _ _ => rfl
  frag := by
    intro other hne
    exact update_of_ne (fun heq => hne (out.frag_file_injective heq)) _ _
  set_aside := rfl

variable {place : Place} {value : Bytes}

theorem put_fragments_spec {numbers : List Nat}
    (h : numbers.foldlM (fun tx number => tx.put_fragment file place value number) tx = .ok tx') :
    Elsewhere tx tx' file ∧ (∀ other, tx'.row file other = tx.row file other) ∧
      (∀ number ∈ numbers, number < 2 ^ 63) ∧
      ∀ owner position number, (tx'.frag (out.frag_file file)).get? (fragKey owner position number) =
        if owner = place.owner ∧ position = place.position ∧ number ∈ numbers then
          some (inline out (chunk value number))
        else (tx.frag (out.frag_file file)).get? (fragKey owner position number) := by
  induction numbers generalizing tx with
  | nil =>
    obtain rfl := Except.ok.inj h
    exact ⟨Elsewhere.refl tx file, fun _ => rfl, by simp, by simp⟩
  | cons first numbers ih =>
    rw [foldlM_cons] at h
    obtain ⟨tx1, hput, hrest⟩ := bind_eq_ok.mp h
    obtain ⟨_, hadmit, hput⟩ := bind_eq_ok.mp hput
    cases hput
    obtain ⟨helse, hrow, hbound, hfrag⟩ := ih hrest
    refine ⟨(elsewhere_setFrag tx file _).trans helse, ?_, ?_, ?_⟩
    · intro other
      rw [hrow, row_setFrag]
    · exact forall_mem_cons.mpr ⟨admit_position_eq_ok.mp hadmit, hbound⟩
    · intro owner position number
      rw [hfrag, frag_setFrag, get?_insert]
      simp only [fragKey_inj, mem_cons]
      by_cases hplace : owner = place.owner ∧ position = place.position
      · obtain ⟨rfl, rfl⟩ := hplace
        by_cases hfirst : number = first
        · subst hfirst
          simp
        · simp [hfirst]
      · have h1 : ¬ (owner = place.owner ∧ position = place.position ∧ number ∈ numbers) :=
          fun hall => hplace ⟨hall.1, hall.2.1⟩
        have h2 : ¬ (owner = place.owner ∧ position = place.position ∧ number = first) :=
          fun hall => hplace ⟨hall.1, hall.2.1⟩
        have h3 : ¬ (owner = place.owner ∧ position = place.position ∧
            (number = first ∨ number ∈ numbers)) := fun hall => hplace ⟨hall.1, hall.2.1⟩
        rw [if_neg h1, if_neg h2, if_neg h3]

theorem delete_fragments_get (tx : Tx out) (file : File) (place : Place) (start owner position number : Nat) :
    ((tx.delete_fragments file place start).frag (out.frag_file file)).get?
      (fragKey owner position number) =
      if owner = place.owner ∧ position = place.position ∧ start ≤ number then none
      else (tx.frag (out.frag_file file)).get? (fragKey owner position number) := by
  unfold delete_fragments
  rw [frag_setFrag, get?_retain]
  simp only [fragKey, ofLex_toLex]
  cases (tx.frag (out.frag_file file)).get? (toLex (owner, toLex (position, number))) with
  | none => simp
  | some row =>
    by_cases hgone : owner = place.owner ∧ position = place.position ∧ start ≤ number
    · simp [hgone]
    · simp [hgone]

variable [DecidableEq File]

variable {row : Row}

@[simp] theorem frag_put (h : tx.put file place row = .ok tx') : tx'.frag = tx.frag := by
  obtain ⟨_, -, h⟩ := bind_eq_ok.mp h
  cases h
  cases place <;> rfl

theorem put_spec (h : tx.put file place row = .ok tx') :
    place.position < 2 ^ 63 ∧ Elsewhere tx tx' file ∧
      ∀ other, tx'.row file other = if other = place then some row else tx.row file other := by
  obtain ⟨_, hadmit, h⟩ := bind_eq_ok.mp h
  cases h
  refine ⟨admit_position_eq_ok.mp hadmit, ?_, ?_⟩
  · cases place with
    | head =>
      exact ⟨fun _ hne => update_of_ne hne _ _, fun _ _ => rfl, fun _ _ => rfl, rfl⟩
    | page c position =>
      exact ⟨fun _ _ => rfl, fun _ hne => update_of_ne hne _ _, fun _ _ => rfl, rfl⟩
  · intro other
    cases place with
    | head => cases other <;> simp [Tx.row]
    | page c position =>
      cases other with
      | head => simp [Tx.row, Tx.setPage]
      | page c' position' =>
        by_cases hc : c' = c
        · subst hc
          simp only [Tx.row, Tx.setPage, update_self, get?_insert,
            Place.page.injEq, true_and]
        · simp only [Tx.row, Tx.setPage, update_self, update_of_ne hc,
            Place.page.injEq, hc, false_and, if_false]

theorem delete_spec (h : tx.delete file place = .ok tx') :
    Elsewhere tx tx' file ∧ tx'.frag = tx.frag ∧
      ∀ other, tx'.row file other = if other = place then none else tx.row file other := by
  obtain ⟨_, hadmit, h⟩ := bind_eq_ok.mp h
  cases h
  refine ⟨?_, ?_, ?_⟩
  · cases place with
    | head =>
      exact ⟨fun _ hne => update_of_ne hne _ _, fun _ _ => rfl, fun _ _ => rfl, rfl⟩
    | page c position =>
      exact ⟨fun _ _ => rfl, fun _ hne => update_of_ne hne _ _, fun _ _ => rfl, rfl⟩
  · cases place <;> rfl
  · intro other
    cases place with
    | head => cases other <;> simp [Tx.row]
    | page c position =>
      cases other with
      | head => simp [Tx.row, Tx.setPage]
      | page c' position' =>
        by_cases hc : c' = c
        · subst hc
          simp only [Tx.row, Tx.setPage, update_self, get?_erase,
            Place.page.injEq, true_and]
        · simp only [Tx.row, Tx.setPage, update_self, update_of_ne hc,
            Place.page.injEq, hc, false_and, if_false]

/-- A value that its rows can hold: each of its fragments has a number. -/
def Fits (place : Place) (value : Bytes) : Prop :=
  place.position < 2 ^ 63 ∧ fragments value ≤ 2 ^ 63

theorem placeOf_bind {c' : Content} {found : Option Bytes}
    (h : ∀ other, c'.get other = if other = place then found else c.get other)
    (owner position : Nat) :
    (placeOf owner position).bind c'.get =
      if owner = place.owner ∧ position = place.position then found
      else (placeOf owner position).bind c.get := by
  by_cases hplace : owner = place.owner ∧ position = place.position
  · obtain ⟨rfl, rfl⟩ := hplace
    rw [placeOf_place, if_pos ⟨rfl, rfl⟩, bind_some, h, if_pos rfl]
  · rw [if_neg hplace]
    cases hother : placeOf owner position with
    | none => rfl
    | some other =>
      have hne : other ≠ place := by
        rintro rfl
        obtain ⟨h1, h2⟩ := placeOf_eq_some hother
        exact hplace ⟨h1.symm, h2.symm⟩
      rw [bind_some, bind_some, h, if_neg hne]

/-- The rows are those of the content, but for one place. -/
structure StoresBut (tx : Tx out) (file : File) (c : Content) (hole : Place) : Prop where
  row : ∀ place, place ≠ hole → tx.row file place = (c.get place).map (stored out)
  frag : ∀ owner position number, ¬ (owner = hole.owner ∧ position = hole.position) →
    (tx.frag (out.frag_file file)).get? (fragKey owner position number) =
      ((placeOf owner position).bind c.get).bind (fragmentRow out number)

omit [DecidableEq File] in
theorem Stores.but (h : Stores tx file c) (hole : Place) :
    StoresBut tx file c hole :=
  ⟨fun place _ => h.row place, fun owner position number _ => h.frag owner position number⟩

theorem write_value_but (hs : StoresBut tx file c place)
    (h : tx.write_value file place value = .ok (row, tx')) :
    Fits place value ∧ row = stored out value ∧ Stores tx' file (c.set place value) ∧
      Elsewhere tx tx' file := by
  obtain ⟨tx1, hfragments, h⟩ := bind_eq_ok.mp h
  obtain ⟨tx2, hput, h⟩ := bind_eq_ok.mp h
  cases h
  obtain ⟨helse1, hrow1, hbound, hfrag1⟩ := put_fragments_spec hfragments
  obtain ⟨hposition, helse2, hrow2⟩ := put_spec hput
  have hfrag2 := frag_put hput
  have hfits : fragments value ≤ 2 ^ 63 := by
    by_contra hmany
    exact absurd (hbound (2 ^ 63) (mem_range.mpr (by omega))) (lt_irrefl _)
  refine ⟨⟨hposition, hfits⟩, rfl, ?_, (helse1.trans (elsewhere_setFrag tx1 file _)).trans helse2⟩
  constructor
  · intro other
    have hkept : (tx1.delete_fragments file place (fragments value)).row file other =
        tx.row file other := by
      rw [← hrow1 other]
      exact row_setFrag tx1 file file _ other
    rw [hrow2, Content.get_set]
    by_cases hother : other = place
    · rw [if_pos hother, if_pos hother, map_some]
    · rw [if_neg hother, if_neg hother, hkept, hs.row other hother]
  · intro owner position number
    rw [hfrag2, delete_fragments_get, hfrag1, placeOf_bind (fun _ => c.get_set _ _ _)]
    by_cases hplace : owner = place.owner ∧ position = place.position
    · rw [if_pos hplace, bind_some]
      unfold fragmentRow
      by_cases hnumber : number < fragments value
      · rw [if_pos hnumber, if_neg (fun hall => absurd hall.2.2 (by omega)),
          if_pos ⟨hplace.1, hplace.2, mem_range.mpr hnumber⟩]
      · rw [if_neg hnumber, if_pos ⟨hplace.1, hplace.2, by omega⟩]
    · rw [if_neg hplace, if_neg (fun hall => hplace ⟨hall.1, hall.2.1⟩),
        if_neg (fun hall => hplace ⟨hall.1, hall.2.1⟩), hs.frag _ _ _ hplace]

theorem write_value_spec (hs : Stores tx file c)
    (h : tx.write_value file place value = .ok (row, tx')) :
    Fits place value ∧ row = stored out value ∧ Stores tx' file (c.set place value) ∧
      Elsewhere tx tx' file :=
  write_value_but (hs.but place) h

/-- A row deleted with its fragments. -/
theorem delete_value_spec (hs : Stores tx file c) (h : tx.delete file place = .ok tx') :
    Stores (tx'.delete_fragments file place 0) file (c.unset place) ∧
      Elsewhere tx (tx'.delete_fragments file place 0) file := by
  obtain ⟨helse, hfrag, hrow⟩ := delete_spec h
  refine ⟨⟨?_, ?_⟩, helse.trans (elsewhere_setFrag tx' file _)⟩
  · intro other
    have hkept : (tx'.delete_fragments file place 0).row file other = tx'.row file other :=
      row_setFrag tx' file file _ other
    rw [hkept, hrow, Content.get_unset]
    by_cases hother : other = place
    · rw [if_pos hother, if_pos hother, map_none]
    · rw [if_neg hother, if_neg hother, hs.row]
  · intro owner position number
    rw [delete_fragments_get, hfrag, hs.frag, placeOf_bind (fun _ => c.get_unset _ _)]
    by_cases hplace : owner = place.owner ∧ position = place.position
    · rw [if_pos hplace, if_pos ⟨hplace.1, hplace.2, Nat.zero_le _⟩]
      rfl
    · rw [if_neg hplace, if_neg (fun hall => hplace ⟨hall.1, hall.2.1⟩)]

theorem delete_rows_get (tx : Tx out) (file : File) (keep_debt : Bool)
    (owner position number : Nat) :
    ((tx.delete_rows file keep_debt).frag (out.frag_file file)).get? (fragKey owner position number) =
      if keep_debt ∧ owner = Collection.Revisions.owner then
        (tx.frag (out.frag_file file)).get? (fragKey owner position number)
      else none := by
  simp only [delete_rows, update_self, get?_retain, fragKey, ofLex_toLex]
  cases (tx.frag (out.frag_file file)).get? (toLex (owner, toLex (position, number))) with
  | none => simp
  | some row =>
    by_cases hkeep : keep_debt = true ∧ owner = Collection.Revisions.owner
    · simp [hkeep]
    · simp [hkeep]

theorem delete_rows_spec (hs : Stores tx file c) (keep_debt : Bool) :
    Stores (tx.delete_rows file keep_debt) file (c.debt keep_debt) ∧
      Elsewhere tx (tx.delete_rows file keep_debt) file := by
  refine ⟨⟨?_, ?_⟩, ?_⟩
  · intro place
    cases place with
    | head =>
      show (Function.update tx.head file none) file = none
      rw [update_self]
    | page collection position =>
      have hrow := hs.row (.page collection position)
      simp only [Tx.row, delete_rows, update_self, Content.debt, Content.get]
      by_cases hkeep : keep_debt = true ∧ collection = .Revisions
      · rw [if_pos hkeep, if_pos hkeep]
        exact hrow
      · rw [if_neg hkeep, if_neg hkeep]
        rfl
  · intro owner position number
    rw [delete_rows_get, hs.frag]
    cases hplace : placeOf owner position with
    | none => simp
    | some place =>
      obtain ⟨rfl, rfl⟩ := placeOf_eq_some hplace
      rw [bind_some, bind_some, Content.get_debt]
      by_cases hkeep : keep_debt = true ∧ place.owner = Collection.Revisions.owner
      · rw [if_pos hkeep, if_pos hkeep]
      · rw [if_neg hkeep, if_neg hkeep]
        rfl
  · refine ⟨fun _ hne => update_of_ne hne _ _, fun _ hne => update_of_ne hne _ _,
      ?_, rfl⟩
    intro other hne
    exact update_of_ne (fun heq => hne (out.frag_file_injective heq)) _ _

/-- The pages of one file under the keys of another, whose head is still to come. -/
theorem rekey_spec {source target : File} (hs : Stores tx source c)
    (ht : Stores tx target {}) (hne : source ≠ target) :
    StoresBut (tx.rekey source target) target c .head ∧
      ((tx.rekey source target).page source = fun _ => .empty) ∧
      (tx.rekey source target).frag (out.frag_file source) = .empty ∧
      ∀ other, other ≠ source → other ≠ target → SameRows tx (tx.rekey source target) other := by
  have hkey : ∀ {a b : File}, a ≠ b → out.frag_file a ≠ out.frag_file b :=
    fun hab heq => hab (out.frag_file_injective heq)
  refine ⟨⟨?_, ?_⟩, update_self _ _ _, update_self _ _ _, ?_⟩
  · intro place hplace
    cases place with
    | head => exact absurd rfl hplace
    | page collection position =>
      have hfree := ht.row (.page collection position)
      have hrow := hs.row (.page collection position)
      simp only [Tx.row] at hfree hrow
      simp only [Tx.row, Tx.rekey, update_of_ne hne.symm, update_self,
        get?_extend, hfree, hrow]
      exact or_none
  · intro owner position number _
    have hfree := ht.frag owner position number
    have hnothing : ((placeOf owner position).bind ({} : Content).get) = none := by
      cases placeOf owner position with
      | none => rfl
      | some place => cases place <;> rfl
    rw [hnothing] at hfree
    simp only [Tx.rekey, update_of_ne (hkey hne.symm), update_self,
      get?_extend, hfree, hs.frag]
    exact or_none
  · intro other h1 h2
    refine ⟨rfl, ?_, ?_⟩
    · simp only [Tx.rekey, update_of_ne h1, update_of_ne h2]
    · simp only [Tx.rekey, update_of_ne (hkey h1), update_of_ne (hkey h2)]

/-! ## Reading a value -/

omit [DecidableEq File] in
theorem read_inline_inline (h : value.length ≤ FRAG_BYTES) :
    read_inline out (inline out value) = .ok value := by
  unfold inline encode read_inline
  by_cases hshort : value.length < 512
  · simp [hshort]
  · by_cases hsmaller : (out.compress value).length < value.length
    · simp only [if_neg hshort, if_pos hsmaller]
      unfold expand_frame
      rw [out.decompress_compress]
      refine bind_eq_ok.mpr ⟨value, rfl, bind_eq_ok.mpr ⟨(), ?_, rfl⟩⟩
      exact ensure_eq_ok.mpr (decide_eq_true h)
    · simp [hshort, hsmaller]

theorem chunks_flatten (value : Bytes) (count : Nat) :
    (List.range count).flatMap (chunk value) = value.take (count * FRAG_BYTES) := by
  induction count with
  | zero => simp
  | succ count ih =>
    rw [range_succ, flatMap_append, ih, flatMap_singleton, Nat.succ_mul]
    exact take_add.symm

theorem fragments_cover (h : FRAG_BYTES < value.length) :
    value.length ≤ fragments value * FRAG_BYTES ∧ fragments value ≠ 0 := by
  unfold fragments
  rw [if_pos h]
  have hpos : 0 < FRAG_BYTES := by decide
  have hdiv := Nat.div_add_mod (value.length + FRAG_BYTES - 1) FRAG_BYTES
  have hmod := Nat.mod_lt (value.length + FRAG_BYTES - 1) hpos
  rw [Nat.mul_comm] at hdiv
  refine ⟨by omega, ?_⟩
  intro hzero
  rw [hzero] at hdiv
  omega

omit [DecidableEq File] in
theorem read_fragments_spec (hs : Stores tx file c) (hvalue : c.get place = some value) (numbers : List Nat)
    (hnumbers : ∀ number ∈ numbers, number < fragments value ∧ number < 2 ^ 63) :
    tx.read_fragments file place numbers = .ok (numbers.flatMap (chunk value)) := by
  induction numbers with
  | nil => rfl
  | cons number rest ih =>
    obtain ⟨⟨hnumber, hbound⟩, hrest⟩ := forall_mem_cons.mp hnumbers
    have hrow : (tx.frag (out.frag_file file)).get? (fragKey place.owner place.position number) =
        some (inline out (chunk value number)) := by
      rw [hs.frag, placeOf_place, bind_some, hvalue, bind_some, fragmentRow,
        if_pos hnumber]
    have hchunk : (chunk value number).length ≤ FRAG_BYTES := by
      unfold chunk
      rw [length_take]
      exact Nat.min_le_left _ _
    refine bind_eq_ok.mpr ⟨(), admit_position_eq_ok.mpr hbound, ?_⟩
    refine bind_eq_ok.mpr ⟨_, context_eq_ok.mpr hrow, ?_⟩
    refine bind_eq_ok.mpr ⟨_, read_inline_inline hchunk, ?_⟩
    exact bind_eq_ok.mpr ⟨_, ih hrest, rfl⟩

omit [DecidableEq File] in
theorem read_envelope_envelope (value : Bytes) :
    read_envelope (envelope out value) = .ok ((UInt64.ofNat value.length,
      UInt64.ofNat (fragments value), to_be_bytes 32 (out.sha256 value).toNat), []) := by
  have htakes : Takes read_envelope (envelope out value) (UInt64.ofNat value.length,
      UInt64.ofNat (fragments value), to_be_bytes 32 (out.sha256 value).toNat) := by
    unfold envelope
    rw [append_assoc]
    refine Takes.bind (Takes.u64 _) (Takes.bind (Takes.u64 _) ?_)
    exact Takes.last (Takes.take (Takes.to_be_bytes_length 32 _)) (Takes.pure _)
  have hread := htakes []
  rwa [append_nil] at hread

omit [DecidableEq File] in
/-- What a place holds is read from its row. -/
theorem read_value_spec (hs : Stores tx file c) (hvalue : c.get place = some value)
    (hfits : fragments value ≤ 2 ^ 63) :
    tx.read_value file place (stored out value) = .ok value := by
  unfold read_value stored
  by_cases hlong : FRAG_BYTES < value.length
  · obtain ⟨hcover, hsome⟩ := fragments_cover hlong
    rw [if_neg hsome]
    have hcount : (UInt64.ofNat (fragments value)).toNat = fragments value := by
      rw [UInt64.toNat_ofNat', Nat.mod_eq_of_lt (by omega)]
    have hnumbers : ∀ number ∈ List.range (fragments value),
        number < fragments value ∧ number < 2 ^ 63 := by
      intro number hnumber
      have := mem_range.mp hnumber
      omega
    rw [if_neg (by simp)]
    refine bind_eq_ok.mpr ⟨_, read_envelope_envelope value, ?_⟩
    have hread := read_fragments_spec hs hvalue _ hnumbers
    rw [chunks_flatten, take_of_length_le hcover] at hread
    simp only [hcount]
    refine bind_eq_ok.mpr ⟨value, hread, bind_eq_ok.mpr ⟨(), ?_, rfl⟩⟩
    exact ensure_eq_ok.mpr (decide_eq_true ⟨rfl, rfl⟩)
  · have hnone : fragments value = 0 := by
      unfold fragments
      rw [if_neg hlong]
    rw [if_pos hnone]
    have hversion : (inline out value).version ≠ .FRAGMENTED := by
      simp only [inline]
      split_ifs <;> simp
    rw [if_pos hversion]
    exact read_inline_inline (by omega)

end

end ottto_service.state_v2.tail
