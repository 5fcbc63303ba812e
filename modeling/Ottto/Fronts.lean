-- A heap over the fronts of ascending lists: what leaves it is ascending, and is all that the lists
-- hold. Nothing here is about one program.
import Mathlib.Data.List.Sort
import Mathlib.Data.Prod.Lex
import Mathlib.Tactic

namespace Fronts

open List Option

/-- An element, the list that holds it, and its place there. -/
abbrev Front (α : Type) : Type := α ×ₗ Nat ×ₗ Nat

namespace Front

variable {α : Type}

def of (element : α) (list position : Nat) : Front α := toLex (element, toLex (list, position))

def element (self : Front α) : α := (ofLex self).1

def list (self : Front α) : Nat := (ofLex (ofLex self).2).1

def position (self : Front α) : Nat := (ofLex (ofLex self).2).2

/-- What the list holds from the front on. -/
def rest (lists : List (List α)) (self : Front α) : List (α × Nat) :=
  ((lists.getD self.list []).drop self.position).map (fun a => (a, self.list))

end Front

variable {α : Type} [LinearOrder α] {lists : List (List α)} {heap : List (Front α)} {front : Front α}

/-- The heap, as the ascending list of its fronts. -/
def push (heap : List (Front α)) (front : Front α) : List (Front α) :=
  heap.orderedInsert (· ≤ ·) front

/-- The first front of every list. -/
def start (lists : List (List α)) : List (Front α) :=
  (lists.zipIdx.filterMap (fun (list, i) => list.head?.map (fun a => Front.of a i 0))).insertionSort
    (· ≤ ·)

/-- The front behind one that left takes its place. -/
def advance (lists : List (List α)) (front : Front α) (heap : List (Front α)) : List (Front α) :=
  match (lists.getD front.list [])[front.position + 1]? with
  | some next => push heap (Front.of next front.list (front.position + 1))
  | none => heap

/-- What leaves the heap, in order. -/
def pops (lists : List (List α)) : Nat → List (Front α) → List (α × Nat)
  | 0, _ => []
  | _ + 1, [] => []
  | fuel + 1, front :: heap =>
    (front.element, front.list) :: pops lists fuel (advance lists front heap)

/-- All that the fronts of a heap stand for. -/
def contents (lists : List (List α)) (heap : List (Front α)) : List (α × Nat) :=
  heap.flatMap (Front.rest lists)

/-- The fronts are in order, and each stands at its place. -/
structure Stands (lists : List (List α)) (heap : List (Front α)) : Prop where
  sorted : heap.Pairwise (· ≤ ·)
  placed : ∀ front ∈ heap, (lists.getD front.list [])[front.position]? = some front.element

omit [LinearOrder α] in
theorem rest_of_placed (h : (lists.getD front.list [])[front.position]? = some front.element) :
    front.rest lists = (front.element, front.list) ::
      (Front.of front.element front.list (front.position + 1)).rest lists := by
  obtain ⟨hlt, hget⟩ := List.getElem?_eq_some_iff.mp h
  unfold Front.rest
  rw [drop_eq_getElem_cons hlt, hget, map_cons]
  rfl

/-- Only the front that left is missing from what the heap stands for. -/
theorem contents_advance (h : (lists.getD front.list [])[front.position]? = some front.element) :
    ((front.element, front.list) :: contents lists (advance lists front heap)).Perm
      (contents lists (front :: heap)) := by
  rw [contents, contents, flatMap_cons, rest_of_placed h, cons_append]
  refine .cons _ ?_
  unfold advance
  cases hnext : (lists.getD front.list [])[front.position + 1]? with
  | none =>
    have hend : (Front.of front.element front.list (front.position + 1)).rest lists = [] := by
      show ((lists.getD front.list []).drop (front.position + 1)).map _ = []
      rw [drop_eq_nil_of_le (List.getElem?_eq_none_iff.mp hnext), map_nil]
    rw [hend, nil_append]
  | some next =>
    refine ((perm_orderedInsert (· ≤ ·) _ heap).flatMap_right (Front.rest lists)).trans ?_
    rw [flatMap_cons]
    exact .refl _

theorem Stands.advance (h : Stands lists (front :: heap)) : Stands lists (advance lists front heap) := by
  obtain ⟨hsorted, hplaced⟩ := h
  unfold Fronts.advance
  cases hnext : (lists.getD front.list [])[front.position + 1]? with
  | none =>
    exact ⟨hsorted.of_cons, fun other hother => hplaced other (mem_cons_of_mem front hother)⟩
  | some next =>
    refine ⟨hsorted.of_cons.orderedInsert _ _, fun other hother => ?_⟩
    rcases (mem_orderedInsert (· ≤ ·)).mp hother with rfl | hother
    · exact hnext
    · exact hplaced other (mem_cons_of_mem front hother)

theorem pops_perm (fuel : Nat) (h : Stands lists heap) (hfuel : (contents lists heap).length ≤ fuel) :
    (pops lists fuel heap).Perm (contents lists heap) := by
  induction fuel generalizing heap with
  | zero => rw [eq_nil_of_length_eq_zero (Nat.le_zero.mp hfuel), pops]
  | succ fuel ih =>
    cases heap with
    | nil => exact .refl []
    | cons front heap =>
      have hmoved : ((front.element, front.list) :: contents lists (advance lists front heap)).Perm
          (contents lists (front :: heap)) := contents_advance (h.placed front mem_cons_self)
      have hlength := hmoved.length_eq
      rw [length_cons] at hlength
      exact ((ih h.advance (by omega)).cons _).trans hmoved

/-- Nothing that a heap stands for is below its first front. -/
theorem first_le (h : Stands lists (front :: heap)) (hlists : ∀ list ∈ lists, list.Pairwise (· ≤ ·))
    {a : α × Nat} (ha : a ∈ contents lists (front :: heap)) : front.element ≤ a.1 := by
  obtain ⟨other, hother, ha⟩ := mem_flatMap.mp ha
  have hfirst : front.element ≤ other.element := by
    rcases mem_cons.mp hother with rfl | hother
    · exact le_rfl
    · exact Prod.Lex.monotone_fst _ _ (rel_of_pairwise_cons h.sorted hother)
  refine hfirst.trans ?_
  have hplace := h.placed other hother
  rw [rest_of_placed hplace] at ha
  rcases mem_cons.mp ha with rfl | ha
  · exact le_rfl
  · obtain ⟨hlt, hget⟩ := List.getElem?_eq_some_iff.mp hplace
    have hlist : (lists.getD other.list []).Pairwise (· ≤ ·) := by
      rw [getD_eq_getElem?_getD]
      cases hl : lists[other.list]? with
      | none => exact .nil
      | some list => exact hlists list (mem_of_getElem? hl)
    have hdrop := hlist.sublist (drop_sublist other.position _)
    rw [drop_eq_getElem_cons hlt, hget] at hdrop
    obtain ⟨b, hb, rfl⟩ := mem_map.mp ha
    exact rel_of_pairwise_cons hdrop hb

theorem pops_subset (fuel : Nat) (h : Stands lists heap) {a : α × Nat} (ha : a ∈ pops lists fuel heap) :
    a ∈ contents lists heap := by
  induction fuel generalizing heap with
  | zero => cases ha
  | succ fuel ih =>
    cases heap with
    | nil => cases ha
    | cons front heap =>
      refine (contents_advance (h.placed front mem_cons_self)).subset ?_
      rcases mem_cons.mp ha with rfl | ha
      · exact mem_cons_self
      · exact mem_cons_of_mem _ (ih h.advance ha)

theorem pops_sorted (fuel : Nat) (h : Stands lists heap)
    (hlists : ∀ list ∈ lists, list.Pairwise (· ≤ ·)) :
    (pops lists fuel heap).Pairwise (fun a b => a.1 ≤ b.1) := by
  induction fuel generalizing heap with
  | zero => exact .nil
  | succ fuel ih =>
    cases heap with
    | nil => exact .nil
    | cons front heap =>
      refine pairwise_cons.mpr ⟨fun a ha => ?_, ih h.advance⟩
      refine first_le h hlists ((contents_advance (h.placed front mem_cons_self)).subset ?_)
      exact mem_cons_of_mem _ (pops_subset fuel h.advance ha)

theorem start_stands (lists : List (List α)) : Stands lists (start lists) := by
  refine ⟨pairwise_insertionSort _ _, fun front hfront => ?_⟩
  obtain ⟨⟨list, i⟩, hlist, hfirst⟩ := mem_filterMap.mp ((mem_insertionSort _).mp hfront)
  obtain ⟨a, ha, rfl⟩ := map_eq_some_iff.mp hfirst
  show (lists.getD i [])[0]? = some a
  rw [getD_eq_getElem?_getD, mem_zipIdx_iff_getElem?.mp hlist, getD_some,
    ← List.head?_eq_getElem?]
  exact ha

/-- At the start the heap stands for every element of every list. -/
theorem contents_start (lists : List (List α)) :
    (contents lists (start lists)).Perm
      (lists.zipIdx.flatMap (fun (list, i) => list.map (fun a => (a, i)))) := by
  refine ((perm_insertionSort (· ≤ ·) _).flatMap_right (Front.rest lists)).trans ?_
  rw [filterMap_eq_flatMap_toList, flatMap_assoc]
  refine List.Perm.of_eq (flatMap_congr fun entry hentry => ?_)
  obtain ⟨list, i⟩ := entry
  cases list with
  | nil => rfl
  | cons a list =>
    have hlist : lists.getD i [] = a :: list := by
      rw [getD_eq_getElem?_getD, mem_zipIdx_iff_getElem?.mp hentry, getD_some]
    show [Front.of a i 0].flatMap (Front.rest lists) = _
    rw [flatMap_singleton]
    show ((lists.getD i []).drop 0).map _ = _
    rw [hlist, drop_zero]
    rfl

/-! ## The groups of an ascending stream -/

section

variable {β σ : Type}

/-- What comes with one element of the stream. -/
def group (stream : List (α × β)) (a : α) : List β :=
  (stream.filter (fun entry => decide (entry.1 = a))).map Prod.snd

/-- One entry of the stream: it is put to the open group, or closes that group and opens another. -/
def visit (close : σ → List β → σ) (state : σ × Option α × List β) (entry : α × β) :
    σ × Option α × List β :=
  if state.2.1 = some entry.1 then (state.1, state.2.1, state.2.2 ++ [entry.2])
  else (close state.1 state.2.2, some entry.1, [entry.2])

def closed (close : σ → List β → σ) (state : σ × Option α × List β) : σ := close state.1 state.2.2

theorem group_snoc (stream : List (α × β)) (entry : α × β) (a : α) :
    group (stream ++ [entry]) a = group stream a ++ if entry.1 = a then [entry.2] else [] := by
  unfold group
  rw [filter_append, map_append]
  by_cases h : entry.1 = a <;> simp [h]

theorem group_of_absent {stream : List (α × β)} {a : α} (h : a ∉ stream.map Prod.fst) :
    group stream a = [] := by
  unfold group
  rw [filter_eq_nil_iff.mpr, map_nil]
  rintro entry hentry heq
  exact h (mem_map.mpr ⟨entry, hentry, of_decide_eq_true heq⟩)

/-- The closed groups are those of the elements below the open one. -/
structure Grouped (close : σ → List β → σ) (s : σ) (stream : List (α × β)) (below : List α) (last : α)
    (state : σ × Option α × List β) : Prop where
  state_eq : state = ((below.map (group stream)).foldl close s, some last, group stream last)
  sorted : (below ++ [last]).Pairwise (· < ·)
  members : ∀ a, a ∈ below ++ [last] ↔ a ∈ stream.map Prod.fst

theorem Grouped.visit {close : σ → List β → σ} {s : σ} {stream : List (α × β)} {below : List α} {last : α}
    {state : σ × Option α × List β} (h : Grouped close s stream below last state) {entry : α × β}
    (hle : ∀ a ∈ stream.map Prod.fst, a ≤ entry.1) :
    ∃ below', Grouped close s (stream ++ [entry]) below' entry.1 (visit close state entry) := by
  obtain ⟨rfl, hsorted, hmembers⟩ := h
  have hlast : last ≤ entry.1 := hle last ((hmembers last).mp (by simp))
  have hbelow : ∀ a ∈ below, a < last := fun a ha =>
    (pairwise_append.mp hsorted).2.2 a ha last (mem_singleton_self last)
  have hsame : ∀ below' : List α, (∀ a ∈ below', a < entry.1) →
      below'.map (group (stream ++ [entry])) = below'.map (group stream) := by
    intro below' hlt
    refine map_congr_left fun a ha => ?_
    rw [group_snoc, if_neg (hlt a ha).ne', append_nil]
  unfold Fronts.visit
  by_cases heq : last = entry.1
  · subst heq
    refine ⟨below, ?_, hsorted, fun a => ?_⟩
    · simp only [if_true, hsame below hbelow, group_snoc]
    · rw [hmembers, map_append, mem_append, map_singleton, mem_singleton]
      refine ⟨.inl, fun hor => hor.elim id fun ha => ?_⟩
      rw [ha, ← hmembers]
      simp
  · have hlt : last < entry.1 := lt_of_le_of_ne hlast heq
    have hall : ∀ a ∈ below ++ [last], a < entry.1 := by
      intro a ha
      rcases mem_append.mp ha with ha | ha
      · exact (hbelow a ha).trans hlt
      · rw [mem_singleton.mp ha]
        exact hlt
    have hnew : entry.1 ∉ stream.map Prod.fst := fun hmem =>
      lt_irrefl _ (hall entry.1 ((hmembers entry.1).mpr hmem))
    refine ⟨below ++ [last], ?_, ?_, fun a => ?_⟩
    · simp only [Option.some.injEq, heq, if_false, hsame _ hall, group_snoc, group_of_absent hnew,
        if_true, nil_append, map_append, map_singleton, foldl_append,
        foldl_cons, foldl_nil]
    · exact pairwise_append.mpr ⟨hsorted, pairwise_singleton _ _, fun a ha b hb =>
        mem_singleton.mp hb ▸ hall a ha⟩
    · rw [mem_append, hmembers, map_append, mem_append, map_singleton]

/-- An ascending stream is closed group by group, each element once and in order. -/
theorem closed_eq (close : σ → List β → σ) (hnil : ∀ s, close s [] = s) (s : σ) (stream : List (α × β))
    (hsorted : stream.Pairwise (fun a b => a.1 ≤ b.1)) :
    ∃ elements : List α, elements.Pairwise (· < ·) ∧ (∀ a, a ∈ elements ↔ a ∈ stream.map Prod.fst) ∧
      closed close (stream.foldl (visit close) (s, none, [])) =
        (elements.map (group stream)).foldl close s := by
  have hgrouped : stream = [] ∨ ∃ below last,
      Grouped close s stream below last (stream.foldl (visit close) (s, none, [])) := by
    induction stream using List.reverseRecOn with
    | nil => exact .inl rfl
    | append_singleton stream entry ih =>
      obtain ⟨hfront, -, hlast⟩ := pairwise_append.mp hsorted
      have hle : ∀ a ∈ stream.map Prod.fst, a ≤ entry.1 := by
        intro a ha
        obtain ⟨other, hother, rfl⟩ := mem_map.mp ha
        exact hlast other hother entry (mem_singleton_self entry)
      right
      rw [foldl_append, foldl_cons, foldl_nil]
      rcases ih hfront with rfl | ⟨below, last, h⟩
      · refine ⟨[], entry.1, ?_, pairwise_singleton _ _, fun a => by simp⟩
        simp [Fronts.visit, hnil, group]
      · obtain ⟨below', h'⟩ := h.visit hle
        exact ⟨below', entry.1, h'⟩
  rcases hgrouped with rfl | ⟨below, last, hstate, hasc, hmembers⟩
  · exact ⟨[], .nil, fun a => by simp, hnil s⟩
  · refine ⟨below ++ [last], hasc, hmembers, ?_⟩
    rw [hstate, closed, map_append, foldl_append]
    rfl

end

end Fronts
