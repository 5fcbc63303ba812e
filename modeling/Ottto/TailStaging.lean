-- What a pass stages for a file (snapshots/state_v2/tail.rs): a completion
-- absorbs the one staged before it, and one write of the result leaves what a
-- write of each would have left.
import Ottto.TailRefine

namespace ottto_service.state_v2.tail

open Results List Option SortedMap StagedFile View

namespace StagedFile

/-- A later completion's head wins; dirty pages it does not restate stay. -/
def absorb (later prior : StagedFile) : StagedFile :=
  if later.change = .Reset then later
  else
    let pages := prior.pages.entries.foldl (fun pages e =>
      if !later.obsolete.contains e.1 then pages.orInsert e.1 e.2 else pages) later.pages
    let obsolete := prior.obsolete.entries.foldl (fun obsolete e =>
      if !pages.contains e.1 then obsolete.orInsert e.1 e.2 else obsolete) later.obsolete
    let collections := prior.collections.entries.foldl (fun collections e =>
      collections.orInsert e.1 e.2) later.collections
    { later with change := max later.change prior.change, pages, obsolete, collections }

end StagedFile

/-- Fixed causes of a set-aside file. -/
inductive SetAsideCause where
  | Encode
  | Row
deriving DecidableEq, Repr

inductive Entry where
  | File (staged : StagedFile)
  | Failed (cause : SetAsideCause)

/-- This pass's unsaved Tail state: the files with a new state or a failure, the
debt, and the files that retire or go. -/
structure TailStage (File : Type) [LinearOrder File] where
  files : SortedMap File Entry := .empty
  debt : SortedMap File Observation := .empty
  retire : SortedMap File Unit := .empty
  erase : SortedMap File Unit := .empty

namespace TailStage

variable {File : Type} [LinearOrder File] (t : TailStage File) (key : File)

/-- A reset replaces every prior row itself; retiring after it would delete the
fresh head. -/
def stage (file : StagedFile) : TailStage File :=
  { t with
    files := t.files.insert key (.File (match t.files.get? key with
      | some (.File prior) => file.absorb prior
      | _ => file))
    retire := if file.change = .Reset then t.retire.erase key else t.retire }

/-- The complete new state staged for a file. -/
def staged : Option StagedFile :=
  match t.files.get? key with
  | some (.File file) => some file
  | _ => none

end TailStage

/-! ## What an absorbed stage holds -/

namespace StagedFile

variable {later prior : StagedFile}

theorem absorb_collections (h : later.change ≠ .Reset) (c : Collection) :
    (later.absorb prior).collections.get? c =
      (later.collections.get? c).or (prior.collections.get? c) := by
  unfold absorb
  rw [if_neg h]
  have hall := get?_foldl_orInsert (fun _ => true) prior.collections.entries
    later.collections c
  simp only [if_true] at hall
  exact hall

/-- What is let in where a key is free. -/
theorem ite_free {α β : Type} (o : Option α) (x : Option β) :
    (if !o.isSome then x else none) = if o.isSome then none else x := by
  cases o <;> rfl

theorem absorb_pages (h : later.change ≠ .Reset) (k : Collection ×ₗ Nat) :
    (later.absorb prior).pages.get? k = (later.pages.get? k).or
      (if (later.obsolete.get? k).isSome then none else prior.pages.get? k) := by
  unfold absorb
  rw [if_neg h]
  refine (get?_foldl_orInsert (fun k => !later.obsolete.contains k) prior.pages.entries
    later.pages k).trans ?_
  exact congrArg (Option.or _) (ite_free _ _)

theorem absorb_obsolete (h : later.change ≠ .Reset) (k : Collection ×ₗ Nat) :
    (later.absorb prior).obsolete.get? k = (later.obsolete.get? k).or
      (if ((later.absorb prior).pages.get? k).isSome then none else prior.obsolete.get? k) := by
  unfold absorb
  rw [if_neg h]
  refine (get?_foldl_orInsert (fun k => !SortedMap.contains _ k) prior.obsolete.entries
    later.obsolete k).trans ?_
  exact congrArg (Option.or _) (ite_free _ _)

end StagedFile

/-! ## The view after an absorbed stage -/

variable {later prior : StagedFile}

variable {s : StagedFile}

theorem StagedFile.no_debt_of (h1 : s.collections.get? .Revisions = none)
    (h2 : ∀ position, s.obsolete.get? (toLex (.Revisions, position)) = none)
    (h3 : ∀ position, s.pages.get? (toLex (.Revisions, position)) = none) :
    .Revisions ∉ s.names := by
  intro hmem
  unfold StagedFile.names SortedMap.keys at hmem
  simp only [List.mem_append, List.mem_map] at hmem
  rcases hmem with (⟨e, he, heq⟩ | ⟨k, ⟨e, he, rfl⟩, heq⟩) | ⟨k, ⟨e, he, rfl⟩, heq⟩
  · have hget := mem_entries.mp he
    rw [heq, h1] at hget
    cases hget
  · have hget := mem_entries.mp he
    rw [show e.1 = toLex (.Revisions, (ofLex e.1).2) by rw [← heq]; rfl, h3] at hget
    cases hget
  · have hget := mem_entries.mp he
    rw [show e.1 = toLex (.Revisions, (ofLex e.1).2) by rw [← heq]; rfl, h2] at hget
    cases hget

theorem StagedFile.no_debt_get (h : .Revisions ∉ s.names) :
    s.collections.get? .Revisions = none ∧
      (∀ position, s.obsolete.get? (toLex (.Revisions, position)) = none) ∧
      ∀ position, s.pages.get? (toLex (.Revisions, position)) = none := by
  obtain ⟨h1, h2, h3⟩ := not_debt h
  refine ⟨?_, ?_, ?_⟩
  · by_contra hsome
    obtain ⟨found, hfound⟩ := ne_none_iff_exists'.mp hsome
    exact h1 _ (mem_entries.mpr hfound) rfl
  · intro position
    by_contra hsome
    obtain ⟨u, hu⟩ := ne_none_iff_exists'.mp hsome
    exact h2 _ (mem_entries.mpr hu) rfl
  · intro position
    by_contra hsome
    obtain ⟨value, hvalue⟩ := ne_none_iff_exists'.mp hsome
    exact h3 _ (mem_entries.mpr hvalue) rfl

/-- What a stage and the one before it may write, the absorbed one may. -/
theorem StagedFile.Accepted.absorb
    {metas : SortedMap Collection CollectionMeta} (h : later.change ≠ .Reset)
    (hprior : prior.Accepted (metas.extend prior.collections))
    (hlater : later.Accepted ((metas.extend prior.collections).extend later.collections)) :
    (later.absorb prior).Accepted (metas.extend (later.absorb prior).collections) := by
  obtain ⟨a1, a2, a3⟩ := no_debt_get hlater.no_debt
  obtain ⟨b1, b2, b3⟩ := no_debt_get hprior.no_debt
  have hmetas : metas.extend (later.absorb prior).collections =
      (metas.extend prior.collections).extend later.collections := by
    ext c : 1
    simp only [get?_extend, absorb_collections h]
    cases later.collections.get? c <;> rfl
  have hnone : ∀ position, (later.absorb prior).pages.get? (toLex (.Revisions, position)) = none := by
    intro position
    rw [absorb_pages h, a3, b3]
    simp
  constructor
  · apply no_debt_of
    · rw [absorb_collections h, a1, b1]
      rfl
    · intro position
      rw [absorb_obsolete h, a2, b2, hnone]
      rfl
    · exact hnone
  · intro e he
    have hget := mem_entries.mp he
    rw [absorb_obsolete h] at hget
    rcases or_eq_some_iff.mp hget with hown | ⟨-, hrest⟩
    · exact hlater.obsolete e (mem_entries.mpr hown)
    · split_ifs at hrest
      exact hprior.obsolete e (mem_entries.mpr hrest)
  · intro e he
    rw [hmetas]
    have hget := mem_entries.mp he
    rw [absorb_pages h] at hget
    rcases or_eq_some_iff.mp hget with hown | ⟨-, hrest⟩
    · exact hlater.pages e (mem_entries.mpr hown)
    · split_ifs at hrest
      obtain ⟨hnamed, hfits⟩ := hprior.pages e (mem_entries.mpr hrest)
      refine ⟨?_, hfits⟩
      rw [get?_extend, isSome_or, hnamed, Bool.or_true]

section

variable {File : Type} [DecidableEq File] {out : Outside File} {file : File}

omit [DecidableEq File] in
theorem Represents.same {tx tx' : Tx out} {view : Option View} (h : Represents tx file view)
    (h' : Represents tx' file view) : SameRows tx tx' file := by
  cases view with
  | none => exact Stores.same h h'
  | some v =>
    obtain ⟨-, bytes, hbytes, -, hstores⟩ := h
    obtain ⟨-, bytes', hbytes', -, hstores'⟩ := h'
    rw [hbytes] at hbytes'
    cases hbytes'
    exact hstores.same hstores'

omit [DecidableEq File] in
theorem OtherFiles.trans {tx tx' tx'' : Tx out} (h : OtherFiles tx tx' file)
    (h' : OtherFiles tx' tx'' file) : OtherFiles tx tx'' file := by
  intro other hother
  have h1 := h other hother
  have h2 := h' other hother
  exact ⟨h2.head.trans h1.head, h2.page.trans h1.page, h2.frag.trans h1.frag⟩

/-- What the completions come to, each absorbing those before it. -/
def absorbed (completions : List StagedFile) : Option StagedFile :=
  completions.foldl (fun prior s => some ((prior.map s.absorb).getD s)) none

end

section

variable {File : Type} [LinearOrder File] {out : Outside File}

end

end ottto_service.state_v2.tail
