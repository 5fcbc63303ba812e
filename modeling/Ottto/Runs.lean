-- Runs of a step function over a list of inputs: what one step keeps, every
-- run keeps. Nothing here is about one program.
import Mathlib.Tactic
import Mathlib.Data.List.SplitBy

/-- The state after each input of the list, in order. -/
def run {σ ι : Type} (step : σ → ι → σ) (s : σ) (inputs : List ι) : σ := inputs.foldl step s

namespace Run

open List

variable {σ τ ι : Type} {f : σ → ι → σ}

@[simp] theorem nil (s : σ) : run f s [] = s := rfl

@[simp] theorem cons (s : σ) (i : ι) (rest : List ι) :
    run f s (i :: rest) = run f (f s i) rest := rfl

theorem append (s : σ) (l₁ l₂ : List ι) :
    run f s (l₁ ++ l₂) = run f (run f s l₁) l₂ := foldl_append

theorem snoc (s : σ) (l : List ι) (i : ι) : run f s (l ++ [i]) = f (run f s l) i := by
  rw [append, cons, nil]

/-- The invariant rule. -/
theorem invariant (Inv : σ → Prop) (hstep : ∀ s i, Inv s → Inv (f s i)) {s : σ} (h : Inv s)
    (inputs : List ι) : Inv (run f s inputs) := by
  induction inputs generalizing s with
  | nil => exact h
  | cons i rest ih => exact ih (hstep s i h)

/-- The lockstep rule: two machines that stay related over each input of the
list are related at its end. -/
theorem related {g : τ → ι → τ} (R : σ → τ → Prop) (inputs : List ι)
    (hstep : ∀ i ∈ inputs, ∀ s t, R s t → R (f s i) (g t i)) {s : σ} {t : τ}
    (h : R s t) : R (run f s inputs) (run g t inputs) := by
  induction inputs generalizing s t with
  | nil => exact h
  | cons i rest ih =>
    apply ih (fun j hj => hstep j (mem_cons_of_mem i hj))
    exact hstep i mem_cons_self s t h

/-! ## The last elements of the runs of a list -/

section

variable {α : Type} {r : α → α → Bool} {f : α → Nat}

/-- The sum of `f` over the last elements of the runs of `r`. -/
def lasts (r : α → α → Bool) (f : α → Nat) (l : List α) : Nat :=
  ((l.splitBy r).map (fun run => (run.getLast?.map f).getD 0)).sum

@[simp] theorem lasts_nil : lasts r f [] = 0 := rfl

@[simp] theorem lasts_singleton (a : α) : lasts r f [a] = f a := by
  simp [lasts, splitBy_of_isChain]

/-- A run that grows keeps only its later last element. -/
theorem lasts_of_related {a b : α} {rest : List α} (h : r a b = true) :
    lasts r f (a :: b :: rest) = lasts r f (b :: rest) := by
  obtain ⟨first, others, hruns⟩ : ∃ first others, (b :: rest).splitBy r = first :: others :=
    exists_cons_of_ne_nil (splitBy_ne_nil.mpr (cons_ne_nil b rest))
  obtain ⟨hflat, hnil, hchains, hbreaks⟩ := splitBy_eq_iff.mp hruns
  have hfirst : first ≠ [] := fun hempty => hnil (hempty ▸ mem_cons_self)
  obtain ⟨head, tail, rfl⟩ := exists_cons_of_ne_nil hfirst
  have hhead : b = head := by
    simp only [flatten_cons, cons_append, List.cons.injEq] at hflat
    exact hflat.1
  subst hhead
  have hgrown : (a :: b :: rest).splitBy r = (a :: b :: tail) :: others := by
    apply splitBy_eq_iff.mpr
    refine ⟨by rw [hflat]; rfl, by simpa using hnil, ?_, ?_⟩
    · intro run hrun
      rcases mem_cons.mp hrun with rfl | hmem
      · exact isChain_cons_cons.mpr ⟨h, hchains _ mem_cons_self⟩
      · exact hchains run (mem_cons_of_mem _ hmem)
    · cases others with
      | nil => exact isChain_singleton _
      | cons next more =>
        rw [isChain_cons_cons] at hbreaks ⊢
        obtain ⟨⟨_, hnext, hbreak⟩, hmore⟩ := hbreaks
        exact ⟨⟨cons_ne_nil _ _, hnext, by rw [getLast_cons_cons]; exact hbreak⟩, hmore⟩
  unfold lasts
  rw [hgrown, hruns]
  simp only [map_cons, List.getLast?_cons_cons]

/-- A run ends where the next element does not grow. -/
theorem lasts_of_break {a b : α} {rest : List α} (h : r a b = false) :
    lasts r f (a :: b :: rest) = f a + lasts r f (b :: rest) := by
  have hsplit := @List.splitBy_append_cons _ r [a] b rest (by simpa using h)
  have hone : List.splitBy r [a] = [[a]] := splitBy_of_isChain (by simp) (by simp)
  unfold lasts
  rw [← singleton_append, hsplit, hone]
  simp

end

end Run
