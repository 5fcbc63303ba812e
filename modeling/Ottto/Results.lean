-- Results of fallible code: what a sequence that came through went through.
-- Nothing here is about one program.
import Mathlib.Tactic

namespace Results

variable {ε α β σ ι : Type}

variable {x : Except ε α} {f : α → Except ε β}

theorem bind_eq_ok {b : β} :
    (x >>= f) = .ok b ↔ ∃ a, x = .ok a ∧ f a = .ok b := by
  cases x with
  | error e =>
    constructor
    · intro h
      cases h
    · rintro ⟨a, ha, -⟩
      cases ha
  | ok a =>
    constructor
    · intro h
      exact ⟨a, rfl, h⟩
    · rintro ⟨a', ha, hf⟩
      cases ha
      exact hf

/-- A sequence comes through when each of its parts does. -/
theorem bind_comes_through {a : α} (hx : x = .ok a)
    (hf : ∃ b, f a = .ok b) : ∃ b, (x >>= f) = .ok b := by
  obtain ⟨b, hb⟩ := hf
  exact ⟨b, bind_eq_ok.mpr ⟨a, hx, hb⟩⟩

theorem toOption_eq_some {a : α} : x.toOption = some a ↔ x = .ok a := by
  cases x <;> simp [Except.toOption]

theorem mapM_ok {xs : List α} {ys : List β}
    (h : List.Forall₂ (fun x y => f x = .ok y) xs ys) : xs.mapM f = .ok ys := by
  induction h with
  | nil => rfl
  | cons hx _ ih =>
    rw [List.mapM_cons, hx, ih]
    rfl

/-- The invariant rule: what each step that comes through keeps, a run of them keeps. -/
theorem foldlM_invariant {step : σ → ι → Except ε σ} (Inv : σ → Prop) {inputs : List ι}
    (hstep : ∀ i ∈ inputs, ∀ s s', Inv s → step s i = .ok s' → Inv s') {s t : σ} (h : Inv s)
    (hrun : inputs.foldlM step s = .ok t) : Inv t := by
  induction inputs generalizing s with
  | nil =>
    cases hrun
    exact h
  | cons i rest ih =>
    rw [List.foldlM_cons] at hrun
    obtain ⟨s', hs', hrest⟩ := bind_eq_ok.mp hrun
    apply ih (fun j hj => hstep j (List.mem_cons_of_mem i hj)) _ hrest
    exact hstep i List.mem_cons_self s s' h hs'

end Results
