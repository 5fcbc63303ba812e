-- Runs on a state that may fail, with loops that fail when they are cut short. `Ends` is total
-- correctness: the run is not cut short, fails nowhere, and meets its postcondition.
import Mathlib.Tactic

namespace checked

abbrev Run (σ α : Type) : Type := StateT σ Option α

variable {σ α β : Type}

/-- What one turn of a loop says: go on, or leave. -/
inductive Turn (α : Type)
  | again (a : α)
  | done (a : α)

/-- `more` of a turn that goes on, `out` of one that leaves. -/
def Turn.Meets (more out : α → Prop) : Turn α → Prop
  | .again a => more a
  | .done a => out a

def loop (body : α → Run σ (Turn α)) : Nat → α → Run σ α
  | 0, _ => failure
  | fuel + 1, a => do
    match ← body a with
    | .again b => loop body fuel b
    | .done b => pure b

/-- A loop with as many turns as the state at its start allows. -/
def loop_within (turns : σ → Nat) (body : α → Run σ (Turn α)) (a : α) : Run σ α :=
  fun s => loop body (turns s) a s

variable {body : α → Run σ (Turn α)} {a : α}

theorem loop_again {fuel : Nat} {b : α} {s s₁ : σ}
    (h : body a s = some (.again b, s₁)) : loop body (fuel + 1) a s = loop body fuel b s₁ := by
  change (body a s).bind _ = _
  rw [h]
  rfl

theorem loop_done {fuel : Nat} {b : α} {s s₁ : σ}
    (h : body a s = some (.done b, s₁)) : loop body (fuel + 1) a s = some (b, s₁) := by
  change (body a s).bind _ = _
  rw [h]
  rfl

def Ends (pre : σ → Prop) (m : Run σ α) (post : α → σ → Prop) : Prop :=
  ∀ s, pre s → ∃ a s', m s = some (a, s') ∧ post a s'

variable {pre : σ → Prop} {post : α → σ → Prop}

theorem Ends.pure (h : ∀ s, pre s → post a s) : Ends pre (Pure.pure a) post :=
  fun s hs => ⟨a, s, rfl, h s hs⟩

theorem Ends.bind {m : Run σ α} {f : α → Run σ β} {mid : α → σ → Prop} {post : β → σ → Prop}
    (hm : Ends pre m mid) (hf : ∀ a, Ends (mid a) (f a) post) : Ends pre (m >>= f) post := by
  intro s hs
  obtain ⟨a, s₁, h₁, hmid⟩ := hm s hs
  obtain ⟨b, s₂, h₂, hpost⟩ := hf a s₁ hmid
  refine ⟨b, s₂, ?_, hpost⟩
  change (m s).bind (fun r => f r.1 r.2) = _
  rw [h₁]
  exact h₂

theorem Ends.weaken {m : Run σ α} {post' : α → σ → Prop}
    (h : Ends pre m post) (hpost : ∀ a s, post a s → post' a s) : Ends pre m post' := by
  intro s hs
  obtain ⟨a, s', hrun, ha⟩ := h s hs
  exact ⟨a, s', hrun, hpost a s' ha⟩

/-- A loop ends when each turn that goes on keeps the invariant and leaves less to do. -/
theorem Ends.loop (inv : α → σ → Prop) (left : σ → Nat)
    (hbody : ∀ a n, Ends (fun s => inv a s ∧ left s = n) (body a)
      (fun t s => t.Meets (fun b => inv b s ∧ left s < n) (fun b => post b s)))
    (fuel : Nat) (a : α) :
    Ends (fun s => inv a s ∧ left s < fuel) (checked.loop body fuel a) post := by
  induction fuel generalizing a with
  | zero =>
    rintro s ⟨-, hleft⟩
    omega
  | succ fuel ih =>
    rintro s ⟨hinv, hleft⟩
    obtain ⟨t, s₁, hrun, ht⟩ := hbody a (left s) s ⟨hinv, rfl⟩
    cases t with
    | again b =>
      obtain ⟨hb, hless⟩ := ht
      obtain ⟨c, s₂, hrest, hpost⟩ := ih b s₁ ⟨hb, by omega⟩
      exact ⟨c, s₂, (loop_again hrun).trans hrest, hpost⟩
    | done b => exact ⟨b, s₁, loop_done hrun, ht⟩

end checked
