-- The brackets and quotes of a JSON text, read without its grammar.
import Mathlib.Tactic

namespace json_grammar

abbrev Text := List UInt8

def null_text : Text := [0x6E, 0x75, 0x6C, 0x6C]

/-- Where a scan stands that knows brackets and quotes only. -/
structure Scan where
  depth : Nat
  quoted : Bool
  escaped : Bool

namespace Scan

def start : Scan := ⟨0, false, false⟩

def step (s : Scan) (b : UInt8) : Scan :=
  if s.quoted then
    if s.escaped then { s with escaped := false }
    else if b = 0x5C then { s with escaped := true }
    else if b = 0x22 then { s with quoted := false }
    else s
  else if b = 0x22 then { s with quoted := true }
  else if b = 0x7B ∨ b = 0x5B then { s with depth := s.depth + 1 }
  else if b = 0x7D ∨ b = 0x5D then { s with depth := s.depth - 1 }
  else s

def is_stop (b : UInt8) : Bool := b == 0x2C || b == 0x7D || b == 0x5D

/-- The byte ends the text before it: a comma or a closing bracket outside of
every bracket and quote. -/
def stops (s : Scan) (b : UInt8) : Bool := !s.quoted && s.depth == 0 && is_stop b

/-- The scan of a whole text, none where the text is ended inside. -/
def run : Scan → Text → Option Scan
  | s, [] => some s
  | s, b :: t => if s.stops b then none else (s.step b).run t

/-- The text up to the byte that ends it, with where the scan stands there. -/
def cut : Scan → Text → Text × Scan × Text
  | s, [] => ([], s, [])
  | s, b :: t =>
    if s.stops b then ([], s, b :: t)
    else (b :: ((s.step b).cut t).1, ((s.step b).cut t).2)

/-- What the scan passed is the text, and it runs through without an end. -/
theorem cut_spec (s : Scan) (t : Text) :
    (s.cut t).1 ++ (s.cut t).2.2 = t ∧ s.run (s.cut t).1 = some (s.cut t).2.1 ∧
      ∀ b ∈ (s.cut t).2.2.head?, (s.cut t).2.1.stops b = true := by
  induction t generalizing s with
  | nil => simp [cut, run]
  | cons c t ih =>
    by_cases hstop : s.stops c = true
    · simp [cut, hstop, run]
    · obtain ⟨happ, hrun, hend⟩ := ih (s.step c)
      simp only [cut, hstop, Bool.false_eq_true, if_false, List.cons_append, run]
      exact ⟨by rw [happ], hrun, hend⟩

end Scan

end json_grammar
