-- Text as its characters, cut at byte offsets. A cut inside a character, or past the end of the
-- text, fails.
import Mathlib.Tactic

namespace text_slice

/-- The bytes that the characters take in UTF-8. -/
def byte_len (s : List Char) : Nat := (s.map Char.utf8Size).sum

/-- The text from byte `n` on. -/
def from_byte : List Char → Nat → Option (List Char)
  | s, 0 => some s
  | [], _ + 1 => none
  | c :: s, n => if n < c.utf8Size then none else from_byte s (n - c.utf8Size)

/-- The text before byte `n`. -/
def to_byte : List Char → Nat → Option (List Char)
  | _, 0 => some []
  | [], _ + 1 => none
  | c :: s, n => if n < c.utf8Size then none else (to_byte s (n - c.utf8Size)).map (c :: ·)

/-- The byte at which the first character of `p` starts. -/
def find (p : Char → Bool) : List Char → Option Nat
  | [] => none
  | c :: s => if p c then some 0 else (find p s).map (c.utf8Size + ·)

@[simp] theorem byte_len_nil : byte_len [] = 0 := rfl

@[simp] theorem byte_len_cons (c : Char) (s : List Char) :
    byte_len (c :: s) = c.utf8Size + byte_len s := by
  simp [byte_len]

@[simp] theorem byte_len_append (s t : List Char) :
    byte_len (s ++ t) = byte_len s + byte_len t := by
  simp [byte_len]

theorem length_le_byte_len (s : List Char) : s.length ≤ byte_len s := by
  induction s with
  | nil => simp
  | cons c s ih =>
    have hc := c.utf8Size_pos
    simp only [List.length_cons, byte_len_cons]
    omega

theorem from_byte_append (pre post : List Char) :
    from_byte (pre ++ post) (byte_len pre) = some post := by
  induction pre with
  | nil => cases post <;> rfl
  | cons c pre ih =>
    have hc := c.utf8Size_pos
    obtain ⟨n, hn⟩ : ∃ n, byte_len (c :: pre) = n + 1 :=
      ⟨byte_len (c :: pre) - 1, by rw [byte_len_cons]; omega⟩
    rw [hn, List.cons_append, from_byte, ← hn, byte_len_cons,
      if_neg (by omega), Nat.add_sub_cancel_left]
    · exact ih
    · exact Nat.succ_ne_zero n

theorem to_byte_append (pre post : List Char) :
    to_byte (pre ++ post) (byte_len pre) = some pre := by
  induction pre with
  | nil => cases post <;> rfl
  | cons c pre ih =>
    have hc := c.utf8Size_pos
    obtain ⟨n, hn⟩ : ∃ n, byte_len (c :: pre) = n + 1 :=
      ⟨byte_len (c :: pre) - 1, by rw [byte_len_cons]; omega⟩
    rw [hn, List.cons_append, to_byte, ← hn, byte_len_cons,
      if_neg (by omega), Nat.add_sub_cancel_left, ih]
    · rfl
    · exact Nat.succ_ne_zero n

/-- The character found stands right after the bytes counted. -/
theorem find_some {p : Char → Bool} {s : List Char} {n : Nat} (h : find p s = some n) :
    ∃ pre c post, s = pre ++ c :: post ∧ byte_len pre = n ∧ p c = true ∧
      ∀ x ∈ pre, p x = false := by
  induction s generalizing n with
  | nil => simp [find] at h
  | cons c s ih =>
    rw [find] at h
    by_cases hc : p c = true
    · rw [if_pos hc, Option.some.injEq] at h
      exact ⟨[], c, s, rfl, h, hc, by simp⟩
    · rw [if_neg hc, Option.map_eq_some_iff] at h
      obtain ⟨m, hm, rfl⟩ := h
      obtain ⟨pre, d, post, rfl, hlen, hd, hpre⟩ := ih hm
      refine ⟨c :: pre, d, post, rfl, by rw [byte_len_cons, hlen], hd, ?_⟩
      intro x hx
      rcases List.mem_cons.mp hx with rfl | hx
      · exact Bool.eq_false_iff.mpr hc
      · exact hpre x hx

end text_slice
