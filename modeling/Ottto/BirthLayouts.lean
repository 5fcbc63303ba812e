-- The layouts of the birth table that are no longer written: what they decode to can be
-- written again, and how long that is.
import Ottto.BirthText

namespace ottto_service.claude_money_birth_store

open Words SortedVec Results Option
open durable_tail_codec.Durable (as_bytes to_le_bytes from_le_bytes to_le_bytes_length)
open claude_copy_removals (take take_key take_len take_word times word_bytes len_bytes
  len_bytes_length word_bytes_length times_forall)

variable {out : Outside}

/-! ## How long a record is written -/

def path_len (o : LocationKey × Observation) : Nat := 28 + if o.2.opened.is_known then 12 else 0

def session_len (s : LocationKey × Session) : Nat := 52 + (s.2.paths.map path_len).sum

theorem put_path_comes_through {o : LocationKey × Observation}
    (h : o.2.generation ≤ MAX_GENERATION) :
    ∃ bytes, put_path o = .ok bytes ∧ bytes.length = path_len o := by
  unfold put_path path_len
  rw [if_neg (UInt64.not_lt.mpr h)]
  refine ⟨_, rfl, ?_⟩
  have hkey := o.1.2
  cases o.2.opened.is_known
  · simp [hkey, word_bytes_length, to_le_bytes_length]
  · simp [hkey, word_bytes_length, to_le_bytes_length]

/-- Members that are written, each as long as said, are written one after the other. -/
theorem put_parts_come_through {α : Type} {put : α → Except String Bytes} {size : α → Nat}
    {l : List α} (h : ∀ a ∈ l, ∃ bytes, put a = .ok bytes ∧ bytes.length = size a) :
    ∃ parts, l.mapM put = .ok parts ∧ parts.flatten.length = (l.map size).sum := by
  induction l with
  | nil => exact ⟨[], rfl, rfl⟩
  | cons a l ih =>
    obtain ⟨hhead, hrest⟩ := List.forall_mem_cons.mp h
    obtain ⟨first, hfirst, hlength⟩ := hhead
    obtain ⟨others, hothers, hlengths⟩ := ih hrest
    refine ⟨first :: others, ?_, ?_⟩
    · rw [List.mapM_cons]
      exact bind_eq_ok.mpr ⟨first, hfirst, bind_eq_ok.mpr ⟨others, hothers, rfl⟩⟩
    · rw [List.flatten_cons, List.length_append, hlength, hlengths, List.map_cons, List.sum_cons]

theorem put_session_comes_through {s : LocationKey × Session}
    (h : ∀ o ∈ s.2.paths, o.2.generation ≤ MAX_GENERATION) :
    ∃ bytes, put_session s = .ok bytes ∧ bytes.length = session_len s := by
  obtain ⟨paths, hpaths, hlength⟩ :=
    put_parts_come_through (fun o ho => put_path_comes_through (h o ho))
  refine ⟨_, bind_eq_ok.mpr ⟨paths, hpaths, rfl⟩, ?_⟩
  simp only [List.length_append, s.1.2, s.2.owner.2, word_bytes_length, len_bytes_length, hlength,
    session_len]

variable {n : Nat}

/-- The count of the writer's allocation. -/
theorem add_session_len_le {total : Nat} {s : LocationKey × Session}
    (h : n + session_len s ≤ total) (hfits : total < 2 ^ 64) :
    add_session_len n s = some (n + session_len s) := by
  have hpaths : (s.2.paths.map path_len).sum = s.2.paths.length * 28 +
      (s.2.paths.filter (fun o => o.2.opened.is_known)).length * 12 := by
    induction s.2.paths with
    | nil => rfl
    | cons o paths ih =>
      rw [List.map_cons, List.sum_cons, ih, List.filter_cons, path_len]
      cases o.2.opened.is_known
      · simp only [Bool.false_eq_true, if_false, List.length_cons]
        omega
      · simp only [if_true, List.length_cons]
        omega
  unfold session_len at h ⊢
  rw [hpaths] at h ⊢
  unfold add_session_len durable_tail_codec.checked_add checked_mul
  rw [if_pos (by omega), if_pos (by omega)]
  simp only [bind_eq_bind, bind_some]
  rw [if_pos (by omega)]
  simp only [bind_some]
  rw [if_pos (by omega)]
  simp only [bind_some]
  rw [if_pos (by omega)]
  simp only [Option.some.injEq]
  omega

theorem sessions_len_le {sessions : List (LocationKey × Session)}
    (hfits : n + (sessions.map session_len).sum < 2 ^ 64) :
    sessions.foldlM add_session_len n = some (n + (sessions.map session_len).sum) := by
  induction sessions generalizing n with
  | nil => rfl
  | cons s sessions ih =>
    rw [List.map_cons, List.sum_cons] at hfits
    rw [List.foldlM_cons, add_session_len_le (by omega : n + session_len s ≤
      n + (session_len s + (sessions.map session_len).sum)) hfits]
    simp only [bind_eq_bind, bind_some]
    rw [ih (by omega), List.map_cons, List.sum_cons, Nat.add_assoc]

/-! ## How much a record took -/

/-- How often what was read covers what is written of it: the first layout has neither
generations nor identities. -/
def Layout.cover : Layout → Nat
  | .CMB1 => 2
  | .CMB2 => 1
  | .CMB3 => 1
  | .CMB4 => 1
  | .CMB5 => 1

variable {input rest : Bytes}

theorem take_length {value : Bytes} (h : take n input = some (value, rest)) :
    rest.length + n = input.length := by
  unfold take at h
  split at h
  case isTrue hlong =>
    cases h
    rw [List.length_drop]
    omega
  case isFalse => cases h

theorem take_key_length {key : LocationKey}
    (h : take_key input = some (key, rest)) : rest.length + 16 = input.length := by
  unfold take_key at h
  split at h
  case isTrue hlong =>
    cases h
    rw [List.length_drop]
    omega
  case isFalse => cases h

theorem take_len_length (h : take_len input = some (n, rest)) :
    rest.length + 4 = input.length := by
  simp only [take_len, bind_eq_bind, bind_eq_some_iff] at h
  obtain ⟨⟨bytes, input'⟩, htake, h⟩ := h
  cases h
  exact take_length htake

theorem take_word_length {word : UInt64}
    (h : take_word input = some (word, rest)) : rest.length + 8 = input.length := by
  simp only [take_word, bind_eq_bind, bind_eq_some_iff] at h
  obtain ⟨⟨bytes, input'⟩, htake, h⟩ := h
  cases h
  exact take_length htake

theorem take_u32_length {n : UInt32} (h : take_u32 input = some (n, rest)) :
    rest.length + 4 = input.length := by
  simp only [take_u32, bind_eq_bind, bind_eq_some_iff] at h
  obtain ⟨⟨n', input'⟩, htake, h⟩ := h
  cases h
  exact take_len_length htake

theorem take_count_length {record_bytes : Nat}
    (h : take_count record_bytes input = some (n, rest)) : rest.length + 4 = input.length := by
  simp only [take_count, bind_eq_bind, bind_eq_some_iff] at h
  obtain ⟨⟨n', input'⟩, htake, h⟩ := h
  split at h
  · cases h
  · cases h
    exact take_len_length htake

theorem take_generation_length {version : Layout} {n : UInt64}
    (h : take_generation version input = some (n, rest)) :
    (version = .CMB1 ∧ rest = input) ∨ (version ≠ .CMB1 ∧ rest.length + 4 ≤ input.length) := by
  cases version with
  | CMB1 =>
    cases h
    exact .inl ⟨rfl, rfl⟩
  | CMB2 =>
    have := take_word_length h
    exact .inr ⟨by decide, by omega⟩
  | CMB3 =>
    have := take_word_length h
    exact .inr ⟨by decide, by omega⟩
  | CMB4 =>
    obtain ⟨⟨n', rest'⟩, htake, h⟩ := map_eq_some_iff.mp h
    cases h
    have := take_u32_length htake
    exact .inr ⟨by decide, by omega⟩
  | CMB5 =>
    obtain ⟨⟨n', rest'⟩, htake, h⟩ := map_eq_some_iff.mp h
    cases h
    have := take_u32_length htake
    exact .inr ⟨by decide, by omega⟩

/-- An identity is read only behind its tag, and takes what it is written in. -/
theorem take_opened_length {version : Layout} {has_identity : Bool}
    {opened : BirthIdentity}
    (h : take_opened out version has_identity input = some (opened, rest)) :
    (has_identity = false ∧ opened = {} ∧ rest = input) ∨
      (has_identity = true ∧ rest.length + 12 ≤ input.length) := by
  unfold take_opened at h
  cases has_identity with
  | false =>
    cases h
    exact .inl ⟨rfl, rfl, rfl⟩
  | true =>
    right
    refine ⟨rfl, ?_⟩
    simp only [if_true] at h
    split at h
    · simp only [take_object, bind_eq_bind, bind_eq_some_iff] at h
      obtain ⟨⟨object, input₁⟩, hobject, ⟨size, input₂⟩, hsize, h⟩ := h
      cases h
      have hobject := take_word_length hobject
      have hsize := take_u32_length hsize
      simp only at hobject hsize ⊢
      omega
    · simp only [take_device, bind_eq_bind, bind_eq_some_iff] at h
      obtain ⟨⟨device, input₁⟩, hdevice, ⟨size, input₂⟩, hsize, ⟨inode, input₃⟩, hinode, h⟩ := h
      cases h
      have hdevice := take_u32_length hdevice
      have hsize := take_u32_length hsize
      have hinode := take_word_length hinode
      simp only at hdevice hsize hinode ⊢
      omega

/-- What one path of a layout is read as. -/
structure PathRead (version : Layout) (input : Bytes) (o : LocationKey × Observation)
    (rest : Bytes) : Prop where
  generation : o.2.generation ≤ MAX_GENERATION
  covered : path_len o + version.cover * rest.length ≤ version.cover * input.length
  unopened : version.is_tagged = false → o.2.opened = {}

theorem take_path_read {version : Layout} {input rest : Bytes} {o : LocationKey × Observation}
    (h : take_path out version input = some (o, rest)) : PathRead version input o rest := by
  simp only [take_path, bind_eq_bind, bind_eq_some_iff] at h
  obtain ⟨⟨path, input₁⟩, hpath, ⟨birth, input₂⟩, hbirth, ⟨word, input₃⟩, hword,
    ⟨opened, input₄⟩, hopened, h⟩ := h
  have hpath := take_key_length hpath
  have hbirth := take_word_length hbirth
  have hword := take_generation_length hword
  have hopened := take_opened_length hopened
  simp only at hpath hbirth hword hopened
  obtain ⟨hgeneration, h⟩ := ite_none_left_eq_some.mp h
  cases h
  refine ⟨UInt64.not_lt.mp hgeneration, ?_, ?_⟩
  · have hcover : version ≠ .CMB1 → version.cover = 1 := by
      intro hversion
      cases version <;> first | rfl | exact absurd rfl hversion
    unfold path_len
    simp only
    rcases hopened with ⟨-, hnone, hrest⟩ | ⟨htagged, hrest⟩
    · have hunknown : opened.is_known = false := by
        rw [hnone]
        rfl
      simp only [hunknown, Bool.false_eq_true, if_false, hrest]
      rcases hword with ⟨hversion, hsame⟩ | ⟨hversion, hshorter⟩
      · rw [hversion, hsame]
        simp only [Layout.cover]
        omega
      · rw [hcover hversion]
        omega
    · rcases hword with ⟨hversion, -⟩ | ⟨hversion, hshorter⟩
      · rw [hversion] at htagged
        cases htagged
      · rw [hcover hversion]
        split <;> omega
  · intro htagged
    rcases hopened with ⟨-, hnone, -⟩ | ⟨hidentity, -⟩
    · exact hnone
    · rw [htagged] at hidentity
      cases hidentity

/-- Steps that each cover what they read cover what they read together. -/
theorem times_covered {α : Type} {step : Bytes → Option (α × Bytes)} {size : α → Nat} {cover : Nat}
    (hstep : ∀ input a rest, step input = some (a, rest) →
      size a + cover * rest.length ≤ cover * input.length)
    {n : Nat} {input rest : Bytes} {l : List α} (h : times step n input = some (l, rest)) :
    (l.map size).sum + cover * rest.length ≤ cover * input.length := by
  induction n generalizing input l with
  | zero =>
    cases h
    simp
  | succ n ih =>
    rw [times, bind_eq_bind, bind_eq_some_iff] at h
    obtain ⟨⟨a, input'⟩, hfirst, h⟩ := h
    simp only [bind_eq_bind, bind_eq_some_iff] at h
    obtain ⟨⟨l', rest'⟩, hrest, h⟩ := h
    cases h
    have hhead := hstep _ _ _ hfirst
    have hlater := ih hrest
    rw [List.map_cons, List.sum_cons]
    simp only at hhead hlater ⊢
    omega

structure SessionRead (version : Layout) (input : Bytes) (s : LocationKey × Session)
    (rest : Bytes) : Prop where
  generations : ∀ o ∈ s.2.paths, o.2.generation ≤ MAX_GENERATION
  covered : session_len s + version.cover * rest.length ≤ version.cover * input.length
  unopened : version.is_tagged = false → ∀ o ∈ s.2.paths, o.2.opened = {}

theorem take_session_read {version : Layout} {input rest : Bytes} {s : LocationKey × Session}
    (h : take_session out version input = some (s, rest)) : SessionRead version input s rest := by
  simp only [take_session, bind_eq_bind, bind_eq_some_iff] at h
  obtain ⟨⟨session, input₁⟩, hsession, ⟨owner, input₂⟩, howner, ⟨cutoff, input₃⟩, hcutoff,
    ⟨absent, input₄⟩, habsent, ⟨count, input₅⟩, hcount, ⟨paths, input₆⟩, hpaths, h⟩ := h
  cases h
  refine ⟨?_, ?_, ?_⟩
  · exact times_forall (fun _ _ _ hstep => (take_path_read hstep).generation) hpaths
  · have hsum := @times_covered _ _ path_len _ (fun _ _ _ hstep => (take_path_read hstep).covered)
      _ _ _ _ hpaths
    have hsession := take_key_length hsession
    have howner := take_key_length howner
    have hcutoff := take_word_length hcutoff
    have habsent := take_word_length habsent
    have hcount := take_count_length hcount
    simp only at hsession howner hcutoff habsent hcount
    unfold session_len
    have hlonger : 52 + version.cover * input₅.length ≤ version.cover * input.length := by
      have hone : 1 ≤ version.cover := by cases version <;> decide
      have hlength : input.length = input₅.length + 52 := by omega
      rw [hlength, Nat.mul_add]
      have := Nat.mul_le_mul_right 52 hone
      omega
    simp only at hsum ⊢
    omega
  · intro htagged
    exact times_forall (P := fun o => o.2.opened = {})
      (fun _ _ _ hstep => (take_path_read hstep).unopened htagged) hpaths

end ottto_service.claude_money_birth_store
