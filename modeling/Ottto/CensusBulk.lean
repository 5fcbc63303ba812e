-- The reads of the census reader give what its scanner gives a byte at a time, however the input is
-- delivered and however large the buffers are (claude_request_census.rs).
import Mathlib.Data.List.TakeWhile
import Ottto.CensusReader

open json_grammar

namespace ottto_service.claude_request_census

open List

namespace BufReader

theorem delivered_refill (deliveries : List Delivery) :
    (refill deliveries).left = delivered deliveries := by
  induction deliveries with
  | nil => rfl
  | cons delivery more ih =>
    cases delivery with
    | interrupted => exact ih
    | bytes first rest => simp [refill, left, delivered, Delivery.text]

@[simp] theorem left_fill_buf (r : BufReader) : r.fill_buf.left = r.left := by
  rcases r with ⟨_ | ⟨byte, buffer⟩, deliveries⟩
  · exact delivered_refill deliveries
  · rfl

/-- An empty buffer after `fill_buf` is the end of the input. -/
theorem left_of_empty {r : BufReader} (h : r.fill_buf.buffer = []) : r.left = [] := by
  rcases r with ⟨_ | ⟨byte, buffer⟩, deliveries⟩
  · induction deliveries with
    | nil => rfl
    | cons delivery more ih =>
      cases delivery with
      | interrupted => exact ih h
      | bytes first rest => simp [fill_buf, refill] at h
  · simp [fill_buf] at h

/-- `byte` takes the first byte that is left. -/
theorem byte_left (r : BufReader) : r.byte.1 = r.left.head? ∧ r.byte.2.left = r.left.tail := by
  have hleft := left_fill_buf r
  have hempty := left_of_empty (r := r)
  unfold byte
  rcases hfill : r.fill_buf with ⟨_ | ⟨byte, buffer⟩, deliveries⟩
  · rw [hfill] at hleft hempty
    have hnil := hempty rfl
    rw [hnil] at hleft ⊢
    exact ⟨rfl, hleft⟩
  · rw [hfill] at hleft
    rw [← hleft]
    exact ⟨rfl, rfl⟩

/-- The reader with all its bytes in the buffer. -/
def flat (r : BufReader) : BufReader := ⟨r.left, []⟩

@[simp] theorem left_flat (r : BufReader) : r.flat.left = r.left := by
  simp [flat, left, delivered]

/-- At the end of the input `byte` leaves nothing to be called again. -/
theorem byte_none {r : BufReader} (h : r.byte.1 = none) : r.byte.2 = ⟨[], []⟩ := by
  rcases r with ⟨_ | ⟨first, buffer⟩, deliveries⟩
  · induction deliveries with
    | nil => rfl
    | cons delivery more ih =>
      cases delivery with
      | interrupted => exact ih h
      | bytes first rest => simp [byte, fill_buf, refill] at h
  · simp [byte, fill_buf] at h

theorem byte_flat (r : BufReader) : r.flat.byte = (r.byte.1, r.byte.2.flat) := by
  obtain ⟨hbyte, hrest⟩ := byte_left r
  rw [hbyte, flat, flat, hrest]
  cases r.left with
  | nil => rfl
  | cons byte rest => rfl

end BufReader

namespace CensusRead

/-- The state with all the input in the buffer. -/
def flat (s : CensusRead) : CensusRead := s.with_reader s.reader.flat

theorem byte_of_no_replay {s : CensusRead} (h : s.replay = none) :
    s.byte = (s.reader.byte.1, s.with_reader s.reader.byte.2) := by
  rw [byte, h]

theorem byte_flat (s : CensusRead) : s.flat.byte = (s.byte.1, s.byte.2.flat) := by
  have hreplay : s.flat.replay = s.replay := rfl
  have hreader : s.flat.reader = s.reader.flat := rfl
  unfold byte
  rw [hreplay, hreader, BufReader.byte_flat]
  cases s.replay <;> rfl

theorem left_eq (s : CensusRead) : s.flat.left = s.left := by
  simp [left, flat, with_reader]

theorem root_key_bytes_flat (room : Nat) (s : CensusRead) (key : Text) :
    s.flat.root_key_bytes room key =
      ((s.root_key_bytes room key).1, (s.root_key_bytes room key).2.flat) := by
  induction room generalizing s key with
  | zero => rfl
  | succ room ih =>
    rw [root_key_bytes, root_key_bytes, byte_flat]
    rcases s.byte with ⟨_ | byte, t⟩
    · rfl
    · have hescaped : t.flat.escaped = t.escaped := rfl
      simp only [hescaped]
      split
      · exact ih { t with escaped := false } _
      · split
        · exact ih { t with escaped := true } _
        · split
          · rfl
          · exact ih t _

theorem named_key_flat (s : CensusRead) (key : Text) :
    s.flat.named_key key = ((s.named_key key).1, (s.named_key key).2.flat) := by
  unfold named_key
  split <;> rfl

theorem root_key_flat (s : CensusRead) : s.flat.root_key = (s.root_key.1, s.root_key.2.flat) := by
  have hbytes := root_key_bytes_flat 255 { s with quoted := true, escaped := false } [0x22]
  change root_key_bytes 255 { s.flat with quoted := true, escaped := false } [0x22] = _ at hbytes
  unfold root_key
  rw [hbytes]
  rcases root_key_bytes 255 { s with quoted := true, escaped := false } [0x22] with ⟨key, t⟩
  dsimp only
  have hquoted : t.flat.quoted = t.quoted := rfl
  simp only [hquoted]
  split
  · rfl
  · exact named_key_flat { t with shadow_key := false, retired_guard := false } key

theorem evidence_bytes_flat (turns : Nat) (s : CensusRead) (e : Evidence) :
    s.flat.evidence_bytes turns e = ((s.evidence_bytes turns e).1, (s.evidence_bytes turns e).2.flat) := by
  induction turns generalizing s e with
  | zero => rfl
  | succ turns ih =>
    rw [evidence_bytes, evidence_bytes, byte_flat]
    rcases s.byte with ⟨_ | byte, t⟩
    · rfl
    · dsimp only
      split
      · rfl
      · exact ih t _

theorem structure_byte_flat (s : CensusRead) (byte : UInt8) :
    s.flat.structure_byte byte = (s.structure_byte byte).flat := by
  unfold structure_byte
  repeat' split
  all_goals first | rfl | contradiction

theorem pop_flat (s : CensusRead) : s.flat.pop = (s.pop.1, s.pop.2.flat) := by
  have houtput : s.flat.output = s.output := rfl
  unfold pop
  rw [houtput]
  cases s.output <;> rfl

theorem give_flat (s : CensusRead) (output : Text) :
    s.flat.give output = ((s.give output).1, (s.give output).2.flat) :=
  pop_flat (s.with_output output)

section

variable (canonical : Canonical)

theorem evidence_flat (s : CensusRead) :
    s.flat.evidence canonical = ((s.evidence canonical).1, (s.evidence canonical).2.flat) := by
  unfold evidence
  rw [left_eq, evidence_bytes_flat]
  rfl

theorem next_byte_flat (s : CensusRead) :
    s.flat.next_byte canonical = ((s.next_byte canonical).1, (s.next_byte canonical).2.flat) := by
  unfold next_byte
  rw [byte_flat]
  rcases s.byte with ⟨_ | byte, t⟩
  · rfl
  · have hslot : t.flat.starts_slot byte = t.starts_slot byte := rfl
    have hkey : t.flat.starts_key byte = t.starts_key byte := rfl
    have henter : t.flat.enter_slot byte = (t.enter_slot byte).flat := rfl
    simp only [hslot, hkey, henter, evidence_flat, root_key_flat, structure_byte_flat, give_flat]
    split
    · rfl
    · split <;> rfl

theorem next_flat (s : CensusRead) :
    s.flat.next canonical = ((s.next canonical).1, (s.next canonical).2.flat) := by
  have houtput : s.flat.output = s.output := rfl
  have hcapture : s.flat.capture = s.capture := rfl
  have hrelease : s.flat.release = s.release.flat := rfl
  unfold next
  simp only [houtput, hcapture, hrelease, evidence_flat, give_flat, pop_flat, next_byte_flat]
  split
  · rfl
  · split <;> rfl

theorem repeat_next_flat (count : Nat) (s : CensusRead) :
    s.flat.repeat_next canonical count =
      ((s.repeat_next canonical count).1, (s.repeat_next canonical count).2.flat) := by
  induction count generalizing s with
  | zero => rfl
  | succ count ih =>
    rw [repeat_next, repeat_next, next_flat]
    rcases s.next canonical with ⟨_ | byte, t⟩
    · rfl
    · simp only [before_more, ih t]

/-! ## Runs -/

/-- The output is given before anything is read. -/
theorem repeat_output (count : Nat) (s : CensusRead) :
    s.repeat_next canonical count =
      (s.output.take count ++ (repeat_next canonical (count - (s.output.take count).length)
          (s.with_output (s.output.drop count))).1,
        (repeat_next canonical (count - (s.output.take count).length)
          (s.with_output (s.output.drop count))).2) := by
  induction count generalizing s with
  | zero => simp [repeat_next, with_output]
  | succ count ih =>
    cases houtput : s.output with
    | nil =>
      have hs : s.with_output [] = s := by rw [← houtput]; rfl
      simp [hs]
    | cons byte output =>
      have hnext : s.next canonical = (some byte, s.with_output output) := by
        rw [next, if_pos (by simp [houtput]), pop, houtput]
      rw [repeat_next, hnext]
      simp only [before_more, ih (s.with_output output)]
      simp [with_output]

variable {s : CensusRead}

/-- A byte of a run changes nothing but the position. -/
theorem next_of_run {byte : UInt8} {rest : Text} (houtput : s.output = [])
    (hvisit : s.must_visit = false) (hbyte : s.in_run byte = true)
    (hreader : s.reader = ⟨byte :: rest, []⟩) :
    s.next canonical = (some byte, s.with_reader ⟨rest, []⟩) := by
  simp only [must_visit, Bool.or_eq_false_iff, Option.isSome_eq_false_iff, Option.isNone_iff_eq_none]
    at hvisit
  obtain ⟨⟨⟨hcapture, hreplay⟩, hescaped⟩, harray⟩ := hvisit
  have hread : s.byte = (some byte, s.with_reader ⟨rest, []⟩) := by
    simp [CensusRead.byte, hreplay, hreader, BufReader.byte, BufReader.fill_buf]
  have hslot : (s.with_reader ⟨rest, []⟩).starts_slot byte = false := by
    unfold starts_slot
    change (s.root_array && s.depth == 1 && !s.quoted && _ && _ && _) = false
    rw [harray]
    rfl
  have hkey : (s.with_reader ⟨rest, []⟩).starts_key byte = false := by
    unfold starts_key
    unfold in_run at hbyte
    change (byte == 0x22 && !s.quoted && _ && _ && _) = false
    cases hquoted : s.quoted with
    | true => simp
    | false =>
      simp only [hquoted, Bool.false_eq_true, if_false, Bool.not_eq_true', Bool.or_eq_false_iff]
        at hbyte
      simp [hbyte]
  have hstay : (s.with_reader ⟨rest, []⟩).structure_byte byte = s.with_reader ⟨rest, []⟩ := by
    unfold in_run at hbyte
    unfold structure_byte
    have hq : (s.with_reader ⟨rest, []⟩).quoted = s.quoted := rfl
    have he : (s.with_reader ⟨rest, []⟩).escaped = false := hescaped
    rw [hq, he]
    cases hquoted : s.quoted with
    | true =>
      simp only [hquoted, if_true, Bool.not_eq_true', Bool.or_eq_false_iff, beq_eq_false_iff_ne]
        at hbyte
      simp [hbyte]
    | false =>
      simp only [hquoted, Bool.false_eq_true, if_false, Bool.not_eq_true', Bool.or_eq_false_iff,
        beq_eq_false_iff_ne] at hbyte
      simp [hbyte]
  rw [next, if_neg (by simp [houtput]), if_neg (by simp [hcapture]), next_byte, hread]
  simp only [hslot, hkey, hstay, Bool.false_eq_true, if_false]

/-- A run is given as it stands. -/
theorem repeat_run (run rest : Text) (count : Nat) (houtput : s.output = [])
    (hvisit : s.must_visit = false) (hrun : ∀ byte ∈ run, s.in_run byte = true)
    (hcount : run.length ≤ count) (hreader : s.reader = ⟨run ++ rest, []⟩) :
    s.repeat_next canonical count =
      (run ++ ((s.with_reader ⟨rest, []⟩).repeat_next canonical (count - run.length)).1,
        ((s.with_reader ⟨rest, []⟩).repeat_next canonical (count - run.length)).2) := by
  induction run generalizing s count with
  | nil =>
    have hs : s.with_reader ⟨rest, []⟩ = s := by
      rw [nil_append] at hreader
      rw [← hreader]
      rfl
    simp [hs]
  | cons byte run ih =>
    obtain ⟨count, rfl⟩ : ∃ n, count = n + 1 := ⟨count - 1, by
      rw [length_cons] at hcount
      omega⟩
    rw [cons_append] at hreader
    rw [repeat_next, next_of_run canonical houtput hvisit (hrun byte mem_cons_self) hreader]
    have hmore := ih (s := s.with_reader ⟨run ++ rest, []⟩) count houtput hvisit
      (fun b hb => hrun b (mem_cons_of_mem byte hb))
      (by rw [length_cons] at hcount; omega) rfl
    simp only [before_more, hmore, length_cons, Nat.add_sub_add_right, cons_append]
    rfl

/-- A run is the start of what is left, and fits the room. -/
theorem run_of_spec (s : CensusRead) (room : Nat) :
    s.reader.left = s.run_of room ++ (s.reader.consume (s.run_of room).length).left ∧
      (s.run_of room).length ≤ room ∧ ∀ byte ∈ s.run_of room, s.in_run byte = true := by
  have hstart : s.run_of room <+: s.reader.buffer :=
    (List.takeWhile_prefix s.in_run).trans (List.take_prefix room s.reader.buffer)
  obtain ⟨rest, hrest⟩ := hstart
  refine ⟨?_, ?_, ?_⟩
  · rw [BufReader.left, BufReader.left, BufReader.consume, ← append_assoc]
    conv_lhs => rw [← hrest]
    rw [← hrest, drop_left]
  · have hshort := (List.takeWhile_prefix s.in_run (l := s.reader.buffer.take room)).length_le
    rw [length_take] at hshort
    change (List.takeWhile s.in_run (s.reader.buffer.take room)).length ≤ room
    omega
  · exact fun byte hbyte => mem_takeWhile_imp hbyte

/-! ## The reads -/

/-- One read is as many bytes of the scanner as there is room for. -/
theorem read_turns_eq (turns room : Nat) (s : CensusRead) (hturns : room ≤ turns) :
    s.flat.repeat_next canonical room =
      ((s.read_turns canonical turns room).1, (s.read_turns canonical turns room).2.flat) := by
  induction turns generalizing room s with
  | zero =>
    have hroom : room = 0 := by omega
    subst hroom
    rfl
  | succ turns ih =>
    rw [read_turns]
    split
    · rename_i hroom
      subst hroom
      rfl
    · rename_i hroom
      split
      · rename_i houtput
        have hflat : s.flat.output = s.output := rfl
        have hcopied : 0 < (s.output.take room).length := by
          rw [length_take]
          have := length_pos_iff.mpr houtput
          omega
        rw [repeat_output, hflat]
        have h := ih (room - (s.output.take room).length) (s.with_output (s.output.drop room))
          (by omega)
        change (s.flat.with_output (s.output.drop room)).repeat_next canonical _ = _ at h
        rw [h]
      · rename_i houtput
        have hnil : s.output = [] := by simpa using houtput
        -- A turn of `next`, from a state with the same input left.
        have hnext : ∀ t : CensusRead, t.flat = s.flat →
            s.flat.repeat_next canonical room =
              ((before_more (t.next canonical) (read_turns canonical turns (room - 1))).1,
                (before_more (t.next canonical) (read_turns canonical turns (room - 1))).2.flat) := by
          intro t ht
          obtain ⟨count, rfl⟩ : ∃ n, room = n + 1 := ⟨room - 1, by omega⟩
          rw [← ht, repeat_next, next_flat]
          rcases t.next canonical with ⟨_ | byte, t'⟩
          · rfl
          · simp only [before_more, ih count t' (by omega), Nat.add_sub_cancel]
        by_cases hvisit : s.must_visit = true
        · simp only [hvisit, if_true, ne_eq, not_true, if_false]
          exact hnext s rfl
        · have hsame : (s.with_reader s.reader.fill_buf).flat = s.flat := by
            simp [flat, with_reader, BufReader.flat]
          have hvisit' : s.must_visit = false := by simpa using hvisit
          have hstill : (s.with_reader s.reader.fill_buf).must_visit = false := hvisit'
          simp only [hvisit', hstill, Bool.false_eq_true, if_false]
          split
          · rename_i hrun
            have hpos := length_pos_iff.mpr hrun
            obtain ⟨hleft, hfits, hin⟩ := run_of_spec (s.with_reader s.reader.fill_buf) room
            rw [← hsame, repeat_run canonical (s := (s.with_reader s.reader.fill_buf).flat) _ _ room
              hnil hvisit' hin hfits (congrArg (BufReader.mk · []) hleft)]
            have h := ih (room - ((s.with_reader s.reader.fill_buf).run_of room).length)
              ((s.with_reader s.reader.fill_buf).with_reader
                ((s.with_reader s.reader.fill_buf).reader.consume
                  ((s.with_reader s.reader.fill_buf).run_of room).length)) (by omega)
            exact congrArg (fun more : Text × CensusRead =>
              ((s.with_reader s.reader.fill_buf).run_of room ++ more.1, more.2)) h
          · exact hnext _ hsame

theorem read_eq (room : Nat) (s : CensusRead) :
    s.flat.repeat_next canonical room = ((s.read canonical room).1, (s.read canonical room).2.flat) :=
  read_turns_eq canonical room room s (Nat.le_refl room)

theorem evidence_nonempty (s : CensusRead) : (s.evidence canonical).1 ≠ [] := by
  unfold evidence
  dsimp only
  split
  · simp [null_text]
  · split
    · exact canonical.shadow_nonempty _
    · exact canonical.census_nonempty _

theorem give_some {output : Text} (h : output ≠ []) :
    ∃ byte t, s.give output = (some byte, t) := by
  cases output with
  | nil => exact absurd rfl h
  | cons byte output => exact ⟨byte, _, rfl⟩

theorem root_key_bytes_nonempty (room : Nat) (s : CensusRead) {key : Text} (h : key ≠ []) :
    (s.root_key_bytes room key).1 ≠ [] := by
  induction room generalizing s key with
  | zero => exact h
  | succ room ih =>
    rw [root_key_bytes]
    rcases s.byte with ⟨_ | byte, t⟩
    · exact h
    · dsimp only
      split
      · exact ih _ (by simp)
      · split
        · exact ih _ (by simp)
        · split
          · simp
          · exact ih _ (by simp)

theorem root_key_nonempty (s : CensusRead) : s.root_key.1 ≠ [] := by
  have hkey := root_key_bytes_nonempty 255 { s with quoted := true, escaped := false }
    (cons_ne_nil 0x22 [])
  have hguard : ignored_retired_reread_guard ≠ [] := by decide +kernel
  have hduplicate : ignored_census_duplicate ≠ [] := by decide +kernel
  unfold root_key
  dsimp only
  split
  · exact hkey
  · unfold named_key
    split
    · dsimp only
      split
      · exact hduplicate
      · exact hkey
    · dsimp only
      split
      · exact hduplicate
      · exact hkey
    · exact hguard
    · exact hkey

/-- Once the scanner has no byte, it has none again. -/
theorem next_none {t : CensusRead} (h : s.next canonical = (none, t)) :
    t.next canonical = (none, t) := by
  unfold next at h
  split at h
  · rename_i houtput
    obtain ⟨byte, t', ht⟩ := give_some (s := s) houtput
    change s.pop = _ at ht
    rw [ht] at h
    cases h
  rename_i houtput
  split at h
  · obtain ⟨byte, t', ht⟩ := give_some (s := (s.release.evidence canonical).2)
      (evidence_nonempty canonical s.release)
    dsimp only at h
    rw [ht] at h
    cases h
  rename_i hcapture
  unfold next_byte at h
  rcases hbyte : s.byte with ⟨_ | byte, s'⟩
  · rw [hbyte] at h
    cases h
    -- The end of the input: nothing is held back, and the reader stays empty.
    have hreplay : s.replay = none := by
      cases hr : s.replay with
      | none => rfl
      | some b => simp [CensusRead.byte, hr] at hbyte
    rw [byte_of_no_replay hreplay] at hbyte
    obtain ⟨hnone, hs'⟩ := Prod.mk.inj hbyte
    rw [BufReader.byte_none hnone] at hs'
    subst hs'
    have houtput' : ¬ (s.with_reader ⟨[], []⟩).output ≠ [] := houtput
    have hcapture' : ¬ (s.with_reader ⟨[], []⟩).capture = true := hcapture
    have hagain : (s.with_reader ⟨[], []⟩).byte = (none, s.with_reader ⟨[], []⟩) :=
      byte_of_no_replay (s := s.with_reader ⟨[], []⟩) hreplay
    rw [next, if_neg houtput', if_neg hcapture', next_byte]
    rw [hagain]
  · rw [hbyte] at h
    dsimp only at h
    split at h
    · obtain ⟨b, t', ht⟩ := give_some (s := ((s'.enter_slot byte).evidence canonical).2)
        (evidence_nonempty canonical (s'.enter_slot byte))
      rw [ht] at h
      cases h
    · split at h
      · obtain ⟨b, t', ht⟩ := give_some (s := s'.root_key.2) (root_key_nonempty s')
        rw [ht] at h
        cases h
      · cases h

theorem repeat_next_add (a b : Nat) (s : CensusRead) :
    s.repeat_next canonical (a + b) =
      ((s.repeat_next canonical a).1 ++ ((s.repeat_next canonical a).2.repeat_next canonical b).1,
        ((s.repeat_next canonical a).2.repeat_next canonical b).2) := by
  induction a generalizing s with
  | zero => simp [repeat_next]
  | succ a ih =>
    rw [Nat.succ_add, repeat_next, repeat_next]
    rcases hnext : s.next canonical with ⟨_ | byte, t⟩
    · have hstop : t.repeat_next canonical b = ([], t) := by
        cases b with
        | zero => rfl
        | succ b => rw [repeat_next, next_none canonical hnext, before_more]
      simp [before_more, hstop]
    · simp only [before_more, ih t, cons_append]

/-- Reads give what the scanner gives, whatever their sizes. -/
theorem reads_eq (sizes : List Nat) (s : CensusRead) :
    s.flat.repeat_next canonical sizes.sum =
      ((s.reads canonical sizes).1, (s.reads canonical sizes).2.flat) := by
  induction sizes generalizing s with
  | nil => rfl
  | cons size sizes ih =>
    rw [sum_cons, repeat_next_add, read_eq, reads]
    simp only [ih]

end

end CensusRead

end ottto_service.claude_request_census
