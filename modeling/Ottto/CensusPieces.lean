-- What the census reader changes of its input (claude_request_census.rs): the values of three root
-- fields and some of their keys. Every other byte is given as it stands.
import Ottto.CensusBulk

open json_grammar

namespace ottto_service.claude_request_census

open CensusRead List Bool Scan

/-! ## The root of a text, read on its own -/

/-- Where a text stands: brackets and quotes, the kind of the root, the commas at the root's depth so
far, and the last key of the root. -/
structure Root where
  scan : Scan
  array : Bool
  index : Nat
  /-- The next string at the root's depth is a key. -/
  key_due : Bool
  /-- The string being read is a key of the root. -/
  in_key : Bool
  key : Text

namespace Root

def start : Root := ⟨Scan.start, false, 0, false, false, []⟩

def step (r : Root) (b : UInt8) : Root :=
  let scan := r.scan.step b
  if r.scan.quoted then
    { r with scan := scan, key := if r.in_key then r.key ++ [b] else r.key }
  else if b = 0x22 then
    if r.scan.depth = 1 ∧ r.array = false ∧ r.key_due = true then
      { r with scan := scan, in_key := true, key := [b] }
    else { r with scan := scan, in_key := false }
  else if (b = 0x7B ∨ b = 0x5B) ∧ r.scan.depth = 0 then
    { r with scan := scan, array := b == 0x5B, key_due := b == 0x7B }
  else if b = 0x3A ∧ r.scan.depth = 1 then
    { r with scan := scan, key_due := false, key := if r.array then r.key else [] }
  else if b = 0x2C ∧ r.scan.depth = 1 then
    { r with scan := scan, key_due := !r.array, index := r.index + 1, key := [] }
  else { r with scan := scan }

def after (text : Text) : Root := text.foldl step start

theorem after_append (a b : Text) : after (a ++ b) = b.foldl step (after a) := by
  rw [after, foldl_append]
  rfl

/-- At the depth of the root's members, outside of every string. -/
def AtMembers (r : Root) : Prop := r.scan.depth = 1 ∧ r.scan.quoted = false

end Root

def census_fields : List String :=
  ["claude_request_census", "claude_request_census_shadow", "reread_guard"]

/-- A key, in any spelling, of one of the fields. -/
def Named (key : Text) : Prop := ∃ name ∈ census_fields, read_string key = some name

/-! ## Pieces -/

/-- A part of the input, and what is given for it. -/
inductive Piece
  | byte (b : UInt8)
  | key (text out : Text)
  | value (text out : Text)

namespace Piece

def source : Piece → Text
  | .byte b => [b]
  | .key text _ => text
  | .value text _ => text

def given : Piece → Text
  | .byte b => [b]
  | .key _ out => out
  | .value _ out => out

end Piece

def sources (pieces : List Piece) : Text := pieces.flatMap Piece.source

def givens (pieces : List Piece) : Text := pieces.flatMap Piece.given

/-- A key of this name stood before. -/
def KeyBefore (before : List Piece) (name : String) : Prop :=
  ∃ text given, Piece.key text given ∈ before ∧ read_string text = some name

/-- A key that is not given as it stands: the retired field's, or one that repeats a census field. -/
def Rewritten (before : List Piece) (text given : Text) : Prop :=
  (read_string text = some "reread_guard" ∧ given = ignored_retired_reread_guard) ∨
    ∃ name ∈ ["claude_request_census", "claude_request_census_shadow"],
      read_string text = some name ∧ KeyBefore before name ∧
        given = ignored_census_duplicate

/-- The place of a value that is not given as it stands: behind the colon of a root key that names one
of the fields, or in a field's slot of a root array. -/
def ValuePlace (done : Text) : Prop :=
  (∃ text, done = text ++ [0x3A] ∧ (Root.after text).AtMembers ∧ Named (Root.after text).key) ∨
    ((Root.after done).AtMembers ∧ (Root.after done).array = true ∧
      is_drained_slot (Root.after done).index = true)

/-- Where a piece may stand, and what may be given for it. -/
def Lawful (canonical : Canonical) (before : List Piece) (rest : Text) : Piece → Prop
  | .byte _ => True
  | .key text given =>
    (Root.after (sources before)).AtMembers ∧ (Root.after (sources before)).array = false ∧
      (Root.after (sources before)).key_due = true ∧ text.head? = some 0x22 ∧
      (given = text ∨ Rewritten before text given)
  | .value text given =>
    ValuePlace (sources before) ∧ (Scan.start.cut (text ++ rest)).1 = text ∧
      (given = null_text ∨ given = canonical.census text ∨ given = canonical.shadow text)

/-- Every piece of the list is lawful where it stands, before the rest. -/
def AllLawful (canonical : Canonical) (rest : Text) : List Piece → List Piece → Prop
  | _, [] => True
  | before, piece :: more =>
    Lawful canonical before (sources more ++ rest) piece ∧
      AllLawful canonical rest (before ++ [piece]) more

theorem KeyBefore.snoc {before : List Piece} {name : String} (h : KeyBefore before name)
    (piece : Piece) : KeyBefore (before ++ [piece]) name := by
  obtain ⟨text, out, hmem, hname⟩ := h
  exact ⟨text, out, mem_append_left _ hmem, hname⟩

theorem KeyBefore.last (before : List Piece) {text : Text} (out : Text) {name : String}
    (h : read_string text = some name) : KeyBefore (before ++ [.key text out]) name :=
  ⟨text, out, by simp, h⟩

theorem sources_snoc (before : List Piece) (piece : Piece) :
    sources (before ++ [piece]) = sources before ++ piece.source := by
  simp [sources]

namespace Root

theorem after_snoc (done : Text) (b : UInt8) : after (done ++ [b]) = (after done).step b :=
  after_append done [b]

/-- A byte of a value that stands behind a key or in an array. -/
theorem value_step {c : Scan} {b : UInt8} {r : Root} (hstop : c.stops b = false)
    (hscan : r.scan = ⟨c.depth + 1, c.quoted, c.escaped⟩) (hdue : r.key_due = false)
    (hin : r.scan.quoted = true → r.in_key = false) :
    (r.step b).scan = ⟨(c.step b).depth + 1, (c.step b).quoted, (c.step b).escaped⟩ ∧
      (r.step b).array = r.array ∧ (r.step b).index = r.index ∧ (r.step b).key_due = false ∧
      (r.array = true → (r.step b).key = r.key) ∧
      ((r.step b).scan.quoted = true → (r.step b).in_key = false) := by
  have hmove : r.scan.step b = ⟨(c.step b).depth + 1, (c.step b).quoted, (c.step b).escaped⟩ := by
    unfold Scan.step
    cases hquoted : c.quoted with
    | true => grind
    | false =>
      have hopen : b = 0x7D ∨ b = 0x5D → 0 < c.depth := by
        intro hb
        by_contra hdepth
        have hzero : c.depth = 0 := by omega
        rcases hb with rfl | rfl <;> simp [Scan.stops, is_stop, hquoted, hzero] at hstop
      grind
  have hcomma : c.quoted = false → c.depth = 0 → b ≠ 0x2C := by
    intro hquoted hdepth hb
    simp [Scan.stops, is_stop, hquoted, hdepth, hb] at hstop
  have hquoted : r.scan.quoted = c.quoted := by rw [hscan]
  have hdepth : r.scan.depth = c.depth + 1 := by rw [hscan]
  unfold step
  rw [hmove, hquoted, hdepth, hdue]
  cases hcq : c.quoted with
  | true => simp_all
  | false =>
    have hopened : (c.step b).quoted = true → b = 0x22 := by
      intro h
      by_contra hb
      unfold Scan.step at h
      simp only [hcq, false_eq_true, if_false, hb] at h
      split at h
      · simp_all
      · split at h <;> simp_all
    by_cases hb : b = 0x22
    · simp [hb]
    · have hstill : (c.step b).quoted ≠ true := fun h => hb (hopened h)
      by_cases hcolon : b = 0x3A ∧ c.depth = 0
      · obtain ⟨rfl, hzero⟩ := hcolon
        simp +contextual [hzero, hstill]
      · have hmember : ¬ (b = 0x2C ∧ c.depth = 0) := fun h => hcomma hcq h.2 h.1
        simp [hb, hcolon, hmember, hstill]

/-- A value at the depth of the root's members changes neither the place in the root nor, in an array,
the last key. -/
theorem foldl_value {c c' : Scan} {text : Text} {r : Root} (hrun : c.run text = some c')
    (hscan : r.scan = ⟨c.depth + 1, c.quoted, c.escaped⟩) (hdue : r.key_due = false)
    (hin : r.scan.quoted = true → r.in_key = false) :
    (text.foldl step r).scan = ⟨c'.depth + 1, c'.quoted, c'.escaped⟩ ∧
      (text.foldl step r).array = r.array ∧ (text.foldl step r).index = r.index ∧
      (text.foldl step r).key_due = false ∧
      (r.array = true → (text.foldl step r).key = r.key) := by
  induction text generalizing c r with
  | nil =>
    cases hrun
    exact ⟨hscan, rfl, rfl, hdue, fun _ => rfl⟩
  | cons b text ih =>
    simp only [Scan.run] at hrun
    split at hrun
    · cases hrun
    rename_i hstop
    have hnext : (r.step b).scan = ⟨(c.step b).depth + 1, (c.step b).quoted, (c.step b).escaped⟩ ∧
        (r.step b).array = r.array ∧ (r.step b).index = r.index ∧ (r.step b).key_due = false ∧
        (r.array = true → (r.step b).key = r.key) ∧
        ((r.step b).scan.quoted = true → (r.step b).in_key = false) :=
      value_step (by simpa using hstop) hscan hdue hin
    obtain ⟨hs, ha, hi, hd, hk, hq⟩ := hnext
    obtain ⟨hs', ha', hi', hd', hk'⟩ := ih hrun hs hd hq
    refine ⟨hs', ha'.trans ha, hi'.trans hi, hd', fun harray => ?_⟩
    rw [foldl_cons, hk' (ha.trans harray), hk harray]

end Root

/-- A byte that ends a text finds no escape open. -/
theorem scan_start_of_stops {c : Scan} {text : Text} {b : UInt8} (hrun : Scan.start.run text = some c)
    (hstop : c.stops b = true) : c = Scan.start := by
  have hescape : ∀ (text : Text) (a c : Scan), (a.quoted = false → a.escaped = false) →
      a.run text = some c → c.quoted = false → c.escaped = false := by
    intro text
    induction text with
    | nil =>
      intro a c ha hrun
      cases hrun
      exact ha
    | cons d text ih =>
      intro a c ha hrun
      simp only [Scan.run] at hrun
      split at hrun
      · cases hrun
      · refine ih (a.step d) c ?_ hrun
        unfold Scan.step
        grind
  simp only [Scan.stops, and_eq_true, not_eq_true', beq_iff_eq] at hstop
  obtain ⟨⟨hquoted, hdepth⟩, -⟩ := hstop
  have hescaped := hescape text Scan.start c (fun _ => rfl) hrun hquoted
  rcases c with ⟨depth, quoted, escaped⟩
  simp_all [Scan.start]

namespace CensusRead

/-! ## The state and the text read so far -/

/-- The state but for the input that it has left. -/
def core (s : CensusRead) : CensusRead := (s.with_reader ⟨[], []⟩).with_replay none

theorem byte_spec (s : CensusRead) :
    s.byte.1 = s.left.head? ∧ s.byte.2.left = s.left.tail ∧ s.byte.2.core = s.core ∧
      s.byte.2.replay = none := by
  obtain ⟨hbyte, hrest⟩ := BufReader.byte_left s.reader
  unfold byte left
  cases hreplay : s.replay with
  | some b =>
    refine ⟨rfl, ?_, rfl, rfl⟩
    simp [with_replay]
  | none =>
    refine ⟨by simp [hbyte], ?_, rfl, hreplay⟩
    simp [with_reader, hreplay, hrest]

variable {s t : CensusRead} {b : UInt8}

/-- A byte is the first that is left. -/
theorem left_of_byte (h : s.byte = (some b, t)) :
    s.left = b :: t.left ∧ t.core = s.core ∧ t.replay = none := by
  obtain ⟨hhead, htail, hcore⟩ := byte_spec s
  rw [h] at hhead htail hcore
  refine ⟨?_, hcore⟩
  cases hleft : s.left with
  | nil => simp [hleft] at hhead
  | cons c rest => simp_all

theorem left_of_no_byte (h : s.byte = (none, t)) :
    s.left = [] ∧ t.left = [] ∧ t.core = s.core := by
  obtain ⟨hhead, htail, hcore, -⟩ := byte_spec s
  rw [h] at hhead htail hcore
  cases hleft : s.left with
  | nil => simp_all
  | cons c rest => simp [hleft] at hhead

theorem Evidence.push_spec (e : Evidence) (b : UInt8) :
    (e.push b).scan = e.scan.step b ∧
      ((e.push b).overflow = false → e.overflow = false ∧ (e.push b).bytes = e.bytes ++ [b]) := by
  unfold Evidence.push
  dsimp only
  split
  · exact ⟨rfl, fun h => absurd h (by simp_all)⟩
  · split
    · exact ⟨rfl, fun h => absurd h (by simp)⟩
    · exact ⟨rfl, fun h => ⟨h, rfl⟩⟩

/-- The bytes of a value end where the text's own scan cuts it. -/
theorem evidence_bytes_spec (turns : Nat) (s : CensusRead) (e : Evidence)
    (hturns : s.left.length < turns) :
    (s.evidence_bytes turns e).2.left = (e.scan.cut s.left).2.2 ∧
      (s.evidence_bytes turns e).2.core = s.core ∧
      ((s.evidence_bytes turns e).1.overflow = false →
        e.overflow = false ∧ (s.evidence_bytes turns e).1.bytes = e.bytes ++ (e.scan.cut s.left).1) := by
  induction turns generalizing s e with
  | zero => omega
  | succ turns ih =>
    rw [evidence_bytes]
    rcases hbyte : s.byte with ⟨_ | b, t⟩
    · obtain ⟨hleft, hrest, hcore⟩ := left_of_no_byte hbyte
      simp [hleft, hrest, hcore, Scan.cut]
    · obtain ⟨hleft, hcore, hreplay⟩ := left_of_byte hbyte
      rw [hleft, length_cons] at hturns
      dsimp only
      by_cases hstop : e.scan.stops b = true
      · have hback : (t.with_replay (some b)).left = b :: t.left := by
          simp [left, with_replay, hreplay]
        rw [if_pos hstop, hleft, Scan.cut, if_pos hstop]
        exact ⟨hback, hcore, fun h => ⟨h, by simp⟩⟩
      · obtain ⟨hrest, hcore', hbytes⟩ := ih t (e.push b) (by omega)
        obtain ⟨hscan, hkept⟩ := Evidence.push_spec e b
        rw [hscan] at hrest hbytes
        rw [if_neg hstop, hleft, Scan.cut, if_neg hstop]
        refine ⟨hrest, hcore'.trans hcore, fun h => ?_⟩
        obtain ⟨hpush, hout⟩ := hbytes h
        obtain ⟨hover, hpushed⟩ := hkept hpush
        exact ⟨hover, by rw [hout, hpushed, append_assoc]; rfl⟩

/-- The value that `evidence` takes, and what it gives for it. -/
theorem evidence_spec (canonical : Canonical) (s : CensusRead) :
    s.left = (Scan.start.cut s.left).1 ++ (s.evidence canonical).2.left ∧
      (s.evidence canonical).2.left = (Scan.start.cut s.left).2.2 ∧
      (s.evidence canonical).2.core = s.core ∧
      ((s.evidence canonical).1 = null_text ∨
        (s.evidence canonical).1 = canonical.census (Scan.start.cut s.left).1 ∨
        (s.evidence canonical).1 = canonical.shadow (Scan.start.cut s.left).1) := by
  obtain ⟨hleft, hcore, hbytes⟩ := evidence_bytes_spec (s.left.length + 1) s
    { bytes := [], scan := Scan.start, overflow := s.syntax_only || s.retired_guard } (Nat.lt_succ_self _)
  have hrest : (s.evidence canonical).2.left = (Scan.start.cut s.left).2.2 := hleft
  refine ⟨?_, hrest, hcore, ?_⟩
  · rw [hrest]
    exact (cut_spec Scan.start s.left).1.symm
  · unfold evidence
    dsimp only
    split
    · exact .inl rfl
    · rename_i hover
      obtain ⟨-, hread⟩ := hbytes (by simpa using hover)
      rw [hread]
      split
      · exact .inr (.inr rfl)
      · exact .inr (.inl rfl)

def with_quotes (s : CensusRead) (quoted escaped : Bool) : CensusRead :=
  { s with quoted := quoted, escaped := escaped }

/-- What the loop of a key has read: the bytes behind those it had, as the root of the text reads
them. -/
def KeyRead (s : CensusRead) (key : Text) (r : Root) (result : Text × CensusRead) : Prop :=
  ∃ text, result.1 = key ++ text ∧ s.left = text ++ result.2.left ∧
    text.foldl Root.step r =
      { r with scan := ⟨1, result.2.quoted, result.2.escaped⟩, key := r.key ++ text } ∧
    result.2.core = s.core.with_quotes result.2.quoted result.2.escaped ∧
    (result.2.quoted = false → result.2.escaped = false)

variable {key : Text}

theorem KeyRead.nothing {r : Root} (hcore : t.core = s.core)
    (hleft : t.left = s.left) (hquoted : s.quoted = true) (hscan : r.scan = ⟨1, true, s.escaped⟩) :
    KeyRead s key r (key, t) := by
  have hq : t.quoted = true := (congrArg CensusRead.quoted hcore).trans hquoted
  have he : t.escaped = s.escaped := show t.core.escaped = s.core.escaped by rw [hcore]
  refine ⟨[], by simp, by simp [hleft], ?_, ?_, fun h => absurd h (by simp [hq])⟩
  · simp [hq, he, ← hscan]
  · have hself : s.core = s.core.with_quotes s.quoted s.escaped := rfl
    rw [hcore, hq, he, ← hquoted]
    exact hself

/-- One more byte at the front. -/
theorem KeyRead.more {u : CensusRead} {r : Root}
    {result : Text × CensusRead} (hleft : s.left = b :: u.left)
    (hcore : u.core = s.core.with_quotes u.quoted u.escaped)
    (hq : r.scan.quoted = true) (hin : r.in_key = true)
    (h : KeyRead u (key ++ [b]) (r.step b) result) : KeyRead s key r result := by
  obtain ⟨text, hkey, hrest, hroot, hcore', hclosed⟩ := h
  refine ⟨b :: text, by simp [hkey], by simp [hleft, hrest], ?_, ?_, hclosed⟩
  · rw [foldl_cons, hroot, Root.step]
    simp [hq, hin]
  · rw [hcore', hcore]
    rfl

theorem root_key_bytes_spec (room : Nat) (s : CensusRead) (key : Text) (r : Root)
    (hscan : r.scan = ⟨1, true, s.escaped⟩) (hquoted : s.quoted = true) (hin : r.in_key = true) :
    KeyRead s key r (s.root_key_bytes room key) := by
  induction room generalizing s key r with
  | zero => exact KeyRead.nothing rfl rfl hquoted hscan
  | succ room ih =>
    rw [root_key_bytes]
    rcases hbyte : s.byte with ⟨_ | b, t⟩
    · obtain ⟨hleft, hrest, hcore⟩ := left_of_no_byte hbyte
      exact KeyRead.nothing hcore (hrest.trans hleft.symm) hquoted hscan
    · obtain ⟨hleft, hcore, -⟩ := left_of_byte hbyte
      have hq : r.scan.quoted = true := by rw [hscan]
      have hte : t.escaped = s.escaped := show t.core.escaped = s.core.escaped by rw [hcore]
      have htq : t.quoted = true := (congrArg CensusRead.quoted hcore).trans hquoted
      have hstep : ∀ b, r.step b = { r with scan := r.scan.step b, key := r.key ++ [b] } := by
        simp [Root.step, hq, hin]
      have hself : t.core = s.core.with_quotes t.quoted t.escaped := by
        rw [hcore, htq, hte, ← hquoted]
        rfl
      dsimp only
      split
      · rename_i hescaped
        refine KeyRead.more (u := { t with escaped := false }) hleft ?_ hq hin
          (ih { t with escaped := false } (key ++ [b]) (r.step b) ?_ htq ?_)
        · exact congrArg (fun s => s.with_quotes t.quoted false) hself
        · simp [hstep, hscan, Scan.step, ← hte, hescaped]
        · simp [hstep, hin]
      rename_i hescaped
      have hse : s.escaped = false := by simpa [hte] using hescaped
      split
      · rename_i hslash
        refine KeyRead.more (u := { t with escaped := true }) hleft ?_ hq hin
          (ih { t with escaped := true } (key ++ [b]) (r.step b) ?_ htq ?_)
        · exact congrArg (fun s => s.with_quotes t.quoted true) hself
        · simp [hstep, hscan, Scan.step, hse, hslash]
        · simp [hstep, hin]
      rename_i hslash
      split
      · rename_i hquote
        refine ⟨[b], rfl, hleft, ?_, ?_, fun _ => by simpa using hescaped⟩
        · rw [foldl_cons, foldl_nil, hstep]
          simp [hscan, Scan.step, hse, hquote, hte]
        · exact congrArg (fun s => s.with_quotes false t.escaped) hself
      · rename_i hquote
        refine KeyRead.more (u := t) hleft hself hq hin (ih t (key ++ [b]) (r.step b) ?_ htq ?_)
        · simp [hstep, hscan, Scan.step, hse, hte, hslash, hquote]
        · simp [hstep, hin]

/-! ## The scanner and the root of the text -/

def scan (s : CensusRead) : Scan := ⟨s.depth, s.quoted, s.escaped⟩

/-- The state is the one that the text read so far leaves. -/
structure Agree (before : List Piece) (s : CensusRead) : Prop where
  scan : (Root.after (sources before)).scan = s.scan
  array : (Root.after (sources before)).array = s.root_array
  index : (Root.after (sources before)).index = s.array_index
  key_due : (Root.after (sources before)).key_due = s.expect_key
  keyless : s.root_array = true → s.expect_key = false
  unescaped : s.quoted = false → s.escaped = false
  named : s.shadow_key = true → Named (Root.after (sources before)).key ∧
    (s.quoted = true → (Root.after (sources before)).in_key = false)
  captured : s.capture = true → ValuePlace (sources before) ∧ s.depth = 1 ∧ s.quoted = false ∧
    s.expect_key = false ∧ s.shadow_key = false
  census : s.seen_census = true → KeyBefore before "claude_request_census"
  shadow : s.seen_shadow = true → KeyBefore before "claude_request_census_shadow"

variable {before : List Piece}

theorem Agree.of_core (h : Agree before s) (hcore : t.core = s.core) : Agree before t := by
  have hs : Agree before s.core := ⟨h.1, h.2, h.3, h.4, h.5, h.6, h.7, h.8, h.9, h.10⟩
  rw [← hcore] at hs
  exact ⟨hs.1, hs.2, hs.3, hs.4, hs.5, hs.6, hs.7, hs.8, hs.9, hs.10⟩

theorem agree_new (deliveries : List Delivery) (syntax_only : Bool) :
    Agree [] (new deliveries syntax_only) where
  scan := rfl
  array := rfl
  index := rfl
  key_due := rfl
  keyless := fun h => absurd h (by simp [new])
  unescaped := fun _ => rfl
  named := fun h => absurd h (by simp [new])
  captured := fun h => absurd h (by simp [new])
  census := fun h => absurd h (by simp [new])
  shadow := fun h => absurd h (by simp [new])

theorem scan_structure_byte (s : CensusRead) (b : UInt8) :
    (s.structure_byte b).scan = s.scan.step b := by
  unfold structure_byte scan Scan.step
  cases hq : s.quoted <;> simp only [false_eq_true, if_false, if_true] <;> grind

/-- A byte that is given as it stands. -/
theorem Agree.structure_byte (h : Agree before s)
    (hcapture : s.capture = false) (hkey : s.starts_key b = false) :
    Agree (before ++ [.byte b]) (s.structure_byte b) := by
  have hafter : Root.after (sources (before ++ [.byte b])) = (Root.after (sources before)).step b := by
    rw [sources_snoc]
    exact Root.after_snoc _ b
  have hquoted : (Root.after (sources before)).scan.quoted = s.quoted := by rw [h.scan]; rfl
  have hdepth : (Root.after (sources before)).scan.depth = s.depth := by rw [h.scan]; rfl
  have hkeys : s.seen_census = (s.structure_byte b).seen_census ∧
      s.seen_shadow = (s.structure_byte b).seen_shadow := by
    unfold CensusRead.structure_byte
    grind
  refine ⟨?_, ?_, ?_, ?_, ?_, ?_, ?_, ?_, fun hseen => ?_, fun hseen => ?_⟩
  · rw [hafter, scan_structure_byte, ← h.scan]
    unfold Root.step
    grind
  · rw [hafter]
    have := h.array
    unfold CensusRead.structure_byte Root.step
    grind
  · rw [hafter]
    have := h.index
    unfold CensusRead.structure_byte Root.step
    grind
  · rw [hafter]
    have := h.key_due
    have := h.array
    unfold CensusRead.structure_byte Root.step
    grind
  · have := h.keyless
    unfold CensusRead.structure_byte
    grind
  · have := h.unescaped
    unfold CensusRead.structure_byte
    grind
  · rw [hafter]
    have := h.named
    have := h.array
    have := h.key_due
    unfold starts_key at hkey
    unfold CensusRead.structure_byte Root.step
    grind
  · have hnamed := h.named
    rw [sources_snoc]
    unfold CensusRead.structure_byte
    intro hcaptured
    obtain ⟨rfl, hone, hunquoted, hname⟩ : b = 0x3A ∧ s.depth = 1 ∧ s.quoted = false ∧
        s.shadow_key = true := by grind
    have hmembers : (Root.after (sources before)).AtMembers :=
      ⟨hdepth.trans hone, hquoted.trans hunquoted⟩
    refine ⟨.inl ⟨sources before, rfl, hmembers, (hnamed hname).1⟩, ?_⟩
    simp [hone, hunquoted]
  · exact (h.census (hkeys.1.trans hseen)).snoc (.byte b)
  · exact (h.shadow (hkeys.2.trans hseen)).snoc (.byte b)

/-- A value that is handed on in its canonical form. -/
theorem Agree.value {text out : Text} {c : Scan}
    (h : Agree before s) (hcapture : s.capture = false) (hdepth : s.depth = 1)
    (hquoted : s.quoted = false) (hdue : s.expect_key = false)
    (hshadow : s.shadow_key = true → s.root_array = true) (hcore : t.core = s.core)
    (hrun : Scan.start.run text = some c) (hclosed : c = Scan.start) :
    Agree (before ++ [.value text out]) t := by
  refine Agree.of_core ?_ hcore
  subst hclosed
  have hescaped := h.unescaped hquoted
  have hstart : (Root.after (sources before)).scan = ⟨1, false, false⟩ := by
    rw [h.scan, CensusRead.scan, hdepth, hquoted, hescaped]
  obtain ⟨hs, ha, hi, hd, hk⟩ := Root.foldl_value hrun hstart (h.key_due.trans hdue)
    (fun hq => absurd hq (by simp [hstart]))
  have hafter : Root.after (sources (before ++ [.value text out])) =
      text.foldl Root.step (Root.after (sources before)) := by
    rw [sources_snoc]
    exact Root.after_append _ text
  rw [← hafter] at hs ha hi hd hk
  refine ⟨?_, ha.trans h.array, hi.trans h.index, hd.trans hdue.symm, h.keyless, h.unescaped,
    fun hname => ?_, fun hc => absurd hc (by simp [hcapture]), fun hseen => (h.census hseen).snoc _,
    fun hseen => (h.shadow hseen).snoc _⟩
  · rw [hs, CensusRead.scan, hdepth, hquoted, hescaped]
    rfl
  · rw [hk (h.array.trans (hshadow hname))]
    exact ⟨(h.named hname).1, fun hq => absurd hq (by simp [hquoted])⟩

/-- A complete key that names a field. -/
theorem Agree.name {name : String} (h : Agree before s)
    (hfield : name ∈ census_fields)
    (hname : read_string (Root.after (sources before)).key = some name)
    (hquoted : s.quoted = false) (hcapture : s.capture = false) (state duplicate_census : Bool)
    (duplicate_shadow seen_census seen_shadow guard : Bool)
    (hcensus : seen_census = true → KeyBefore before "claude_request_census")
    (hshadow : seen_shadow = true → KeyBefore before "claude_request_census_shadow") :
    Agree before { s with
      shadow_key := true, shadow_state := state, seen_census := seen_census,
      seen_shadow := seen_shadow, duplicate_census := duplicate_census,
      duplicate_shadow := duplicate_shadow, retired_guard := guard } :=
  ⟨h.scan, h.array, h.index, h.key_due, h.keyless, h.unescaped,
    fun _ => ⟨⟨name, hfield, hname⟩, fun hq => absurd hq (by simp [hquoted])⟩,
    fun hc => absurd hc (by simp [hcapture]), hcensus, hshadow⟩

theorem Agree.named_key (h : ∀ out, Agree (before ++ [.key key out]) s)
    (hkey : (Root.after (sources before ++ key)).key = key) (hquoted : s.quoted = false)
    (hcapture : s.capture = false)
    (hcensus : s.seen_census = true → KeyBefore before "claude_request_census")
    (hshadow : s.seen_shadow = true → KeyBefore before "claude_request_census_shadow") :
    ((s.named_key key).1 = key ∨ Rewritten before key (s.named_key key).1) ∧
      Agree (before ++ [.key key (s.named_key key).1]) (s.named_key key).2 ∧
      (s.named_key key).2.left = s.left ∧ (s.named_key key).2.output = s.output := by
  have hafter : ∀ out, (Root.after (sources (before ++ [.key key out]))).key = key := by
    intro out
    rw [sources_snoc]
    exact hkey
  unfold CensusRead.named_key
  split
  · rename_i hread
    refine ⟨?_, ?_, rfl, rfl⟩
    · cases hseen : s.seen_census with
      | false => exact .inl rfl
      | true => exact .inr (.inr ⟨_, by simp, hread, hcensus hseen, rfl⟩)
    · exact (h _).name (by simp [census_fields]) ((congrArg read_string (hafter _)).trans hread) hquoted
        hcapture _ _ _ _ _ _ (fun _ => KeyBefore.last before _ hread) (fun hseen => (hshadow hseen).snoc _)
  · rename_i hread
    refine ⟨?_, ?_, rfl, rfl⟩
    · cases hseen : s.seen_shadow with
      | false => exact .inl rfl
      | true => exact .inr (.inr ⟨_, by simp, hread, hshadow hseen, rfl⟩)
    · exact (h _).name (by simp [census_fields]) ((congrArg read_string (hafter _)).trans hread) hquoted
        hcapture _ _ _ _ _ _ (fun hseen => (hcensus hseen).snoc _) (fun _ => KeyBefore.last before _ hread)
  · rename_i hread
    refine ⟨.inr (.inl ⟨hread, rfl⟩), ?_, rfl, rfl⟩
    exact (h _).name (by simp [census_fields]) ((congrArg read_string (hafter _)).trans hread) hquoted
      hcapture _ _ _ _ _ _ (fun hseen => (hcensus hseen).snoc _) (fun hseen => (hshadow hseen).snoc _)
  · exact ⟨.inl rfl, h key, rfl, rfl⟩

/-- A key of the root, whatever is given for it. -/
theorem Agree.root_key (h : Agree before s)
    (hdepth : s.depth = 1) (hquoted : s.quoted = false) (harray : s.root_array = false)
    (hdue : s.expect_key = true) (hcapture : s.capture = false) :
    ∃ text, s.left = text ++ s.root_key.2.left ∧ s.root_key.2.output = s.output ∧
      (s.root_key.1 = 0x22 :: text ∨ Rewritten before (0x22 :: text) s.root_key.1) ∧
      Agree (before ++ [.key (0x22 :: text) s.root_key.1]) s.root_key.2 := by
  have hescaped := h.unescaped hquoted
  have hstart : (Root.after (sources before)).step 0x22 = { Root.after (sources before) with
      scan := ⟨1, true, false⟩, in_key := true, key := [0x22] } := by
    have hscan : (Root.after (sources before)).scan = ⟨1, false, false⟩ := by
      rw [h.scan, CensusRead.scan, hdepth, hquoted, hescaped]
    simp [Root.step, hscan, h.array, harray, h.key_due, hdue, Scan.step]
  obtain ⟨text, hkey, hleft, hroot, hcore, hclosed⟩ := root_key_bytes_spec 255
    (s.with_quotes true false) [0x22] ((Root.after (sources before)).step 0x22)
    (by rw [hstart]; rfl) rfl (by rw [hstart])
  unfold CensusRead.root_key
  rcases hbytes : root_key_bytes 255 (s.with_quotes true false) [0x22] with ⟨key, t⟩
  rw [hbytes] at hkey hleft hroot hcore hclosed
  have hbytes' : root_key_bytes 255 { s with quoted := true, escaped := false } [0x22] = (key, t) :=
    hbytes
  rw [hbytes']
  dsimp only at hkey hleft hroot hcore hclosed ⊢
  have hafter : Root.after (sources before ++ 0x22 :: text) = { Root.after (sources before) with
      scan := ⟨1, t.quoted, t.escaped⟩, in_key := true, key := 0x22 :: text } := by
    rw [Root.after_append, foldl_cons, hroot, hstart]
    rfl
  have hnamed : ∀ out, Agree (before ++ [.key (0x22 :: text) out])
      { t with shadow_key := false, retired_guard := false } := by
    intro out
    refine Agree.of_core (s := { s.with_quotes t.quoted t.escaped with
      shadow_key := false, retired_guard := false }) ?_
      (congrArg (fun s : CensusRead => { s with shadow_key := false, retired_guard := false }) hcore)
    have hsources : sources (before ++ [.key (0x22 :: text) out]) = sources before ++ 0x22 :: text :=
      sources_snoc _ _
    refine ⟨?_, ?_, ?_, ?_, h.keyless, hclosed, fun hc => absurd hc (by simp),
      fun hc => absurd (hc.symm.trans hcapture) (by simp), fun hseen => (h.census hseen).snoc _,
      fun hseen => (h.shadow hseen).snoc _⟩
    all_goals rw [hsources, hafter]
    · rw [CensusRead.scan, ← hdepth]
      rfl
    · exact h.array
    · exact h.index
    · exact h.key_due
  have houtput : t.output = s.output := show t.core.output = s.core.output by rw [hcore]; rfl
  have hcaptured : t.capture = false := (congrArg CensusRead.capture hcore).trans hcapture
  refine ⟨text, ?_⟩
  rw [hkey]
  split
  · exact ⟨hleft, houtput, .inl rfl, hnamed _⟩
  · rename_i hopen
    have hq : t.quoted = false := by simpa using hopen
    obtain ⟨hout, hagree, hrest, hgiven⟩ := Agree.named_key hnamed (by rw [hafter]) hq hcaptured
      (fun hseen => h.census ((congrArg CensusRead.seen_census hcore).symm.trans hseen))
      (fun hseen => h.shadow ((congrArg CensusRead.seen_shadow hcore).symm.trans hseen))
    exact ⟨hleft.trans (congrArg (text ++ ·) hrest.symm), hgiven.trans houtput, hout, hagree⟩

theorem structure_byte_left (s : CensusRead) (b : UInt8) :
    (s.structure_byte b).left = s.left ∧ (s.structure_byte b).output = s.output := by
  unfold structure_byte left
  grind

/-- What one `next` gives the start of: nothing at the end of the text, else what stands for a piece. -/
def NextPiece (canonical : Canonical) (before : List Piece) (s : CensusRead)
    (next : Option UInt8 × CensusRead) : Prop :=
  ∃ piece t, next = t.give piece.given ∧ piece.given ≠ [] ∧ t.output = [] ∧
    s.left = piece.source ++ t.left ∧ Lawful canonical before t.left piece ∧
      (Agree (before ++ [piece]) t ∨ (t.left = [] ∧ t.capture = false))

theorem value_piece (canonical : Canonical)
    (h : Agree before s) (houtput : s.output = []) (hcapture : s.capture = false)
    (hplace : ValuePlace (sources before)) (hdepth : s.depth = 1) (hquoted : s.quoted = false)
    (hdue : s.expect_key = false) (hshadow : s.shadow_key = true → s.root_array = true) :
    NextPiece canonical before s ((s.evidence canonical).2.give (s.evidence canonical).1) := by
  obtain ⟨hleft, hrest, hcore, hout⟩ := evidence_spec canonical s
  refine ⟨.value (Scan.start.cut s.left).1 (s.evidence canonical).1, _, rfl,
    evidence_nonempty canonical s, ?_, hleft, ⟨hplace, ?_, hout⟩, ?_⟩
  · have hsame : (s.evidence canonical).2.core.output = s.core.output := by rw [hcore]
    exact hsame.trans houtput
  · rw [← hleft]
  · obtain ⟨-, hrun, hstop⟩ := cut_spec Scan.start s.left
    cases hmore : (Scan.start.cut s.left).2.2 with
    | nil =>
      have hsame : (s.evidence canonical).2.core.capture = s.core.capture := by rw [hcore]
      exact .inr ⟨hrest.trans hmore, hsame.trans hcapture⟩
    | cons b rest =>
      have hclosed := scan_start_of_stops hrun (hstop b (by simp [hmore]))
      exact .inl (h.value hcapture hdepth hquoted hdue hshadow hcore hrun hclosed)

theorem next_spec (canonical : Canonical) (h : Agree before s) (houtput : s.output = []) :
    (s.left = [] ∧ (s.next canonical).1 = none) ∨
      NextPiece canonical before s (s.next canonical) := by
  rw [next, if_neg (by simp [houtput])]
  cases hcapture : s.capture with
  | true =>
    obtain ⟨hplace, hdepth, hquoted, hdue, hshadow⟩ := h.captured hcapture
    have hrelease : Agree before s.release :=
      ⟨h.1, h.2, h.3, h.4, h.5, h.6, h.7, fun hc => absurd hc (by simp [release]), h.9, h.10⟩
    exact .inr (value_piece canonical hrelease houtput rfl hplace hdepth hquoted hdue
      (fun hs => absurd (hs.symm.trans hshadow) (by simp)))
  | false =>
    rw [if_neg (by simp), next_byte]
    rcases hbyte : s.byte with ⟨_ | b, t⟩
    · exact .inl ⟨(left_of_no_byte hbyte).1, rfl⟩
    obtain ⟨hleft, hcore, hreplay⟩ := left_of_byte hbyte
    have hagree := h.of_core hcore
    have houtput' : t.output = [] := (congrArg CensusRead.output hcore).trans houtput
    have hcapture' : t.capture = false := (congrArg CensusRead.capture hcore).trans hcapture
    dsimp only
    split
    · rename_i hslot
      simp only [starts_slot, and_eq_true, not_eq_true', beq_iff_eq] at hslot
      obtain ⟨⟨⟨⟨⟨harray, hdepth⟩, hquoted⟩, -⟩, -⟩, hdrained⟩ := hslot
      have hscan : (Root.after (sources before)).AtMembers :=
        ⟨(congrArg Scan.depth hagree.scan).trans hdepth, (congrArg Scan.quoted hagree.scan).trans hquoted⟩
      have hplace : ValuePlace (sources before) :=
        .inr ⟨hscan, hagree.array.trans harray, by rw [hagree.index]; exact hdrained⟩
      have henter : Agree before (t.enter_slot b) :=
        ⟨hagree.1, hagree.2, hagree.3, hagree.4, hagree.5, hagree.6, hagree.7, hagree.8, hagree.9, hagree.10⟩
      have hsame : (t.enter_slot b).left = s.left := by
        rw [hleft]
        simp [enter_slot, left, hreplay]
      obtain ⟨piece, u, hnext, hnonempty, hempty, hsplit, hrest⟩ := value_piece canonical henter
        houtput' hcapture' hplace hdepth hquoted (hagree.keyless harray) (fun _ => harray)
      exact .inr ⟨piece, u, hnext, hnonempty, hempty, hsame.symm.trans hsplit, hrest⟩
    rename_i hslot
    split
    · rename_i hkey
      simp only [starts_key, and_eq_true, not_eq_true', beq_iff_eq] at hkey
      obtain ⟨⟨⟨⟨rfl, hquoted⟩, hdepth⟩, harray⟩, hdue⟩ := hkey
      obtain ⟨text, hrest, hout, hgiven, hnext⟩ :=
        hagree.root_key hdepth hquoted harray hdue hcapture'
      refine .inr ⟨.key (0x22 :: text) t.root_key.1, t.root_key.2, rfl, root_key_nonempty t,
        hout.trans houtput', ?_, ?_, .inl hnext⟩
      · rw [hleft, hrest]
        rfl
      · refine ⟨⟨(congrArg Scan.depth hagree.scan).trans hdepth,
          (congrArg Scan.quoted hagree.scan).trans hquoted⟩, hagree.array.trans harray,
          hagree.key_due.trans hdue, rfl, hgiven⟩
    · rename_i hkey
      obtain ⟨hrest, hout⟩ := structure_byte_left t b
      refine .inr ⟨.byte b, t.structure_byte b, ?_, by simp [Piece.given], hout.trans houtput', ?_,
        trivial, .inl (hagree.structure_byte hcapture' (by simpa using hkey))⟩
      · have hself : (t.structure_byte b).with_output [] = t.structure_byte b := by
          rw [← houtput', ← hout]
          rfl
        exact congrArg (some b, ·) hself.symm
      · rw [hleft, hrest]
        rfl

/-- Behind the end of the text nothing is given. -/
theorem repeat_next_end (canonical : Canonical) (count : Nat) (hleft : s.left = [])
    (houtput : s.output = []) (hcapture : s.capture = false) :
    (s.repeat_next canonical count).1 = [] := by
  cases count with
  | zero => rfl
  | succ count =>
    rw [repeat_next, next, if_neg (by simp [houtput]), if_neg (by simp [hcapture]), next_byte]
    rcases hbyte : s.byte with ⟨_ | b, t⟩
    · rfl
    · rw [(left_of_byte hbyte).1] at hleft
      cases hleft

/-- A byte that is given goes before all that follows the piece it stands in. -/
theorem repeat_of_give (canonical : Canonical) {given : Text} (count : Nat)
    (hnext : s.next canonical = t.give given) (hgiven : given ≠ []) (houtput : t.output = []) :
    (s.repeat_next canonical (count + 1)).1 =
      given.take (count + 1) ++ (t.repeat_next canonical (count + 1 - given.length)).1 := by
  cases given with
  | nil => exact absurd rfl hgiven
  | cons byte more =>
    have hgive : t.give (byte :: more) = (some byte, t.with_output more) := rfl
    have hmore : (t.with_output more).output = more := rfl
    rw [repeat_next, hnext, hgive, before_more, repeat_output, hmore]
    simp only [take_succ_cons, cons_append, length_cons, Nat.add_sub_add_right]
    by_cases hfits : more.length ≤ count
    · have hself : (t.with_output more).with_output [] = t := by
        rw [← houtput]
        rfl
      rw [take_of_length_le hfits, drop_eq_nil_of_le hfits, hself]
    · have hnothing : count - (more.take count).length = 0 := by
        rw [length_take]
        omega
      rw [hnothing, Nat.sub_eq_zero_of_le (by omega)]
      rfl

/-- What a run of the scanner gives is what stands for the pieces of the text it has read. -/
theorem pieces_of_repeat (canonical : Canonical) (count : Nat)
    (h : Agree before s) (houtput : s.output = []) :
    ∃ pieces rest, s.left = sources pieces ++ rest ∧
      (s.repeat_next canonical count).1 = (givens pieces).take count ∧
      AllLawful canonical rest before pieces ∧
      ((s.repeat_next canonical count).1.length < count → rest = []) := by
  induction count using Nat.strong_induction_on generalizing before s with
  | h count ih =>
    cases count with
    | zero => exact ⟨[], s.left, rfl, rfl, trivial, fun h => absurd h (by omega)⟩
    | succ count =>
      rcases next_spec canonical h houtput with ⟨hleft, hnone⟩ | hpiece
      · have hnothing : (s.repeat_next canonical (count + 1)).1 = [] := by
          rw [repeat_next]
          rcases hnext : s.next canonical with ⟨_ | b, t⟩
          · rfl
          · rw [hnext] at hnone
            cases hnone
        exact ⟨[], [], hleft, by rw [hnothing]; rfl, trivial, fun _ => rfl⟩
      · obtain ⟨piece, t, hnext, hnonempty, hempty, hleft, hlawful, hagree⟩ := hpiece
        have hrun := repeat_of_give canonical count hnext hnonempty hempty
        have hpositive := length_pos_iff.mpr hnonempty
        -- What follows the piece: the scanner goes on, or the text has ended inside it.
        obtain ⟨pieces, rest, hsplit, hgiven, hall, hend⟩ : ∃ pieces rest,
            t.left = sources pieces ++ rest ∧
              (t.repeat_next canonical (count + 1 - piece.given.length)).1 =
                (givens pieces).take (count + 1 - piece.given.length) ∧
              AllLawful canonical rest (before ++ [piece]) pieces ∧
              ((t.repeat_next canonical (count + 1 - piece.given.length)).1.length <
                count + 1 - piece.given.length → rest = []) := by
          rcases hagree with hagree | ⟨hdone, hcapture⟩
          · exact ih _ (by omega) hagree hempty
          · have hnothing := repeat_next_end canonical (count + 1 - piece.given.length) hdone hempty
              hcapture
            exact ⟨[], [], hdone, by simp [hnothing, givens], trivial, fun _ => rfl⟩
        refine ⟨piece :: pieces, rest, ?_, ?_, ⟨by rw [← hsplit]; exact hlawful, hall⟩, ?_⟩
        · rw [hleft, hsplit]
          simp [sources]
        · rw [hrun, hgiven]
          simp [givens, take_append]
        · intro hshort
          rw [hrun, length_append, length_take] at hshort
          exact hend (by omega)

/-! ## The reads and the pieces -/

theorem new_flat (deliveries others : List Delivery) (syntax_only : Bool)
    (h : delivered deliveries = delivered others) :
    (new deliveries syntax_only).flat = (new others syntax_only).flat := by
  have hleft : (⟨[], deliveries⟩ : BufReader).flat = (⟨[], others⟩ : BufReader).flat := by
    simp [BufReader.flat, BufReader.left, h]
  exact congrArg (fun reader => (new [] syntax_only).with_reader reader) hleft

/-- However the same text is delivered, and whatever the sizes of the reads, they give what the scanner
gives, and end where it ends. -/
theorem reads_of_any_delivery (canonical : Canonical) (deliveries others : List Delivery)
    (syntax_only : Bool) (sizes : List Nat) (h : delivered deliveries = delivered others) :
    ((new deliveries syntax_only).reads canonical sizes).1 =
        ((new others syntax_only).repeat_next canonical sizes.sum).1 ∧
      ((new deliveries syntax_only).reads canonical sizes).2.flat =
        ((new others syntax_only).repeat_next canonical sizes.sum).2.flat := by
  have hreads := reads_eq canonical sizes (new deliveries syntax_only)
  rw [new_flat deliveries others syntax_only h, repeat_next_flat] at hreads
  exact ⟨(congrArg Prod.fst hreads).symm, (congrArg Prod.snd hreads).symm⟩

/-- The reads are the scanner, and the scanner changes the values of three root fields and some of
their keys. -/
theorem reads_refine_next (canonical : Canonical) (syntax_only : Bool) (deliveries : List Delivery) :
    (∀ others, delivered deliveries = delivered others → ∀ sizes,
      ((new deliveries syntax_only).reads canonical sizes).1 =
          ((new others syntax_only).repeat_next canonical sizes.sum).1 ∧
        ((new deliveries syntax_only).reads canonical sizes).2.flat =
          ((new others syntax_only).repeat_next canonical sizes.sum).2.flat) ∧
      ∀ count, ∃ pieces rest, delivered deliveries = sources pieces ++ rest ∧
        AllLawful canonical rest [] pieces ∧
        ((new deliveries syntax_only).repeat_next canonical count).1 = (givens pieces).take count ∧
        (((new deliveries syntax_only).repeat_next canonical count).1.length < count → rest = []) := by
  refine ⟨fun others h sizes => reads_of_any_delivery canonical deliveries others syntax_only sizes h,
    fun count => ?_⟩
  obtain ⟨pieces, rest, hleft, hgiven, hlawful, hend⟩ :=
    pieces_of_repeat canonical count (agree_new deliveries syntax_only) rfl
  have hall : (new deliveries syntax_only).left = delivered deliveries := by
    simp [left, new, BufReader.left]
  exact ⟨pieces, rest, hall.symm.trans hleft, hlawful, hgiven, hend⟩

/-- The key of the retired field is not given as it stands: the text before its value does not pass
through. -/
theorem the_retired_key_is_renamed :
    ¬ ∀ canonical : Canonical, "\x7b\"reread_guard\":".toUTF8.toList <+:
      ((new (whole "\x7b\"reread_guard\":1\x7d".toUTF8.toList) false).repeat_next canonical 60).1 := by
  intro h
  have hrun := h ⟨fun _ => null_text, fun _ => null_text, fun _ => by decide, fun _ => by decide⟩
  exact absurd hrun (by decide +kernel)

end CensusRead

end ottto_service.claude_request_census
