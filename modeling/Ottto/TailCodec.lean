-- The field codec of the durable tail: the traits of durable_tail_codec.rs as
-- records of their methods, and each `impl` and macro as one value of them.
-- The shape walk is not part of it.
import Ottto.SortedMap
import Ottto.TailBytes

namespace ottto_service.durable_tail_codec

open Option

/-! ## The traits -/

structure Durable (α : Type) where
  put : α → Enc → Except Refuse Enc
  take : {a : List UInt8} → Dec a → Option (α × Dec a)
  verify : {a : List UInt8} → Dec a → Option (Dec a)

/-- Fixed 32-byte values and collections of them. -/
structure HDigest (α : Type) where
  put_h : α → String → Enc → Except Refuse Enc
  take_h : {a : List UInt8} → Dec a → Option (α × Dec a)
  verify_h : {a : List UInt8} → Dec a → Option (Dec a)

/-- A borrowed view for equality and order; `order` is `View: Ord`. -/
structure DurableKey (α : Type) extends Durable α where
  View : Type
  order : LinearOrder View
  key : {a : List UInt8} → Dec a → Option (View × Dec a)

structure HDigestKey (α : Type) extends HDigest α where
  View : Type
  order : LinearOrder View
  key_h : {a : List UInt8} → Dec a → Option (View × Dec a)

/-- What an `E` field must hold for the record to be written: its default. -/
structure DurableEmpty (α : Type) where
  durable_empty : α → Bool
  default : α
  only_default : ∀ v, durable_empty v = true → v = default

/-- A set is a map to nothing. -/
abbrev BTreeSet (α : Type) [LinearOrder α] := SortedMap α Unit

namespace DurableEmpty

variable {α κ ν : Type}

/-- `empty_when_zero!` -/
def zero [DecidableEq α] (nought : α) : DurableEmpty α :=
  ⟨fun v => v == nought, nought, fun _ h => eq_of_beq h⟩

def u8 : DurableEmpty UInt8 := zero 0
def u16 : DurableEmpty UInt16 := zero 0
def u32 : DurableEmpty UInt32 := zero 0
def u64 : DurableEmpty UInt64 := zero 0
def usize : DurableEmpty UInt64 := zero 0

def bool : DurableEmpty Bool := ⟨fun v => !v, false, by decide⟩

def string : DurableEmpty String :=
  ⟨fun v => v.isEmpty, "", fun _ h => String.isEmpty_iff.mp h⟩

def option : DurableEmpty (Option α) :=
  ⟨fun v => v.isNone, none, fun _ h => isNone_iff_eq_none.mp h⟩

end DurableEmpty

/-! ## Numbers and labels -/

namespace Durable

variable {α β γ : Type}

/-- `scalar_verify!`: validation stays identical to decode. -/
def scalar (put : α → Enc → Except Refuse Enc)
    (take : {a : List UInt8} → Dec a → Option (α × Dec a)) : Durable α where
  put := put
  take := take
  verify d := (take d).map Prod.snd

/-- A value that travels as one varint. -/
def through_varint (widen : α → UInt64) (try_from : UInt64 → Option α) : Durable α :=
  scalar (fun v e => e.varint (widen v)) (fun d => do
    let (raw, d) ← d.varint
    let v ← try_from raw
    some (v, d))

def u64 : Durable UInt64 := through_varint id some

/-- `usize` of a 64-bit target. -/
def usize : Durable UInt64 := through_varint id some

def u8 : Durable UInt8 :=
  through_varint UInt8.toUInt64 (fun raw => if raw.toNat < 2 ^ 8 then some raw.toUInt8 else none)

def u16 : Durable UInt16 :=
  through_varint UInt16.toUInt64 (fun raw => if raw.toNat < 2 ^ 16 then some raw.toUInt16 else none)

def u32 : Durable UInt32 :=
  through_varint UInt32.toUInt64 (fun raw => if raw.toNat < 2 ^ 32 then some raw.toUInt32 else none)

def non_zero_u64 : Durable { n : UInt64 // n ≠ 0 } :=
  through_varint (fun n => n.1) (fun raw => if h : raw ≠ 0 then some ⟨raw, h⟩ else none)

def signed_word (value : Int64) : UInt64 := ((value <<< 1) ^^^ (value >>> 63)).toUInt64

def word_signed (raw : UInt64) : Int64 := (raw >>> 1).toInt64 ^^^ -((raw &&& 1).toInt64)

def i64 : Durable Int64 := through_varint signed_word (fun raw => some (word_signed raw))

def i32_try_from (v : Int64) : Option Int32 :=
  if -2 ^ 31 ≤ v.toInt ∧ v.toInt < 2 ^ 31 then some v.toInt32 else none

def i32 : Durable Int32 :=
  through_varint (fun v => signed_word v.toInt64) (fun raw => i32_try_from (word_signed raw))

def to_le_bytes : Nat → Nat → List UInt8
  | 0, _ => []
  | n + 1, v => UInt8.ofNat (v % 256) :: to_le_bytes n (v / 256)

def from_le_bytes : List UInt8 → Nat
  | [] => 0
  | b :: rest => b.toNat + 256 * from_le_bytes rest

def u128 : Durable (BitVec 128) :=
  scalar (fun v e => e.raw (to_le_bytes 16 v.toNat)) (fun d => do
    let (bytes, d) ← d.raw 16
    some (BitVec.ofNat 128 (from_le_bytes bytes), d))

/-- The same bits, read as a signed number. -/
def i128 : Durable (BitVec 128) :=
  scalar (fun v e => e.raw (to_le_bytes 16 v.toNat)) (fun d => do
    let (bytes, d) ← d.raw 16
    some (BitVec.ofNat 128 (from_le_bytes bytes), d))

def bool : Durable Bool :=
  scalar (fun v e => e.raw [if v then 1 else 0]) (fun d => do
    let (byte, d) ← d.byte
    if byte = 0 then some (false, d) else if byte = 1 then some (true, d) else none)

def unit : Durable Unit := scalar (fun _ e => .ok e) (fun d => some ((), d))

def STATIC_LABELS : List String :=
  ["anthropic", "openai", "provider-sha256:v1", "claude_desktop_original:v1",
    "codex_creator_header:v1", "conflict", "missing", "complete"]

/-- `&'static str`: the place of the label in the closed table. -/
def static_str : Durable String :=
  scalar
    (fun v e =>
      match STATIC_LABELS.findIdx? (fun label => label == v) with
      | none => .error .UnknownLabel
      | some index => e.varint (UInt64.ofNat index))
    (fun d => do
      let (index, d) ← d.varint
      let label ← STATIC_LABELS[index.toNat]?
      some (label, d))

/-! ## Text -/

def as_bytes (s : String) : List UInt8 := s.toByteArray.data.toList

def from_utf8 (bytes : List UInt8) : Option String := String.fromUTF8? ⟨bytes.toArray⟩

def string : Durable String where
  put v e := e.len_prefixed (as_bytes v)
  take d := do
    let (bytes, d) ← d.len_prefixed
    let text ← from_utf8 bytes
    some (text, d)
  verify d := do
    let (bytes, d) ← d.len_prefixed
    let _ ← from_utf8 bytes
    some d

/-- The bytes of an OS path. -/
structure PathBuf where
  bytes : List UInt8

/-- `put` always refuses: a path is never stored. -/
def path_buf : Durable PathBuf where
  put _ _ := .error (.NonEmpty "PathBuf")
  take d := (string.take d).map (fun r => (⟨as_bytes r.1⟩, r.2))
  verify := string.verify

/-! ## Sequences and products -/

def option (T : Durable α) : Durable (Option α) where
  put v e :=
    match v with
    | none => e.raw [0]
    | some value => do
      let e ← e.raw [1]
      T.put value e
  take d := do
    let (tag, d) ← d.byte
    if tag = 0 then some (none, d)
    else if tag = 1 then (T.take d).map (fun r => (some r.1, r.2))
    else none
  verify d := do
    let (tag, d) ← d.byte
    if tag = 0 then some d else if tag = 1 then T.verify d else none

/-- `Box<T>` -/
def boxed (T : Durable α) : Durable α where
  put := T.put
  take d := T.take d
  verify d := T.verify d

def put_items (put : α → Enc → Except Refuse Enc) : List α → Enc → Except Refuse Enc
  | [], e => .ok e
  | item :: items, e => do
    let e ← put item e
    put_items put items e

def put_seq (put : α → Enc → Except Refuse Enc) (items : List α) (e : Enc) : Except Refuse Enc := do
  let e ← e.varint (UInt64.ofNat items.length)
  put_items put items e

def take_items {a : List UInt8} (take : Dec a → Option (α × Dec a)) :
    Nat → Dec a → Option (List α × Dec a)
  | 0, d => some ([], d)
  | n + 1, d => do
    let (item, d) ← take d
    let (items, d) ← take_items take n d
    some (item :: items, d)

def take_seq {a : List UInt8} (take : Dec a → Option (α × Dec a)) (d : Dec a) :
    Option (List α × Dec a) := do
  let (len, d) ← d.take_len
  take_items take len d

def verify_items {a : List UInt8} (item : Dec a → Option (Dec a)) : Nat → Dec a → Option (Dec a)
  | 0, d => some d
  | n + 1, d => do
    let d ← item d
    verify_items item n d

def verify_seq {a : List UInt8} (item : Dec a → Option (Dec a)) (d : Dec a) : Option (Dec a) := do
  let (len, d) ← d.take_len
  verify_items item len d

def vec (T : Durable α) : Durable (List α) where
  put := put_seq T.put
  take d := take_seq T.take d
  verify d := verify_seq T.verify d

/-- Written as its items in order, read through the `Vec`. -/
def vec_deque (T : Durable α) : Durable (List α) where
  put := put_seq T.put
  take d := T.vec.take d
  verify d := T.vec.verify d

/-- The items; the heap sum beside them is not stored. -/
def owned_vec (T : Durable α) : Durable (List α) where
  put := put_seq T.put
  take d := T.vec.take d
  verify d := T.vec.verify d

/-- `Vec::try_into` for `[T; N]` -/
def try_into (n : Nat) (items : List α) : Option (Vector α n) :=
  if h : items.toArray.size = n then some ⟨items.toArray, h⟩ else none

/-- `[T; N]` -/
def array (T : Durable α) (n : Nat) : Durable (Vector α n) where
  put v e := put_items T.put v.toList e
  take d := do
    let (items, d) ← take_items T.take n d
    let items ← try_into n items
    some (items, d)
  verify d := verify_items T.verify n d

/-- A grown array's stored length: at most this build's `n`. -/
def grown_len {a : List UInt8} (n : Nat) (d : Dec a) : Option (Nat × Dec a) := do
  let (len, d) ← d.varint
  if len.toNat ≤ n then some (len.toNat, d) else none

/-- `resize_with` -/
def resize_with (n : Nat) (pad : α) (items : List α) : List α :=
  items.take n ++ List.replicate (n - items.length) pad

/-- `GrownArray`: the slots this build appended hold `pad`. -/
def grown (T : Durable α) (n : Nat) (pad : α) : Durable (Vector α n) where
  put v e := do
    let e ← e.varint (UInt64.ofNat n)
    put_items T.put v.toList e
  take d := do
    let (stored, d) ← grown_len n d
    let (items, d) ← take_items T.take stored d
    let items ← try_into n (resize_with n pad items)
    some (items, d)
  verify d := do
    let (stored, d) ← grown_len n d
    verify_items T.verify stored d

/-- `(A, B)` -/
def pair (A : Durable α) (B : Durable β) : Durable (α × β) where
  put v e := do
    let e ← A.put v.1 e
    B.put v.2 e
  take d := do
    let (x, d) ← A.take d
    let (y, d) ← B.take d
    some ((x, y), d)
  verify d := do
    let d ← A.verify d
    B.verify d

/-- `(A, B, C)` -/
def triple (A : Durable α) (B : Durable β) (C : Durable γ) : Durable (α × β × γ) where
  put v e := do
    let e ← A.put v.1 e
    let e ← B.put v.2.1 e
    C.put v.2.2 e
  take d := do
    let (x, d) ← A.take d
    let (y, d) ← B.take d
    let (z, d) ← C.take d
    some ((x, y, z), d)
  verify d := do
    let d ← A.verify d
    let d ← B.verify d
    C.verify d

end Durable

/-! ## Sets and maps -/

section entries

variable {α κ ν K : Type} {a : List UInt8}

def put_entries (key : κ → Enc → Except Refuse Enc) (value : ν → Enc → Except Refuse Enc) :
    List (κ × ν) → Enc → Except Refuse Enc
  | [], e => .ok e
  | (k, v) :: entries, e => do
    let e ← key k e
    let e ← value v e
    put_entries key value entries e

def put_map [LinearOrder κ] (key : κ → Enc → Except Refuse Enc)
    (value : ν → Enc → Except Refuse Enc) (m : SortedMap κ ν) (e : Enc) : Except Refuse Enc := do
  let e ← e.varint (UInt64.ofNat m.size)
  put_entries key value m.entries e

/-- An insert that finds the key already there is corrupt. -/
def take_entries [LinearOrder κ] (key : Dec a → Option (κ × Dec a))
    (value : Dec a → Option (ν × Dec a)) :
    Nat → SortedMap κ ν → Dec a → Option (SortedMap κ ν × Dec a)
  | 0, out, d => some (out, d)
  | n + 1, out, d => do
    let (k, d) ← key d
    let (v, d) ← value d
    if out.contains k then none else take_entries key value n (out.insert k v) d

def take_map [LinearOrder κ] (key : Dec a → Option (κ × Dec a))
    (value : Dec a → Option (ν × Dec a)) (d : Dec a) : Option (SortedMap κ ν × Dec a) := do
  let (len, d) ← d.take_len
  take_entries key value len SortedMap.empty d

/-- Re-walk `i` earlier entries: one that equals `current` is corrupt. -/
def rewalk [LinearOrder K] (key : Dec a → Option (K × Dec a)) (value : Dec a → Option (Dec a))
    (current : K) : Nat → Dec a → Option Unit
  | 0, _ => some ()
  | i + 1, earlier => do
    let (k, earlier) ← key earlier
    if k = current then none
    else
      let earlier ← value earlier
      rewalk key value current i earlier

/-- `p < &current`, when there is a previous key. -/
def rises [LinearOrder K] (previous : Option K) (current : K) : Bool :=
  match previous with
  | none => true
  | some p => decide (p < current)

/-- The loop with `left` entries to go, after `i` of them. -/
def verify_entries_loop [LinearOrder K] (key : Dec a → Option (K × Dec a))
    (value : Dec a → Option (Dec a)) (start : Dec a) :
    Nat → Nat → Option K → Bool → Dec a → Option (Dec a)
  | 0, _, _, _, d => some d
  | left + 1, i, previous, sorted, d => do
    let (current, d) ← key d
    let sorted := sorted && rises previous current
    let _ ← (if sorted then some () else rewalk key value current i start)
    let d ← value d
    verify_entries_loop key value start left (i + 1) (some current) sorted d

def verify_entries_bounded [LinearOrder K] (d : Dec a) (max : Nat)
    (key : Dec a → Option (K × Dec a)) (value : Dec a → Option (Dec a)) : Option (Dec a) := do
  let (len, d) ← d.take_len
  if len > max then none
  else verify_entries_loop key value d len 0 none true d

/-- `usize::MAX` -/
def usize_max : Nat := 2 ^ 64 - 1

def verify_entries [LinearOrder K] (d : Dec a) (key : Dec a → Option (K × Dec a))
    (value : Dec a → Option (Dec a)) : Option (Dec a) :=
  verify_entries_bounded d usize_max key value

namespace Durable

def btree_set [LinearOrder α] (T : DurableKey α) : Durable (BTreeSet α) where
  put v e := put_seq T.put v.keys e
  take d := take_map T.take (fun d => some ((), d)) d
  verify d := letI := T.order; verify_entries d T.key (fun d => some d)

def btree_map [LinearOrder κ] (K : DurableKey κ) (V : Durable ν) : Durable (SortedMap κ ν) where
  put := put_map K.put V.put
  take d := take_map K.take V.take d
  verify d := letI := K.order; verify_entries d K.key V.verify

/-- The tree inside an `OwnedMap`; the heap sum beside it is not stored. -/
def owned_map [LinearOrder κ] (K : DurableKey κ) (V : Durable ν) : Durable (SortedMap κ ν) where
  put := put_map K.put V.put
  take d := take_map K.take V.take d
  verify d := letI := K.order; verify_entries d K.key V.verify

end Durable

end entries

/-! ## Digests -/

namespace HDigest

open Durable

variable {α κ ν : Type}

/-- `[u8; 32]` -/
def digest32 : HDigest (Vector UInt8 32) where
  put_h v _ e := e.raw v.toList
  take_h d := do
    let (bytes, d) ← d.raw 32
    let digest ← try_into 32 bytes
    some (digest, d)
  verify_h d := (d.raw 32).map Prod.snd

def nibble (c : UInt8) : Option UInt8 :=
  if 48 ≤ c ∧ c ≤ 57 then some (c - 48)
  else if 97 ≤ c ∧ c ≤ 102 then some (c - 97 + 10)
  else none

/-- The bytes of pairs of lower-case hex digits. -/
def unhex : List UInt8 → Option (List UInt8)
  | c₁ :: c₂ :: text => do
    let high ← nibble c₁
    let low ← nibble c₂
    let bytes ← unhex text
    some (((high <<< 4) ||| low) :: bytes)
  | _ => some []

def HEX : List Char := "0123456789abcdef".toList

def hex (bytes : List UInt8) : String :=
  String.ofList (bytes.flatMap (fun byte : UInt8 =>
    [HEX.getD (byte >>> 4).toNat '0', HEX.getD (byte &&& 15).toNat '0']))

/-- `String`: exactly 64 lower-case hex digits, stored as their 32 bytes. -/
def hex64 : HDigest String where
  put_h v path e :=
    let text := as_bytes v
    if text.length ≠ 64 then .error (.NotDigest path)
    else
      match unhex text with
      | none => .error (.NotDigest path)
      | some bytes => e.raw bytes
  take_h d := do
    let (bytes, d) ← d.raw 32
    some (hex bytes, d)
  verify_h d := (d.raw 32).map Prod.snd

/-- The tag of an `H` option is a varint, not a raw byte. -/
def option (T : HDigest α) : HDigest (Option α) where
  put_h v path e :=
    match v with
    | none => e.varint 0
    | some value => do
      let e ← e.varint 1
      T.put_h value path e
  take_h d := do
    let (tag, d) ← d.varint
    if tag = 0 then some (none, d)
    else if tag = 1 then (T.take_h d).map (fun r => (some r.1, r.2))
    else none
  verify_h d := do
    let (tag, d) ← d.varint
    if tag = 0 then some d else if tag = 1 then T.verify_h d else none

def owned_vec (T : HDigest α) : HDigest (List α) where
  put_h v path e := put_seq (fun value e => T.put_h value path e) v e
  take_h d := take_seq T.take_h d
  verify_h d := verify_seq T.verify_h d

def btree_set [LinearOrder α] (T : HDigestKey α) : HDigest (BTreeSet α) where
  put_h v path e := put_seq (fun value e => T.put_h value path e) v.keys e
  take_h d := take_map T.take_h (fun d => some ((), d)) d
  verify_h d := letI := T.order; verify_entries d T.key_h (fun d => some d)

def verify_h_map {a : List UInt8} (K : HDigestKey κ) (V : Durable ν) (d : Dec a) (max : Nat) :
    Option (Dec a) :=
  letI := K.order
  verify_entries_bounded d max K.key_h V.verify

/-- H keys; the values keep their own field classes. -/
def btree_map [LinearOrder κ] (K : HDigestKey κ) (V : Durable ν) : HDigest (SortedMap κ ν) where
  put_h v path e := put_map (fun key e => K.put_h key path e) V.put v e
  take_h d := take_map K.take_h V.take d
  verify_h d := verify_h_map K V d usize_max

end HDigest

/-! ## Keys -/

abbrev u8_order : LinearOrder UInt8 := LinearOrder.lift' UInt8.toNat (fun _ _ => UInt8.toNat_inj.mp)

abbrev u16_order : LinearOrder UInt16 :=
  LinearOrder.lift' UInt16.toNat (fun _ _ => UInt16.toNat_inj.mp)

abbrev u32_order : LinearOrder UInt32 :=
  LinearOrder.lift' UInt32.toNat (fun _ _ => UInt32.toNat_inj.mp)

abbrev u64_order : LinearOrder UInt64 :=
  LinearOrder.lift' UInt64.toNat (fun _ _ => UInt64.toNat_inj.mp)

abbrev i32_order : LinearOrder Int32 := LinearOrder.lift' Int32.toInt (fun _ _ => Int32.toInt_inj.mp)

abbrev i64_order : LinearOrder Int64 := LinearOrder.lift' Int64.toInt (fun _ _ => Int64.toInt_inj.mp)

abbrev u128_order : LinearOrder (BitVec 128) :=
  LinearOrder.lift' BitVec.toNat (fun _ _ => BitVec.eq_of_toNat_eq)

abbrev i128_order : LinearOrder (BitVec 128) :=
  LinearOrder.lift' BitVec.toInt (fun _ _ => BitVec.eq_of_toInt_eq)

abbrev non_zero_order : LinearOrder { n : UInt64 // n ≠ 0 } :=
  LinearOrder.lift' (fun n => n.1.toNat) (fun _ _ h => Subtype.ext (UInt64.toNat_inj.mp h))

namespace DurableKey

variable {α β γ : Type}

/-- `scalar_keys!`: the view is the value. -/
def scalar (T : Durable α) (order : LinearOrder α) : DurableKey α :=
  { T with View := α, order := order, key := T.take }

def u8 : DurableKey UInt8 := scalar .u8 u8_order
def u16 : DurableKey UInt16 := scalar .u16 u16_order
def u32 : DurableKey UInt32 := scalar .u32 u32_order
def u64 : DurableKey UInt64 := scalar .u64 u64_order
def usize : DurableKey UInt64 := scalar .usize u64_order
def i32 : DurableKey Int32 := scalar .i32 i32_order
def i64 : DurableKey Int64 := scalar .i64 i64_order
def i128 : DurableKey (BitVec 128) := scalar .i128 i128_order
def u128 : DurableKey (BitVec 128) := scalar .u128 u128_order
def bool : DurableKey Bool := scalar .bool inferInstance
def unit : DurableKey Unit := scalar .unit inferInstance
def non_zero_u64 : DurableKey { n : UInt64 // n ≠ 0 } := scalar .non_zero_u64 non_zero_order
def static_str : DurableKey String := scalar .static_str inferInstance

/-- The view is the borrowed text; the order of its bytes is that of its characters. -/
def string : DurableKey String :=
  { Durable.string with
    View := String
    order := inferInstance
    key := fun d => do
      let (bytes, d) ← d.len_prefixed
      let text ← Durable.from_utf8 bytes
      some (text, d) }

/-- `None` comes before every `Some`. -/
def option (T : DurableKey α) : DurableKey (Option α) :=
  letI := T.order
  { T.toDurable.option with
    View := WithBot T.View
    order := inferInstance
    key := fun d => do
      let (tag, d) ← d.byte
      if tag = 0 then some (none, d)
      else if tag = 1 then (T.key d).map (fun r => (some r.1, r.2))
      else none }

def pair (A : DurableKey α) (B : DurableKey β) : DurableKey (α × β) :=
  letI := A.order
  letI := B.order
  { A.toDurable.pair B.toDurable with
    View := A.View ×ₗ B.View
    order := inferInstance
    key := fun d => do
      let (x, d) ← A.key d
      let (y, d) ← B.key d
      some (toLex (x, y), d) }

def triple (A : DurableKey α) (B : DurableKey β) (C : DurableKey γ) : DurableKey (α × β × γ) :=
  letI := A.order
  letI := B.order
  letI := C.order
  { A.toDurable.triple B.toDurable C.toDurable with
    View := A.View ×ₗ B.View ×ₗ C.View
    order := inferInstance
    key := fun d => do
      let (x, d) ← A.key d
      let (y, d) ← B.key d
      let (z, d) ← C.key d
      some (toLex (x, toLex (y, z)), d) }

end DurableKey

namespace HDigestKey

variable {α : Type}

/-- `digest_keys!`: the view is the borrowed 32 bytes. -/
def digest (T : HDigest α) : HDigestKey α :=
  letI := u8_order
  { T with
    View := List UInt8
    order := inferInstance
    key_h := fun d => d.raw 32 }

def hex64 : HDigestKey String := digest .hex64

def digest32 : HDigestKey (Vector UInt8 32) := digest .digest32

def option (T : HDigestKey α) : HDigestKey (Option α) :=
  letI := T.order
  { T.toHDigest.option with
    View := WithBot T.View
    order := inferInstance
    key_h := fun d => do
      let (tag, d) ← d.varint
      if tag = 0 then some (none, d)
      else if tag = 1 then (T.key_h d).map (fun r => (some r.1, r.2))
      else none }

end HDigestKey

/-! ## `durable_field!`

The classes `N`, `U`, `L`, `D` and `P` are the methods of the field's type. -/

namespace durable_field

variable {α : Type}

def H (T : HDigest α) (path : String) : Durable α where
  put v e := T.put_h v path e
  take d := T.take_h d
  verify d := T.verify_h d

/-- The classes `X` and `I`: never encoded, read as the default. -/
def skipped (default : α) : Durable α where
  put _ e := .ok e
  take d := some (default, d)
  verify d := some d

def E (T : DurableEmpty α) (path : String) : Durable α where
  put v e :=
    if !e.field_moved path && !T.durable_empty v then .error (.NonEmpty path) else .ok e
  take d := some (T.default, d)
  verify d := some d

/-- An `H` field of a key. -/
def key_H (T : HDigestKey α) (path : String) : DurableKey α :=
  { H T.toHDigest path with View := T.View, order := T.order, key := T.key_h }

end durable_field

/-! ## `durable_struct!` and `durable_enum!` -/

section macros

variable {α β γ : Type}

/-- `parts` destructures the value, and back is the struct literal; `fields`
are the methods of the fields one after the other. -/
def durable_struct (parts : α ≃ β) (fields : Durable β) : Durable α where
  put v e := fields.put (parts v) e
  take d := (fields.take d).map (fun r => (parts.symm r.1, r.2))
  verify d := fields.verify d

/-- `durable_struct!(key ..)`: the view is the tuple of the fields' views. -/
def durable_key_struct (parts : α ≃ β) (fields : DurableKey β) : DurableKey α :=
  { durable_struct parts fields.toDurable with
    View := fields.View
    order := fields.order
    key := fields.key }

/-- The arms of the three matches: on the value, and on the tag read. -/
structure Arms (α : Type) where
  put : α → Enc → Except Refuse Enc
  take : {a : List UInt8} → UInt64 → Dec a → Option (α × Dec a)
  verify : {a : List UInt8} → UInt64 → Dec a → Option (Dec a)

def no_arms : Arms Empty where
  put v _ := nomatch v
  take _ _ := none
  verify _ _ := none

/-- One variant before the others. A `decode_only` one is never written. -/
def arm (tag : UInt64) (decode_only : Bool) (body : Durable β) (rest : Arms γ) : Arms (β ⊕ γ) where
  put v e :=
    match v with
    | .inl v => do
      let e ← if decode_only then .error (.NonEmpty "retired enum variant") else e.varint tag
      body.put v e
    | .inr v => rest.put v e
  take read d :=
    if read = tag then (body.take d).map (fun r => (.inl r.1, r.2))
    else (rest.take read d).map (fun r => (.inr r.1, r.2))
  verify read d := if read = tag then body.verify d else rest.verify read d

def durable_enum (parts : α ≃ β) (arms : Arms β) : Durable α where
  put v e := arms.put (parts v) e
  take d := do
    let (tag, d) ← d.varint
    (arms.take tag d).map (fun r => (parts.symm r.1, r.2))
  verify d := do
    let (tag, d) ← d.varint
    arms.verify tag d

end macros

/-! ## The impls written by hand -/

section by_hand

variable {α : Type}

/-- `Retired<T>`, `RetiredStartingMarker` and `RetiredContextFlipPosition`:
written as the neutral value, decoded and dropped. -/
def retired (T : Durable α) (neutral : α) : Durable Unit where
  put _ e := T.put neutral e
  take d := (T.take d).map (fun r => ((), r.2))
  verify d := T.verify d

/-- A head that set the flag had dropped its markers and does not decode. -/
def retired_overflow : Durable Unit :=
  .scalar (fun _ e => Durable.bool.put false e) (fun d => do
    let (set, d) ← Durable.bool.take d
    if set then none else some ((), d))

def CLAUDE_ATTRIBUTION_SELECTOR_KEYS : List String :=
  ["attribution_subagent", "attribution_skill", "attribution_plugin", "attribution_mcp_server",
    "attribution_mcp_tool"]

/-- `BTreeMap<String, String>` -/
def string_map : Durable (SortedMap String String) := .btree_map .string .string

/-- The context and its sources; a context with an attribution key is refused. -/
def selector_capture : Durable (SortedMap String String × SortedMap String String) where
  put v e :=
    if v.1.keys.any (fun key => CLAUDE_ATTRIBUTION_SELECTOR_KEYS.contains key) then
      .error (.NonEmpty "SelectorCapture.context.attribution")
    else do
      let e ← string_map.put v.1 e
      string_map.put v.2 e
  take d := do
    let (context, d) ← string_map.take d
    let (sources, d) ← string_map.take d
    some ((context, sources), d)
  verify d := do
    let d ← string_map.verify d
    string_map.verify d

end by_hand

/-! ## Text and hex digits, both ways -/

namespace Durable

theorem as_bytes_injective {s t : String} (h : as_bytes s = as_bytes t) : s = t := by
  apply String.toByteArray_inj.mp
  apply ByteArray.ext
  exact Array.toList_inj.mp h

theorem from_utf8_as_bytes (s : String) : from_utf8 (as_bytes s) = some s := by
  unfold from_utf8 as_bytes String.fromUTF8?
  rw [dif_pos s.isValidUTF8]
  rfl

theorem as_bytes_ofList (cs : List Char) :
    as_bytes (String.ofList cs) = cs.flatMap String.utf8EncodeChar := by
  simp [as_bytes, List.utf8Encode]

end Durable

namespace HDigest

open Durable

/-- The byte of one lower-case hex digit. -/
def hex_byte (n : Nat) : UInt8 := UInt8.ofNat (HEX.getD n '0').toNat

theorem utf8_hex_digit : ∀ n < 16, String.utf8EncodeChar (HEX.getD n '0') = [hex_byte n] := by
  decide

theorem nibble_hex_byte : ∀ n < 16, nibble (hex_byte n) = some (UInt8.ofNat n) := by decide

theorem hex_byte_of_nibble : ∀ m < 256, (nibble (UInt8.ofNat m)).all
    (fun n => decide (n.toNat < 16 ∧ hex_byte n.toNat = UInt8.ofNat m)) = true := by
  decide +kernel

theorem joined_nibbles : ∀ high < 16, ∀ low < 16,
    ((UInt8.ofNat high <<< 4 ||| UInt8.ofNat low) >>> 4).toNat = high ∧
    ((UInt8.ofNat high <<< 4 ||| UInt8.ofNat low) &&& 15).toNat = low := by
  decide +kernel

theorem split_nibbles : ∀ m < 256,
    (UInt8.ofNat m >>> 4).toNat < 16 ∧ (UInt8.ofNat m &&& 15).toNat < 16 ∧
    (UInt8.ofNat m >>> 4) <<< 4 ||| (UInt8.ofNat m &&& 15) = UInt8.ofNat m := by
  decide +kernel

theorem split_byte (b : UInt8) :
    (b >>> 4).toNat < 16 ∧ (b &&& 15).toNat < 16 ∧ (b >>> 4) <<< 4 ||| (b &&& 15) = b := by
  have h := split_nibbles b.toNat b.toNat_lt
  rwa [UInt8.ofNat_toNat] at h

theorem as_bytes_hex (bytes : List UInt8) :
    as_bytes (hex bytes) =
      bytes.flatMap (fun b : UInt8 => [hex_byte (b >>> 4).toNat, hex_byte (b &&& 15).toNat]) := by
  unfold hex
  rw [as_bytes_ofList, List.flatMap_assoc]
  congr 1
  funext b
  obtain ⟨hhigh, hlow, -⟩ := split_byte b
  simp only [List.flatMap_cons, List.flatMap_nil, utf8_hex_digit _ hhigh, utf8_hex_digit _ hlow]
  rfl

theorem unhex_hex (bytes : List UInt8) : unhex (as_bytes (hex bytes)) = some bytes := by
  rw [as_bytes_hex]
  induction bytes with
  | nil => rfl
  | cons b bytes ih =>
    obtain ⟨hhigh, hlow, hjoin⟩ := split_byte b
    rw [List.flatMap_cons, List.cons_append, List.cons_append, List.nil_append, unhex]
    simp only [nibble_hex_byte _ hhigh, nibble_hex_byte _ hlow, ih, UInt8.ofNat_toNat,
      bind_eq_bind, bind_some, hjoin]

theorem hex_injective {b c : List UInt8} (h : hex b = hex c) : b = c := by
  have hb := unhex_hex b
  rw [h, unhex_hex c] at hb
  exact (Option.some.inj hb).symm

theorem nibble_some {c n : UInt8} (h : nibble c = some n) :
    n.toNat < 16 ∧ hex_byte n.toNat = c := by
  have hall := hex_byte_of_nibble c.toNat c.toNat_lt
  rw [UInt8.ofNat_toNat, h] at hall
  exact of_decide_eq_true hall

/-- Digits in pairs are the text of the bytes read from them. -/
theorem hex_unhex : ∀ (text bytes : List UInt8), text.length % 2 = 0 → unhex text = some bytes →
    as_bytes (hex bytes) = text ∧ text.length = 2 * bytes.length
  | [], bytes, _, h => by
    cases h
    exact ⟨rfl, rfl⟩
  | [_], _, heven, _ => by simp at heven
  | c₁ :: c₂ :: text, bytes, heven, h => by
    simp only [unhex, bind_eq_bind, bind_eq_some_iff] at h
    obtain ⟨high, hhigh, low, hlow, rest, hrest, heq⟩ := h
    cases heq
    have hlength : text.length % 2 = 0 := by
      simp only [List.length_cons] at heven
      omega
    obtain ⟨htext, hcount⟩ := hex_unhex text rest hlength hrest
    obtain ⟨hh, hc₁⟩ := nibble_some hhigh
    obtain ⟨hl, hc₂⟩ := nibble_some hlow
    obtain ⟨hupper, hlower⟩ := joined_nibbles _ hh _ hl
    simp only [UInt8.ofNat_toNat] at hupper hlower
    rw [as_bytes_hex] at htext ⊢
    constructor
    · rw [List.flatMap_cons, htext, hupper, hlower, hc₁, hc₂]
      rfl
    · simp only [List.length_cons]
      omega

end HDigest

end ottto_service.durable_tail_codec
