-- The types that the durable-tail codec reads and writes, built up as the
-- source builds them: which `impl` each one resolves to, what a record keeps
-- of a value, and where a length is checked against the bytes left.
import Ottto.TailCodec

namespace ottto_service.durable_tail_codec

/-! ## The type language -/

/-- The types with an `HDigestKey`. -/
inductive HKeyTy : Type → Type 1
  | hex64 : HKeyTy String
  | digest32 : HKeyTy (Vector UInt8 32)
  | option {α : Type} (t : HKeyTy α) : HKeyTy (Option α)

/-- The classes whose fields are encoded by their own type. -/
inductive StoredClass where
  | N | U | L | D | P
deriving DecidableEq, Repr

-- `X`, `E` and `I` fields do not compile in a key, and no array is one.
mutual

/-- The types with a `DurableKey`. -/
inductive KeyTy : Type → Type 1
  | u8 : KeyTy UInt8
  | u16 : KeyTy UInt16
  | u32 : KeyTy UInt32
  | u64 : KeyTy UInt64
  | usize : KeyTy UInt64
  | i32 : KeyTy Int32
  | i64 : KeyTy Int64
  | i128 : KeyTy (BitVec 128)
  | u128 : KeyTy (BitVec 128)
  | bool : KeyTy Bool
  | unit : KeyTy Unit
  | non_zero_u64 : KeyTy { n : UInt64 // n ≠ 0 }
  | static_str : KeyTy String
  | string : KeyTy String
  | option {α : Type} (t : KeyTy α) : KeyTy (Option α)
  | pair {α β : Type} (t : KeyTy α) (u : KeyTy β) : KeyTy (α × β)
  | triple {α β γ : Type} (t : KeyTy α) (u : KeyTy β) (w : KeyTy γ) : KeyTy (α × β × γ)
  | durable_struct {α β : Type} (name : String) (parts : α ≃ β) (fields : KeyFields β) : KeyTy α

/-- The fields of a key, by class and name. -/
inductive KeyFields : Type → Type 1
  | nil : KeyFields Unit
  | stored {α β : Type} (c : StoredClass) (f : String) (t : KeyTy α) (rest : KeyFields β) :
      KeyFields (α × β)
  | H {α β : Type} (f : String) (t : HKeyTy α) (rest : KeyFields β) : KeyFields (α × β)

end

mutual

/-- The types with a `Durable`. `order` is the `Ord` of a set's or map's keys. -/
inductive Ty : Type → Type 1
  | key {α : Type} (t : KeyTy α) : Ty α
  | path_buf : Ty Durable.PathBuf
  | option {α : Type} (t : Ty α) : Ty (Option α)
  | boxed {α : Type} (t : Ty α) : Ty α
  | vec {α : Type} (t : Ty α) : Ty (List α)
  | vec_deque {α : Type} (t : Ty α) : Ty (List α)
  | owned_vec {α : Type} (t : Ty α) : Ty (List α)
  | array {α : Type} (t : Ty α) (n : Nat) : Ty (Vector α n)
  | btree_set {α : Type} (order : LinearOrder α) (t : KeyTy α) : Ty (BTreeSet α)
  | btree_map {κ ν : Type} (order : LinearOrder κ) (k : KeyTy κ) (v : Ty ν) : Ty (SortedMap κ ν)
  | owned_map {κ ν : Type} (order : LinearOrder κ) (k : KeyTy κ) (v : Ty ν) : Ty (SortedMap κ ν)
  | pair {α β : Type} (t : Ty α) (u : Ty β) : Ty (α × β)
  | triple {α β γ : Type} (t : Ty α) (u : Ty β) (w : Ty γ) : Ty (α × β × γ)
  | durable_struct {α β : Type} (name : String) (parts : α ≃ β) (fields : Fields β) : Ty α
  | durable_enum {α β : Type} {tags : List UInt64} (name : String) (parts : α ≃ β)
      (variants : Variants tags β) : Ty α
  | retired {α : Type} (t : Ty α) (neutral : α) : Ty Unit
  | retired_overflow : Ty Unit
  | selector_capture : Ty (SortedMap String String × SortedMap String String)

/-- The types with an `HDigest`. -/
inductive HTy : Type → Type 1
  | key {α : Type} (t : HKeyTy α) : HTy α
  | option {α : Type} (t : HTy α) : HTy (Option α)
  | owned_vec {α : Type} (t : HTy α) : HTy (List α)
  | btree_set {α : Type} (order : LinearOrder α) (t : HKeyTy α) : HTy (BTreeSet α)
  | btree_map {κ ν : Type} (order : LinearOrder κ) (k : HKeyTy κ) (v : Ty ν) : HTy (SortedMap κ ν)

/-- The fields of a struct or of a variant, by class and name. An array has a
`usize` length. -/
inductive Fields : Type → Type 1
  | nil : Fields Unit
  | stored {α β : Type} (c : StoredClass) (f : String) (t : Ty α) (rest : Fields β) :
      Fields (α × β)
  | H {α β : Type} (f : String) (t : HTy α) (rest : Fields β) : Fields (α × β)
  | G {α β : Type} (f : String) (t : Ty α) (n : Nat) (fits : n < 2 ^ 64) (default : α)
      (rest : Fields β) : Fields (Vector α n × β)
  | X {α β : Type} (f : String) (default : α) (rest : Fields β) : Fields (α × β)
  | E {α β : Type} (f : String) (t : DurableEmpty α) (rest : Fields β) : Fields (α × β)
  | I {α β : Type} (f : String) (default : α) (rest : Fields β) : Fields (α × β)

/-- The variants of an enum with their tags, which are never reused. -/
inductive Variants : List UInt64 → Type → Type 1
  | nil : Variants [] Empty
  | cons {β γ : Type} {tags : List UInt64} (tag : UInt64) (v : String) (decode_only : Bool)
      (fields : Fields β) (rest : Variants tags γ) (fresh : tag ∉ tags) :
      Variants (tag :: tags) (β ⊕ γ)

end

/-! ## The methods of each type -/

def HKeyTy.key : {α : Type} → HKeyTy α → HDigestKey α
  | _, .hex64 => .hex64
  | _, .digest32 => .digest32
  | _, .option t => t.key.option

mutual

def KeyTy.key : {α : Type} → KeyTy α → DurableKey α
  | _, .u8 => .u8
  | _, .u16 => .u16
  | _, .u32 => .u32
  | _, .u64 => .u64
  | _, .usize => .usize
  | _, .i32 => .i32
  | _, .i64 => .i64
  | _, .i128 => .i128
  | _, .u128 => .u128
  | _, .bool => .bool
  | _, .unit => .unit
  | _, .non_zero_u64 => .non_zero_u64
  | _, .static_str => .static_str
  | _, .string => .string
  | _, .option t => t.key.option
  | _, .pair t u => t.key.pair u.key
  | _, .triple t u w => t.key.triple u.key w.key
  | _, .durable_struct name parts fields => durable_key_struct parts (fields.key name)

def KeyFields.key : {α : Type} → KeyFields α → String → DurableKey α
  | _, .nil, _ => .unit
  | _, .stored _ _ t rest, name => t.key.pair (rest.key name)
  | _, .H f t rest, name => (durable_field.key_H t.key (name ++ "." ++ f)).pair (rest.key name)

end

mutual

def Ty.durable : {α : Type} → Ty α → Durable α
  | _, .key t => t.key.toDurable
  | _, .path_buf => .path_buf
  | _, .option t => t.durable.option
  | _, .boxed t => t.durable.boxed
  | _, .vec t => t.durable.vec
  | _, .vec_deque t => t.durable.vec_deque
  | _, .owned_vec t => t.durable.owned_vec
  | _, .array t n => t.durable.array n
  | _, .btree_set _ t => .btree_set t.key
  | _, .btree_map _ k v => .btree_map k.key v.durable
  | _, .owned_map _ k v => .owned_map k.key v.durable
  | _, .pair t u => t.durable.pair u.durable
  | _, .triple t u w => t.durable.triple u.durable w.durable
  | _, .durable_struct name parts fields =>
    durable_tail_codec.durable_struct parts (fields.durable name)
  | _, .durable_enum name parts variants =>
    durable_tail_codec.durable_enum parts (variants.arms name)
  | _, .retired t neutral => durable_tail_codec.retired t.durable neutral
  | _, .retired_overflow => durable_tail_codec.retired_overflow
  | _, .selector_capture => durable_tail_codec.selector_capture

def HTy.digest : {α : Type} → HTy α → HDigest α
  | _, .key t => t.key.toHDigest
  | _, .option t => t.digest.option
  | _, .owned_vec t => t.digest.owned_vec
  | _, .btree_set _ t => .btree_set t.key
  | _, .btree_map _ k v => .btree_map k.key v.durable

/-- The path of a field names its type, and in an enum its variant. -/
def Fields.durable : {α : Type} → Fields α → String → Durable α
  | _, .nil, _ => .unit
  | _, .stored _ _ t rest, name => t.durable.pair (rest.durable name)
  | _, .H f t rest, name => (durable_field.H t.digest (name ++ "." ++ f)).pair (rest.durable name)
  | _, .G _ t n _ default rest, name => (t.durable.grown n default).pair (rest.durable name)
  | _, .X _ default rest, name => (durable_field.skipped default).pair (rest.durable name)
  | _, .E f t rest, name => (durable_field.E t (name ++ "." ++ f)).pair (rest.durable name)
  | _, .I _ default rest, name => (durable_field.skipped default).pair (rest.durable name)

def Variants.arms : {tags : List UInt64} → {α : Type} → Variants tags α → String → Arms α
  | _, _, .nil, _ => no_arms
  | _, _, .cons tag v decode_only fields rest _, name =>
    arm tag decode_only (fields.durable (name ++ "::" ++ v)) (rest.arms name)

end

/-! ## What a record keeps of a value -/

mutual

/-- The value with every `X`, `E` and `I` field in it replaced by the default. -/
def Ty.kept : {α : Type} → Ty α → α → α
  | _, .key _, v => v
  | _, .path_buf, v => v
  | _, .option t, v => v.map t.kept
  | _, .boxed t, v => t.kept v
  | _, .vec t, v => v.map t.kept
  | _, .vec_deque t, v => v.map t.kept
  | _, .owned_vec t, v => v.map t.kept
  | _, .array t _, v => v.map t.kept
  | _, .btree_set _ _, v => v
  | _, .btree_map _ _ t, v => v.mapValues t.kept
  | _, .owned_map _ _ t, v => v.mapValues t.kept
  | _, .pair t u, v => (t.kept v.1, u.kept v.2)
  | _, .triple t u w, v => (t.kept v.1, u.kept v.2.1, w.kept v.2.2)
  | _, .durable_struct _ parts fields, v => parts.symm (fields.kept (parts v))
  | _, .durable_enum _ parts variants, v => parts.symm (variants.kept (parts v))
  | _, .retired _ _, v => v
  | _, .retired_overflow, v => v
  | _, .selector_capture, v => v

def HTy.kept : {α : Type} → HTy α → α → α
  | _, .key _, v => v
  | _, .option t, v => v.map t.kept
  | _, .owned_vec t, v => v.map t.kept
  | _, .btree_set _ _, v => v
  | _, .btree_map _ _ t, v => v.mapValues t.kept

def Fields.kept : {α : Type} → Fields α → α → α
  | _, .nil, v => v
  | _, .stored _ _ t rest, v => (t.kept v.1, rest.kept v.2)
  | _, .H _ t rest, v => (t.kept v.1, rest.kept v.2)
  | _, .G _ t _ _ _ rest, v => (v.1.map t.kept, rest.kept v.2)
  | _, .X _ default rest, v => (default, rest.kept v.2)
  | _, .E _ t rest, v => (t.default, rest.kept v.2)
  | _, .I _ default rest, v => (default, rest.kept v.2)

def Variants.kept : {tags : List UInt64} → {α : Type} → Variants tags α → α → α
  | _, _, .nil, v => v
  | _, _, .cons _ _ _ fields rest _, v => v.map fields.kept rest.kept

end

/-! ## Elements that write at least one byte -/

/-- Every value that is written takes at least one byte. -/
def WritesAByte {α : Type} (put : α → Enc → Except Refuse Enc) : Prop :=
  ∀ v e e', put v e = .ok e' → e.len < e'.len

mutual

/-- Every element of a sequence, set or map inside the type writes a byte. -/
def Ty.ElementsWrite : {α : Type} → Ty α → Prop
  | _, .key _ => True
  | _, .path_buf => True
  | _, .option t => t.ElementsWrite
  | _, .boxed t => t.ElementsWrite
  | _, .vec t => WritesAByte t.durable.put ∧ t.ElementsWrite
  | _, .vec_deque t => WritesAByte t.durable.put ∧ t.ElementsWrite
  | _, .owned_vec t => WritesAByte t.durable.put ∧ t.ElementsWrite
  | _, .array t _ => t.ElementsWrite
  | _, .btree_set _ t => WritesAByte t.key.put
  | _, .btree_map _ k v => WritesAByte (k.key.toDurable.pair v.durable).put ∧ v.ElementsWrite
  | _, .owned_map _ k v => WritesAByte (k.key.toDurable.pair v.durable).put ∧ v.ElementsWrite
  | _, .pair t u => t.ElementsWrite ∧ u.ElementsWrite
  | _, .triple t u w => t.ElementsWrite ∧ u.ElementsWrite ∧ w.ElementsWrite
  | _, .durable_struct _ _ fields => fields.ElementsWrite
  | _, .durable_enum _ _ variants => variants.ElementsWrite
  | _, .retired t _ => t.ElementsWrite
  | _, .retired_overflow => True
  | _, .selector_capture => True

def HTy.ElementsWrite : {α : Type} → HTy α → Prop
  | _, .key _ => True
  | _, .option t => t.ElementsWrite
  | _, .owned_vec t => (∀ path, WritesAByte (durable_field.H t.digest path).put) ∧ t.ElementsWrite
  | _, .btree_set _ t => ∀ path, WritesAByte (durable_field.H t.key.toHDigest path).put
  | _, .btree_map _ k v =>
    (∀ path, WritesAByte ((durable_field.H k.key.toHDigest path).pair v.durable).put) ∧
      v.ElementsWrite

def Fields.ElementsWrite : {α : Type} → Fields α → Prop
  | _, .nil => True
  | _, .stored _ _ t rest => t.ElementsWrite ∧ rest.ElementsWrite
  | _, .H _ t rest => t.ElementsWrite ∧ rest.ElementsWrite
  | _, .G _ t _ _ _ rest => t.ElementsWrite ∧ rest.ElementsWrite
  | _, .X _ _ rest => rest.ElementsWrite
  | _, .E _ _ rest => rest.ElementsWrite
  | _, .I _ _ rest => rest.ElementsWrite

def Variants.ElementsWrite : {tags : List UInt64} → {α : Type} → Variants tags α → Prop
  | _, _, .nil => True
  | _, _, .cons _ _ _ fields rest _ => fields.ElementsWrite ∧ rest.ElementsWrite

end

end ottto_service.durable_tail_codec
