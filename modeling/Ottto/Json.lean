-- The JSON value of a transcript line, as `serde_json::Value` reads it, and
-- the trimmed readers at a key path (scan/json_fields.rs).
import Mathlib.Tactic

namespace serde_json

/-- A number keeps the shape it was read in. A float is held by its bits:
no rule here reads one. -/
inductive Number
  | PosInt (n : UInt64)
  | NegInt (n : Int64)
  | Float (bits : UInt64)
deriving DecidableEq

inductive Value
  | null
  | bool (b : Bool)
  | number (n : Number)
  | string (s : String)
  | array (items : List Value)
  | object (members : List (String × Value))

namespace Value

instance : Inhabited Value := ⟨.null⟩

/-- A `Map` holds each key once, so the first member of a key is the member. -/
def get (value : Value) (key : String) : Option Value :=
  match value with
  | .object members => (members.find? (fun m => m.1 == key)).map Prod.snd
  | _ => none

def as_str (value : Value) : Option String :=
  match value with
  | .string s => some s
  | _ => none

def as_u64 (value : Value) : Option UInt64 :=
  match value with
  | .number (.PosInt n) => some n
  | _ => none

def is_null (value : Value) : Bool :=
  match value with
  | .null => true
  | _ => false

/-- `pointer` with the parts of the path. No path of the program names the
slot of an array. -/
def pointer (value : Value) : List String → Option Value
  | [] => some value
  | key :: rest => (value.get key).bind (fun v => v.pointer rest)

end Value

end serde_json

namespace ottto_service.json_fields

open serde_json

/-- The Unicode `White_Space` property, which `str::trim` reads. -/
def is_whitespace (c : Char) : Bool :=
  let n := c.toNat
  (9 ≤ n && n ≤ 13) || n == 0x20 || n == 0x85 || n == 0xA0 || n == 0x1680 ||
    (0x2000 ≤ n && n ≤ 0x200A) || n == 0x2028 || n == 0x2029 || n == 0x202F || n == 0x205F ||
    n == 0x3000

def trim (s : String) : String :=
  String.ofList ((s.toList.dropWhile is_whitespace).reverse.dropWhile is_whitespace).reverse

def string_at (value : Value) (path : List String) : Option String :=
  match value.pointer path with
  | some (.string s) => if trim s ≠ "" then some (trim s) else none
  | _ => none

def string_eq_at (value : Value) (path : List String) (expected : String) : Bool :=
  match string_at value path with
  | some s => s == expected
  | none => false

example : string_at (.object [("type", .string " task ")]) ["type"] = some "task" := by decide

end ottto_service.json_fields
