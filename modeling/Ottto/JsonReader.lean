-- The JSON grammar (RFC 8259) as a reader of `serde_json::Value`: the text is
-- UTF-8, strings are read with all their escapes, an object is a map.
import Ottto.Json

namespace serde_json

/-! ## Values as trees -/

/-- Structural induction with the items and the members as lists. -/
theorem Value.induct {P : Value → Prop} (null : P .null) (bool : ∀ b, P (.bool b))
    (number : ∀ n, P (.number n)) (string : ∀ s, P (.string s))
    (array : ∀ items, (∀ v ∈ items, P v) → P (.array items))
    (object : ∀ members, (∀ m ∈ members, P m.2) → P (.object members)) (v : Value) : P v := by
  -- the nested lists and pairs of the recursor: every item, every member
  refine @Value.rec P (fun items => ∀ v ∈ items, P v) (fun members => ∀ m ∈ members, P m.2)
    (fun m => P m.2) null bool number string array object ?_ ?_ ?_ ?_ (fun _ _ h => h) v
  · simp
  · intro item items hitem hitems
    exact List.forall_mem_cons.mpr ⟨hitem, hitems⟩
  · simp
  · intro m members hm hmembers
    exact List.forall_mem_cons.mpr ⟨hm, hmembers⟩

/-- The integer a number holds; a float holds none. -/
def Number.integer : Number → Option Int
  | .PosInt n => some n.toNat
  | .NegInt n => some n.toInt
  | .Float _ => none

/-- Two numbers are equal by value, whatever shape they are stored in. -/
def Number.same (a b : Number) : Bool :=
  match a.integer, b.integer with
  | some x, some y => x == y
  | none, none => a == b
  | _, _ => false

mutual

/-- Equality of JSON values: arrays item by item, objects as maps. -/
def Value.same : Value → Value → Bool
  | .null, .null => true
  | .bool a, .bool b => a == b
  | .number a, .number b => a.same b
  | .string a, .string b => a == b
  | .array items, .array others => Value.sameItems items others
  | .object members, .object others =>
    members.length == others.length && Value.sameMembers members others
  | _, _ => false

def Value.sameItems : List Value → List Value → Bool
  | [], [] => true
  | item :: items, other :: others => item.same other && Value.sameItems items others
  | _, _ => false

/-- Every member is there under its key, with an equal value. -/
def Value.sameMembers : List (String × Value) → List (String × Value) → Bool
  | [], _ => true
  | (key, value) :: members, others =>
    (match (Value.object others).get key with
    | some other => value.same other
    | none => false) && Value.sameMembers members others

end

mutual

/-- Equality of two values as they are stored. -/
def Value.identical : Value → Value → Bool
  | .null, .null => true
  | .bool a, .bool b => a == b
  | .number a, .number b => a == b
  | .string a, .string b => a == b
  | .array items, .array others => Value.identicalItems items others
  | .object members, .object others => Value.identicalMembers members others
  | _, _ => false

def Value.identicalItems : List Value → List Value → Bool
  | [], [] => true
  | item :: items, other :: others => item.identical other && Value.identicalItems items others
  | _, _ => false

def Value.identicalMembers : List (String × Value) → List (String × Value) → Bool
  | [], [] => true
  | (key, value) :: members, (key', value') :: others =>
    key == key' && (value.identical value' && Value.identicalMembers members others)
  | _, _ => false

end

theorem Value.identicalItems_iff {items others : List Value}
    (h : ∀ v ∈ items, ∀ w, v.identical w = true ↔ v = w) :
    Value.identicalItems items others = true ↔ items = others := by
  induction items generalizing others with
  | nil => cases others <;> simp [Value.identicalItems]
  | cons item items ih =>
    obtain ⟨hitem, hitems⟩ := List.forall_mem_cons.mp h
    cases others with
    | nil => simp [Value.identicalItems]
    | cons other others => simp [Value.identicalItems, hitem, ih hitems]

theorem Value.identicalMembers_iff {members others : List (String × Value)}
    (h : ∀ m ∈ members, ∀ w, m.2.identical w = true ↔ m.2 = w) :
    Value.identicalMembers members others = true ↔ members = others := by
  induction members generalizing others with
  | nil => cases others <;> simp [Value.identicalMembers]
  | cons m members ih =>
    obtain ⟨hm, hmembers⟩ := List.forall_mem_cons.mp h
    cases others with
    | nil => simp [Value.identicalMembers]
    | cons other others =>
      simp [Value.identicalMembers, hm, ih hmembers, Prod.ext_iff, and_assoc]

theorem Value.identical_iff (v w : Value) : v.identical w = true ↔ v = w := by
  induction v using Value.induct generalizing w with
  | null => cases w <;> simp [Value.identical]
  | bool b => cases w <;> simp [Value.identical]
  | number n => cases w <;> simp [Value.identical]
  | string s => cases w <;> simp [Value.identical]
  | array items ih => cases w <;> simp [Value.identical, Value.identicalItems_iff ih]
  | object members ih => cases w <;> simp [Value.identical, Value.identicalMembers_iff ih]

instance : DecidableEq Value := fun v w => decidable_of_iff _ (v.identical_iff w)
/-- Each object holds each of its keys once. -/
inductive Value.KeysOnce : Value → Prop
  | null : KeysOnce .null
  | bool (b : Bool) : KeysOnce (.bool b)
  | number (n : Number) : KeysOnce (.number n)
  | string (s : String) : KeysOnce (.string s)
  | array (items : List Value) (h : ∀ v ∈ items, KeysOnce v) : KeysOnce (.array items)
  | object (members : List (String × Value)) (once : (members.map Prod.fst).Nodup)
      (h : ∀ m ∈ members, KeysOnce m.2) : KeysOnce (.object members)

/-- A value as the program can hold it: its objects are maps. -/
structure Tree where
  value : Value
  keys_once : value.KeysOnce

/-! ## The reader -/

namespace Reader

def isSpace (c : Char) : Bool := c == ' ' || c == '\t' || c == '\n' || c == '\r'

def skip (text : List Char) : List Char := text.dropWhile isSpace

def hexDigit (c : Char) : Option Nat :=
  if '0' ≤ c ∧ c ≤ '9' then some (c.toNat - 48)
  else if 'a' ≤ c ∧ c ≤ 'f' then some (c.toNat - 87)
  else if 'A' ≤ c ∧ c ≤ 'F' then some (c.toNat - 55)
  else none

def hex4 : List Char → Option (Nat × List Char)
  | a :: b :: c :: d :: rest => do
    let a ← hexDigit a
    let b ← hexDigit b
    let c ← hexDigit c
    let d ← hexDigit d
    some (((a * 16 + b) * 16 + c) * 16 + d, rest)
  | _ => none

/-- The code point after `\u`; a pair of surrogates is one code point, and a
surrogate without its pair is refused. -/
def readUnicode (text : List Char) : Option (Char × List Char) := do
  let (n, rest) ← hex4 text
  if 0xD800 ≤ n ∧ n < 0xDC00 then
    match rest with
    | '\\' :: 'u' :: rest =>
      let (low, rest) ← hex4 rest
      if 0xDC00 ≤ low ∧ low < 0xE000 then
        some (Char.ofNat (0x10000 + (n - 0xD800) * 0x400 + (low - 0xDC00)), rest)
      else none
    | _ => none
  else if 0xDC00 ≤ n ∧ n < 0xE000 then none
  else some (Char.ofNat n, rest)

def readEscape : List Char → Option (Char × List Char)
  | '"' :: rest => some ('"', rest)
  | '\\' :: rest => some ('\\', rest)
  | '/' :: rest => some ('/', rest)
  | 'b' :: rest => some ('\x08', rest)
  | 'f' :: rest => some ('\x0c', rest)
  | 'n' :: rest => some ('\n', rest)
  | 'r' :: rest => some ('\r', rest)
  | 't' :: rest => some ('\t', rest)
  | 'u' :: rest => readUnicode rest
  | _ => none

/-- The characters up to the closing quote. -/
def readString : Nat → List Char → Option (List Char × List Char)
  | 0, _ => none
  | _ + 1, [] => none
  | fuel + 1, c :: rest =>
    if c = '"' then some ([], rest)
    else if c = '\\' then do
      let (c, rest) ← readEscape rest
      let (cs, rest) ← readString fuel rest
      some (c :: cs, rest)
    else if c.toNat < 0x20 then none
    else do
      let (cs, rest) ← readString fuel rest
      some (c :: cs, rest)

/-- A part of a number that starts after `.` or an exponent sign: one digit at
least. -/
def readDigits (text : List Char) : Option (List Char × List Char) :=
  match text.span Char.isDigit with
  | ([], _) => none
  | found => some found

/-- No leading zero stands before another digit. -/
def readInteger (text : List Char) : Option (List Char × List Char) := do
  let (digits, rest) ← readDigits text
  if digits.head? = some '0' ∧ digits.length > 1 then none else some (digits, rest)

def readFraction : List Char → Option (List Char × List Char)
  | '.' :: rest => (readDigits rest).map (fun (digits, rest) => ('.' :: digits, rest))
  | text => some ([], text)

def readExponent (text : List Char) : Option (List Char × List Char) :=
  match text with
  | [] => some ([], [])
  | e :: rest =>
    if e = 'e' ∨ e = 'E' then
      match rest with
      | [] => none
      | sign :: after =>
        if sign = '+' ∨ sign = '-' then
          (readDigits after).map (fun (digits, rest) => (e :: sign :: digits, rest))
        else (readDigits rest).map (fun (digits, rest) => (e :: digits, rest))
    else some ([], text)

/-- A literal without fraction or exponent is an integer where it fits one; any
other is the float that `float` reads. -/
def number (float : List Char → Option UInt64) (negative : Bool) (digits part : List Char) :
    Option Number :=
  let n := Nat.ofDigitChars 10 digits 0
  let literal := (if negative then ['-'] else []) ++ digits ++ part
  if part ≠ [] then (float literal).map .Float
  else if negative then
    if 0 < n ∧ n ≤ 2 ^ 63 then some (.NegInt (Int64.ofInt (-n)))
    else (float literal).map .Float
  else if n < 2 ^ 64 then some (.PosInt (UInt64.ofNat n))
  else (float literal).map .Float

def readNumber (float : List Char → Option UInt64) (text : List Char) :
    Option (Value × List Char) := do
  let (negative, text) := match text with
    | '-' :: rest => (true, rest)
    | _ => (false, text)
  let (digits, text) ← readInteger text
  let (fraction, text) ← readFraction text
  let (exponent, text) ← readExponent text
  let n ← number float negative digits (fraction ++ exponent)
  some (.number n, text)

def readLiteral (literal : List Char) (value : Value) (text : List Char) :
    Option (Value × List Char) :=
  if literal.isPrefixOf text then some (value, text.drop literal.length) else none

/-- A member read later takes the place of one with its key. -/
def insertMember (members : List (String × Value)) (m : String × Value) :
    List (String × Value) :=
  members.filter (fun other => other.1 ≠ m.1) ++ [m]

mutual

def readValue (float : List Char → Option UInt64) : Nat → List Char → Option (Value × List Char)
  | 0, _ => none
  | _ + 1, [] => none
  | fuel + 1, c :: rest =>
    if c = 'n' then readLiteral "null".toList .null (c :: rest)
    else if c = 't' then readLiteral "true".toList (.bool true) (c :: rest)
    else if c = 'f' then readLiteral "false".toList (.bool false) (c :: rest)
    else if c = '"' then do
      let (cs, rest) ← readString (rest.length + 1) rest
      some (.string (String.ofList cs), rest)
    else if c = '[' then
      match skip rest with
      | ']' :: rest => some (.array [], rest)
      | text => do
        let (items, rest) ← readItems float fuel text
        some (.array items, rest)
    else if c = '\x7b' then
      match skip rest with
      | '\x7d' :: rest => some (.object [], rest)
      | text => do
        let (members, rest) ← readMembers float fuel text
        some (.object (members.foldl insertMember []), rest)
    else readNumber float (c :: rest)

/-- One item at least, and what follows the closing bracket. -/
def readItems (float : List Char → Option UInt64) :
    Nat → List Char → Option (List Value × List Char)
  | 0, _ => none
  | fuel + 1, text => do
    let (item, rest) ← readValue float fuel (skip text)
    match skip rest with
    | ',' :: rest => do
      let (items, rest) ← readItems float fuel rest
      some (item :: items, rest)
    | ']' :: rest => some ([item], rest)
    | _ => none

def readMembers (float : List Char → Option UInt64) :
    Nat → List Char → Option (List (String × Value) × List Char)
  | 0, _ => none
  | fuel + 1, text => do
    match skip text with
    | '"' :: rest => do
      let (key, rest) ← readString (rest.length + 1) rest
      match skip rest with
      | ':' :: rest => do
        let (value, rest) ← readValue float fuel (skip rest)
        match skip rest with
        | ',' :: rest => do
          let (members, rest) ← readMembers float fuel rest
          some ((String.ofList key, value) :: members, rest)
        | '\x7d' :: rest => some ([(String.ofList key, value)], rest)
        | _ => none
      | _ => none
    | _ => none

end

def readText (float : List Char → Option UInt64) (text : List Char) : Option Value := do
  let (value, rest) ← readValue float (text.length + 1) (skip text)
  if skip rest = [] then some value else none

/-- Each call reads a character or more before it calls again, so the length of
the text bounds the depth. -/
def read (float : List Char → Option UInt64) (bytes : List UInt8) : Option Value :=
  (String.fromUTF8? ⟨bytes.toArray⟩).bind (fun text => readText float text.toList)

end Reader

end serde_json
