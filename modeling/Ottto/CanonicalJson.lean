-- Canonical JSON (canonical_json.rs): the one serialization that content
-- identities are computed over. Its bytes stand for the value they were written
-- from, and for no other.
import Ottto.JsonReader

namespace serde_json

def Number.as_u64 : Number → Option UInt64
  | .PosInt n => some n
  | _ => none

def Number.as_i64 : Number → Option Int64
  | .PosInt n => if n.toNat < 2 ^ 63 then some (Int64.ofNat n.toNat) else none
  | .NegInt n => some n
  | .Float _ => none

end serde_json

namespace ottto_service.canonical_json

open serde_json List

/-! ## The writer -/

inductive CanonicalJsonError where
  | NonIntegerNumber (pointer : String)
deriving DecidableEq, Repr

def utf8 (text : List Char) : List UInt8 := text.flatMap String.utf8EncodeChar

/-- The code units of UTF-16: one below U+10000, else a pair of surrogates. -/
def utf16Char (c : Char) : List Nat :=
  let n := c.toNat
  if n < 0x10000 then [n]
  else [0xD800 + (n - 0x10000) / 0x400, 0xDC00 + (n - 0x10000) % 0x400]

def encode_utf16 (text : String) : List Nat := text.toList.flatMap utf16Char

def sort_by_key {α : Type} (members : List (String × α)) : List (String × α) :=
  members.insertionSort (fun a b => encode_utf16 a.1 ≤ encode_utf16 b.1)

/-- `\u` with four hexadecimal digits. -/
def lower_hex_04 (n : Nat) : List Char :=
  List.replicate (4 - (Nat.toDigits 16 n).length) '0' ++ Nat.toDigits 16 n

/-- What stands for a character between the quotes. -/
def escape_char (character : Char) : List Char :=
  if character = '"' then ['\\', '"']
  else if character = '\\' then ['\\', '\\']
  else if character = '\x08' then ['\\', 'b']
  else if character = '\t' then ['\\', 't']
  else if character = '\n' then ['\\', 'n']
  else if character = '\x0c' then ['\\', 'f']
  else if character = '\r' then ['\\', 'r']
  else if character.toNat < 0x20 then ['\\', 'u'] ++ lower_hex_04 character.toNat
  else [character]

def write_string (text : String) (out : List UInt8) : List UInt8 :=
  text.toList.foldl (fun out character => out ++ utf8 (escape_char character)) (out ++ [0x22])
    ++ [0x22]

def replace (found : Char) (put : List Char) (text : List Char) : List Char :=
  text.flatMap (fun c => if c = found then put else [c])

def escape_pointer_token (token : String) : String :=
  String.ofList (replace '/' ['~', '1'] (replace '~' ['~', '0'] token.toList))

/-- The rest of a write: where it is in the value, and the bytes so far. A
pointer is cut back after each use, so a write hands its own one down. -/
abbrev Writer := String → List UInt8 → Except CanonicalJsonError (List UInt8)

def write_number (number : Number) : Writer := fun pointer out =>
  match number.as_u64 with
  | some unsigned => .ok (out ++ utf8 (toString unsigned.toNat).toList)
  | none =>
    match number.as_i64 with
    | some signed => .ok (out ++ utf8 (toString signed.toInt).toList)
    | none => .error (.NonIntegerNumber (if pointer = "" then "/" else pointer))

/-- The loop over the sorted keys, each with the write of its member. -/
def write_members : Nat → List (String × Writer) → Writer
  | _, [], _, out => .ok out
  | index, (key, write) :: rest, pointer, out => do
    let out := if index > 0 then out ++ [0x2c] else out
    let out := write_string key out ++ [0x3a]
    let out ← write (pointer ++ "/" ++ escape_pointer_token key) out
    write_members (index + 1) rest pointer out

mutual

def write_value : Value → Writer
  | .null, _, out => .ok (out ++ utf8 "null".toList)
  | .bool true, _, out => .ok (out ++ utf8 "true".toList)
  | .bool false, _, out => .ok (out ++ utf8 "false".toList)
  | .number number, pointer, out => write_number number pointer out
  | .string text, _, out => .ok (write_string text out)
  | .array items, pointer, out => do
    let out ← write_items 0 items pointer (out ++ [0x5b])
    .ok (out ++ [0x5d])
  | .object members, pointer, out => do
    let out ← write_members 0 (sort_by_key (member_writers members)) pointer (out ++ [0x7b])
    .ok (out ++ [0x7d])

def write_items : Nat → List Value → Writer
  | _, [], _, out => .ok out
  | index, item :: rest, pointer, out => do
    let out := if index > 0 then out ++ [0x2c] else out
    let out ← write_value item (pointer ++ "/" ++ toString index) out
    write_items (index + 1) rest pointer out

/-- `members[key]`, for every key. -/
def member_writers : List (String × Value) → List (String × Writer)
  | [] => []
  | (key, value) :: rest => (key, write_value value) :: member_writers rest

end

def canonicalize (value : Value) : Except CanonicalJsonError (List UInt8) :=
  write_value value "" []

example :
    (canonicalize (.object [("\uE000", .number (.PosInt 2)), ("a", .array [.null, .string "\t"])])
      ).toOption = some (utf8 "\x7b\"a\":[null,\"\\t\"],\"\uE000\":2\x7d".toList) := by
  decide +kernel

/-! ## The value that is written -/

/-- A number in the shape it is read back in. -/
def normalNumber (n : Number) : Number :=
  match n.integer with
  | some (.ofNat n) => .PosInt (UInt64.ofNat n)
  | some (.negSucc n) => .NegInt (Int64.ofInt (.negSucc n))
  | none => n

mutual

/-- The value with its members in the order they are written in. -/
def normal : Value → Value
  | .number n => .number (normalNumber n)
  | .array items => .array (normalItems items)
  | .object members => .object (sort_by_key (normalMembers members))
  | v => v

def normalItems : List Value → List Value
  | [] => []
  | item :: rest => normal item :: normalItems rest

def normalMembers : List (String × Value) → List (String × Value)
  | [] => []
  | (key, value) :: rest => (key, normal value) :: normalMembers rest

end

theorem normalItems_eq (items : List Value) : normalItems items = items.map normal := by
  induction items with
  | nil => rfl
  | cons item rest ih => simp [normalItems, ih]

theorem normalMembers_eq (members : List (String × Value)) :
    normalMembers members = members.map (Prod.map id normal) := by
  induction members with
  | nil => rfl
  | cons m rest ih => simp [normalMembers, ih, Prod.map]

theorem member_writers_eq (members : List (String × Value)) :
    member_writers members = members.map (Prod.map id write_value) := by
  induction members with
  | nil => rfl
  | cons m rest ih => simp [member_writers, ih, Prod.map]

def integerText (n : Number) : List Char :=
  match n.integer with
  | some i => (toString i).toList
  | none => []

def quoted (text : String) : List Char := '"' :: text.toList.flatMap escape_char ++ ['"']

/-- The texts with a comma before each but the first. -/
def joined : List (List Char) → List Char
  | [] => []
  | first :: rest => first ++ rest.flatMap (fun text => ',' :: text)

mutual

/-- The text of a value, its members in the order they are stored in. -/
def plain : Value → List Char
  | .null => "null".toList
  | .bool true => "true".toList
  | .bool false => "false".toList
  | .number n => integerText n
  | .string text => quoted text
  | .array items => '[' :: joined (plainItems items) ++ [']']
  | .object members => '\x7b' :: joined (plainMembers members) ++ ['\x7d']

def plainItems : List Value → List (List Char)
  | [] => []
  | item :: rest => plain item :: plainItems rest

def plainMembers : List (String × Value) → List (List Char)
  | [] => []
  | (key, value) :: rest => (quoted key ++ ':' :: plain value) :: plainMembers rest

end

/-! ## Keys -/

theorem utf16Char_split {c d : Char} {x y : List Nat}
    (h : utf16Char c ++ x = utf16Char d ++ y) : c = d ∧ x = y := by
  have hc : c.toNat < 0xD800 ∨ (0xDFFF < c.toNat ∧ c.toNat < 0x110000) := c.valid
  have hd : d.toNat < 0xD800 ∨ (0xDFFF < d.toNat ∧ d.toNat < 0x110000) := d.valid
  suffices hsame : c.toNat = d.toNat ∧ x = y from ⟨Char.toNat_inj.mp hsame.1, hsame.2⟩
  unfold utf16Char at h
  by_cases hone : c.toNat < 0x10000 <;> by_cases hother : d.toNat < 0x10000
  · simpa [hone, hother] using h
  -- a lone unit is no surrogate
  · simp only [hone, hother, if_true, if_false, cons_append, List.cons.injEq] at h
    omega
  · simp only [hone, hother, if_true, if_false, cons_append, List.cons.injEq] at h
    omega
  · simp only [hone, hother, if_false, cons_append, nil_append, List.cons.injEq] at h
    exact ⟨by omega, h.2.2⟩

theorem encode_utf16_injective {s t : String} (h : encode_utf16 s = encode_utf16 t) : s = t := by
  suffices hlist : ∀ l l' : List Char, l.flatMap utf16Char = l'.flatMap utf16Char → l = l' from
    String.toList_inj.mp (hlist _ _ h)
  have hne : ∀ c, utf16Char c ≠ [] := by
    intro c
    by_cases h : c.toNat < 0x10000 <;> simp [utf16Char, h]
  intro l
  induction l with
  | nil =>
    intro l' h
    cases l' with
    | nil => rfl
    | cons d l' =>
      rw [flatMap_cons, flatMap_nil, eq_comm, append_eq_nil_iff] at h
      exact absurd h.1 (hne d)
  | cons c l ih =>
    intro l' h
    cases l' with
    | nil =>
      rw [flatMap_cons, flatMap_nil, append_eq_nil_iff] at h
      exact absurd h.1 (hne c)
    | cons d l' =>
      obtain ⟨rfl, hrest⟩ := utf16Char_split h
      rw [ih l' hrest]

section Sorting

variable {α β : Type}

theorem sort_by_key_perm (members : List (String × α)) : (sort_by_key members).Perm members :=
  perm_insertionSort _ _

theorem sort_by_key_map (f : α → β) (members : List (String × α)) :
    sort_by_key (members.map (Prod.map id f)) = (sort_by_key members).map (Prod.map id f) := by
  unfold sort_by_key
  rw [map_insertionSort _ (fun a b => encode_utf16 a.1 ≤ encode_utf16 b.1)]
  intro a _ b _
  rfl

theorem sort_by_key_sorted (members : List (String × α)) :
    (sort_by_key members).Pairwise (fun a b => encode_utf16 a.1 ≤ encode_utf16 b.1) := by
  have htotal : Std.Total (fun a b : String × α => encode_utf16 a.1 ≤ encode_utf16 b.1) :=
    ⟨fun a b => le_total _ _⟩
  have htrans : IsTrans (String × α) (fun a b => encode_utf16 a.1 ≤ encode_utf16 b.1) :=
    ⟨fun a b c => le_trans⟩
  exact pairwise_insertionSort _ _

/-- The members of a map come out in one order, whatever order they are stored in. -/
theorem sort_by_key_eq_of_perm {members others : List (String × α)}
    (honce : (members.map Prod.fst).Nodup) (h : members.Perm others) :
    sort_by_key members = sort_by_key others := by
  have hperm : (sort_by_key members).Perm (sort_by_key others) :=
    (sort_by_key_perm members).trans (h.trans (sort_by_key_perm others).symm)
  refine List.Perm.eq_of_pairwise ?_ (sort_by_key_sorted members) (sort_by_key_sorted others) hperm
  intro a b ha hb hab hba
  have hkey : a.1 = b.1 := encode_utf16_injective (le_antisymm hab hba)
  have ha' := (sort_by_key_perm members).mem_iff.mp ha
  have hb' := h.mem_iff.mpr ((sort_by_key_perm others).mem_iff.mp hb)
  exact inj_on_of_nodup_map honce ha' hb' hkey

theorem sort_by_key_once {members : List (String × α)} (honce : (members.map Prod.fst).Nodup) :
    ((sort_by_key members).map Prod.fst).Nodup :=
  ((sort_by_key_perm members).map Prod.fst).nodup_iff.mpr honce

end Sorting

theorem normalMembers_keys (members : List (String × Value)) :
    (normalMembers members).map Prod.fst = members.map Prod.fst := by
  rw [normalMembers_eq, map_map]
  rfl

/-- The members of the written object. -/
theorem normal_object (members : List (String × Value)) :
    normal (.object members) = .object ((sort_by_key members).map (Prod.map id normal)) := by
  rw [normal, normalMembers_eq, sort_by_key_map]

theorem normal_array (items : List Value) :
    normal (.array items) = .array (items.map normal) := by
  rw [normal, normalItems_eq]

/-! ## What a write adds -/

/-- `w` is a part of `v`. -/
inductive Reaches : Value → Value → Prop
  | here (v : Value) : Reaches v v
  | item {items : List Value} {v w : Value} (h : v ∈ items) (hw : Reaches v w) :
      Reaches (.array items) w
  | member {members : List (String × Value)} {m : String × Value} {w : Value} (h : m ∈ members)
      (hw : Reaches m.2 w) : Reaches (.object members) w

/-- A number that fits `u64` or `i64`. -/
def IsInteger (n : Number) : Prop := n.as_u64.isSome ∨ n.as_i64.isSome

def IntegersOnly (v : Value) : Prop := ∀ n, Reaches v (.number n) → IsInteger n

theorem integersOnly_number (n : Number) : IntegersOnly (.number n) ↔ IsInteger n := by
  constructor
  · intro h
    exact h n (.here _)
  · intro h m hm
    cases hm
    exact h

theorem integersOnly_array (items : List Value) :
    IntegersOnly (.array items) ↔ ∀ v ∈ items, IntegersOnly v := by
  constructor
  · intro h v hv n hn
    exact h n (.item hv hn)
  · intro h n hn
    cases hn with
    | item hv hw => exact h _ hv n hw

theorem integersOnly_object (members : List (String × Value)) :
    IntegersOnly (.object members) ↔ ∀ m ∈ members, IntegersOnly m.2 := by
  constructor
  · intro h m hm n hn
    exact h n (.member hm hn)
  · intro h n hn
    cases hn with
    | member hm hw => exact h _ hm n hw

theorem utf8_append (text other : List Char) : utf8 (text ++ other) = utf8 text ++ utf8 other :=
  flatMap_append

theorem utf8_cons (c : Char) (text : List Char) :
    utf8 (c :: text) = String.utf8EncodeChar c ++ utf8 text := rfl

theorem write_string_eq (text : String) (out : List UInt8) :
    write_string text out = out ++ utf8 (quoted text) := by
  have hloop : ∀ (cs : List Char) (out : List UInt8),
      cs.foldl (fun out character => out ++ utf8 (escape_char character)) out =
        out ++ utf8 (cs.flatMap escape_char) := by
    intro cs
    induction cs with
    | nil => simp [utf8]
    | cons c cs ih =>
      intro out
      rw [foldl_cons, ih, flatMap_cons, utf8_append, append_assoc]
  have hquote : utf8 ['"'] = [0x22] := by decide
  unfold write_string quoted
  rw [hloop, utf8_append, utf8_cons, hquote, ← append_assoc, ← append_assoc]
  rfl

/-- The write adds `text`, wherever it is. -/
def Writes (write : Writer) (text : List Char) : Prop :=
  ∀ pointer out, write pointer out = .ok (out ++ utf8 text)

/-- The write fails, wherever it is. -/
def Fails (write : Writer) : Prop := ∀ pointer out, ∃ e, write pointer out = .error e

/-- What is written before an item at `index`. -/
def separated (index : Nat) (texts : List (List Char)) : List Char :=
  if index > 0 then texts.flatMap (fun text => ',' :: text) else joined texts

theorem separated_cons (index : Nat) (text : List Char) (texts : List (List Char))
    (out : List UInt8) :
    out ++ utf8 (separated index (text :: texts)) =
      (if index > 0 then out ++ [0x2c] else out) ++ utf8 text ++
        utf8 (separated (index + 1) texts) := by
  have hcomma : utf8 [','] = [0x2c] := by decide
  by_cases h : index > 0
  · simp only [separated, if_pos h, if_pos (Nat.succ_pos index), flatMap_cons]
    rw [cons_append, ← singleton_append, utf8_append, utf8_append, hcomma]
    simp only [append_assoc]
  · simp only [separated, if_neg h, if_pos (Nat.succ_pos index), joined, utf8_append,
      append_assoc]

theorem write_items_writes (items : List Value)
    (h : ∀ v ∈ items, Writes (write_value v) (plain (normal v))) (index : Nat) :
    Writes (write_items index items) (separated index (plainItems (items.map normal))) := by
  intro pointer out
  induction items generalizing index out with
  | nil => by_cases hindex : index > 0 <;> simp [write_items, separated, plainItems, joined, utf8]
  | cons item rest ih =>
    have hitem := h item mem_cons_self
    have hrest := ih (fun v hv => h v (mem_cons_of_mem _ hv)) (index + 1)
    rw [map_cons, plainItems, separated_cons]
    simp only [write_items]
    rw [hitem]
    exact hrest _

theorem write_members_writes (members : List (String × Value))
    (h : ∀ m ∈ members, Writes (write_value m.2) (plain (normal m.2))) (index : Nat) :
    Writes (write_members index (members.map (Prod.map id write_value)))
      (separated index (plainMembers (members.map (Prod.map id normal)))) := by
  intro pointer out
  have hcolon : utf8 [':'] = [0x3a] := by decide
  induction members generalizing index out with
  | nil =>
    by_cases hindex : index > 0 <;> simp [write_members, separated, plainMembers, joined, utf8]
  | cons m rest ih =>
    obtain ⟨key, value⟩ := m
    have hvalue := h (key, value) mem_cons_self
    have hrest := ih (fun m hm => h m (mem_cons_of_mem _ hm)) (index + 1)
    rw [map_cons, map_cons]
    simp only [Prod.map, id, plainMembers, write_members]
    rw [separated_cons, write_string_eq, hvalue, ← singleton_append (l := plain _),
      utf8_append, utf8_append, hcolon]
    have hnext := hrest
      ((if index > 0 then out ++ [0x2c] else out) ++ utf8 (quoted key) ++ [0x3a] ++
        utf8 (plain (normal value)))
    simp only [append_assoc] at hnext ⊢
    exact hnext

theorem write_items_fails (items : List Value)
    (h : ∀ v ∈ items, Writes (write_value v) (plain (normal v)) ∨ Fails (write_value v))
    (hfails : ∃ v ∈ items, Fails (write_value v)) (index : Nat) :
    Fails (write_items index items) := by
  intro pointer out
  induction items generalizing index out with
  | nil => simp at hfails
  | cons item rest ih =>
    simp only [write_items]
    rcases h item mem_cons_self with hitem | hitem
    · rw [hitem]
      apply ih (fun v hv => h v (mem_cons_of_mem _ hv))
      obtain ⟨v, hv, hfail⟩ := hfails
      rcases mem_cons.mp hv with rfl | hv
      · obtain ⟨e, he⟩ := hfail "" []
        rw [hitem] at he
        cases he
      · exact ⟨v, hv, hfail⟩
    · obtain ⟨e, he⟩ := hitem (pointer ++ "/" ++ toString index)
        (if index > 0 then out ++ [0x2c] else out)
      rw [he]
      exact ⟨e, rfl⟩

theorem write_members_fails (members : List (String × Value))
    (h : ∀ m ∈ members, Writes (write_value m.2) (plain (normal m.2)) ∨ Fails (write_value m.2))
    (hfails : ∃ m ∈ members, Fails (write_value m.2)) (index : Nat) :
    Fails (write_members index (members.map (Prod.map id write_value))) := by
  intro pointer out
  induction members generalizing index out with
  | nil => simp at hfails
  | cons m rest ih =>
    obtain ⟨key, value⟩ := m
    rw [map_cons]
    simp only [Prod.map, id, write_members]
    rcases h (key, value) mem_cons_self with hvalue | hvalue
    · rw [hvalue]
      apply ih (fun m hm => h m (mem_cons_of_mem _ hm))
      obtain ⟨m, hm, hfail⟩ := hfails
      rcases mem_cons.mp hm with rfl | hm
      · obtain ⟨e, he⟩ := hfail "" []
        rw [hvalue] at he
        cases he
      · exact ⟨m, hm, hfail⟩
    · obtain ⟨e, he⟩ := hvalue (pointer ++ "/" ++ escape_pointer_token key)
        (write_string key (if index > 0 then out ++ [0x2c] else out) ++ [0x3a])
      rw [he]
      exact ⟨e, rfl⟩

theorem write_number_writes {n : Number} (h : IsInteger n) :
    Writes (write_number n) (integerText n) := by
  intro pointer out
  cases n with
  | PosInt n => rfl
  | NegInt n => rfl
  | Float bits => simp [IsInteger, Number.as_u64, Number.as_i64] at h

theorem write_number_fails {n : Number} (h : ¬ IsInteger n) : Fails (write_number n) := by
  intro pointer out
  cases n with
  | PosInt n => simp [IsInteger, Number.as_u64] at h
  | NegInt n => simp [IsInteger, Number.as_i64] at h
  | Float bits => exact ⟨_, rfl⟩

theorem integer_normalNumber (n : Number) : (normalNumber n).integer = n.integer := by
  cases n with
  | PosInt n => simp [normalNumber, Number.integer]
  | NegInt n =>
    unfold normalNumber
    simp only [Number.integer]
    cases hn : n.toInt with
    | ofNat m =>
      have hlt : n.toInt < 2 ^ 63 := n.toInt_lt
      rw [hn, Int.ofNat_eq_natCast] at hlt
      simp only [UInt64.toNat_ofNat']
      rw [Nat.mod_eq_of_lt (by omega)]
      rfl
    | negSucc m =>
      have hle : -2 ^ 63 ≤ n.toInt := n.le_toInt
      simp only
      rw [← hn, Int64.ofInt_toInt]
  | Float bits => rfl

theorem integerText_normalNumber (n : Number) : integerText (normalNumber n) = integerText n := by
  unfold integerText
  rw [integer_normalNumber]

/-- Induction on the value: a write adds the text of the value when every
number in it is an integer, and fails when one is not. -/
theorem write_value_spec (v : Value) :
    (IntegersOnly v → Writes (write_value v) (plain (normal v))) ∧
      (¬ IntegersOnly v → Fails (write_value v)) := by
  induction v using Value.induct with
  | null => exact ⟨fun _ _ _ => rfl, fun h => absurd (by rintro n ⟨⟩) h⟩
  | bool b => cases b <;> exact ⟨fun _ _ _ => rfl, fun h => absurd (by rintro n ⟨⟩) h⟩
  | number n =>
    rw [integersOnly_number]
    refine ⟨?_, fun h pointer out => write_number_fails h pointer out⟩
    intro h pointer out
    rw [normal, plain, integerText_normalNumber]
    exact write_number_writes h pointer out
  | string text =>
    refine ⟨?_, fun h => absurd (by rintro n ⟨⟩) h⟩
    intro _ pointer out
    exact congrArg Except.ok (write_string_eq text out)
  | array items ih =>
    have heach : ∀ v ∈ items, Writes (write_value v) (plain (normal v)) ∨ Fails (write_value v) :=
      fun v hv => (em (IntegersOnly v)).imp (ih v hv).1 (ih v hv).2
    rw [integersOnly_array]
    constructor
    · intro h pointer out
      have hwrite := write_items_writes items (fun v hv => (ih v hv).1 (h v hv)) 0 pointer
        (out ++ [0x5b])
      simp only [write_value]
      have hclose : utf8 [']'] = [0x5d] := by decide
      have hopen : String.utf8EncodeChar '[' = [0x5b] := by decide
      rw [hwrite, normal_array, plain, utf8_append, utf8_cons, hopen, hclose, ← append_assoc,
        ← append_assoc]
      rfl
    · intro h pointer out
      push Not at h
      obtain ⟨v, hv, hnot⟩ := h
      obtain ⟨e, he⟩ := write_items_fails items heach ⟨v, hv, (ih v hv).2 hnot⟩ 0 pointer
        (out ++ [0x5b])
      refine ⟨e, ?_⟩
      simp only [write_value]
      rw [he]
      rfl
  | object members ih =>
    have hmem : ∀ m, m ∈ sort_by_key members ↔ m ∈ members :=
      fun m => (sort_by_key_perm members).mem_iff
    have heach : ∀ m ∈ sort_by_key members,
        Writes (write_value m.2) (plain (normal m.2)) ∨ Fails (write_value m.2) :=
      fun m hm => (em (IntegersOnly m.2)).imp (ih m ((hmem m).mp hm)).1 (ih m ((hmem m).mp hm)).2
    rw [integersOnly_object]
    constructor
    · intro h pointer out
      have hwrite := write_members_writes (sort_by_key members)
        (fun m hm => (ih m ((hmem m).mp hm)).1 (h m ((hmem m).mp hm))) 0 pointer (out ++ [0x7b])
      simp only [write_value]
      have hclose : utf8 ['\x7d'] = [0x7d] := by decide
      have hopen : String.utf8EncodeChar '\x7b' = [0x7b] := by decide
      rw [member_writers_eq, sort_by_key_map, hwrite, normal_object, plain, utf8_append, utf8_cons,
        hopen, hclose, ← append_assoc, ← append_assoc]
      rfl
    · intro h pointer out
      push Not at h
      obtain ⟨m, hm, hnot⟩ := h
      obtain ⟨e, he⟩ := write_members_fails (sort_by_key members) heach
        ⟨m, (hmem m).mpr hm, (ih m hm).2 hnot⟩ 0 pointer (out ++ [0x7b])
      refine ⟨e, ?_⟩
      simp only [write_value]
      rw [member_writers_eq, sort_by_key_map, he]
      rfl

theorem canonicalize_ok_iff (v : Value) (bytes : List UInt8) :
    canonicalize v = .ok bytes ↔ IntegersOnly v ∧ bytes = utf8 (plain (normal v)) := by
  unfold canonicalize
  by_cases h : IntegersOnly v
  · rw [(write_value_spec v).1 h, nil_append]
    simp [h, eq_comm]
  · obtain ⟨e, he⟩ := (write_value_spec v).2 h "" []
    rw [he]
    simp [h]

end ottto_service.canonical_json
