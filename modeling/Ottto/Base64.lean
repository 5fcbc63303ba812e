-- Base64: three bytes as four symbols, and a shorter end as two or three. First
-- the URL-safe alphabet without padding, then the standard one with it. Nothing
-- here is about one program.
import Mathlib.Tactic

namespace UrlSafe

open Option

abbrev Bytes : Type := List UInt8

/-- The 64 symbols, in the order of their values. -/
def alphabet : List Char :=
  "ABCDEFGHIJKLMNOPQRSTUVWXYZabcdefghijklmnopqrstuvwxyz0123456789-_".toList

def symbol (n : Nat) : Char := alphabet.getD n 'A'

def value (c : Char) : Option Nat := alphabet.findIdx? (fun s => s = c)

theorem value_symbol {n : Nat} (h : n < 64) : value (symbol n) = some n := by
  have hall : ∀ n : Fin 64, value (symbol n) = some n.val := by decide +kernel
  exact hall ⟨n, h⟩

def encode : Bytes → List Char
  | [] => []
  | [a] => [symbol (a.toNat / 4), symbol (a.toNat % 4 * 16)]
  | [a, b] => [symbol (a.toNat / 4), symbol (a.toNat % 4 * 16 + b.toNat / 16),
      symbol (b.toNat % 16 * 4)]
  | a :: b :: c :: rest =>
    symbol (a.toNat / 4) :: symbol (a.toNat % 4 * 16 + b.toNat / 16) ::
      symbol (b.toNat % 16 * 4 + c.toNat / 64) :: symbol (c.toNat % 64) :: encode rest

/-- The bits after the last byte are zero. -/
def decode : List Char → Option Bytes
  | [] => some []
  | [_] => none
  | [x, y] => do
    let x ← value x
    let y ← value y
    if y % 16 = 0 then some [UInt8.ofNat (x * 4 + y / 16)] else none
  | [x, y, z] => do
    let x ← value x
    let y ← value y
    let z ← value z
    if z % 4 = 0 then some [UInt8.ofNat (x * 4 + y / 16), UInt8.ofNat (y % 16 * 16 + z / 4)] else none
  | x :: y :: z :: w :: rest => do
    let x ← value x
    let y ← value y
    let z ← value z
    let w ← value w
    let rest ← decode rest
    some (UInt8.ofNat (x * 4 + y / 16) :: UInt8.ofNat (y % 16 * 16 + z / 4) ::
      UInt8.ofNat (z % 4 * 64 + w) :: rest)

/-- A byte is the number that its bits make. -/
theorem byte_eq {a : UInt8} {n : Nat} (h : n = a.toNat) : UInt8.ofNat n = a := by
  rw [h]
  exact UInt8.ofNat_toNat

theorem decode_encode (bytes : Bytes) : decode (encode bytes) = some bytes := by
  induction bytes using encode.induct with
  | case1 => rfl
  | case2 a =>
    have ha := a.toNat_lt
    simp only [encode, decode]
    rw [value_symbol (by omega), value_symbol (by omega)]
    simp only [bind_eq_bind, bind_some]
    rw [if_pos (by omega), byte_eq (a := a) (by omega)]
  | case3 a b =>
    have ha := a.toNat_lt
    have hb := b.toNat_lt
    simp only [encode, decode]
    rw [value_symbol (by omega), value_symbol (by omega), value_symbol (by omega)]
    simp only [bind_eq_bind, bind_some]
    rw [if_pos (by omega), byte_eq (a := a) (by omega), byte_eq (a := b) (by omega)]
  | case4 a b c rest ih =>
    have ha := a.toNat_lt
    have hb := b.toNat_lt
    have hc := c.toNat_lt
    simp only [encode, decode, ih]
    rw [value_symbol (by omega), value_symbol (by omega), value_symbol (by omega),
      value_symbol (by omega)]
    simp only [bind_eq_bind, bind_some]
    rw [byte_eq (a := a) (by omega), byte_eq (a := b) (by omega), byte_eq (a := c) (by omega)]

end UrlSafe

/-! ## The standard alphabet -/

namespace StandardBase64

open List
open UrlSafe (Bytes alphabet symbol value)

/-- The two symbols that the alphabets do not share. -/
def to_standard (c : Char) : Char :=
  if c = '-' then '+' else if c = '_' then '/' else c

def from_standard (c : Char) : Option Char :=
  if c = '+' then some '-'
  else if c = '/' then some '_'
  else if c = '-' ∨ c = '_' then none
  else some c

/-- What fills the last four symbols. -/
def padding (length : Nat) : List Char := List.replicate ((4 - length % 4) % 4) '='

def encode (bytes : Bytes) : List Char :=
  let text := (UrlSafe.encode bytes).map to_standard
  text ++ padding text.length

/-- The padding is read only where it is the one that `encode` writes. -/
def decode (text : List Char) : Option Bytes :=
  let body := text.takeWhile (· ≠ '=')
  if text = body ++ padding body.length then (body.mapM from_standard).bind UrlSafe.decode else none

theorem symbol_mem (n : Nat) : symbol n ∈ alphabet := by
  unfold symbol
  rw [getD_eq_getElem?_getD]
  cases h : alphabet[n]? with
  | none => decide
  | some c => exact mem_of_getElem? h

theorem encode_mem {bytes : Bytes} : ∀ c ∈ UrlSafe.encode bytes, c ∈ alphabet := by
  induction bytes using UrlSafe.encode.induct with
  | case1 => simp [UrlSafe.encode]
  | case2 a => simp [UrlSafe.encode, symbol_mem]
  | case3 a b => simp [UrlSafe.encode, symbol_mem]
  | case4 a b c rest ih =>
    simp only [UrlSafe.encode, mem_cons, forall_eq_or_imp]
    exact ⟨symbol_mem _, symbol_mem _, symbol_mem _, symbol_mem _, ih⟩

theorem encode_length (bytes : Bytes) : (UrlSafe.encode bytes).length = (bytes.length * 4 + 2) / 3 := by
  induction bytes using UrlSafe.encode.induct with
  | case1 => rfl
  | case2 a => simp [UrlSafe.encode]
  | case3 a b => simp [UrlSafe.encode]
  | case4 a b c rest ih =>
    simp only [UrlSafe.encode, length_cons, ih]
    omega

theorem from_to_standard : ∀ c ∈ alphabet, from_standard (to_standard c) = some c ∧
    to_standard c ≠ '=' := by
  have hall : alphabet.all (fun c =>
      decide (from_standard (to_standard c) = some c ∧ to_standard c ≠ '=')) = true := by
    decide
  intro c hc
  exact of_decide_eq_true (all_eq_true.mp hall c hc)

theorem mapM_from_standard {text : List Char} (h : ∀ c ∈ text, c ∈ alphabet) :
    (text.map to_standard).mapM from_standard = some text := by
  induction text with
  | nil => rfl
  | cons c text ih =>
    rw [map_cons, mapM_cons, (from_to_standard c (h c mem_cons_self)).1,
      ih (fun d hd => h d (mem_cons_of_mem c hd))]
    rfl

theorem decode_encode (bytes : Bytes) : decode (encode bytes) = some bytes := by
  have hmem := @encode_mem bytes
  have hsymbols : ∀ c ∈ (UrlSafe.encode bytes).map to_standard, c ≠ '=' := by
    intro c hc
    obtain ⟨d, hd, rfl⟩ := mem_map.mp hc
    exact (from_to_standard d (hmem d hd)).2
  have hbody : (encode bytes).takeWhile (· ≠ '=') = (UrlSafe.encode bytes).map to_standard := by
    unfold encode
    rw [takeWhile_append_of_pos (fun c hc => by simpa using hsymbols c hc)]
    unfold padding
    cases (4 - ((UrlSafe.encode bytes).map to_standard).length % 4) % 4 with
    | zero => simp
    | succ n => simp [replicate_succ]
  unfold decode
  dsimp only
  rw [hbody, if_pos (by rfl), mapM_from_standard hmem, Option.bind_some, UrlSafe.decode_encode]

theorem length_encode (bytes : Bytes) : (encode bytes).length = (bytes.length + 2) / 3 * 4 := by
  unfold encode padding
  rw [length_append, length_replicate, length_map, encode_length]
  omega

example : encode [0xfb, 0xef] = ['+', '+', '8', '='] := by decide

end StandardBase64
