-- The decoder of a stored re-offer schedule over a text (snapshot_sync/reason_reoffer.rs):
-- what it takes of the stream, what it makes of the value, and where a literal that cannot
-- be read fails it.
import Ottto.ReofferExtension

namespace ottto_service.reason_reoffer

open serde_json List Option

/-- Induction over a text, with the items and the members as lists. -/
theorem Text.induct {P : Text → Prop} (null : P .null) (bool : ∀ b, P (.bool b))
    (number : ∀ literal, P (.number literal)) (string : ∀ literal, P (.string literal))
    (array : ∀ items, (∀ t ∈ items, P t) → P (.array items))
    (object : ∀ members, (∀ m ∈ members, P m.2) → P (.object members)) (t : Text) : P t := by
  refine @Text.rec P (fun items => ∀ t ∈ items, P t) (fun members => ∀ m ∈ members, P m.2)
    (fun m => P m.2) null bool number string array object ?_ ?_ ?_ ?_ (fun _ _ h => h) t
  · simp
  · intro item items hitem hitems
    exact forall_mem_cons.mpr ⟨hitem, hitems⟩
  · simp
  · intro m members hm hmembers
    exact forall_mem_cons.mpr ⟨hm, hmembers⟩

/-! ## The value of a text -/

variable (float : List Char → Option UInt64)

/-- The characters of a string; none where it cannot be read. -/
def StringText.text (literal : StringText) : String := literal.read.getD ""

mutual

/-- The value that the text is of. What cannot be read stands for zero or for no characters. -/
def value : Text → Value
  | .null => .null
  | .bool b => .bool b
  | .number literal => .number ((literal.read float).getD (.PosInt 0))
  | .string literal => .string literal.text
  | .array items => .array (item_values items)
  | .object members => .object (member_values members)

def item_values : List Text → List Value
  | [] => []
  | item :: items => value item :: item_values items

def member_values : List (StringText × Text) → List (String × Value)
  | [] => []
  | (name, t) :: members => (name.text, value t) :: member_values members

end

/-! ## The visitor over a value

The budget that `skip` leaves of a value, without the stream. -/

/-- The budget after the name of a member that is skipped. -/
def after_name (depth : Nat) (budget : Budget) (key : String) : Budget :=
  if budget.invalid then budget else budget.visit_str depth key

mutual

def skip_value (depth : Nat) (budget : Budget) : Value → Budget
  | .null => if budget.invalid then budget else budget.visit depth
  | .bool _ => if budget.invalid then budget else budget.visit depth
  | .number _ => if budget.invalid then budget else budget.visit depth
  | .string s => if budget.invalid then budget else budget.visit_str depth s
  | .array items =>
    if budget.invalid then budget else skip_values (depth + 1) (budget.visit depth) items
  | .object fields =>
    if budget.invalid then budget else skip_fields (depth + 1) (budget.visit depth) fields

def skip_values (depth : Nat) (budget : Budget) : List Value → Budget
  | [] => budget
  | item :: items => skip_values depth (skip_value depth budget item) items

def skip_fields (depth : Nat) (budget : Budget) : List (String × Value) → Budget
  | [] => budget
  | (key, value) :: fields =>
    skip_fields depth
      (skip_value depth (after_name depth budget key) value) fields

end

mutual

/-- Every literal of the text that `skip` reads is one that can be read: the text is ignored once
the budget is used up, and then only the names next to it are read. -/
def reads (depth : Nat) (budget : Budget) : Text → Bool
  | .null => true
  | .bool _ => true
  | .number literal => budget.invalid || (literal.read float).isSome
  | .string literal => budget.invalid || literal.read.isSome
  | .array items => budget.invalid || items_read (depth + 1) (budget.visit depth) items
  | .object members => budget.invalid || members_read (depth + 1) (budget.visit depth) members

def items_read (depth : Nat) (budget : Budget) : List Text → Bool
  | [] => true
  | item :: items => reads depth budget item &&
    items_read depth (skip_value depth budget (value float item)) items

def members_read (depth : Nat) (budget : Budget) : List (StringText × Text) → Bool
  | [] => true
  | (name, t) :: members => name.read.isSome &&
    (reads depth (after_name depth budget name.text) t &&
      members_read depth (skip_value depth (after_name depth budget name.text) (value float t)) members)

end

/-- A text comes up with an event that ends nothing. -/
theorem events_first (t : Text) :
    ∃ e rest, events t = e :: rest ∧ e ≠ .seq_end ∧ e ≠ .map_end := by
  cases t with
  | null => exact ⟨_, _, rfl, by simp, by simp⟩
  | bool => exact ⟨_, _, rfl, by simp, by simp⟩
  | number => exact ⟨_, _, rfl, by simp, by simp⟩
  | string => exact ⟨_, _, rfl, by simp, by simp⟩
  | array => exact ⟨_, _, rfl, by simp, by simp⟩
  | object => exact ⟨_, _, rfl, by simp, by simp⟩

/-! ## Reading past a value -/

/-- A text is read past whatever its literals are, and inside of a bracket it changes nothing. -/
def Ignored (t : Text) : Prop :=
  ∀ rest, ignore 0 (events t ++ rest) = some rest ∧
    ∀ n, ignore (n + 1) (events t ++ rest) = ignore (n + 1) rest

theorem ignore_items {items : List Text} (h : ∀ t ∈ items, Ignored t) (n : Nat) (rest : Stream) :
    ignore (n + 1) (item_events items ++ rest) = ignore (n + 1) rest := by
  induction items with
  | nil => rfl
  | cons item items ih =>
    obtain ⟨hitem, hitems⟩ := forall_mem_cons.mp h
    rw [item_events, append_assoc, (hitem _).2, ih hitems]

theorem ignore_fields {fields : List (StringText × Text)} (h : ∀ m ∈ fields, Ignored m.2) (n : Nat)
    (rest : Stream) : ignore (n + 1) (member_events fields ++ rest) = ignore (n + 1) rest := by
  induction fields with
  | nil => rfl
  | cons m fields ih =>
    obtain ⟨hm, hfields⟩ := forall_mem_cons.mp h
    obtain ⟨key, value⟩ := m
    rw [member_events, cons_append, append_assoc, ignore]
    simp only [Nat.succ_ne_zero, if_false]
    rw [(hm _).2, ih hfields]

theorem ignored (t : Text) : Ignored t := by
  induction t using Text.induct with
  | null => exact fun rest => ⟨rfl, fun n => rfl⟩
  | bool b => exact fun rest => ⟨rfl, fun n => rfl⟩
  | number literal => exact fun rest => ⟨rfl, fun n => rfl⟩
  | string literal => exact fun rest => ⟨rfl, fun n => rfl⟩
  | array items ih =>
    intro rest
    rw [events, cons_append, append_assoc]
    constructor
    · rw [ignore, ignore_items ih]
      rfl
    · intro n
      rw [ignore, ignore_items ih]
      rfl
  | object fields ih =>
    intro rest
    rw [events, cons_append, append_assoc]
    constructor
    · rw [ignore, ignore_fields ih]
      rfl
    · intro n
      rw [ignore, ignore_fields ih]
      rfl

/-! ## The stream and the value agree -/

/-- The visitor has levels left, or it opens none any more. -/
def Room (budget : Budget) (depth remaining : Nat) : Prop :=
  budget.invalid = true ∨ (depth ≤ MAX_DEPTH + 1 ∧ MAX_DEPTH + 3 ≤ remaining + depth)

variable {budget : Budget} {depth : Nat}

theorem visit_deep (h : MAX_DEPTH < depth) :
    (budget.visit depth).invalid = true := by
  simp [Budget.visit, h]

theorem skip_value_invalid (h : budget.invalid = true) (v : Value) :
    skip_value depth budget v = budget := by
  cases v <;> simp [skip_value, h]

variable {remaining : Nat}

theorem Room.after (h : Room budget depth remaining)
    (v : Value) : Room (skip_value depth budget v) depth remaining := by
  rcases h with h | h
  · rw [skip_value_invalid h]
    exact .inl h
  · exact .inr h

theorem Room.named (h : Room budget depth remaining) (key : String) :
    Room (after_name depth budget key) depth remaining := by
  rcases h with h | h
  · rw [after_name, if_pos h]
    exact .inl h
  · exact .inr h

/-- A bracket takes a level, and what is in it is one deeper. -/
theorem Room.inner (h : Room budget depth remaining) (hvalid : budget.invalid = false) :
    ∃ inner, open_level remaining = some inner ∧ Room (budget.visit depth) (depth + 1) inner := by
  rcases h with h | ⟨hdepth, hroom⟩
  · rw [h] at hvalid
    cases hvalid
  · have hopen : ¬ remaining ≤ 1 := by
      unfold MAX_DEPTH at hdepth hroom
      omega
    refine ⟨remaining - 1, by rw [open_level, if_neg hopen], ?_⟩
    by_cases hdeep : MAX_DEPTH < depth
    · exact .inl (visit_deep hdeep)
    · exact .inr (by omega)

variable {float}

/-- `skip` takes the events of the text and leaves the budget that its value asks for, where what
it reads can be read. -/
def Skips (float : List Char → Option UInt64) (t : Text) : Prop :=
  ∀ fuel remaining depth budget rest, 2 * (events t).length ≤ fuel → Room budget depth remaining →
    skip float fuel remaining depth budget (events t ++ rest) =
      if reads float depth budget t then some (skip_value depth budget (value float t), rest) else none

theorem skip_items_events {items : List Text} (h : ∀ t ∈ items, Skips float t)
    (fuel remaining depth : Nat) (budget : Budget) (rest : Stream)
    (hfuel : 2 * (item_events items).length < fuel) (hroom : Room budget depth remaining) :
    skip_items float fuel remaining depth budget (item_events items ++ .seq_end :: rest) =
      if items_read float depth budget items then
        some (skip_values depth budget (item_values float items), .seq_end :: rest)
      else none := by
  induction items generalizing fuel budget with
  | nil =>
    obtain ⟨fuel, rfl⟩ := Nat.exists_eq_add_one_of_ne_zero (Nat.ne_of_gt (Nat.zero_lt_of_lt hfuel))
    rw [item_events, nil_append, skip_items, if_pos rfl]
    rfl
  | cons item items ih =>
    obtain ⟨hitem, hitems⟩ := forall_mem_cons.mp h
    obtain ⟨fuel, rfl⟩ := Nat.exists_eq_add_one_of_ne_zero (Nat.ne_of_gt (Nat.zero_lt_of_lt hfuel))
    obtain ⟨e, tail, hevents, hend, -⟩ := events_first item
    rw [item_events, length_append] at hfuel
    have hlen : 0 < (events item).length := by rw [hevents]; exact Nat.succ_pos _
    have hskip := hitem fuel remaining depth budget (item_events items ++ .seq_end :: rest)
      (by omega) hroom
    have hrest := ih hitems fuel _ (by omega) (hroom.after (value float item))
    rw [item_events, append_assoc]
    rw [hevents, cons_append] at hskip ⊢
    rw [skip_items, if_neg hend, hskip, items_read, item_values]
    cases hreads : reads float depth budget item with
    | true => exact hrest
    | false => rfl

theorem skip_members_events {fields : List (StringText × Text)} (h : ∀ m ∈ fields, Skips float m.2)
    (fuel remaining depth : Nat) (budget : Budget) (rest : Stream)
    (hfuel : 2 * (member_events fields).length < fuel) (hroom : Room budget depth remaining) :
    skip_members float fuel remaining depth budget (member_events fields ++ .map_end :: rest) =
      if members_read float depth budget fields then
        some (skip_fields depth budget (member_values float fields), .map_end :: rest)
      else none := by
  induction fields generalizing fuel budget with
  | nil =>
    obtain ⟨fuel, rfl⟩ := Nat.exists_eq_add_one_of_ne_zero (Nat.ne_of_gt (Nat.zero_lt_of_lt hfuel))
    rw [member_events, nil_append, skip_members, if_pos rfl]
    rfl
  | cons m fields ih =>
    obtain ⟨hm, hfields⟩ := forall_mem_cons.mp h
    obtain ⟨fuel, rfl⟩ := Nat.exists_eq_add_one_of_ne_zero (Nat.ne_of_gt (Nat.zero_lt_of_lt hfuel))
    obtain ⟨name, t⟩ := m
    rw [member_events, length_cons, length_append] at hfuel
    have hkey := hroom.named name.text
    have hskip := hm fuel remaining depth _ (member_events fields ++ .map_end :: rest)
      (by dsimp only; omega) hkey
    have hrest := ih hfields fuel _ (by omega) (hkey.after (value float t))
    rw [member_events, cons_append, append_assoc, skip_members, if_neg (by simp), skip_key,
      members_read, member_values]
    cases hname : name.read with
    | none => rfl
    | some s =>
      have htext : s = name.text := by rw [StringText.text, hname, getD_some]
      simp only [bind_eq_bind, bind_some, htext, isSome_some, Bool.true_and]
      rw [← after_name, hskip]
      cases hreads : reads float depth (after_name depth budget name.text) t with
      | true => exact hrest
      | false => rfl

/-- A disabled budget reads past the text. -/
theorem skip_invalid {fuel : Nat} (t : Text) (rest : Stream) (h : budget.invalid = true) :
    skip float (fuel + 1) remaining depth budget (events t ++ rest) =
      if reads float depth budget t then some (skip_value depth budget (value float t), rest)
      else none := by
  obtain ⟨e, tail, hevents, -, -⟩ := events_first t
  have hignored := (ignored t rest).1
  have hreads : reads float depth budget t = true := by cases t <;> simp [reads, h]
  rw [hevents, cons_append] at hignored ⊢
  rw [skip.eq_def]
  dsimp only
  rw [if_pos h, hignored, skip_value_invalid h, map_some, if_pos hreads]

/-- Only a valid budget visits a text. -/
theorem visited {t : Text}
    (h : ∀ fuel remaining depth budget rest, 2 * (events t).length ≤ fuel + 1 →
      Room budget depth remaining → budget.invalid = false →
      skip float (fuel + 1) remaining depth budget (events t ++ rest) =
        if reads float depth budget t then some (skip_value depth budget (value float t), rest)
        else none) : Skips float t := by
  intro fuel remaining depth budget rest hfuel hroom
  obtain ⟨e, tail, hevents, -, -⟩ := events_first t
  have hpos : 0 < fuel := by
    rw [hevents, length_cons] at hfuel
    omega
  obtain ⟨fuel, rfl⟩ := Nat.exists_eq_add_one_of_ne_zero (Nat.ne_of_gt hpos)
  cases hvalid : budget.invalid with
  | true => exact skip_invalid t rest hvalid
  | false => exact h fuel remaining depth budget rest hfuel hroom hvalid

theorem skips (t : Text) : Skips float t := by
  induction t using Text.induct with
  | null =>
    apply visited
    intro fuel remaining depth budget rest _ _ hvalid
    simp [events, skip, skip_value, value, reads, hvalid]
  | bool b =>
    apply visited
    intro fuel remaining depth budget rest _ _ hvalid
    simp [events, skip, skip_value, value, reads, hvalid]
  | number literal =>
    apply visited
    intro fuel remaining depth budget rest _ _ hvalid
    cases hread : literal.read float <;>
      simp [events, skip, skip_value, value, reads, hvalid, hread]
  | string literal =>
    apply visited
    intro fuel remaining depth budget rest _ _ hvalid
    cases hread : literal.read <;>
      simp [events, skip, skip_value, value, reads, hvalid, hread, StringText.text]
  | array items ih =>
    apply visited
    intro fuel remaining depth budget rest hfuel hroom hvalid
    obtain ⟨inner, hopen, hinner⟩ := hroom.inner hvalid
    have hlen : 2 * (item_events items).length < fuel := by
      simp only [events, length_cons, length_append, length_nil] at hfuel
      omega
    have hitems := skip_items_events ih fuel inner (depth + 1) _ rest hlen hinner
    simp only [events, cons_append, append_assoc, nil_append]
    cases hreads : items_read float (depth + 1) (budget.visit depth) items <;>
      simp [skip, skip_value, value, reads, hvalid, hopen, hitems, hreads, end_with]
  | object fields ih =>
    apply visited
    intro fuel remaining depth budget rest hfuel hroom hvalid
    obtain ⟨inner, hopen, hinner⟩ := hroom.inner hvalid
    have hlen : 2 * (member_events fields).length < fuel := by
      simp only [events, length_cons, length_append, length_nil] at hfuel
      omega
    have hfields := skip_members_events ih fuel inner (depth + 1) _ rest hlen hinner
    simp only [events, cons_append, append_assoc, nil_append]
    cases hreads : members_read float (depth + 1) (budget.visit depth) fields <;>
      simp [skip, skip_value, value, reads, hvalid, hopen, hfields, hreads, end_with]

/-! ## The members of the extension -/

/-- What `scalar` makes of a value. -/
def scalar_value (budget : Budget) : Value → Scalar × Budget
  | .number n => (.of_number n, budget)
  | .string s =>
    if MAX_TOKEN_BYTES < s.utf8ByteSize then (.Other, budget.disable) else (.of_str s, budget)
  | .array items => (.Other, skip_values 2 budget items)
  | .object fields => (.Other, skip_fields 2 budget fields)
  | _ => (.Other, budget)

/-- What `member` makes of a member. -/
def member_value (state : Extension) (m : String × Value) : Extension :=
  let state := state.count
  match Key.read m.1 with
  | .Unknown => state.with_budget (skip_value 1 state.budget m.2)
  | .Invalid => state.with_budget (skip_value 1 state.budget.disable m.2)
  | key =>
    let read := scalar_value state.budget m.2
    (state.with_budget read.2).replace key read.1

variable (float)

/-- What `scalar` reads of the text can be read: a number and a string always. -/
def scalar_reads (budget : Budget) : Text → Bool
  | .number literal => (literal.read float).isSome
  | .string literal => literal.read.isSome
  | .array items => items_read float 2 budget items
  | .object fields => members_read float 2 budget fields
  | _ => true

def member_reads (state : Extension) (m : StringText × Text) : Bool :=
  match Key.read m.1.text with
  | .Unknown => reads float 1 state.count.budget m.2
  | .Invalid => reads float 1 state.count.budget.disable m.2
  | _ => scalar_reads float state.count.budget m.2

/-- Of each member the name is read, and its value as far as the budget goes. -/
def extension_reads (state : Extension) : List (StringText × Text) → Bool
  | [] => true
  | m :: fields => m.1.read.isSome && (member_reads float state m &&
    extension_reads (member_value state (m.1.text, value float m.2)) fields)

variable {float}

theorem scalar_events (fuel : Nat) (budget : Budget) (t : Text) (rest : Stream)
    (hfuel : 2 * (events t).length ≤ fuel) :
    scalar float fuel 124 budget (events t ++ rest) =
      if scalar_reads float budget t then some (scalar_value budget (value float t), rest)
      else none := by
  have hroom : Room budget 2 123 := .inr (by decide)
  cases t with
  | null => rfl
  | bool b => rfl
  | number literal =>
    cases hread : literal.read float <;> simp [events, scalar, scalar_reads, scalar_value, value, hread]
  | string literal =>
    cases hread : literal.read with
    | none => simp [events, scalar, scalar_reads, hread]
    | some s =>
      simp only [events, singleton_append, scalar, scalar_reads, scalar_value, value, hread,
        StringText.text, bind_eq_bind, bind_some, getD_some]
      split <;> rfl
  | array items =>
    have hlen : 2 * (item_events items).length < fuel := by
      simp only [events, length_cons, length_append, length_nil] at hfuel
      omega
    have hitems := @skip_items_events float _ (fun t _ => skips t) fuel 123 2 budget rest hlen hroom
    simp only [events, cons_append, append_assoc, nil_append]
    cases hreads : items_read float 2 budget items <;>
      simp [scalar, scalar_reads, scalar_value, value, open_level, hitems, hreads, end_with]
  | object fields =>
    have hlen : 2 * (member_events fields).length < fuel := by
      simp only [events, length_cons, length_append, length_nil] at hfuel
      omega
    have hfields := @skip_members_events float _ (fun m _ => skips m.2) fuel 123 2 budget rest hlen hroom
    simp only [events, cons_append, append_assoc, nil_append]
    cases hreads : members_read float 2 budget fields <;>
      simp [scalar, scalar_reads, scalar_value, value, open_level, hfields, hreads, end_with]

theorem member_events_step (fuel : Nat) (state : Extension) (m : StringText × Text) (rest : Stream)
    (hfuel : 2 * (events m.2).length ≤ fuel) :
    member float fuel 124 state (.key m.1 :: (events m.2 ++ rest)) =
      if m.1.read.isSome && member_reads float state m then
        some (member_value state (m.1.text, value float m.2), rest)
      else none := by
  have hroom : ∀ budget : Budget, Room budget 1 124 := fun budget => .inr (by decide)
  have hscalar := @scalar_events float fuel state.count.budget m.2 rest hfuel
  have hskip := fun budget => @skips float m.2 fuel 124 1 budget rest hfuel (hroom budget)
  unfold member_value member_reads
  cases hname : m.1.read with
  | none => simp [member, hname]
  | some name =>
    have htext : m.1.text = name := by rw [StringText.text, hname, getD_some]
    simp only [member, hname, htext, bind_eq_bind, bind_some, isSome_some,
      Bool.true_and]
    cases Key.read name with
    | Unknown =>
      cases hreads : reads float 1 state.count.budget m.2 <;> simp [hskip, hreads]
    | Invalid =>
      cases hreads : reads float 1 state.count.budget.disable m.2 <;> simp [hskip, hreads]
    | Version => cases hreads : scalar_reads float state.count.budget m.2 <;> simp [hscalar, hreads]
    | Reason => cases hreads : scalar_reads float state.count.budget m.2 <;> simp [hscalar, hreads]
    | RetryAfter => cases hreads : scalar_reads float state.count.budget m.2 <;> simp [hscalar, hreads]

theorem members_events (fields : List (StringText × Text)) (fuel : Nat) (state : Extension)
    (rest : Stream) (hfuel : 2 * (member_events fields).length < fuel) :
    members float fuel 124 state (member_events fields ++ .map_end :: rest) =
      if extension_reads float state fields then
        some ((member_values float fields).foldl member_value state, .map_end :: rest)
      else none := by
  induction fields generalizing fuel state with
  | nil =>
    obtain ⟨fuel, rfl⟩ := Nat.exists_eq_add_one_of_ne_zero (Nat.ne_of_gt (Nat.zero_lt_of_lt hfuel))
    rw [member_events, nil_append, members, if_pos rfl]
    rfl
  | cons m fields ih =>
    obtain ⟨fuel, rfl⟩ := Nat.exists_eq_add_one_of_ne_zero (Nat.ne_of_gt (Nat.zero_lt_of_lt hfuel))
    obtain ⟨name, t⟩ := m
    rw [member_events, length_cons, length_append] at hfuel
    have hmember := @member_events_step float fuel state (name, t)
      (member_events fields ++ .map_end :: rest) (by dsimp only; omega)
    have hrest := ih fuel (member_value state (name.text, value float t)) (by omega)
    rw [member_events, cons_append, append_assoc, members, if_neg (by simp), hmember,
      extension_reads, ← Bool.and_assoc]
    cases hreads : name.read.isSome && member_reads float state (name, t) with
    | true => exact hrest
    | false => rfl

/-- What the decoder makes of a value. -/
def decoded : Value → Option RefusalReoffer
  | .null => none
  | .object fields => parsed (fields.foldl member_value {})
  | _ => disabled

variable (float) in
/-- Every literal that the decoder reads is one that can be read. -/
def readable : Text → Bool
  | .number literal => (literal.read float).isSome
  | .string literal => literal.read.isSome
  | .array items => items_read float 1 {} items
  | .object fields => extension_reads float {} fields
  | _ => true

/-- The decoder takes the events of the text and no more, unless it meets a literal that cannot
be read. -/
theorem deserialize_events (t : Text) (rest : Stream) :
    deserialize float (events t ++ rest) =
      if readable float t then some (decoded (value float t), rest) else none := by
  have hroom : Room {} 1 124 := .inr (by decide)
  cases t with
  | null => rfl
  | bool b => rfl
  | number literal =>
    cases hread : literal.read float <;> simp [events, deserialize, readable, value, decoded, hread]
  | string literal =>
    cases hread : literal.read <;> simp [events, deserialize, readable, value, decoded, hread]
  | array items =>
    have hlen : 2 * (item_events items).length < fuel (events (.array items) ++ rest) := by
      simp only [fuel, events, length_cons, length_append, length_nil]
      omega
    have hitems := @skip_items_events float _ (fun t _ => skips t) _ 124 1 {} rest hlen hroom
    simp only [events, cons_append, append_assoc, nil_append] at hitems ⊢
    cases hreads : items_read float 1 {} items <;>
      simp [deserialize, open_level, REMAINING_DEPTH, hitems, hreads, end_with, readable, value, decoded]
  | object fields =>
    have hlen : 2 * (member_events fields).length < fuel (events (.object fields) ++ rest) := by
      simp only [fuel, events, length_cons, length_append, length_nil]
      omega
    have hfields := @members_events float fields _ {} rest hlen
    simp only [events, cons_append, append_assoc, nil_append] at hfields ⊢
    cases hreads : extension_reads float {} fields <;>
      simp [deserialize, open_level, REMAINING_DEPTH, hfields, hreads, end_with, readable, value, decoded]

end ottto_service.reason_reoffer
