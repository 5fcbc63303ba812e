-- The stored schedule of a re-offer (snapshot_sync/reason_reoffer.rs): the optional
-- member of a refusal's record, read by a bounded visitor that disables the retry of
-- a damaged one and reads past it.
import Ottto.CanonicalIdentity
import Ottto.Progress

namespace ottto_service.reason_reoffer

open serde_json

def EXTENSION_VERSION : UInt64 := 1
def LEGACY_OTHER : String := "legacy_other_reclassification"
def CLASSIFIED : String := "classified"
def MAX_MEMBERS : Nat := 8
def MAX_DEPTH : Nat := 4
def MAX_TOKEN_BYTES : Nat := 64
def MAX_NODES : Nat := 32

/-! ## The text of a value

A JSON text, less its blanks: a number, a string and a member's name stand as they are
written, and a member comes up as often as it is written. What `serde_json` makes of one
of these it makes when a visitor asks for it, and it may refuse: a number outside of
`f64` (1e400) or half of a surrogate pair is JSON and cannot be read. -/

/-- A number as JSON writes it, of any size. -/
abbrev NumberText : Type :=
  { literal : List Char //
    (Reader.readNumber (fun _ => some 0) literal).any (fun found => found.2.isEmpty) = true }

/-- `ignore_str`: every escape is complete, whatever it stands for. -/
def ignore_str : List Char → Bool
  | [] => true
  | '\\' :: 'u' :: a :: b :: c :: d :: rest =>
    [a, b, c, d].all (fun digit => (Reader.hexDigit digit).isSome) && ignore_str rest
  | '\\' :: c :: rest => ['"', '\\', '/', 'b', 'f', 'n', 'r', 't'].contains c && ignore_str rest
  | c :: rest => c != '"' && c != '\\' && decide (0x20 ≤ c.toNat) && ignore_str rest

/-- A string as JSON writes it, between its quotes. -/
abbrev StringText : Type := { literal : List Char // ignore_str literal = true }

variable (float : List Char → Option UInt64)

/-- `parse_any_number`, where `float` reads what is no 64-bit integer. -/
def NumberText.read (text : NumberText) : Option Number :=
  match Reader.readNumber float text.1 with
  | some (.number n, []) => some n
  | _ => none

/-- `parse_str` -/
def StringText.read (text : StringText) : Option String :=
  match Reader.readString (text.1.length + 1) (text.1 ++ ['"']) with
  | some (cs, []) => some (String.ofList cs)
  | _ => none

inductive Text
  | null
  | bool (b : Bool)
  | number (literal : NumberText)
  | string (literal : StringText)
  | array (items : List Text)
  | object (members : List (StringText × Text))

inductive Event
  | unit
  | bool (b : Bool)
  | number (literal : NumberText)
  | str (literal : StringText)
  | key (literal : StringText)
  | seq
  | seq_end
  | map
  | map_end
deriving DecidableEq

abbrev Stream := List Event

mutual

def events : Text → Stream
  | .null => [.unit]
  | .bool b => [.bool b]
  | .number literal => [.number literal]
  | .string literal => [.str literal]
  | .array items => .seq :: (item_events items ++ [.seq_end])
  | .object members => .map :: (member_events members ++ [.map_end])

def item_events : List Text → Stream
  | [] => []
  | item :: items => events item ++ item_events items

def member_events : List (StringText × Text) → Stream
  | [] => []
  | (key, value) :: members => .key key :: (events value ++ member_events members)

end

/-- The event that has to come next. -/
def end_with (event : Event) : Stream → Option Stream
  | [] => none
  | e :: rest => if e = event then some rest else none

/-- `IgnoredAny`: one value read past, at any depth and without reading what it is made of. -/
def ignore : Nat → Stream → Option Stream
  | _, [] => none
  | open_brackets, e :: rest =>
    match e with
    | .seq | .map => ignore (open_brackets + 1) rest
    | .seq_end | .map_end =>
      if open_brackets ≤ 1 then (if open_brackets = 1 then some rest else none)
      else ignore (open_brackets - 1) rest
    | .key _ => if open_brackets = 0 then none else ignore open_brackets rest
    | _ => if open_brackets = 0 then some rest else ignore open_brackets rest

/-- The levels that a reader of the ledger may still open at a record's member:
128, less the ledger, its map of refusals and the record. -/
def REMAINING_DEPTH : Nat := 125

/-- Opening a bracket takes a level, and the last one may not be taken. -/
def open_level (remaining : Nat) : Option Nat :=
  if remaining ≤ 1 then none else some (remaining - 1)

/-! ## The decoder -/

structure Budget where
  nodes : Nat := 0
  invalid : Bool := false

namespace Budget

def disable (budget : Budget) : Budget := { budget with invalid := true }

def visit (budget : Budget) (depth : Nat) : Budget :=
  let nodes := budget.nodes + 1
  { nodes, invalid := budget.invalid || decide (MAX_NODES < nodes) || decide (MAX_DEPTH < depth) }

/-- `SkipVisitor::visit_str` -/
def visit_str (budget : Budget) (depth : Nat) (value : String) : Budget :=
  let visited := budget.visit depth
  if MAX_TOKEN_BYTES < value.utf8ByteSize then visited.disable else visited

end Budget

/-- `Skip` on the key of a member. A key is read even where it is ignored: `MapKey` hands every
request on to `deserialize_any`. -/
def skip_key (depth : Nat) (budget : Budget) : Stream → Option (Budget × Stream)
  | .key literal :: rest => do
    let s ← literal.read
    some (if budget.invalid then budget else budget.visit_str depth s, rest)
  | _ => none

mutual

/-- `Skip`: one value of unknown shape. -/
def skip : Nat → Nat → Nat → Budget → Stream → Option (Budget × Stream)
  | 0, _, _, _, _ => none
  | _ + 1, _, _, _, [] => none
  | fuel + 1, remaining, depth, budget, e :: rest =>
    if budget.invalid then (ignore 0 (e :: rest)).map (fun rest => (budget, rest))
    else match e with
      | .unit | .bool _ => some (budget.visit depth, rest)
      | .number literal => do
        let _ ← literal.read float
        some (budget.visit depth, rest)
      | .str literal => do
        let s ← literal.read
        some (budget.visit_str depth s, rest)
      | .seq => do
        let remaining ← open_level remaining
        let (budget, rest) ← skip_items fuel remaining (depth + 1) (budget.visit depth) rest
        let rest ← end_with .seq_end rest
        some (budget, rest)
      | .map => do
        let remaining ← open_level remaining
        let (budget, rest) ← skip_members fuel remaining (depth + 1) (budget.visit depth) rest
        let rest ← end_with .map_end rest
        some (budget, rest)
      | _ => none

/-- The elements of a sequence, up to its end. -/
def skip_items : Nat → Nat → Nat → Budget → Stream → Option (Budget × Stream)
  | 0, _, _, _, _ => none
  | _ + 1, _, _, _, [] => none
  | fuel + 1, remaining, depth, budget, e :: rest =>
    if e = .seq_end then some (budget, e :: rest)
    else do
      let (budget, rest) ← skip fuel remaining depth budget (e :: rest)
      skip_items fuel remaining depth budget rest

/-- The keys and values of a map, up to its end. -/
def skip_members : Nat → Nat → Nat → Budget → Stream → Option (Budget × Stream)
  | 0, _, _, _, _ => none
  | _ + 1, _, _, _, [] => none
  | fuel + 1, remaining, depth, budget, e :: rest =>
    if e = .map_end then some (budget, e :: rest)
    else do
      let (budget, rest) ← skip_key depth budget (e :: rest)
      let (budget, rest) ← skip fuel remaining depth budget rest
      skip_members fuel remaining depth budget rest

end

inductive Key
  | Version | Reason | RetryAfter | Unknown | Invalid
deriving DecidableEq

/-- `KeyVisitor::visit_str` -/
def Key.read (value : String) : Key :=
  if MAX_TOKEN_BYTES < value.utf8ByteSize then .Invalid
  else if value = "version" then .Version
  else if value = "reason" then .Reason
  else if value = "retry_after_unix_seconds" then .RetryAfter
  else .Unknown

inductive Token
  | OriginalPair | LegacyOther | Classified
deriving DecidableEq

inductive Scalar
  | U64 (n : UInt64)
  | Token (token : Token)
  | Other
deriving DecidableEq

/-- `visit_u64`, `visit_i64` and `visit_f64`. -/
def Scalar.of_number : Number → Scalar
  | .PosInt n => .U64 n
  | .NegInt n => if 0 ≤ n then .U64 n.toUInt64 else .Other
  | .Float _ => .Other

def Scalar.of_str (value : String) : Scalar :=
  if value = ORIGINAL_PAIR_CANDIDATE_UNPROVED then .Token .OriginalPair
  else if value = LEGACY_OTHER then .Token .LegacyOther
  else if value = CLASSIFIED then .Token .Classified
  else .Other

/-- `ScalarSeed`: the value of a known member. -/
def scalar (fuel remaining : Nat) (budget : Budget) : Stream → Option ((Scalar × Budget) × Stream)
  | .unit :: rest => some ((.Other, budget), rest)
  | .bool _ :: rest => some ((.Other, budget), rest)
  | .number literal :: rest => do
    let n ← literal.read float
    some ((.of_number n, budget), rest)
  | .str literal :: rest => do
    let s ← literal.read
    if MAX_TOKEN_BYTES < s.utf8ByteSize then some ((.Other, budget.disable), rest)
    else some ((.of_str s, budget), rest)
  | .seq :: rest => do
    let remaining ← open_level remaining
    let (budget, rest) ← skip_items float fuel remaining 2 budget rest
    let rest ← end_with .seq_end rest
    some ((.Other, budget), rest)
  | .map :: rest => do
    let remaining ← open_level remaining
    let (budget, rest) ← skip_members float fuel remaining 2 budget rest
    let rest ← end_with .map_end rest
    some ((.Other, budget), rest)
  | _ => none

/-- The variables of `ExtensionVisitor::visit_map`. -/
structure Extension where
  budget : Budget := {}
  members : Nat := 0
  version : Option Scalar := none
  reason : Option Scalar := none
  retry_after : Option Scalar := none

namespace Extension

/-- A member is counted, and one too many disables the extension. -/
def count (state : Extension) : Extension :=
  let members := state.members + 1
  let budget := state.budget.visit 1
  { state with members, budget := if MAX_MEMBERS < members then budget.disable else budget }

def with_budget (state : Extension) (budget : Budget) : Extension := { state with budget }

def slot (state : Extension) : Key → Option Scalar
  | .Version => state.version
  | .Reason => state.reason
  | .RetryAfter => state.retry_after
  | _ => none

/-- `slot.replace(value)`; a known member that is there twice is ambiguous. -/
def replace (state : Extension) (key : Key) (value : Scalar) : Extension :=
  let budget := if (state.slot key).isSome then state.budget.disable else state.budget
  match key with
  | .Version => { state with budget, version := some value }
  | .Reason => { state with budget, reason := some value }
  | .RetryAfter => { state with budget, retry_after := some value }
  | _ => state

end Extension

/-- One key and its value. -/
def member (fuel remaining : Nat) (state : Extension) : Stream → Option (Extension × Stream)
  | .key literal :: rest => do
    let name ← literal.read
    let state := state.count
    match Key.read name with
    | .Unknown => do
      let (budget, rest) ← skip float fuel remaining 1 state.budget rest
      some (state.with_budget budget, rest)
    | .Invalid => do
      let (budget, rest) ← skip float fuel remaining 1 state.budget.disable rest
      some (state.with_budget budget, rest)
    | key => do
      let ((value, budget), rest) ← scalar float fuel remaining state.budget rest
      some ((state.with_budget budget).replace key value, rest)
  | _ => none

/-- The members of the extension, up to its end. -/
def members : Nat → Nat → Extension → Stream → Option (Extension × Stream)
  | 0, _, _, _ => none
  | _ + 1, _, _, [] => none
  | fuel + 1, remaining, state, e :: rest =>
    if e = .map_end then some (state, e :: rest)
    else do
      let (state, rest) ← member float fuel remaining state (e :: rest)
      members fuel remaining state rest

def disabled : Option RefusalReoffer := some .Classified

/-- The end of `ExtensionVisitor::visit_map`. -/
def parsed (state : Extension) : Option RefusalReoffer :=
  if state.budget.invalid then disabled
  else match state.version, state.reason, state.retry_after with
    | some (.U64 version), some (.Token token), retry_after =>
      if version = EXTENSION_VERSION then
        match token, retry_after with
        | .OriginalPair, some (.U64 retry_after) => some (.OriginalPair retry_after.toNat)
        | .LegacyOther, some (.U64 retry_after) => some (.LegacyOther retry_after.toNat)
        | .Classified, none => some .Classified
        | _, _ => disabled
      else disabled
    | _, _, _ => disabled

/-- Each call reads an event or stands between two that do. -/
def fuel (stream : Stream) : Nat := 2 * stream.length + 2

/-- The decoder of the member, and what it leaves of the stream. What cannot be read is an error
of the whole ledger. -/
def deserialize (stream : Stream) : Option (Option RefusalReoffer × Stream) :=
  match stream with
  | .unit :: rest => some (none, rest)
  | .bool _ :: rest => some (disabled, rest)
  | .number literal :: rest => do
    let _ ← literal.read float
    some (disabled, rest)
  | .str literal :: rest => do
    let _ ← literal.read
    some (disabled, rest)
  | .seq :: rest => do
    let remaining ← open_level REMAINING_DEPTH
    let (_, rest) ← skip_items float (fuel stream) remaining 1 {} rest
    let rest ← end_with .seq_end rest
    some (disabled, rest)
  | .map :: rest => do
    let remaining ← open_level REMAINING_DEPTH
    let (state, rest) ← members float (fuel stream) remaining {} rest
    let rest ← end_with .map_end rest
    some (parsed state, rest)
  | _ => none

theorem readNumber_decimal (n : UInt64) :
    Reader.readNumber float (Nat.toDigits 10 n.toNat) = some (.number (.PosInt n), []) := by
  have hends : canonical_json.Ends [] := nofun
  have hread := canonical_json.readNumber_integerText float (n := .PosInt n) (.inl rfl) hends
  have hnormal : canonical_json.normalNumber (.PosInt n) = .PosInt n :=
    congrArg Number.PosInt (UInt64.ofNat_toNat (x := n))
  rw [hnormal, List.append_nil] at hread
  have hdigits : canonical_json.integerText (.PosInt n) = Nat.toDigits 10 n.toNat := Nat.toList_repr
  rwa [hdigits] at hread

/-- The decimal digits of a `u64`. -/
def decimal (n : UInt64) : NumberText :=
  ⟨Nat.toDigits 10 n.toNat, by rw [readNumber_decimal]; rfl⟩

/-- A string that is written as it is. -/
def plain (s : String) (h : ignore_str s.toList = true) : StringText := ⟨s.toList, h⟩

/-- What is written for a record; an absent schedule is `null`. -/
def serialize : Option RefusalReoffer → Text
  | none => .null
  | some value =>
    let (reason, retry_after) : StringText × Option Nat := match value with
      | .OriginalPair retry_after =>
        (plain ORIGINAL_PAIR_CANDIDATE_UNPROVED (by decide), some retry_after)
      | .LegacyOther retry_after => (plain LEGACY_OTHER (by decide), some retry_after)
      | .Classified => (plain CLASSIFIED (by decide), none)
    .object ([(plain "version" (by decide), .number (decimal EXTENSION_VERSION)),
        (plain "reason" (by decide), .string reason)] ++
      (retry_after.map (fun retry_after => (plain "retry_after_unix_seconds" (by decide),
        .number (decimal (UInt64.ofNat retry_after))))).toList)

end ottto_service.reason_reoffer
