-- The retained form of Claude response records (claude_response_records.rs): what a record
-- repeats of its response, of its slot or of an earlier selector is kept once, and decoding
-- gives the record back.
import Ottto.Rows
import Ottto.Runs

open Words

namespace ottto_service.claude_response_records

open usage accumulator List Option SortedMap

def MAX_INTERNED_SELECTORS : Nat := 64

/-! ## Records -/

/-- The cache request of a record (cache_observations.rs). -/
structure RequestSlot where
  request_ref : String
  occurred_at : String
  model : Option String
  effort : Option String
  prompt_tokens : Option UInt64
  cache_read_tokens : Option UInt64
  cache_creation_tokens : Option UInt64
  uncached_tokens : Option UInt64
  output_tokens : Option UInt64

/-- What one transcript line pushes. -/
structure PushedRecord where
  usage : UsageTotals
  model : Option String
  selector : SelectorCapture
  reasoning_effort : Option String
  request_id : Option String
  timestamp : Option String
  computed_effective_input_context : Option UInt64
  tool_uses : SortedMap String String
  cache_slot : RequestSlot

structure ClaudeResponseRecord extends PushedRecord where
  physical_sequence : UInt64

/-! ## Selectors -/

abbrev ClaudeSelectorTable := List SelectorCapture

inductive CompactClaudeSelector where
  | Interned (index : UInt32)
  | Inline (selector : SelectorCapture)

/-- `Iterator::rposition` of an equal selector. -/
def rposition (table : ClaudeSelectorTable) (selector : SelectorCapture) : Option Nat :=
  (List.range table.length).reverse.find? (fun index => table[index]? == some selector)

def ClaudeSelectorTable.intern (table : ClaudeSelectorTable) (selector : SelectorCapture) :
    ClaudeSelectorTable × CompactClaudeSelector :=
  match rposition table selector with
  | some index => (table, .Interned (UInt32.ofNat index))
  | none =>
    if table.length ≥ MAX_INTERNED_SELECTORS then (table, .Inline selector)
    else (table ++ [selector], .Interned (UInt32.ofNat table.length))

def ClaudeSelectorTable.decode (table : ClaudeSelectorTable) :
    CompactClaudeSelector → Option SelectorCapture
  | .Interned index => table[index.toNat]?
  | .Inline selector => some selector

/-! ## Texts -/

inductive ClaudeRecordText where
  | SameAsFirstRecord
  | Own (value : Option String)

namespace ClaudeRecordText

def encode (value : Option String) (first : Option ClaudeRecordText) : ClaudeRecordText :=
  match first with
  | some (.Own first) => if first = value then .SameAsFirstRecord else .Own value
  | _ => .Own value

def get (self : ClaudeRecordText) (first : Option ClaudeRecordText) : Option (Option String) :=
  match self, first with
  | .Own value, _ => some value
  | .SameAsFirstRecord, some (.Own value) => some value
  | .SameAsFirstRecord, _ => none

/-- A back-reference without a first record fails the response closed. -/
def decode (self : ClaudeRecordText) (first : Option (Option String)) : Option (Option String) :=
  match self with
  | .SameAsFirstRecord => first
  | .Own value => some value

end ClaudeRecordText

/-! ## Usage and slots -/

structure CompactClaudeUsage where
  input_tokens : UInt64
  output_tokens : UInt64
  cache_read_tokens : UInt64
  cache_creation_5m_tokens : UInt64
  cache_creation_1h_tokens : UInt64
  reasoning_output_tokens : UInt64
  unattributed_total_tokens : UInt64
  request_count : UInt64
  costs : Option UsageCosts

def CompactClaudeUsage.encode (usage : UsageTotals) : CompactClaudeUsage :=
  { input_tokens := usage.input_tokens
    output_tokens := usage.output_tokens
    cache_read_tokens := usage.cache_read_tokens
    cache_creation_5m_tokens := usage.cache_creation_5m_tokens
    cache_creation_1h_tokens := usage.cache_creation_1h_tokens
    reasoning_output_tokens := usage.reasoning_output_tokens
    unattributed_total_tokens := usage.unattributed_total_tokens
    request_count := usage.request_count
    costs := if usage.costs ≠ {} then some usage.costs else none }

def CompactClaudeUsage.decode (self : CompactClaudeUsage) : UsageTotals :=
  { input_tokens := self.input_tokens
    output_tokens := self.output_tokens
    cache_read_tokens := self.cache_read_tokens
    cache_creation_5m_tokens := self.cache_creation_5m_tokens
    cache_creation_1h_tokens := self.cache_creation_1h_tokens
    reasoning_output_tokens := self.reasoning_output_tokens
    unattributed_total_tokens := self.unattributed_total_tokens
    request_count := self.request_count
    costs := self.costs.getD {} }

structure ClaudeSlotTokens where
  prompt_tokens : Option UInt64
  cache_read_tokens : Option UInt64
  cache_creation_tokens : Option UInt64
  uncached_tokens : Option UInt64
  output_tokens : Option UInt64

/-- `Derived` keeps the token counts only: its strings are those of the record. -/
inductive ClaudeSlot where
  | Derived (tokens : ClaudeSlotTokens)
  | Explicit (slot : RequestSlot)

def ClaudeSlot.encode (slot : RequestSlot) (request_id timestamp model effort : Option String) :
    ClaudeSlot :=
  if slot.request_ref = request_id.getD "" ∧ slot.occurred_at = timestamp.getD "" ∧
      slot.model = model ∧ slot.effort = effort then
    .Derived
      { prompt_tokens := slot.prompt_tokens
        cache_read_tokens := slot.cache_read_tokens
        cache_creation_tokens := slot.cache_creation_tokens
        uncached_tokens := slot.uncached_tokens
        output_tokens := slot.output_tokens }
  else .Explicit slot

def ClaudeSlot.decode (self : ClaudeSlot) (request_id timestamp model effort : Option String) :
    RequestSlot :=
  match self with
  | .Explicit slot => slot
  | .Derived tokens =>
    { request_ref := request_id.getD ""
      occurred_at := timestamp.getD ""
      model
      effort
      prompt_tokens := tokens.prompt_tokens
      cache_read_tokens := tokens.cache_read_tokens
      cache_creation_tokens := tokens.cache_creation_tokens
      uncached_tokens := tokens.uncached_tokens
      output_tokens := tokens.output_tokens }

/-! ## One compact record -/

structure CompactClaudeResponseRecord where
  usage : CompactClaudeUsage
  slot : ClaudeSlot
  physical_sequence : UInt16
  model : ClaudeRecordText
  reasoning_effort : ClaudeRecordText
  request_id : ClaudeRecordText
  timestamp : Option String
  computed_effective_input_context : Option UInt64
  selector : CompactClaudeSelector
  tool_uses : List (String × String)

namespace CompactClaudeResponseRecord

/-- `first` is the response's first record; the saved position saturates. -/
def encode (first : Option CompactClaudeResponseRecord) (position : Nat) (record : PushedRecord)
    (selector : CompactClaudeSelector) : CompactClaudeResponseRecord :=
  { usage := .encode record.usage
    slot := .encode record.cache_slot record.request_id record.timestamp record.model
      record.reasoning_effort
    physical_sequence := if position < 65536 then UInt16.ofNat position else 65535
    model := .encode record.model (first.map model)
    reasoning_effort := .encode record.reasoning_effort (first.map reasoning_effort)
    request_id := .encode record.request_id (first.map request_id)
    timestamp := record.timestamp
    computed_effective_input_context := record.computed_effective_input_context
    selector
    tool_uses := record.tool_uses.entries }

/-- The request id that decoding would yield, read without decoding. -/
def provider_request_id (self : CompactClaudeResponseRecord)
    (first : Option CompactClaudeResponseRecord) : Option String :=
  (self.request_id.get (first.map request_id)).join

def decode (self : CompactClaudeResponseRecord) (position : Nat)
    (first : Option ClaudeResponseRecord) (selectors : ClaudeSelectorTable) :
    Option ClaudeResponseRecord := do
  let model ← self.model.decode (first.map (fun first => first.model))
  let reasoning_effort ← self.reasoning_effort.decode (first.map (fun first => first.reasoning_effort))
  let request_id ← self.request_id.decode (first.map (fun first => first.request_id))
  let selector ← selectors.decode self.selector
  some
    { cache_slot := self.slot.decode request_id self.timestamp model reasoning_effort
      physical_sequence := UInt64.ofNat position
      usage := self.usage.decode
      model
      selector
      reasoning_effort
      request_id
      timestamp := self.timestamp
      computed_effective_input_context := self.computed_effective_input_context
      tool_uses := self.tool_uses.foldl (fun uses use => uses.insert use.1 use.2) .empty }

end CompactClaudeResponseRecord

/-- The loop of `decode_records`, after the records already decoded. -/
def decode_loop (selectors : ClaudeSelectorTable) (decoded : List ClaudeResponseRecord) :
    List CompactClaudeResponseRecord → Option (List ClaudeResponseRecord)
  | [] => some decoded
  | record :: rest => do
    let record ← record.decode decoded.length decoded.head? selectors
    decode_loop selectors (decoded ++ [record]) rest

def decode_records (records : List CompactClaudeResponseRecord) (selectors : ClaudeSelectorTable) :
    Option (List ClaudeResponseRecord) :=
  decode_loop selectors [] records

/-! ## The book -/

structure ClaudeResponseObservation where
  sequence : UInt64
  preceding_user_timestamp : Option String
  records : List CompactClaudeResponseRecord
  record_limit_exceeded : Bool := false
  desktop_request : Bool

def ClaudeResponseObservation.push (self : ClaudeResponseObservation) (record : PushedRecord)
    (selector : CompactClaudeSelector) : ClaudeResponseObservation :=
  { self with
    records := self.records ++ [.encode self.records.head? self.records.length record selector] }

def ClaudeResponseObservation.new (sequence : UInt64) (record : PushedRecord)
    (selector : CompactClaudeSelector) (preceding_user_timestamp : Option String)
    (desktop_request : Bool) : ClaudeResponseObservation :=
  { sequence
    preceding_user_timestamp
    records := [.encode none 0 record selector]
    desktop_request }

structure ClaudeResponseBook where
  index : SortedMap String Nat := .empty
  responses : List ClaudeResponseObservation := []
  selectors : ClaudeSelectorTable := []

namespace ClaudeResponseBook

/-- The slot of a key, if it holds a response. -/
def slot (self : ClaudeResponseBook) (key : String) : Option Nat :=
  (self.index.get? key).filter (fun slot => decide (slot < self.responses.length))

/-- A slot that a `u32` does not hold is refused. -/
def insert (self : ClaudeResponseBook) (key : String) (response : ClaudeResponseObservation) :
    ClaudeResponseBook × Bool :=
  if self.responses.length < 2 ^ 32 then
    ({ self with
       index := self.index.insert key self.responses.length
       responses := self.responses ++ [response] }, true)
  else (self, false)

/-- One line of a response, as `observe_claude_response` retains it. -/
structure Line where
  key : String
  record : PushedRecord
  sequence : UInt64
  preceding_user_timestamp : Option String
  desktop_request : Bool

def observe (self : ClaudeResponseBook) (line : Line) : ClaudeResponseBook :=
  let (selectors, selector) := self.selectors.intern line.record.selector
  let self := { self with selectors }
  match self.slot line.key with
  | some slot =>
    { self with
      responses := self.responses.modify slot (fun response =>
        { response with
          desktop_request := response.desktop_request && line.desktop_request }.push line.record
            selector) }
  | none =>
    (self.insert line.key (.new line.sequence line.record selector line.preceding_user_timestamp
      line.desktop_request)).1

end ClaudeResponseBook

/-! ## What decodes -/

/-- A table that keeps every selector of `table` at its place. -/
def Extends (table grown : ClaudeSelectorTable) : Prop := ∃ more, grown = table ++ more

variable {table : ClaudeSelectorTable}

theorem intern_spec (h : table.length ≤ MAX_INTERNED_SELECTORS) (selector : SelectorCapture) :
    Extends table (table.intern selector).1 ∧
      (table.intern selector).1.length ≤ MAX_INTERNED_SELECTORS ∧
      (table.intern selector).1.decode (table.intern selector).2 = some selector := by
  have hindex : ∀ index, index ≤ MAX_INTERNED_SELECTORS → (UInt32.ofNat index).toNat = index := by
    intro index hle
    apply UInt32.toNat_ofNat_of_lt
    exact Nat.lt_of_le_of_lt hle (by decide)
  unfold ClaudeSelectorTable.intern
  cases hfound : rposition table selector with
  | some index =>
    have hselector := List.find?_some hfound
    rw [beq_iff_eq] at hselector
    have hlt : index < table.length := (List.getElem?_eq_some_iff.mp hselector).1
    refine ⟨⟨[], (append_nil table).symm⟩, h, ?_⟩
    show table[(UInt32.ofNat index).toNat]? = some selector
    rw [hindex index (by omega)]
    exact hselector
  | none =>
    dsimp only
    split
    · exact ⟨⟨[], (append_nil table).symm⟩, h, rfl⟩
    · rename_i hfull
      refine ⟨⟨[selector], rfl⟩, ?_, ?_⟩
      · rw [length_append]
        exact Nat.lt_of_not_ge hfull
      · show (table ++ [selector])[(UInt32.ofNat table.length).toNat]? = some selector
        rw [hindex _ h, List.getElem?_concat_length]

variable {grown : ClaudeSelectorTable}

theorem decode_selector_extends (h : Extends table grown)
    {selector : CompactClaudeSelector} {decoded : SelectorCapture}
    (hdecoded : table.decode selector = some decoded) : grown.decode selector = some decoded := by
  obtain ⟨more, rfl⟩ := h
  cases selector with
  | Inline selector => exact hdecoded
  | Interned index =>
    have hget : table[index.toNat]? = some decoded := hdecoded
    have hlt := (List.getElem?_eq_some_iff.mp hget).1
    show (table ++ more)[index.toNat]? = some decoded
    rw [List.getElem?_append_left hlt]
    exact hget

@[simp] theorem usage_decode_encode (usage : UsageTotals) :
    (CompactClaudeUsage.encode usage).decode = usage := by
  unfold CompactClaudeUsage.encode CompactClaudeUsage.decode
  split
  · rfl
  · rename_i hcosts
    cases usage
    simp_all

@[simp] theorem slot_decode_encode (slot : RequestSlot)
    (request_id timestamp model effort : Option String) :
    (ClaudeSlot.encode slot request_id timestamp model effort).decode request_id timestamp model
      effort = slot := by
  unfold ClaudeSlot.encode
  split
  · rename_i hderived
    obtain ⟨href, hat, hmodel, heffort⟩ := hderived
    cases slot
    simp_all [ClaudeSlot.decode]
  · rfl

/-- The text of a first record is its own. -/
theorem text_decode_encode (value : Option String) (first : Option (Option String)) :
    (ClaudeRecordText.encode value (first.map .Own)).decode first = some value := by
  cases first with
  | none => rfl
  | some first =>
    unfold ClaudeRecordText.encode
    dsimp only [map_some]
    split
    · rename_i hsame
      exact congrArg some hsame
    · rfl

theorem text_get_encode (value : Option String) (first : Option (Option String)) :
    (ClaudeRecordText.encode value (first.map .Own)).get (first.map .Own) = some value := by
  cases first with
  | none => rfl
  | some first =>
    unfold ClaudeRecordText.encode
    dsimp only [map_some]
    split
    · rename_i hsame
      exact congrArg some hsame
    · rfl

/-- A map is built again from its entries. -/
theorem tool_uses_decode (uses : SortedMap String String) :
    uses.entries.foldl (fun uses use => uses.insert use.1 use.2) .empty = uses := by
  ext1 id
  rw [get?_foldl_insert _ uses.sorted, get?_empty, or_none]
  rfl

/-! ## One response -/

/-- A pushed record at its place in the response. -/
def PushedRecord.at (record : PushedRecord) (position : Nat) : ClaudeResponseRecord :=
  { record with physical_sequence := UInt64.ofNat position }

/-- The records with their positions. -/
def placed (records : List PushedRecord) : List ClaudeResponseRecord :=
  records.zipIdx.map (fun entry => entry.1.at entry.2)

theorem placed_snoc (records : List PushedRecord) (record : PushedRecord) :
    placed (records ++ [record]) = placed records ++ [record.at records.length] := by
  unfold placed
  rw [zipIdx_append, map_append]
  simp

@[simp] theorem placed_length (records : List PushedRecord) :
    (placed records).length = records.length := by
  simp [placed]

theorem placed_request_ids (records : List PushedRecord) :
    (placed records).map (fun record => record.request_id) =
      records.map (fun record => record.request_id) := by
  unfold placed
  conv_rhs => rw [← List.zipIdx_map_fst 0 records]
  rw [List.map_map, List.map_map]
  rfl

theorem placed_head? (records : List PushedRecord) :
    (placed records).head? = records.head?.map (fun record => record.at 0) := by
  cases records <;> rfl

/-- The first compact record keeps its own texts. -/
structure FirstOf (first : Option CompactClaudeResponseRecord) (record : Option PushedRecord) :
    Prop where
  model : first.map CompactClaudeResponseRecord.model = (record.map PushedRecord.model).map .Own
  reasoning_effort : first.map CompactClaudeResponseRecord.reasoning_effort =
    (record.map PushedRecord.reasoning_effort).map .Own
  request_id : first.map CompactClaudeResponseRecord.request_id =
    (record.map PushedRecord.request_id).map .Own

/-- The compact records stand for the pushed ones, in order. -/
structure Encodes (table : ClaudeSelectorTable) (compact : List CompactClaudeResponseRecord)
    (records : List PushedRecord) : Prop where
  decoded : decode_records compact table = some (placed records)
  length : compact.length = records.length
  first : FirstOf compact.head? records.head?
  request_ids : compact.map (fun record => record.provider_request_id compact.head?) =
    records.map (fun record => record.request_id)

variable {compact : List CompactClaudeResponseRecord}

theorem decode_loop_snoc {selectors : ClaudeSelectorTable} {decoded : List ClaudeResponseRecord}
    {last : CompactClaudeResponseRecord} :
    decode_loop selectors decoded (compact ++ [last]) =
      (decode_loop selectors decoded compact).bind (fun decoded =>
        (last.decode decoded.length decoded.head? selectors).map (fun record =>
          decoded ++ [record])) := by
  induction compact generalizing decoded with
  | nil =>
    simp only [nil_append, decode_loop, bind_eq_bind, bind_some]
    cases last.decode decoded.length decoded.head? selectors <;> rfl
  | cons record rest ih =>
    simp only [cons_append, decode_loop, bind_eq_bind]
    cases record.decode decoded.length decoded.head? selectors with
    | none => rfl
    | some record => exact ih

theorem decode_extends (h : Extends table grown)
    {compact : CompactClaudeResponseRecord} {position : Nat} {first : Option ClaudeResponseRecord}
    {record : ClaudeResponseRecord} (hdecoded : compact.decode position first table = some record) :
    compact.decode position first grown = some record := by
  unfold CompactClaudeResponseRecord.decode at hdecoded ⊢
  simp only [bind_eq_bind, bind_eq_some_iff] at hdecoded ⊢
  obtain ⟨model, hmodel, effort, heffort, request_id, hid, selector, hselector, hrecord⟩ := hdecoded
  exact ⟨model, hmodel, effort, heffort, request_id, hid, selector,
    decode_selector_extends h hselector, hrecord⟩

theorem decode_loop_extends (h : Extends table grown) {decoded records : List ClaudeResponseRecord}
    (hdecoded : decode_loop table decoded compact = some records) :
    decode_loop grown decoded compact = some records := by
  induction compact generalizing decoded with
  | nil => exact hdecoded
  | cons record rest ih =>
    unfold decode_loop at hdecoded ⊢
    obtain ⟨first, hfirst, hrest⟩ := bind_eq_some_iff.mp hdecoded
    rw [decode_extends h hfirst]
    exact ih hrest

theorem Encodes.extends (h : Extends table grown) {records : List PushedRecord}
    (hencodes : Encodes table compact records) : Encodes grown compact records :=
  { hencodes with decoded := decode_loop_extends h hencodes.decoded }

/-- A pushed record decodes behind the first one, and its request id is read in place. -/
theorem decode_encode {table : ClaudeSelectorTable} {first : Option CompactClaudeResponseRecord}
    {before : Option PushedRecord} (hfirst : FirstOf first before) {record : PushedRecord}
    {selector : CompactClaudeSelector} (hselector : table.decode selector = some record.selector)
    (position : Nat) :
    (CompactClaudeResponseRecord.encode first position record selector).decode position
        (before.map (fun record => record.at 0)) table = some (record.at position) ∧
      (CompactClaudeResponseRecord.encode first position record selector).provider_request_id first =
        record.request_id := by
  constructor
  · have hmodel := text_decode_encode record.model (before.map PushedRecord.model)
    have heffort := text_decode_encode record.reasoning_effort
      (before.map PushedRecord.reasoning_effort)
    have hid := text_decode_encode record.request_id (before.map PushedRecord.request_id)
    have hdecoded : ∀ field : PushedRecord → Option String,
        (before.map (fun record => record.at 0)).map (fun first => field first.toPushedRecord) =
          before.map field := by
      intro field
      cases before <;> rfl
    unfold CompactClaudeResponseRecord.decode CompactClaudeResponseRecord.encode
    rw [hfirst.model, hfirst.reasoning_effort, hfirst.request_id, hdecoded PushedRecord.model,
      hdecoded PushedRecord.reasoning_effort, hdecoded PushedRecord.request_id, hmodel, heffort,
      hid, hselector]
    simp only [bind_eq_bind, bind_some, usage_decode_encode, slot_decode_encode,
      tool_uses_decode]
    rfl
  · have hid := text_get_encode record.request_id (before.map PushedRecord.request_id)
    unfold CompactClaudeResponseRecord.provider_request_id CompactClaudeResponseRecord.encode
    rw [hfirst.request_id, hid]
    rfl

/-- The first record of a response is its own first record. -/
theorem Encodes.new {table : ClaudeSelectorTable} {record : PushedRecord}
    {selector : CompactClaudeSelector} (hselector : table.decode selector = some record.selector) :
    Encodes table [.encode none 0 record selector] [record] := by
  obtain ⟨hdecodes, -⟩ := @decode_encode table none none ⟨rfl, rfl, rfl⟩ record selector hselector 0
  refine ⟨?_, rfl, ⟨rfl, rfl, rfl⟩, rfl⟩
  unfold decode_records decode_loop decode_loop
  have hfirst : (CompactClaudeResponseRecord.encode none 0 record selector).decode 0 none table =
      some (record.at 0) := hdecodes
  simp only [length_nil, List.head?_nil, bind_eq_bind, hfirst, bind_some]
  rfl

/-- One more record is encoded as exactly. -/
theorem Encodes.push
    {records : List PushedRecord} (h : Encodes table compact records) {record : PushedRecord}
    {selector : CompactClaudeSelector} (hselector : table.decode selector = some record.selector) :
    Encodes table (compact ++ [.encode compact.head? compact.length record selector])
      (records ++ [record]) := by
  cases compact with
  | nil =>
    have hempty : records = [] := length_eq_zero_iff.mp h.length.symm
    subst hempty
    exact Encodes.new hselector
  | cons first rest =>
    obtain ⟨before, others, rfl⟩ : ∃ before others, records = before :: others := by
      apply exists_cons_of_length_pos
      rw [← h.length]
      exact Nat.succ_pos _
    obtain ⟨hdecodes, hid⟩ := decode_encode h.first hselector (first :: rest).length
    refine ⟨?_, ?_, h.first, ?_⟩
    · unfold decode_records
      have hdecoded : decode_loop table [] (first :: rest) = some (placed (before :: others)) :=
        h.decoded
      rw [decode_loop_snoc, hdecoded, bind_some, placed_head?, placed_length, ← h.length,
        hdecodes, placed_snoc, ← h.length]
      rfl
    · rw [length_append, length_append, h.length]
      rfl
    · rw [map_append, map_append]
      exact congrArg₂ (· ++ ·) h.request_ids (congrArg (fun id => [id]) hid)

/-! ## The book of a file -/

namespace ClaudeResponseBook

/-- The records of a key, in the order they were pushed. -/
def records_of (lines : List Line) (key : String) : List PushedRecord :=
  (lines.filter (fun line => line.key = key)).map (fun line => line.record)

/-- Every response of the book decodes to the records of its key. -/
structure Retains (book : ClaudeResponseBook) (lines : List Line) : Prop where
  interned : book.selectors.length ≤ MAX_INTERNED_SELECTORS
  responses : ∀ key slot, book.index.get? key = some slot →
    ∃ response, book.responses[slot]? = some response ∧
      Encodes book.selectors response.records (records_of lines key)
  slots : ∀ key other slot, book.index.get? key = some slot → book.index.get? other = some slot →
    key = other
  absent : ∀ key, book.index.get? key = none →
    records_of lines key = [] ∨ 2 ^ 32 ≤ book.responses.length

/-- The response of a key, if the book holds one. -/
def response (self : ClaudeResponseBook) (key : String) : Option ClaudeResponseObservation :=
  (self.slot key).bind (fun slot => self.responses[slot]?)

theorem retains_empty : ({} : ClaudeResponseBook).Retains [] where
  interned := Nat.zero_le _
  responses key slot h := by cases h
  slots key other slot h := by cases h
  absent _ _ := .inl rfl

theorem records_of_snoc (lines : List Line) (line : Line) (key : String) :
    records_of (lines ++ [line]) key =
      records_of lines key ++ if line.key = key then [line.record] else [] := by
  unfold records_of
  by_cases h : line.key = key <;> simp [h]

theorem slot_eq {self : ClaudeResponseBook} {lines : List Line} (h : self.Retains lines)
    (key : String) : self.slot key = self.index.get? key := by
  unfold slot
  cases hslot : self.index.get? key with
  | none => rfl
  | some slot =>
    obtain ⟨response, hresponse, -⟩ := h.responses key slot hslot
    have hlt := (List.getElem?_eq_some_iff.mp hresponse).1
    rw [filter_some, if_pos (decide_eq_true hlt)]

/-- One line is retained exactly, and every other response with it. -/
theorem retains_observe {self : ClaudeResponseBook} {lines : List Line} (h : self.Retains lines)
    (line : Line) : (self.observe line).Retains (lines ++ [line]) := by
  obtain ⟨hextends, hinterned, hselector⟩ := intern_spec h.interned line.record.selector
  have hother : ∀ key, line.key ≠ key →
      records_of (lines ++ [line]) key = records_of lines key := by
    intro key hne
    rw [records_of_snoc, if_neg hne, List.append_nil]
  have hown : records_of (lines ++ [line]) line.key = records_of lines line.key ++ [line.record] := by
    rw [records_of_snoc, if_pos rfl]
  have hslot : ({ self with selectors := (self.selectors.intern line.record.selector).1 } :
      ClaudeResponseBook).slot line.key = self.index.get? line.key := slot_eq h line.key
  unfold observe
  dsimp only
  rw [hslot]
  cases hkey : self.index.get? line.key with
  | some slot =>
    refine ⟨hinterned, ?_, h.slots, ?_⟩
    · intro key place hplace
      obtain ⟨response, hresponse, hencodes⟩ := h.responses key place hplace
      have hgrown := hencodes.extends hextends
      rw [List.getElem?_modify, hresponse, Option.map_eq_map, Option.map_some]
      by_cases hsame : line.key = key
      · subst hsame
        have hat : slot = place := Option.some.inj (hkey.symm.trans hplace)
        subst hat
        rw [if_pos rfl, hown]
        exact ⟨_, rfl, hgrown.push hselector⟩
      · have hat : slot ≠ place := fun hat => hsame (h.slots _ _ slot hkey (hat ▸ hplace))
        rw [if_neg hat, hother key hsame]
        exact ⟨response, rfl, hgrown⟩
    · intro key hnone
      have hne : line.key ≠ key := by
        rintro rfl
        rw [hkey] at hnone
        cases hnone
      rw [hother key hne, List.length_modify]
      exact h.absent key hnone
  | none =>
    dsimp only
    unfold insert
    split
    · rename_i hroom
      have hroom' : self.responses.length < 2 ^ 32 := hroom
      have hnew : records_of (lines ++ [line]) line.key = [line.record] := by
        rcases h.absent line.key hkey with hnone | hfull
        · rw [hown, hnone]
          rfl
        · exact absurd hroom' (Nat.not_lt.mpr hfull)
      have hindex : ∀ key place,
          (self.index.insert line.key self.responses.length).get? key = some place →
            (key = line.key ∧ place = self.responses.length) ∨
              (line.key ≠ key ∧ self.index.get? key = some place) := by
        intro key place hplace
        rw [get?_insert] at hplace
        by_cases hsame : key = line.key
        · rw [if_pos hsame] at hplace
          exact .inl ⟨hsame, (Option.some.inj hplace).symm⟩
        · rw [if_neg hsame] at hplace
          exact .inr ⟨fun heq => hsame heq.symm, hplace⟩
      have hbound : ∀ key place, self.index.get? key = some place → place < self.responses.length := by
        intro key place hplace
        obtain ⟨response, hresponse, -⟩ := h.responses key place hplace
        exact (List.getElem?_eq_some_iff.mp hresponse).1
      refine ⟨hinterned, ?_, ?_, ?_⟩
      · intro key place hplace
        rcases hindex key place hplace with ⟨rfl, rfl⟩ | ⟨hne, hplace⟩
        · rw [hnew, List.getElem?_concat_length]
          exact ⟨_, rfl, Encodes.new hselector⟩
        · obtain ⟨response, hresponse, hencodes⟩ := h.responses key place hplace
          rw [List.getElem?_append_left (hbound key place hplace), hother key hne]
          exact ⟨response, hresponse, hencodes.extends hextends⟩
      · intro key other place hfirst hsecond
        rcases hindex key place hfirst with ⟨rfl, hat⟩ | ⟨_, hfirst⟩ <;>
          rcases hindex other place hsecond with ⟨rfl, hother_at⟩ | ⟨_, hsecond⟩
        · rfl
        · exact absurd (hat ▸ hbound other place hsecond) (lt_irrefl _)
        · exact absurd (hother_at ▸ hbound key place hfirst) (lt_irrefl _)
        · exact h.slots key other place hfirst hsecond
      · intro key hnone
        rw [get?_insert] at hnone
        by_cases hsame : key = line.key
        · rw [if_pos hsame] at hnone
          cases hnone
        · rw [if_neg hsame] at hnone
          rw [hother key (fun heq => hsame heq.symm)]
          rcases h.absent key hnone with hempty | hfull
          · exact .inl hempty
          · exact absurd hroom' (Nat.not_lt.mpr hfull)
    · rename_i hfull
      refine ⟨hinterned, ?_, h.slots, fun _ _ => .inr (Nat.not_lt.mp hfull)⟩
      intro key place hplace
      obtain ⟨response, hresponse, hencodes⟩ := h.responses key place hplace
      have hne : line.key ≠ key := by
        rintro rfl
        rw [hkey] at hplace
        cases hplace
      rw [hother key hne]
      exact ⟨response, hresponse, hencodes.extends hextends⟩

theorem retains_run (lines : List Line) : (run observe {} lines).Retains lines := by
  induction lines using List.reverseRecOn with
  | nil => exact retains_empty
  | append_singleton lines line ih =>
    rw [Run.snoc]
    exact retains_observe ih line

/-- Every response of a book decodes to the records that were pushed for it, in order and
with their positions; a request id is read without decoding; and no response is lost while a
`u32` has a slot for it. -/
theorem retained_records_decode_exactly (lines : List Line) :
    let book := run observe {} lines
    (∀ key response, book.response key = some response →
      decode_records response.records book.selectors = some (placed (records_of lines key)) ∧
        response.records.map (fun record => record.provider_request_id response.records.head?) =
          (placed (records_of lines key)).map (fun record => record.request_id)) ∧
    (book.responses.length < 2 ^ 32 →
      ∀ line ∈ lines, (book.response line.key).isSome = true) := by
  intro book
  have h : book.Retains lines := retains_run lines
  constructor
  · intro key response hresponse
    unfold ClaudeResponseBook.response at hresponse
    rw [slot_eq h] at hresponse
    obtain ⟨slot, hslot, hat⟩ := bind_eq_some_iff.mp hresponse
    obtain ⟨held, hheld, hencodes⟩ := h.responses key slot hslot
    rw [hat] at hheld
    cases hheld
    refine ⟨hencodes.decoded, hencodes.request_ids.trans ?_⟩
    exact (placed_request_ids _).symm
  · intro hroom line hline
    unfold ClaudeResponseBook.response
    rw [slot_eq h]
    cases hslot : book.index.get? line.key with
    | none =>
      rcases h.absent line.key hslot with hempty | hfull
      · have hmem : line.record ∈ records_of lines line.key :=
          mem_map_of_mem (mem_filter.mpr ⟨hline, decide_eq_true rfl⟩)
        rw [hempty] at hmem
        cases hmem
      · exact absurd hroom (Nat.not_lt.mpr hfull)
    | some slot =>
      obtain ⟨held, hheld, -⟩ := h.responses line.key slot hslot
      rw [bind_some, hheld]
      rfl

end ClaudeResponseBook

end ottto_service.claude_response_records
