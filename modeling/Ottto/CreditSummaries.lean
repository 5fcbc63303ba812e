-- The summaries of a credit balance (quota_credit_model.rs): each is exact over the whole
-- list of the provider, or it is absent.
import Ottto.CreditGrants

namespace ottto_service.quota_credit_model

open List Option

/-! ## The order of the list -/

section Order

variable (time : accumulator.Rfc3339)

/-- The expiry, with none last, then the key. -/
def order_key (grant : AgentCreditGrant) : WithTop Int ×ₗ String :=
  toLex (((grant.expires_at.bind time.parse).elim ⊤ (fun instant => (instant : WithTop Int))),
    grant.grant_key)

variable {time}

theorem then_ne_gt {first second : Ordering} :
    first.then second ≠ .gt ↔ first = .lt ∨ first = .eq ∧ second ≠ .gt := by
  cases first <;> simp [Ordering.then]

theorem grant_order_ne_gt {left right : AgentCreditGrant} :
    grant_order time left right ≠ .gt ↔ order_key time left ≤ order_key time right := by
  unfold grant_order order_key
  rw [then_ne_gt, Prod.Lex.toLex_le_toLex, compare_le_iff_le]
  cases left.expires_at.bind time.parse <;> cases right.expires_at.bind time.parse <;>
    simp [compare_lt_iff_lt]

theorem sort_grants_perm (grants : List AgentCreditGrant) : (sort_grants time grants).Perm grants :=
  perm_insertionSort _ _

theorem sort_grants_sorted (grants : List AgentCreditGrant) :
    (sort_grants time grants).Pairwise (fun a b => order_key time a ≤ order_key time b) := by
  let before := fun a b : AgentCreditGrant => grant_order time a b ≠ .gt
  have htotal : Std.Total before :=
    ⟨fun a b => by
      simp only [before, grant_order_ne_gt]
      exact le_total _ _⟩
  have htrans : IsTrans AgentCreditGrant before :=
    ⟨fun a b c hab hbc => by
      simp only [before, grant_order_ne_gt] at hab hbc ⊢
      exact hab.trans hbc⟩
  have hsorted : (sort_grants time grants).Pairwise before := pairwise_insertionSort before grants
  exact hsorted.imp (fun h => grant_order_ne_gt.mp h)

/-- Grants of distinct keys have one order. -/
theorem sort_grants_of_perm {grants others : List AgentCreditGrant} (h : grants.Perm others)
    (hkeys : (grants.map (fun grant => grant.grant_key)).Nodup) :
    sort_grants time grants = sort_grants time others := by
  have hperm := (@sort_grants_perm time grants).trans (h.trans (@sort_grants_perm time others).symm)
  refine List.Perm.eq_of_pairwise ?_ (sort_grants_sorted grants) (sort_grants_sorted others) hperm
  intro a b ha hb hab hba
  have hkey : a.grant_key = b.grant_key :=
    congrArg (fun key => (ofLex key).2) (le_antisymm hab hba)
  have ha' : a ∈ grants := (sort_grants_perm grants).mem_iff.mp ha
  have hb' : b ∈ grants := h.mem_iff.mpr ((sort_grants_perm others).mem_iff.mp hb)
  exact inj_on_of_nodup_map hkeys ha' hb' hkey

end Order

/-! ## The least and the greatest instant -/

section Extremes

variable {α : Type} {keeps : α → α → Bool} {before : α → α → Prop}

theorem choose_spec (htrans : ∀ {a b c}, before a b → before b c → before a c)
    (hkeeps : ∀ {a b}, keeps a b = true → before a b) (hgives : ∀ {a b}, keeps a b = false → before b a)
    (hself : ∀ a, before a a) {l : List α} {a : α} (h : choose keeps l = some a) :
    a ∈ l ∧ ∀ b ∈ l, before a b := by
  induction l generalizing a with
  | nil => cases h
  | cons first rest ih =>
    unfold choose at h
    cases hrest : choose keeps rest with
    | none =>
      rw [hrest] at h
      cases h
      have hempty : rest = [] := by
        cases rest with
        | nil => rfl
        | cons next more =>
          unfold choose at hrest
          split at hrest
          · cases hrest
          · split at hrest <;> cases hrest
      subst hempty
      exact ⟨mem_cons_self, fun b hb => mem_singleton.mp hb ▸ hself first⟩
    | some best =>
      obtain ⟨hmem, hleast⟩ := ih hrest
      rw [hrest] at h
      dsimp only at h
      split at h
      · rename_i hkept
        cases h
        refine ⟨mem_cons_self, ?_⟩
        intro b hb
        rcases mem_cons.mp hb with rfl | hb
        · exact hself b
        · exact htrans (hkeeps hkept) (hleast b hb)
      · rename_i hgiven
        cases h
        refine ⟨mem_cons_of_mem _ hmem, ?_⟩
        intro b hb
        rcases mem_cons.mp hb with rfl | hb
        · exact hgives (Bool.not_eq_true _ ▸ hgiven)
        · exact hleast b hb

theorem choose_eq_none {l : List α} : choose keeps l = none ↔ l = [] := by
  cases l with
  | nil => exact iff_of_true rfl rfl
  | cons first rest =>
    refine iff_of_false ?_ (cons_ne_nil first rest)
    unfold choose
    split
    · exact some_ne_none _
    · split <;> exact some_ne_none _

theorem min_by_key_spec {key : α → Int} {l : List α} {a : α} (h : min_by_key key l = some a) :
    a ∈ l ∧ ∀ b ∈ l, key a ≤ key b :=
  @choose_spec _ _ (fun a b => key a ≤ key b) le_trans of_decide_eq_true
    (fun hgiven => le_of_lt (not_le.mp (of_decide_eq_false hgiven))) (fun a => le_refl (key a)) _ _ h

theorem max_by_key_spec {key : α → Int} {l : List α} {a : α} (h : max_by_key key l = some a) :
    a ∈ l ∧ ∀ b ∈ l, key b ≤ key a :=
  @choose_spec _ _ (fun a b => key b ≤ key a) (fun hab hbc => hbc.trans hab)
    (fun hkept => le_of_lt (of_decide_eq_true hkept))
    (fun hgiven => not_lt.mp (of_decide_eq_false hgiven)) (fun a => le_refl (key a)) _ _ h

end Extremes

/-! ## The soonest expiry and the latest grant -/

section Summaries

variable {time : accumulator.Rfc3339} {unicode : ottto_protocol.Unicode} {provider : Provider}
  {record : GrantInput}

/-- A text that was written from an instant. -/
def Written (time : accumulator.Rfc3339) (text : Option String) : Prop :=
  ∀ written ∈ text, ∃ instant, time.format instant = some written

theorem mem_instants {texts : List (Option String)} {entry : Int × String} :
    entry ∈ instants time texts ↔ some entry.2 ∈ texts ∧ time.parse entry.2 = some entry.1 := by
  unfold instants
  rw [mem_filterMap]
  constructor
  · rintro ⟨text, hmem, htext⟩
    cases text with
    | none => cases htext
    | some text =>
      simp only [bind_eq_bind, bind_some, bind_eq_some_iff,
        Option.some.injEq] at htext
      obtain ⟨instant, hparse, rfl⟩ := htext
      exact ⟨hmem, hparse⟩
  · rintro ⟨hmem, hparse⟩
    refine ⟨some entry.2, hmem, ?_⟩
    simp [hparse]

/-- `result` is the text whose instant comes `before` all others, and `none` when there are
no texts. -/
def Extreme (before : Int → Int → Prop) (time : accumulator.Rfc3339)
    (texts : List (Option String)) : Option String → Prop
  | none => ∀ text ∈ texts, text = none
  | some text => some text ∈ texts ∧ ∃ instant, time.parse text = some instant ∧
      ∀ other, some other ∈ texts → ∃ otherwise, time.parse other = some otherwise ∧
        before instant otherwise

theorem extreme_of_chosen {before : Int → Int → Prop} {texts : List (Option String)}
    {chosen : Option (Int × String)} (hwritten : ∀ text ∈ texts, Written time text)
    (hnone : chosen = none → instants time texts = [])
    (hsome : ∀ entry, chosen = some entry → entry ∈ instants time texts ∧
      ∀ other ∈ instants time texts, before entry.1 other.1) :
    Extreme before time texts (chosen.map Prod.snd) := by
  have hread : ∀ text, some text ∈ texts → ∃ instant, (instant, text) ∈ instants time texts := by
    intro text hmem
    obtain ⟨instant, hformat⟩ := hwritten _ hmem text rfl
    exact ⟨instant, mem_instants.mpr ⟨hmem, time.parse_format instant text hformat⟩⟩
  cases hchosen : chosen with
  | none =>
    intro text hmem
    cases text with
    | none => rfl
    | some text =>
      obtain ⟨instant, hin⟩ := hread text hmem
      rw [hnone hchosen] at hin
      cases hin
  | some entry =>
    obtain ⟨hin, hbefore⟩ := hsome entry hchosen
    obtain ⟨hmem, hparse⟩ := mem_instants.mp hin
    refine ⟨hmem, entry.1, hparse, ?_⟩
    intro other hother
    obtain ⟨instant, hin'⟩ := hread other hother
    exact ⟨instant, (mem_instants.mp hin').2, hbefore _ hin'⟩

def expiries (grants : List AgentCreditGrant) : List (Option String) :=
  (grants.filter counts_toward_next_expiry).map (fun grant => grant.expires_at)

/-- The soonest expiry of the available and paused grants. -/
def Soonest (time : accumulator.Rfc3339) (grants : List AgentCreditGrant) : Option String → Prop :=
  Extreme (· ≤ ·) time (expiries grants)

/-- The latest time that a grant was given. -/
def Latest (time : accumulator.Rfc3339) (grants : List AgentCreditGrant) : Option String → Prop :=
  Extreme (· ≥ ·) time (grants.map (fun grant => grant.granted_at))

variable {grants : List AgentCreditGrant}

theorem next_expires_at_soonest (h : ∀ grant ∈ grants, Written time grant.expires_at) :
    Soonest time grants (next_expires_at time grants) := by
  refine extreme_of_chosen ?_ (fun hnone => choose_eq_none.mp hnone)
    (fun entry hchosen => min_by_key_spec hchosen)
  intro text hmem
  obtain ⟨grant, hgrant, rfl⟩ := mem_map.mp hmem
  exact h grant (mem_filter.mp hgrant).1

theorem latest_granted_at_latest (h : ∀ grant ∈ grants, Written time grant.granted_at) :
    Latest time grants (latest_granted_at time grants) := by
  refine extreme_of_chosen ?_ (fun hnone => choose_eq_none.mp hnone)
    (fun entry hchosen => max_by_key_spec hchosen)
  intro text hmem
  obtain ⟨grant, hgrant, rfl⟩ := mem_map.mp hmem
  exact h grant hgrant

/-! ## One record -/

/-- The record gives a grant, and no status, time or reset count of it is refused. -/
structure Accepted (time : accumulator.Rfc3339) (provider : Provider) (record : GrantInput) : Prop where
  id : ∃ id, record.id = .Value id ∧ grant_id_is_valid provider id = true
  status : (grant_status record.status).isSome = true
  resets_left : record.resets_left = .Absent ∨
    ∃ resets, record.resets_left = .Value resets ∧ resets ≤ RESETS_MAX
  resets_included : record.resets_included = .Absent ∨
    ∃ resets, record.resets_included = .Value resets ∧ resets ≤ RESETS_MAX
  granted_at : (normalize_time time record.granted_at).isSome = true
  starts_at : (normalize_time time record.starts_at).isSome = true
  expires_at : (normalize_time time record.expires_at).isSome = true

variable {field : String}

theorem bounded_resets_accepts {input : Field UInt64} :
    (bounded_resets input field).2 = [] ↔
      input = .Absent ∨ ∃ resets, input = .Value resets ∧ resets ≤ RESETS_MAX := by
  cases input with
  | Absent => simp [bounded_resets]
  | Invalid => simp [bounded_resets]
  | Value resets =>
    unfold bounded_resets
    dsimp only
    split <;> simp_all

theorem bounded_time_accepts {input : TimeInput} :
    (bounded_time time input field).2 = [] ↔ (normalize_time time input).isSome = true := by
  unfold bounded_time
  cases normalize_time time input <;> simp

theorem valid_id_eq_some {field : Field String} {id : String} :
    valid_id provider field = some id ↔
      field = .Value id ∧ grant_id_is_valid provider id = true := by
  cases field with
  | Absent => simp [valid_id]
  | Invalid => simp [valid_id]
  | Value text =>
    unfold valid_id
    dsimp only
    split
    · rename_i hvalid
      constructor
      · intro h
        cases h
        exact ⟨rfl, hvalid⟩
      · rintro ⟨h, -⟩
        cases h
        rfl
    · rename_i hinvalid
      refine iff_of_false (some_ne_none id).symm ?_
      rintro ⟨h, hvalid⟩
      cases h
      exact hinvalid hvalid

theorem state_refusals_eq_nil {id : String} (hid : valid_id provider record.id = some id) :
    state_refusals time record = [] ↔ Accepted time provider record := by
  unfold state_refusals
  simp only [append_eq_nil_iff, bounded_resets_accepts, bounded_time_accepts]
  have hstatus : (if (grant_status record.status).isNone = true then
      [field_refused "grants[].status"] else []) = [] ↔
        (grant_status record.status).isSome = true := by
    cases grant_status record.status <;> simp
  rw [hstatus]
  constructor
  · rintro ⟨⟨⟨⟨⟨hleft, hincluded⟩, hword⟩, hgranted⟩, hstarts⟩, hexpires⟩
    exact ⟨⟨id, valid_id_eq_some.mp hid⟩, hword, hleft, hincluded, hgranted, hstarts, hexpires⟩
  · intro h
    exact ⟨⟨⟨⟨⟨h.resets_left, h.resets_included⟩, h.status⟩, h.granted_at⟩, h.starts_at⟩,
      h.expires_at⟩

/-- What the size bound leaves of a grant. -/
structure Sheds (whole grant : AgentCreditGrant) : Prop where
  grant_key : grant.grant_key = whole.grant_key
  status : grant.status = whole.status
  granted_at : grant.granted_at = whole.granted_at
  expires_at : grant.expires_at = whole.expires_at
  resets_left : grant.resets_left = whole.resets_left

theorem shed_sheds (whole : AgentCreditGrant) :
    Sheds whole (shed_clears (shed_title whole).1).1 := by
  unfold shed_clears shed_title
  split <;> split <;> exact ⟨rfl, rfl, rfl, rfl, rfl⟩

variable {grant : AgentCreditGrant} {refused : Bool}

theorem build_grant_eq_some
    (h : (build_grant time unicode provider record).1 = some (grant, refused)) :
    ∃ id, valid_id provider record.id = some id ∧
      Sheds (whole_grant time unicode provider id record) grant ∧
      (refused = false ↔ Accepted time provider record) := by
  unfold build_grant at h
  cases hid : valid_id provider record.id with
  | none =>
    rw [hid] at h
    cases h
  | some id =>
    rw [hid] at h
    obtain ⟨rfl, rfl⟩ := h
    refine ⟨id, rfl, shed_sheds _, ?_⟩
    rw [← state_refusals_eq_nil hid, Bool.not_eq_false', List.isEmpty_iff]

theorem build_grant_accepted :
    ((build_grant time unicode provider record).1.elim true Prod.snd) = false ↔
      Accepted time provider record := by
  cases hbuilt : (build_grant time unicode provider record).1 with
  | none =>
    refine iff_of_false Bool.true_eq_false_eq_False ?_
    intro h
    obtain ⟨id, hid⟩ := h.id
    unfold build_grant at hbuilt
    rw [valid_id_eq_some.mpr hid] at hbuilt
    cases hbuilt
  | some built =>
    obtain ⟨id, -, -, hrefused⟩ := build_grant_eq_some hbuilt
    exact hrefused

/-! ## The whole list -/

/-- Every grant of the records, in their order. -/
def built_grants (time : accumulator.Rfc3339) (unicode : ottto_protocol.Unicode)
    (provider : Provider) (records : List GrantInput) : List AgentCreditGrant :=
  (records.map (build_grant time unicode provider)).filterMap (fun result => result.1.map Prod.fst)

theorem written_bounded_time {input : TimeInput} :
    Written time (bounded_time time input field).1 := by
  have hformatted : ∀ (instant : Option Int) (text : String),
      ((instant.bind time.format).map some : Option (Option String)) = some (some text) →
        ∃ instant, time.format instant = some text := by
    intro instant text h
    cases instant with
    | none => cases h
    | some instant =>
      obtain ⟨written, hwritten, heq⟩ := map_eq_some_iff.mp h
      cases heq
      exact ⟨instant, hwritten⟩
  intro text htext
  unfold bounded_time at htext
  cases hinput : normalize_time time input with
  | none =>
    rw [hinput] at htext
    cases htext
  | some value =>
    rw [hinput] at htext
    cases htext
    cases input with
    | Absent => cases hinput
    | Invalid => cases hinput
    | Rfc3339 read => exact hformatted _ _ hinput
    | UnixSeconds seconds => exact hformatted _ _ hinput

variable {records : List GrantInput}

theorem mem_built_grants (h : grant ∈ built_grants time unicode provider records) :
    ∃ record ∈ records, ∃ refused,
      (build_grant time unicode provider record).1 = some (grant, refused) := by
  obtain ⟨result, hresult, hgrant⟩ := mem_filterMap.mp h
  obtain ⟨record, hrecord, rfl⟩ := mem_map.mp hresult
  obtain ⟨⟨built, refused⟩, hbuilt, rfl⟩ := map_eq_some_iff.mp hgrant
  exact ⟨record, hrecord, refused, hbuilt⟩

theorem built_grants_written (h : grant ∈ built_grants time unicode provider records) :
    Written time grant.expires_at ∧ Written time grant.granted_at := by
  obtain ⟨record, -, refused, hbuilt⟩ := mem_built_grants h
  obtain ⟨id, -, hsheds, -⟩ := build_grant_eq_some hbuilt
  rw [hsheds.expires_at, hsheds.granted_at]
  exact ⟨written_bounded_time, written_bounded_time⟩

/-- The keys of the list are those of its valid ids. -/
theorem built_grants_keys :
    (built_grants time unicode provider records).map (fun grant => grant.grant_key) =
      (records.filterMap (fun record => valid_id provider record.id)).map
        (credit_grant_key provider) := by
  unfold built_grants
  rw [filterMap_map, map_filterMap, map_filterMap]
  congr 1
  funext record
  rw [Function.comp_apply, Option.map_map]
  cases hid : valid_id provider record.id with
  | none =>
    unfold build_grant
    rw [hid]
    rfl
  | some id =>
    have hbuilt : (build_grant time unicode provider record).1.isSome = true := by
      unfold build_grant
      rw [hid]
      rfl
    obtain ⟨⟨grant, refused⟩, hbuilt⟩ := Option.isSome_iff_exists.mp hbuilt
    obtain ⟨id', hid', hsheds, -⟩ := build_grant_eq_some hbuilt
    rw [hid] at hid'
    cases hid'
    rw [hbuilt]
    exact congrArg some hsheds.grant_key

/-- The provider counted the records that it sent, and each was accepted. -/
structure Enumerated (time : accumulator.Rfc3339) (provider : Provider) (provider_count : Option UInt64)
    (records : List GrantInput) : Prop where
  counted : ∃ count, provider_count = some count ∧ count.toNat = records.length
  accepted : ∀ record ∈ records, Accepted time provider record

theorem provider_capped_eq_false {provider_count : Option UInt64} {returned : Nat} :
    provider_capped provider_count returned = some false ↔
      ∃ count, provider_count = some count ∧ count.toNat = returned := by
  unfold provider_capped
  cases provider_count with
  | none => simp
  | some count =>
    simp only [bind_some, Option.some.injEq, exists_eq_left']
    split
    · simp_all
    · split <;> simp_all

theorem any_refused_eq_false :
    ((records.map (build_grant time unicode provider)).any
        (fun result => result.1.elim true Prod.snd)) = false ↔
      ∀ record ∈ records, Accepted time provider record := by
  rw [List.any_eq_false]
  simp only [List.mem_map, forall_exists_index, and_imp, forall_apply_eq_imp_iff₂,
    Bool.not_eq_true, build_grant_accepted]

variable {cut : Bool} {capped : Option Bool}

theorem list_state_eq_complete :
    list_state refused capped cut = .Complete ↔
      (capped = some false ∧ refused = false) ∧ cut = false := by
  rcases capped with _ | _ | _ <;> cases refused <;> cases cut <;> decide

theorem is_sender_capped_eq_true :
    is_sender_capped refused capped cut = true ↔
      (capped = some false ∧ refused = false) ∧ cut = true := by
  rcases capped with _ | _ | _ <;> cases refused <;> cases cut <;> decide

theorem list_state_of_sender_capped
    (h : is_sender_capped refused capped cut = true) : list_state refused capped cut = .Capped := by
  obtain ⟨⟨rfl, rfl⟩, rfl⟩ := is_sender_capped_eq_true.mp h
  rfl

/-! ## The resets that are left -/

/-- The resets of one grant that a balance counts. -/
def counted_resets (grant : AgentCreditGrant) : Nat :=
  if grant.status = .Paused then 0 else grant.resets_left.elim 0 UInt64.toNat

theorem foldl_add_toNat {values : List UInt64} {start : UInt64}
    (h : start.toNat + (values.map UInt64.toNat).sum < 2 ^ 64) :
    (values.foldl (· + ·) start).toNat = start.toNat + (values.map UInt64.toNat).sum := by
  induction values generalizing start with
  | nil => rfl
  | cons value rest ih =>
    rw [map_cons, sum_cons] at h ⊢
    have hadd : (start + value).toNat = start.toNat + value.toNat :=
      Words.toNat_add_of_lt (by omega)
    rw [foldl_cons, ih (by omega), hadd]
    omega

theorem resets_left_toNat (h : (grants.map counted_resets).sum < 2 ^ 64) :
    (resets_left grants).toNat = (grants.map counted_resets).sum := by
  have hvalues : (((grants.filter (fun grant => grant.status ≠ .Paused)).filterMap
      (fun grant => grant.resets_left)).map UInt64.toNat).sum = (grants.map counted_resets).sum := by
    induction grants with
    | nil => rfl
    | cons grant rest ih =>
      rw [map_cons, sum_cons] at h ⊢
      have hrest := ih (by omega)
      unfold counted_resets
      by_cases hpaused : grant.status = .Paused
      · rw [filter_cons_of_neg (by simpa using hpaused), if_pos hpaused, hrest]
        exact (Nat.zero_add _).symm
      · rw [filter_cons_of_pos (by simpa using hpaused), if_neg hpaused]
        cases hresets : grant.resets_left with
        | none =>
          rw [filterMap_cons_none hresets, hrest]
          exact (Nat.zero_add _).symm
        | some resets =>
          rw [filterMap_cons_some hresets, map_cons, sum_cons, hrest]
          rfl
  have hsum := @foldl_add_toNat ((grants.filter (fun grant => grant.status ≠ .Paused)).filterMap
    (fun grant => grant.resets_left)) 0 (by rw [hvalues]; simpa using h)
  rw [hvalues] at hsum
  simpa [resets_left] using hsum

theorem counted_resets_le
    (h : grant ∈ built_grants time unicode provider records) : counted_resets grant ≤ 1000 := by
  obtain ⟨record, -, refused, hbuilt⟩ := mem_built_grants h
  obtain ⟨id, -, hsheds, -⟩ := build_grant_eq_some hbuilt
  unfold counted_resets
  rw [hsheds.resets_left]
  split
  · exact Nat.zero_le _
  · unfold whole_grant bounded_resets
    cases record.resets_left with
    | Absent => exact Nat.zero_le _
    | Invalid => exact Nat.zero_le _
    | Value resets =>
      dsimp only
      split
      · rename_i hle
        exact UInt64.le_iff_toNat_le.mp hle
      · exact Nat.zero_le _

theorem sum_counted_resets_le
    (h : ∀ grant ∈ grants, grant ∈ built_grants time unicode provider records) :
    (grants.map counted_resets).sum ≤ grants.length * 1000 := by
  refine sum_le_card_nsmul _ _ ?_ |>.trans_eq (by rw [length_map]; rfl)
  intro resets hresets
  obtain ⟨grant, hgrant, rfl⟩ := mem_map.mp hresets
  exact counted_resets_le (h grant hgrant)

end Summaries

/-! ## The balance -/

section Balance

variable (time : accumulator.Rfc3339) (unicode : ottto_protocol.Unicode) (provider : Provider)
  (provider_count : Option UInt64) (records : List GrantInput) (observed_at : String)
  (balance : AgentCreditBalance)

/-- The balance after a list was read. -/
def read_balance : AgentCreditBalance :=
  ((build_grants time unicode (.Read provider provider_count records observed_at)).apply_to time
    balance).1

variable {time unicode provider provider_count records observed_at balance}

theorem with_remaining_frame {seen : Option Provider} :
    (with_remaining balance seen).grants = balance.grants ∧
      (with_remaining balance seen).grants_state = balance.grants_state ∧
      (with_remaining balance seen).next_expires_at = balance.next_expires_at ∧
      (with_remaining balance seen).latest_granted_at = balance.latest_granted_at := by
  unfold with_remaining
  split <;> exact ⟨rfl, rfl, rfl, rfl⟩

theorem summarize_frame {seen : Option Provider} :
    (summarize time balance seen).grants = balance.grants ∧
      (summarize time balance seen).grants_state = balance.grants_state ∧
      (summarize time balance seen).next_expires_at = (with_times time balance).next_expires_at ∧
      (summarize time balance seen).latest_granted_at = (with_times time balance).latest_granted_at := by
  unfold summarize
  dsimp only
  split
  · exact ⟨rfl, rfl, rfl, rfl⟩
  · exact with_remaining_frame

theorem summarize_remaining (hresets : is_saved_resets balance = true) :
    (summarize time balance (some .Anthropic)).remaining =
      if is_complete balance then some (resets_left (balance.grants.getD [])) else none := by
  have hsaved : is_saved_resets (with_times time balance) = true := hresets
  unfold summarize
  dsimp only
  rw [hsaved, if_neg (by decide)]
  exact congrArg AgentCreditBalance.remaining (if_pos rfl)

theorem apply_to_frame {build : GrantsBuild} :
    (build.apply_to time balance).1.grants = build.grants ∧
      (build.apply_to time balance).1.grants_state = build.grants_state ∧
      (build.apply_to time balance).1.latest_granted_at =
        (with_times time (build.write balance)).latest_granted_at ∧
      (build.apply_to time balance).1.remaining =
        (summarize time (build.write balance) build.provider).remaining := by
  obtain ⟨hgrants, hstate, -, hlatest⟩ :=
    @summarize_frame time (build.write balance) build.provider
  unfold GrantsBuild.apply_to
  dsimp only
  split <;> exact ⟨hgrants, hstate, hlatest, rfl⟩

theorem apply_to_next_expires_at {build : GrantsBuild} :
    (build.apply_to time balance).1.next_expires_at =
      if build.sender_capped && build.grants_state == some .Capped then
        build.sender_capped_next_expires_at
      else (with_times time (build.write balance)).next_expires_at := by
  obtain ⟨-, hstate, hnext, -⟩ := @summarize_frame time (build.write balance) build.provider
  unfold GrantsBuild.apply_to
  dsimp only
  rw [hstate]
  change (if build.sender_capped && build.grants_state == some .Capped then _ else _ :
    AgentCreditBalance).next_expires_at = _
  split
  · rfl
  · exact hnext

/-! ## A list that was read -/

/-- What the state of the list is decided by. -/
structure Decides (time : accumulator.Rfc3339) (provider : Provider) (provider_count : Option UInt64)
    (records : List GrantInput) (whole : List AgentCreditGrant) (refused cut : Bool)
    (capped : Option Bool) : Prop where
  enumerated : capped = some false ∧ refused = false ↔
    Enumerated time provider provider_count records
  cut : cut = true ↔ GRANTS_MAX < whole.length

theorem build_grants_spec :
    ∃ refused cut capped,
      Decides time provider provider_count records (built_grants time unicode provider records)
        refused cut capped ∧
      let sorted := sort_grants time (built_grants time unicode provider records)
      let build := build_grants time unicode (.Read provider provider_count records observed_at)
      build.grants = some (sorted.take GRANTS_MAX) ∧
        build.grants_state = some (list_state refused capped cut) ∧
        build.sender_capped = is_sender_capped refused capped cut ∧
        build.sender_capped_next_expires_at =
          (if is_sender_capped refused capped cut then next_expires_at time sorted else none) ∧
        build.provider = some provider := by
  refine ⟨_, _, _, ⟨?_, ?_⟩, rfl, rfl, rfl, rfl, rfl⟩
  · rw [provider_capped_eq_false, any_refused_eq_false]
    exact ⟨fun h => ⟨h.1, h.2⟩, fun h => ⟨h.counted, h.accepted⟩⟩
  · rw [decide_eq_true_eq, (sort_grants_perm _).length_eq]
    rfl

theorem sorted_written {grant : AgentCreditGrant}
    (h : grant ∈ sort_grants time (built_grants time unicode provider records)) :
    Written time grant.expires_at ∧ Written time grant.granted_at :=
  built_grants_written ((sort_grants_perm _).mem_iff.mp h)

theorem extreme_of_perm {before : Int → Int → Prop} {texts others : List (Option String)}
    {result : Option String} (hperm : texts.Perm others) (h : Extreme before time texts result) :
    Extreme before time others result := by
  cases result with
  | none => exact fun text hmem => h text (hperm.mem_iff.mpr hmem)
  | some text =>
    obtain ⟨hmem, instant, hparse, hall⟩ := h
    exact ⟨hperm.mem_iff.mp hmem, instant, hparse,
      fun other hother => hall other (hperm.mem_iff.mpr hother)⟩

/-- The soonest expiry of the sorted list is that of the whole list. -/
theorem soonest_of_sorted :
    Soonest time (built_grants time unicode provider records)
      (next_expires_at time (sort_grants time (built_grants time unicode provider records))) :=
  extreme_of_perm (((sort_grants_perm _).filter _).map _)
    (next_expires_at_soonest (fun _ h => (sorted_written h).1))

theorem latest_of_sorted :
    Latest time (built_grants time unicode provider records)
      (latest_granted_at time (sort_grants time (built_grants time unicode provider records))) :=
  extreme_of_perm ((sort_grants_perm _).map _)
    (latest_granted_at_latest (fun _ h => (sorted_written h).2))

def without_diagnostics (build : GrantsBuild) : GrantsBuild := { build with diagnostics := [] }

theorem apply_to_without (build : GrantsBuild) :
    ((without_diagnostics build).apply_to time balance).1 = (build.apply_to time balance).1 := rfl

/-- The list without its diagnostics does not depend on the order of the records. -/
theorem build_grants_of_perm {others : List GrantInput} (hperm : records.Perm others)
    (hids : (records.filterMap (fun record => valid_id provider record.id)).Nodup)
    (hkeys : Set.InjOn (credit_grant_key provider)
      (fun id => ∃ record ∈ records, valid_id provider record.id = some id)) :
    without_diagnostics
        (build_grants time unicode (.Read provider provider_count others observed_at)) =
      without_diagnostics
        (build_grants time unicode (.Read provider provider_count records observed_at)) := by
  have hnodup : ((built_grants time unicode provider records).map
      (fun grant => grant.grant_key)).Nodup := by
    rw [built_grants_keys]
    refine hids.map_on ?_
    intro a ha b hb hab
    have hvalid : ∀ id ∈ records.filterMap (fun record => valid_id provider record.id),
        ∃ record ∈ records, valid_id provider record.id = some id :=
      fun id hid => mem_filterMap.mp hid
    exact hkeys (hvalid a ha) (hvalid b hb) hab
  have hbuilt : (built_grants time unicode provider records).Perm
      (built_grants time unicode provider others) := (hperm.map _).filterMap _
  have hsorted : sort_grants time ((others.map (build_grant time unicode provider)).filterMap
        (fun result => result.1.map Prod.fst)) =
      sort_grants time ((records.map (build_grant time unicode provider)).filterMap
        (fun result => result.1.map Prod.fst)) := (sort_grants_of_perm hbuilt hnodup).symm
  have hrefused : (others.map (build_grant time unicode provider)).any
        (fun result => result.1.elim true Prod.snd) =
      (records.map (build_grant time unicode provider)).any
        (fun result => result.1.elim true Prod.snd) := (hperm.map _).any_eq.symm
  unfold without_diagnostics build_grants
  dsimp only
  rw [hsorted, hrefused, hperm.length_eq]

variable {build : GrantsBuild}

theorem is_complete_write :
    is_complete (build.write balance) = true ↔ build.grants_state = some .Complete := by
  unfold is_complete
  rw [beq_iff_eq]
  rfl

/-- The times of a complete list are those of the grants it carries. -/
theorem with_times_complete {carried : List AgentCreditGrant}
    (hgrants : build.grants = some carried) (hstate : build.grants_state = some .Complete) :
    (with_times time (build.write balance)).next_expires_at = next_expires_at time carried ∧
      (with_times time (build.write balance)).latest_granted_at = latest_granted_at time carried := by
  have hcarried : (build.write balance).grants = some carried := hgrants
  unfold with_times
  rw [if_pos (is_complete_write.mpr hstate), if_pos (is_complete_write.mpr hstate), hcarried]
  exact ⟨rfl, rfl⟩

theorem with_times_incomplete (hstate : build.grants_state ≠ some .Complete) :
    (with_times time (build.write balance)).next_expires_at = none ∧
      (with_times time (build.write balance)).latest_granted_at = none := by
  unfold with_times
  rw [if_neg (mt is_complete_write.mp hstate), if_neg (mt is_complete_write.mp hstate)]
  exact ⟨rfl, rfl⟩

end Balance

/-- After a list is read, at most twenty grants are carried, the first of the whole list in
order; the list is complete only when the provider enumerated it; each summary is exact over
the whole list or absent; and none of it depends on the order of the records. -/
theorem credit_summaries_are_exact_or_absent (time : accumulator.Rfc3339)
    (unicode : ottto_protocol.Unicode) (provider : Provider) (provider_count : Option UInt64)
    (records : List GrantInput) (observed_at : String) (balance : AgentCreditBalance) :
    let whole := built_grants time unicode provider records
    let read := read_balance time unicode provider provider_count records observed_at balance
    (∃ carried, read.grants = some carried ∧ carried.length ≤ GRANTS_MAX ∧
      carried.Pairwise (fun a b => order_key time a ≤ order_key time b) ∧
      carried = (sort_grants time whole).take GRANTS_MAX) ∧
    (read.grants_state = some .Complete ↔
      Enumerated time provider provider_count records ∧ whole.length ≤ GRANTS_MAX) ∧
    (Enumerated time provider provider_count records ∧ Soonest time whole read.next_expires_at ∨
      ¬ Enumerated time provider provider_count records ∧ read.next_expires_at = none) ∧
    (read.grants_state = some .Complete ∧ Latest time whole read.latest_granted_at ∨
      read.grants_state ≠ some .Complete ∧ read.latest_granted_at = none) ∧
    (provider = .Anthropic → is_saved_resets balance = true →
      (read.grants_state = some .Complete ∧ ∃ resets, read.remaining = some resets ∧
          resets.toNat = (whole.map counted_resets).sum) ∨
        read.grants_state ≠ some .Complete ∧ read.remaining = none) ∧
    ∀ others, records.Perm others →
      (records.filterMap (fun record => valid_id provider record.id)).Nodup →
      Set.InjOn (credit_grant_key provider)
        (fun id => ∃ record ∈ records, valid_id provider record.id = some id) →
      read_balance time unicode provider provider_count others observed_at balance = read := by
  intro whole read
  obtain ⟨refused, cut, capped, hdecides, hgrants, hstate, hsender, hexpires, hprovider⟩ :=
    @build_grants_spec time unicode provider provider_count records observed_at
  let build := build_grants time unicode (.Read provider provider_count records observed_at)
  obtain ⟨hcarried, hread_state, hlatest, hremaining⟩ := @apply_to_frame time balance build
  have hnext := @apply_to_next_expires_at time balance build
  have hcomplete : read.grants_state = some .Complete ↔
      (capped = some false ∧ refused = false) ∧ cut = false := by
    rw [← list_state_eq_complete]
    show (build.apply_to time balance).1.grants_state = _ ↔ _
    rw [hread_state, hstate, Option.some.injEq]
  have huncut : cut = false ↔ whole.length ≤ GRANTS_MAX := by
    rw [← not_lt, ← hdecides.cut, Bool.not_eq_true]
  have hwhole : cut = false →
      (sort_grants time whole).take GRANTS_MAX = sort_grants time whole := by
    intro hcut
    apply take_of_length_le
    rw [(sort_grants_perm whole).length_eq]
    exact huncut.mp hcut
  refine ⟨⟨_, hcarried.trans hgrants, length_take_le _ _,
    (sort_grants_sorted whole).sublist (take_sublist _ _), rfl⟩, ?_, ?_, ?_, ?_, ?_⟩
  · rw [hcomplete, hdecides.enumerated, huncut]
  · show Enumerated time provider provider_count records ∧ Soonest time whole
        (build.apply_to time balance).1.next_expires_at ∨ _ ∧
          (build.apply_to time balance).1.next_expires_at = none
    rw [hnext]
    by_cases hcapped : is_sender_capped refused capped cut = true
    · left
      refine ⟨hdecides.enumerated.mp (is_sender_capped_eq_true.mp hcapped).1, ?_⟩
      rw [hsender, hstate, list_state_of_sender_capped hcapped, hcapped, hexpires, if_pos hcapped]
      exact soonest_of_sorted
    · have hopen : is_sender_capped refused capped cut = false := Bool.not_eq_true _ ▸ hcapped
      rw [hsender, hopen, Bool.false_and, if_neg Bool.false_ne_true]
      by_cases hdone : build.grants_state = some .Complete
      · left
        have hlisted := hcomplete.mp (hread_state.trans hdone)
        refine ⟨hdecides.enumerated.mp hlisted.1, ?_⟩
        rw [(with_times_complete hgrants hdone).1, hwhole hlisted.2]
        exact soonest_of_sorted
      · right
        refine ⟨fun henumerated => ?_, (with_times_incomplete hdone).1⟩
        have hlist := hdecides.enumerated.mpr henumerated
        cases hcut : cut with
        | true => exact hcapped (is_sender_capped_eq_true.mpr ⟨hlist, hcut⟩)
        | false => exact hdone (hread_state.symm.trans (hcomplete.mpr ⟨hlist, hcut⟩))
  · show _ ∧ Latest time whole (build.apply_to time balance).1.latest_granted_at ∨
      _ ∧ (build.apply_to time balance).1.latest_granted_at = none
    rw [hlatest]
    by_cases hdone : read.grants_state = some .Complete
    · left
      have hbuilt : build.grants_state = some .Complete := hread_state.symm.trans hdone
      rw [(with_times_complete hgrants hbuilt).2, hwhole (hcomplete.mp hdone).2]
      exact ⟨hdone, latest_of_sorted⟩
    · exact .inr ⟨hdone, (with_times_incomplete (fun h => hdone (hread_state.trans h))).2⟩
  · intro hanthropic hresets
    show _ ∧ (∃ resets, (build.apply_to time balance).1.remaining = some resets ∧ _) ∨
      _ ∧ (build.apply_to time balance).1.remaining = none
    have hsaved : is_saved_resets (build.write balance) = true := hresets
    rw [hremaining, hprovider, hanthropic, summarize_remaining hsaved]
    by_cases hdone : read.grants_state = some .Complete
    · left
      have hbuilt : build.grants_state = some .Complete := hread_state.symm.trans hdone
      have hcarried : (build.write balance).grants = some ((sort_grants time whole).take GRANTS_MAX) :=
        hgrants
      rw [if_pos (is_complete_write.mpr hbuilt), hcarried, hwhole (hcomplete.mp hdone).2]
      have hsum : ((sort_grants time whole).map counted_resets).sum =
          (whole.map counted_resets).sum := ((sort_grants_perm whole).map _).sum_eq
      have hbound : (whole.map counted_resets).sum ≤ whole.length * 1000 :=
        sum_counted_resets_le (fun _ h => h)
      have hlength : whole.length ≤ 20 := huncut.mp (hcomplete.mp hdone).2
      refine ⟨hdone, _, rfl, ?_⟩
      rw [← hsum]
      exact resets_left_toNat (show ((sort_grants time whole).map counted_resets).sum < _ by omega)
    · right
      refine ⟨hdone, if_neg (fun h => hdone (hread_state.trans (is_complete_write.mp h)))⟩
  · intro others hperm hids hkeys
    have hbuild := @build_grants_of_perm time unicode provider provider_count records observed_at
      others hperm hids hkeys
    exact (apply_to_without _).symm.trans ((congrArg (fun build : GrantsBuild =>
      (build.apply_to time balance).1) hbuild).trans (apply_to_without _))

-- Nothing of these records is a time or a text to show.
def exampleTime : accumulator.Rfc3339 := .of_table []

def exampleUnicode : ottto_protocol.Unicode := ⟨fun c => [c], id⟩

def exampleRecord (id : String) : GrantInput :=
  { id := .Value id, status := .PausedResetsLeft (.Value false) (.Value 1), resets_left := .Value 1 }

theorem two_records_may_be_swapped :
    read_balance exampleTime exampleUnicode .Anthropic (some 2)
        [exampleRecord "b", exampleRecord "a"] "now" { name := "resets" } =
      read_balance exampleTime exampleUnicode .Anthropic (some 2)
        [exampleRecord "a", exampleRecord "b"] "now" { name := "resets" } := by
  refine (credit_summaries_are_exact_or_absent exampleTime exampleUnicode .Anthropic (some 2)
    [exampleRecord "a", exampleRecord "b"] "now" { name := "resets" }).2.2.2.2.2
    [exampleRecord "b", exampleRecord "a"] (.swap _ _ []) (by decide) ?_
  have hkeys : credit_grant_key .Anthropic "a" ≠ credit_grant_key .Anthropic "b" := by
    decide +kernel
  have hids : ∀ id, (∃ record ∈ [exampleRecord "a", exampleRecord "b"],
      valid_id .Anthropic record.id = some id) → id = "a" ∨ id = "b" := by
    rintro id ⟨record, hrecord, hid⟩
    simp only [mem_cons, not_mem_nil, or_false] at hrecord
    rcases hrecord with rfl | rfl
    · exact .inl (Field.Value.inj (valid_id_eq_some.mp hid).1).symm
    · exact .inr (Field.Value.inj (valid_id_eq_some.mp hid).1).symm
  intro a ha b hb hab
  rcases hids a ha with rfl | rfl <;> rcases hids b hb with rfl | rfl
  · rfl
  · exact absurd hab hkeys
  · exact absurd hab.symm hkeys
  · rfl

end ottto_service.quota_credit_model
