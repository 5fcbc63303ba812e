-- The legacy owners of requests over a list of roots: who is refused, who owns
-- what, and that neither depends on the order of the roots.
import Ottto.LedgerJoin
import Ottto.Sha256

namespace ottto_service.claude_usage_ledger

open List Option ClaudeLegacyRequestOwners Root ClaudeTraceOwnershipEvidence SortedMap Results
open json_fields (trim)
open durable_tail_codec.HDigest (hex unhex)
open durable_tail_codec.Durable (as_bytes)
open claude_money_birth_store (Digest)

/-! ## Hex digests -/

theorem hex_bytes_length (bytes : List UInt8) : (as_bytes (hex bytes)).length = 2 * bytes.length :=
  (durable_tail_codec.HDigest.hex_unhex _ _ (by
    rw [durable_tail_codec.HDigest.as_bytes_hex, length_flatMap]
    simp) (durable_tail_codec.HDigest.unhex_hex bytes)).2

theorem hex_byte_is_valid : ∀ n < 16, (fun b : UInt8 => (48 ≤ b && b ≤ 57) || (97 ≤ b && b ≤ 102))
    (durable_tail_codec.HDigest.hex_byte n) = true := by
  decide

theorem digest_hex_decode_hex (digest : Digest) : digest_hex_decode (hex digest.1) = some digest := by
  have hvalid : hash_is_valid (hex digest.1) = true := by
    unfold hash_is_valid
    rw [hex_bytes_length, digest.2, Bool.and_eq_true]
    refine ⟨by decide, ?_⟩
    rw [durable_tail_codec.HDigest.as_bytes_hex, List.all_eq_true]
    intro b hb
    obtain ⟨byte, -, hbyte⟩ := mem_flatMap.mp hb
    obtain ⟨hhigh, hlow, -⟩ := durable_tail_codec.HDigest.split_byte byte
    rcases mem_cons.mp hbyte with rfl | hbyte
    · exact hex_byte_is_valid _ hhigh
    · rw [mem_singleton.mp hbyte]
      exact hex_byte_is_valid _ hlow
  unfold digest_hex_decode
  rw [if_pos hvalid, durable_tail_codec.HDigest.unhex_hex, bind_some, dif_pos digest.2]

theorem hex_of_digest_hex_decode {value : String} {digest : Digest}
    (h : digest_hex_decode value = some digest) : value = hex digest.1 := by
  unfold digest_hex_decode at h
  split_ifs at h with hvalid
  obtain ⟨bytes, hbytes, hdigest⟩ := bind_eq_some_iff.mp h
  split_ifs at hdigest
  cases hdigest
  have hlength : (as_bytes value).length = 64 := by
    unfold hash_is_valid at hvalid
    simpa using (Bool.and_eq_true_iff.mp hvalid).1
  have htext := (durable_tail_codec.HDigest.hex_unhex _ _ (by rw [hlength]) hbytes).1
  exact (durable_tail_codec.Durable.as_bytes_injective htext).symm

/-! ## The rows of the root member -/

theorem owner_is_root {root_session_id agent_id : String} :
    claude_trace_owner_session_id root_session_id agent_id = root_session_id ↔ trim agent_id = "" := by
  unfold claude_trace_owner_session_id
  dsimp only
  split_ifs with hagent
  · exact iff_of_true rfl hagent
  · refine iff_of_false (fun h => ?_) hagent
    have hlength := congrArg String.length h
    rw [String.length_append, String.length_append] at hlength
    have hmark : "_agent-".length = 7 := by decide
    omega

namespace Root

variable (out : Outside) (self : Root)

/-- The root's ledger over its own members. -/
def ledger : Except IgnoredVeto (ReducedClaudeUsageLedger ClaudeLocalOtelEvidence) :=
  self.trace_rows.elim (.error .EvidenceGap) (fun trace_rows =>
    classify_claude_usage_ledger_with_rows out id self.root_session_id
      (owner_members self.root_session_id trace_rows) self.api_rows trace_rows)

def traces : List ClaudeTraceOwnershipEvidence := self.trace_rows.getD []

/-- The rows that the root member owns. -/
def claimed : List ClaudeLocalOtelEvidence :=
  self.api_rows.filter (fun row =>
    owner_of self.root_session_id self.traces row = some self.root_session_id)

def request_hash (row : ClaudeLocalOtelEvidence) : Digest := out.sha256 (as_bytes row.request_id)

/-- What the owner record of a claimed row is computed over. -/
def evidence (row : ClaudeLocalOtelEvidence) : Digest :=
  sha256_digest out ["claude_legacy_request_owner:v1", self.root_session_id,
    hex (request_hash out row).1, row.fingerprint,
    (trace_of self.traces row).elim "" ClaudeTraceOwnershipEvidence.fingerprint]

end Root

namespace ClaudeLegacyRequestOwners

variable {out : Outside}

section

variable {root_session_id : String} (root : UInt32)
  {trace_by_request : SortedMap String ClaudeTraceOwnershipEvidence}
  {evidence : ClaudeLocalOtelEvidence → Digest}

/-- The row's trace row is the root member's, and gives the owner's evidence. -/
def Witnessed (out : Outside) (root_session_id : String)
    (trace_by_request : SortedMap String ClaudeTraceOwnershipEvidence)
    (evidence : ClaudeLocalOtelEvidence → Digest) (row : ClaudeLocalOtelEvidence) : Prop :=
  ∃ trace, trace_by_request.get? row.request_id = some trace ∧ trim trace.agent_id = "" ∧
    sha256_digest out ["claude_legacy_request_owner:v1", root_session_id,
      hex (request_hash out row).1, row.fingerprint, trace.fingerprint] = evidence row

/-- The owners after the row's request. -/
def claim (out : Outside) (root : UInt32) (evidence : ClaudeLocalOtelEvidence → Digest)
    (self : ClaudeLegacyRequestOwners) (row : ClaudeLocalOtelEvidence) : ClaudeLegacyRequestOwners :=
  { self with owners := self.owners.insert (request_hash out row) (root, evidence row) }

theorem claim_rows_cons {row : ClaudeLocalOtelEvidence}
    (hrow : Witnessed out root_session_id trace_by_request evidence row)
    (rest : List ClaudeLocalOtelEvidence) (self : ClaudeLegacyRequestOwners) :
    claim_rows out root_session_id root trace_by_request (row :: rest) self =
      if self.owners.contains (request_hash out row) then
        (claim out root evidence self row, .error .MultiRootClaims)
      else claim_rows out root_session_id root trace_by_request rest (claim out root evidence self row) := by
  obtain ⟨trace, hget, hagent, hevidence⟩ := hrow
  unfold claim
  rw [← hevidence]
  simp only [claim_rows, hget, hagent, ne_eq, not_true_eq_false, if_false]
  rfl

/-- The rows are claimed when no request of theirs has an owner yet. -/
theorem claim_rows_spec {rows : List ClaudeLocalOtelEvidence}
    (hrows : ∀ row ∈ rows, Witnessed out root_session_id trace_by_request evidence row)
    (self : ClaudeLegacyRequestOwners) :
    ((claim_rows out root_session_id root trace_by_request rows self).2 = .ok () ↔
      (rows.map (request_hash out)).Nodup ∧
        ∀ row ∈ rows, self.owners.contains (request_hash out row) = false) ∧
    ((claim_rows out root_session_id root trace_by_request rows self).2 = .ok () →
      (claim_rows out root_session_id root trace_by_request rows self).1.roots = self.roots ∧
      (claim_rows out root_session_id root trace_by_request rows self).1.refusal = self.refusal ∧
      ∀ digest owner,
        (claim_rows out root_session_id root trace_by_request rows self).1.owners.get? digest =
          some owner ↔ self.owners.get? digest = some owner ∨
            ∃ row ∈ rows, digest = request_hash out row ∧ owner = (root, evidence row)) := by
  induction rows generalizing self with
  | nil => simp [claim_rows]
  | cons row rest ih =>
    obtain ⟨hhead, hrest⟩ := forall_mem_cons.mp hrows
    rw [claim_rows_cons root hhead, map_cons, nodup_cons, forall_mem_cons]
    obtain ⟨hok, hclaimed⟩ := ih hrest (claim out root evidence self row)
    have hcontains : ∀ digest, (claim out root evidence self row).owners.contains digest = false ↔
        digest ≠ request_hash out row ∧ self.owners.contains digest = false := by
      intro digest
      unfold claim SortedMap.contains
      rw [get?_insert]
      by_cases hdigest : digest = request_hash out row <;> simp [hdigest]
    by_cases howned : self.owners.contains (request_hash out row) = true
    · rw [if_pos howned, howned]
      refine ⟨iff_of_false (fun h => by cases h) (fun h => by cases h.2.1), fun h => by cases h⟩
    · rw [if_neg howned]
      rw [Bool.not_eq_true] at howned
      constructor
      · rw [hok]
        simp only [hcontains, howned, List.mem_map, not_exists, not_and, true_and]
        constructor
        · rintro ⟨hnodup, hfresh⟩
          exact ⟨⟨fun x hx => (hfresh x hx).1, hnodup⟩, fun x hx => (hfresh x hx).2⟩
        · rintro ⟨⟨hnew, hnodup⟩, hfresh⟩
          exact ⟨hnodup, fun x hx => ⟨hnew x hx, hfresh x hx⟩⟩
      · intro h
        obtain ⟨hroots, hrefusal, howners⟩ := hclaimed h
        refine ⟨hroots, hrefusal, fun digest owner => ?_⟩
        rw [howners]
        simp only [exists_mem_cons_iff]
        have hnone : self.owners.get? (request_hash out row) = none := by
          rw [← isNone_iff_eq_none, ← not_isSome, Bool.not_eq_true', ← howned]
          rfl
        unfold claim
        dsimp only
        rw [get?_insert]
        by_cases hdigest : digest = request_hash out row
        · rw [if_pos hdigest, hdigest, hnone]
          simp [eq_comm]
        · rw [if_neg hdigest]
          simp [hdigest]

end

end ClaudeLegacyRequestOwners

/-! ## One root -/

variable {out : Outside} {row : ClaudeLocalOtelEvidence}

theorem Root.witnessed (root : Root) {trace_rows : List ClaudeTraceOwnershipEvidence}
    (htraces : root.trace_rows = some trace_rows)
    (hnodup : (trace_rows.map request_id).Nodup)
    (hrow : row ∈ root.claimed) :
    ClaudeLegacyRequestOwners.Witnessed out root.root_session_id
      (traces_by_request trace_rows) (root.evidence out) row := by
  unfold Root.claimed at hrow
  have howner := of_decide_eq_true (mem_filter.mp hrow).2
  unfold owner_of at howner
  obtain ⟨trace, htrace, hroot⟩ := map_eq_some_iff.mp howner
  have htrace' := htrace
  rw [Root.traces, htraces, getD_some, trace_of_eq hnodup] at htrace'
  refine ⟨trace, htrace', owner_is_root.mp hroot, ?_⟩
  unfold Root.evidence
  rw [htrace]
  rfl

/-- The owners after the roots of the list: each claimed request has its root. -/
structure Owns (out : Outside) (done : List Root) (s : ClaudeLegacyRequestOwners) : Prop where
  roots : s.roots = done.map root_session_id
  refusal : s.refusal = none
  owners : ∀ digest ordinal evidence, s.owners.get? digest = some (ordinal, evidence) ↔
    ∃ root, done[ordinal.toNat]? = some root ∧ ∃ row ∈ root.claimed,
      digest = request_hash out row ∧ evidence = root.evidence out row

/-- A root that is added: its ledger holds, its ordinal fits, and its requests have
no owner yet. -/
structure Adds (out : Outside) (s : ClaudeLegacyRequestOwners) (root : Root) : Prop where
  ledger : ∃ ledger, root.ledger out = .ok ledger
  ordinal : s.roots.length < 2 ^ 32
  once : (root.claimed.map (request_hash out)).Nodup
  fresh : ∀ row ∈ root.claimed, s.owners.contains (request_hash out row) = false

namespace Owns

variable {out : Outside} {done : List Root} {s : ClaudeLegacyRequestOwners}

theorem start (out : Outside) : Owns out [] {} :=
  ⟨rfl, rfl, fun digest ordinal evidence => by simp⟩

theorem getElem?_snoc {α : Type} {l : List α} {a b : α} {i : Nat} :
    (l ++ [a])[i]? = some b ↔ l[i]? = some b ∨ (i = l.length ∧ b = a) := by
  rcases Nat.lt_trichotomy i l.length with hi | rfl | hi
  · rw [getElem?_append_left hi]
    simp [Nat.ne_of_lt hi]
  · simp [eq_comm]
  · rw [getElem?_eq_none (by simp; omega), getElem?_eq_none (by omega)]
    simp [Nat.ne_of_gt hi]

/-- The owners after one more root, which claims its rows. -/
theorem snoc (h : Owns out done s) {root : Root} (hordinal : s.roots.length < 2 ^ 32)
    {added : ClaudeLegacyRequestOwners} (hroots : added.roots = s.roots ++ [root.root_session_id])
    (hrefusal : added.refusal = s.refusal)
    (howners : ∀ digest owner, added.owners.get? digest = some owner ↔
      s.owners.get? digest = some owner ∨ ∃ row ∈ root.claimed, digest = request_hash out row ∧
        owner = (UInt32.ofNat s.roots.length, root.evidence out row)) :
    Owns out (done ++ [root]) added := by
  refine ⟨?_, hrefusal.trans h.refusal, fun digest ordinal evidence => ?_⟩
  · rw [hroots, h.roots, map_append]
    rfl
  · have hlength : s.roots.length = done.length := by rw [h.roots, length_map]
    have hnew : (UInt32.ofNat s.roots.length).toNat = done.length := by
      have hsize : UInt32.size = 2 ^ 32 := rfl
      rw [UInt32.toNat_ofNat_of_lt' (by omega), hlength]
    rw [howners, h.owners]
    constructor
    · rintro (⟨r, hr, hclaimedBy⟩ | ⟨row, hrow, hdigest, heq⟩)
      · exact ⟨r, getElem?_snoc.mpr (.inl hr), hclaimedBy⟩
      · cases heq
        exact ⟨root, getElem?_snoc.mpr (.inr ⟨hnew, rfl⟩), row, hrow, hdigest, rfl⟩
    · rintro ⟨r, hr, row, hrow, hdigest, rfl⟩
      rcases getElem?_snoc.mp hr with hr | ⟨hlast, rfl⟩
      · exact .inl ⟨r, hr, row, hrow, hdigest, rfl⟩
      · refine .inr ⟨row, hrow, hdigest, ?_⟩
        rw [← UInt32.toNat_inj.mp (hlast.trans hnew.symm)]

/-- Adding one root: whether it is refused, and the owners when it is not. -/
theorem add_root (h : Owns out done s) (root : Root) :
    ((s.add_root out root.root_session_id root.api_rows root.trace_rows).refusal = none ↔
      Adds out s root) ∧
    ((s.add_root out root.root_session_id root.api_rows root.trace_rows).refusal = none →
      Owns out (done ++ [root]) (s.add_root out root.root_session_id root.api_rows root.trace_rows)) := by
  have hrefused : ∀ (added : ClaudeLegacyRequestOwners) (refusal : IgnoredVeto),
      s.try_add_root out root.root_session_id root.api_rows root.trace_rows = (added, .error refusal) →
      (s.add_root out root.root_session_id root.api_rows root.trace_rows).refusal ≠ none := by
    intro added refusal hadd
    unfold ClaudeLegacyRequestOwners.add_root
    simp only [h.refusal, hadd]
    exact some_ne_none refusal
  cases htraces : root.trace_rows with
  | none =>
    rw [htraces] at hrefused
    have hno := hrefused s .EvidenceGap rfl
    refine ⟨iff_of_false hno (fun hadds => ?_), fun hadd => absurd hadd hno⟩
    obtain ⟨ledger, hledger⟩ := hadds.ledger
    rw [Root.ledger, htraces] at hledger
    cases hledger
  | some trace_rows =>
    rw [htraces] at hrefused
    have hledger : root.ledger out = classify_claude_usage_ledger_with_rows out id root.root_session_id
        (ClaudeLegacyRequestOwners.owner_members root.root_session_id trace_rows) root.api_rows
        trace_rows := by
      rw [Root.ledger, htraces]
      rfl
    cases hclassify : root.ledger out with
    | error refusal =>
      have hno := hrefused s refusal (by
        unfold ClaudeLegacyRequestOwners.try_add_root
        simp only [← hledger, hclassify])
      refine ⟨iff_of_false hno (fun hadds => ?_), fun hadd => absurd hadd hno⟩
      obtain ⟨ledger, hok⟩ := hadds.ledger
      cases hclassify.symm.trans hok
    | ok ledger =>
      have hexact := classify_spec (hledger.symm.trans hclassify)
      by_cases hordinal : 2 ^ 32 ≤ s.roots.length
      · have hno := hrefused s .EvidenceGap (by
          unfold ClaudeLegacyRequestOwners.try_add_root
          simp only [← hledger, hclassify, if_pos hordinal])
        refine ⟨iff_of_false hno (fun hadds => ?_), fun hadd => absurd hadd hno⟩
        exact absurd hadds.ordinal (by omega)
      · obtain ⟨rows, hrows⟩ : ∃ rows, ledger.rows_by_member.get? root.root_session_id = some rows := by
          rw [← isSome_iff_exists]
          exact (hexact.members root.root_session_id).1.trans hexact.root
        have hclaimed : rows.Perm root.claimed := by
          have hperm := hexact.rows _ _ hrows
          rw [List.map_id] at hperm
          rwa [Root.claimed, Root.traces, htraces]
        have hwitnessed : ∀ row ∈ rows, ClaudeLegacyRequestOwners.Witnessed out root.root_session_id
            (ClaudeLegacyRequestOwners.traces_by_request trace_rows) (root.evidence out) row :=
          fun row hrow => root.witnessed htraces hexact.traces (hclaimed.mem_iff.mp hrow)
        have hstep := ClaudeLegacyRequestOwners.claim_rows_spec (UInt32.ofNat s.roots.length) hwitnessed
          { s with roots := s.roots ++ [root.root_session_id] }
        have htry : s.try_add_root out root.root_session_id root.api_rows (some trace_rows) =
            ClaudeLegacyRequestOwners.claim_rows out root.root_session_id (UInt32.ofNat s.roots.length)
              (ClaudeLegacyRequestOwners.traces_by_request trace_rows) rows
              { s with roots := s.roots ++ [root.root_session_id] } := by
          unfold ClaudeLegacyRequestOwners.try_add_root
          simp only [← hledger, hclassify, if_neg hordinal, hrows]
        have hadds : ((rows.map (request_hash out)).Nodup ∧
            ∀ row ∈ rows, s.owners.contains (request_hash out row) = false) ↔ Adds out s root := by
          rw [(hclaimed.map _).nodup_iff]
          constructor
          · rintro ⟨hnodup, hfresh⟩
            exact ⟨⟨ledger, hclassify⟩, by omega, hnodup, fun row hrow =>
              hfresh row (hclaimed.mem_iff.mpr hrow)⟩
          · intro hadds
            exact ⟨hadds.once, fun row hrow => hadds.fresh row (hclaimed.mem_iff.mp hrow)⟩
        cases hclaim : ClaudeLegacyRequestOwners.claim_rows out root.root_session_id
            (UInt32.ofNat s.roots.length) (ClaudeLegacyRequestOwners.traces_by_request trace_rows) rows
            { s with roots := s.roots ++ [root.root_session_id] } with
        | mk added outcome =>
          rw [hclaim] at htry hstep
          obtain ⟨hok, hclaims⟩ := hstep
          dsimp only at hok hclaims
          cases outcome with
          | error refusal =>
            have hno := hrefused added refusal htry
            refine ⟨iff_of_false hno (fun hroot => ?_), fun hadd => absurd hadd hno⟩
            cases hok.mpr (hadds.mpr hroot)
          | ok through =>
            have hadd : s.add_root out root.root_session_id root.api_rows (some trace_rows) = added := by
              unfold ClaudeLegacyRequestOwners.add_root
              simp only [h.refusal, htry]
            obtain ⟨hroots, hrefusal, howners⟩ := hclaims rfl
            rw [hadd]
            refine ⟨iff_of_true (hrefusal.trans h.refusal) (hadds.mp (hok.mp rfl)), fun _ =>
              h.snoc (by omega) hroots hrefusal (fun digest owner => ?_)⟩
            simp only [howners, hclaimed.mem_iff]

end Owns

/-! ## A list of roots -/

/-- SHA-256 tells the requests of the roots apart. -/
def Distinct (out : Outside) (roots : List Root) : Prop :=
  Set.InjOn (fun request_id => out.sha256 (as_bytes request_id))
    {request_id | ∃ root ∈ roots, ∃ row ∈ root.api_rows, row.request_id = request_id}

/-- The root members of two roots own no request both. -/
def Apart (a b : Root) : Prop :=
  ∀ row ∈ a.claimed, ∀ other ∈ b.claimed, row.request_id ≠ other.request_id

/-- Each root has a ledger, no request has two root members, and the ordinals fit. -/
structure Unshared (out : Outside) (roots : List Root) : Prop where
  ledgers : ∀ root ∈ roots, ∃ ledger, root.ledger out = .ok ledger
  apart : roots.Pairwise Apart
  ordinals : roots.length ≤ 2 ^ 32

theorem Apart.symm {a b : Root} (h : Apart a b) : Apart b a :=
  fun row hrow other hother => (h other hother row hrow).symm

variable {roots : List Root}

theorem Unshared.perm {roots' : List Root} (hperm : roots.Perm roots')
    (h : Unshared out roots) : Unshared out roots' :=
  ⟨fun root hroot => h.ledgers root (hperm.mem_iff.mpr hroot),
    (hperm.pairwise_iff Apart.symm).mp h.apart, hperm.length_eq ▸ h.ordinals⟩

theorem Distinct.perm {roots' : List Root} (hperm : roots.Perm roots')
    (h : Distinct out roots) : Distinct out roots' := by
  refine h.mono ?_
  rintro request_id ⟨root, hroot, hrow⟩
  exact ⟨root, hperm.mem_iff.mpr hroot, hrow⟩

variable {root : Root}

theorem Root.claimed_of_mem (h : row ∈ root.claimed) :
    row ∈ root.api_rows := (mem_filter.mp h).1

/-- The requests of a root with a ledger are claimed once each. -/
theorem Root.claimed_once
    {ledger : ReducedClaudeUsageLedger ClaudeLocalOtelEvidence} (h : root.ledger out = .ok ledger)
    (hdistinct : Distinct out [root]) : (root.claimed.map (request_hash out)).Nodup := by
  cases htraces : root.trace_rows with
  | none =>
    rw [Root.ledger, htraces] at h
    cases h
  | some trace_rows =>
    rw [Root.ledger, htraces] at h
    have hexact := classify_spec h
    have hids : (root.claimed.map ClaudeLocalOtelEvidence.request_id).Nodup :=
      hexact.requests.sublist (filter_sublist.map _)
    have hmap : root.claimed.map (request_hash out) =
        (root.claimed.map ClaudeLocalOtelEvidence.request_id).map
          (fun request_id => out.sha256 (as_bytes request_id)) := by
      rw [List.map_map]
      rfl
    rw [hmap]
    refine hids.map_on (fun a ha b hb hab => hdistinct ?_ ?_ hab)
    · obtain ⟨row, hrow, rfl⟩ := List.mem_map.mp ha
      exact ⟨root, mem_singleton_self root, row, claimed_of_mem hrow, rfl⟩
    · obtain ⟨row, hrow, rfl⟩ := List.mem_map.mp hb
      exact ⟨root, mem_singleton_self root, row, claimed_of_mem hrow, rfl⟩

/-- The owners after every root of the list. -/
def fed (out : Outside) (roots : List Root) : ClaudeLegacyRequestOwners :=
  roots.foldl (fun (owners : ClaudeLegacyRequestOwners) root =>
    owners.add_root out root.root_session_id root.api_rows root.trace_rows) {}

theorem adds_iff {done : List Root} {s : ClaudeLegacyRequestOwners}
    (h : Owns out done s) (hdistinct : Distinct out (done ++ [root])) :
    Adds out s root ↔ (∃ ledger, root.ledger out = .ok ledger) ∧ done.length < 2 ^ 32 ∧
      ∀ before ∈ done, Apart before root := by
  have hlength : s.roots.length = done.length := by rw [h.roots, length_map]
  have hmem : ∀ {r : Root}, r ∈ done ++ [root] → ∀ row ∈ r.claimed,
      row.request_id ∈ {request_id | ∃ root_1 ∈ done ++ [root], ∃ row ∈ root_1.api_rows,
        row.request_id = request_id} :=
    fun {r} hr row hrow => ⟨r, hr, row, claimed_of_mem hrow, rfl⟩
  have hlast : root ∈ done ++ [root] := mem_append_right _ (mem_singleton_self root)
  constructor
  · intro hadds
    refine ⟨hadds.ledger, hlength ▸ hadds.ordinal, fun before hbefore row hrow other hother heq => ?_⟩
    -- the other root's claim would have an owner already
    have hfresh := hadds.fresh other hother
    obtain ⟨i, hget⟩ := mem_iff_getElem?.mp hbefore
    have hi : i < done.length := (List.getElem?_eq_some_iff.mp hget).1
    have hordinal := hadds.ordinal
    have hsize : UInt32.size = 2 ^ 32 := rfl
    have howner := (h.owners (request_hash out row) (UInt32.ofNat i) (before.evidence out row)).mpr
      ⟨before, by rwa [UInt32.toNat_ofNat_of_lt' (by omega)], row, hrow, rfl, rfl⟩
    have hsame : request_hash out row = request_hash out other := by
      unfold request_hash
      rw [heq]
    rw [← hsame, SortedMap.contains, howner] at hfresh
    cases hfresh
  · rintro ⟨⟨ledger, hledger⟩, hordinal, hapart⟩
    refine ⟨⟨ledger, hledger⟩, hlength ▸ hordinal, ?_, fun row hrow => ?_⟩
    · refine claimed_once hledger (hdistinct.mono ?_)
      rintro request_id ⟨r, hr, hrow⟩
      exact ⟨r, mem_append_right _ hr, hrow⟩
    · rw [← Bool.not_eq_true, SortedMap.contains, isSome_iff_exists]
      rintro ⟨⟨ordinal, evidence⟩, hget⟩
      obtain ⟨before, hbefore, other, hother, hdigest, -⟩ := (h.owners _ _ _).mp hget
      have hbefore := mem_of_getElem? hbefore
      have heq := hdistinct (hmem (mem_append_left _ hbefore) other hother)
        (hmem hlast row hrow) hdigest.symm
      exact hapart before hbefore other hother row hrow heq

/-- The verdict over the roots, and the owners where it is not a refusal. -/
theorem fed_spec (hdistinct : Distinct out roots) :
    ((fed out roots).refusal = none ↔ Unshared out roots) ∧
      ((fed out roots).refusal = none → Owns out roots (fed out roots)) := by
  induction roots using List.reverseRecOn with
  | nil => exact ⟨iff_of_true rfl ⟨by simp, .nil, by simp⟩, fun _ => .start out⟩
  | append_singleton done root ih =>
    have hbefore : Distinct out done := by
      refine hdistinct.mono ?_
      rintro request_id ⟨r, hr, hrow⟩
      exact ⟨r, mem_append_left _ hr, hrow⟩
    obtain ⟨hok, howns⟩ := ih hbefore
    have hfed : fed out (done ++ [root]) =
        (fed out done).add_root out root.root_session_id root.api_rows root.trace_rows := by
      unfold fed
      rw [foldl_append, foldl_cons, foldl_nil]
    have hsplit : Unshared out (done ++ [root]) ↔ Unshared out done ∧
        (∃ ledger, root.ledger out = .ok ledger) ∧ done.length < 2 ^ 32 ∧
          ∀ before ∈ done, Apart before root := by
      constructor
      · intro h
        obtain ⟨hdone, -, hapart⟩ := pairwise_append.mp h.apart
        have hcount := h.ordinals
        rw [length_append, length_singleton] at hcount
        exact ⟨⟨fun r hr => h.ledgers r (mem_append_left _ hr), hdone, by omega⟩,
          h.ledgers root (mem_append_right _ (mem_singleton_self root)), by omega,
          fun before hbefore => hapart before hbefore root (mem_singleton_self root)⟩
      · rintro ⟨h, hledger, hcount, hapart⟩
        refine ⟨fun r hr => ?_, ?_, ?_⟩
        · rcases mem_append.mp hr with hr | hr
          · exact h.ledgers r hr
          · rw [mem_singleton.mp hr]
            exact hledger
        · refine pairwise_append.mpr ⟨h.apart, pairwise_singleton _ _, fun before hbefore r hr => ?_⟩
          rw [mem_singleton.mp hr]
          exact hapart before hbefore
        · rw [length_append, length_singleton]
          omega
    rw [hfed, hsplit]
    by_cases hrefusal : (fed out done).refusal = none
    · have hdone := howns hrefusal
      obtain ⟨hadd, hnext⟩ := hdone.add_root root
      exact ⟨by rw [hadd, adds_iff hdone hdistinct, ← hok]; simp [hrefusal], hnext⟩
    · -- a refusal stays
      have hsame : (fed out done).add_root out root.root_session_id root.api_rows root.trace_rows =
          fed out done := by
        obtain ⟨refusal, hsome⟩ := ne_none_iff_exists'.mp hrefusal
        unfold add_root
        simp only [hsome]
      rw [hsame, ← hok]
      exact ⟨by simp [hrefusal], fun h => absurd h hrefusal⟩

/-- The owner of a request, read by its hash. -/
theorem Owns.get {out : Outside} {roots : List Root} {s : ClaudeLegacyRequestOwners}
    (h : Owns out roots s) (hordinals : roots.length ≤ 2 ^ 32) (hash : String)
    (owner : ClaudeLegacyRequestOwner) :
    s.get hash = some owner ↔ ∃ root ∈ roots, ∃ row ∈ root.claimed,
      hash = sha256_hex out (as_bytes row.request_id) ∧
        owner = ⟨root.root_session_id, root.evidence out row⟩ := by
  unfold ClaudeLegacyRequestOwners.get
  simp only [bind_eq_bind, bind_eq_some_iff, Prod.exists]
  constructor
  · rintro ⟨digest, hdecode, ordinal, evidence, howner, name, hname, heq⟩
    obtain ⟨root, hroot, row, hrow, rfl, rfl⟩ := (h.owners _ _ _).mp howner
    rw [h.roots, List.getElem?_map, hroot] at hname
    cases hname
    exact ⟨root, mem_of_getElem? hroot, row, hrow, hex_of_digest_hex_decode hdecode,
      (Option.some.inj heq).symm⟩
  · rintro ⟨root, hroot, row, hrow, rfl, rfl⟩
    obtain ⟨i, hget⟩ := mem_iff_getElem?.mp hroot
    have hi : i < roots.length := (List.getElem?_eq_some_iff.mp hget).1
    have hsize : UInt32.size = 2 ^ 32 := rfl
    have hordinal : (UInt32.ofNat i).toNat = i := UInt32.toNat_ofNat_of_lt' (by omega)
    refine ⟨request_hash out row, digest_hex_decode_hex _, UInt32.ofNat i, root.evidence out row,
      (h.owners _ _ _).mpr ⟨root, by rw [hordinal, hget], row, hrow, rfl, rfl⟩, root.root_session_id, ?_, rfl⟩
    rw [h.roots, List.getElem?_map, hordinal, hget]
    rfl

theorem verdict_ok {owners : ClaudeLegacyRequestOwners} :
    classify_claude_legacy_request_owners out roots = .ok owners ↔
      (fed out roots).refusal = none ∧ owners = fed out roots := by
  change (fed out roots).verdict = .ok owners ↔ _
  unfold ClaudeLegacyRequestOwners.verdict
  cases (fed out roots).refusal with
  | none => simp [eq_comm]
  | some refusal => simp

/-! ## The join and the owners -/

/-- Where every root has a ledger and no request has two root members, and there are at
most 2^32 roots, each claimed request has its claiming root, in any order of the roots. -/
theorem each_request_has_exactly_one_owner (out : Outside) :
    (∀ (R : Type) (row_view : ClaudeLocalOtelEvidence → R) root_session_id members api_rows trace_rows
      ledger, classify_claude_usage_ledger_with_rows out row_view root_session_id members api_rows
        trace_rows = .ok ledger →
      ExactLedger out row_view root_session_id members api_rows trace_rows ledger) ∧
    (∀ (R : Type) (row_view : ClaudeLocalOtelEvidence → R) root_session_id members api_rows api_rows'
      trace_rows trace_rows', api_rows.Perm api_rows' → trace_rows.Perm trace_rows' →
      (classify_claude_usage_ledger_with_rows out row_view root_session_id members api_rows
        trace_rows).toOption =
      (classify_claude_usage_ledger_with_rows out row_view root_session_id members api_rows'
        trace_rows').toOption) ∧
    ∀ roots, Distinct out roots →
      ((∃ owners, classify_claude_legacy_request_owners out roots = .ok owners) ↔
        Unshared out roots) ∧
      (∀ owners, classify_claude_legacy_request_owners out roots = .ok owners → ∀ hash owner,
        owners.get hash = some owner ↔ ∃ root ∈ roots, ∃ row ∈ root.claimed,
          hash = sha256_hex out (as_bytes row.request_id) ∧
            owner = ⟨root.root_session_id, root.evidence out row⟩) ∧
      ∀ roots', roots.Perm roots' →
        ((∃ owners, classify_claude_legacy_request_owners out roots = .ok owners) ↔
          ∃ owners, classify_claude_legacy_request_owners out roots' = .ok owners) ∧
        ∀ owners owners', classify_claude_legacy_request_owners out roots = .ok owners →
          classify_claude_legacy_request_owners out roots' = .ok owners' →
          ∀ hash, owners.get hash = owners'.get hash := by
  have hverdict : ∀ roots, Distinct out roots →
      ((∃ owners, classify_claude_legacy_request_owners out roots = .ok owners) ↔
        Unshared out roots) := by
    intro roots hdistinct
    rw [← (fed_spec hdistinct).1]
    simp only [verdict_ok, exists_and_left, exists_eq, and_true]
  have hget : ∀ roots, Distinct out roots → ∀ owners,
      classify_claude_legacy_request_owners out roots = .ok owners → ∀ hash owner,
        owners.get hash = some owner ↔ ∃ root ∈ roots, ∃ row ∈ root.claimed,
          hash = sha256_hex out (as_bytes row.request_id) ∧
            owner = ⟨root.root_session_id, root.evidence out row⟩ := by
    intro roots hdistinct owners hok
    have hordinals := ((hverdict roots hdistinct).mp ⟨owners, hok⟩).ordinals
    obtain ⟨hrefusal, rfl⟩ := verdict_ok.mp hok
    exact ((fed_spec hdistinct).2 hrefusal).get hordinals
  refine ⟨fun R row_view root members api trace ledger h => classify_spec h,
    fun R row_view root members api api' trace trace' hapi htrace => ?_, fun roots hdistinct =>
      ⟨hverdict roots hdistinct, hget roots hdistinct, fun roots' hperm => ⟨?_, ?_⟩⟩⟩
  · apply Option.ext
    intro ledger
    rw [toOption_eq_some, toOption_eq_some]
    exact ⟨classify_perm hapi htrace, classify_perm hapi.symm htrace.symm⟩
  · rw [hverdict roots hdistinct, hverdict roots' (hdistinct.perm hperm)]
    exact ⟨fun h => h.perm hperm, fun h => h.perm hperm.symm⟩
  · intro owners owners' hok hok' hash
    apply Option.ext
    intro owner
    rw [hget roots hdistinct owners hok, hget roots' (hdistinct.perm hperm) owners' hok']
    simp only [hperm.mem_iff]

/-! ## More roots than ordinals -/

def exampleClock : accumulator.Rfc3339 := .of_table [("2026-12-01T10:00:00Z", 1796119200000000000)]

def exampleOutside : Outside where
  sha256 bytes := ⟨Sha256.digest bytes, Sha256.digest_length bytes⟩
  time := exampleClock

def sealed_api (out : Outside) (row : ClaudeLocalOtelEvidence) : ClaudeLocalOtelEvidence :=
  { row with fingerprint := "sha256:" ++ sha256_hex out { row with fingerprint := "" }.json }

def sealed_trace (out : Outside) (row : ClaudeTraceOwnershipEvidence) : ClaudeTraceOwnershipEvidence :=
  { row with fingerprint := "sha256:" ++ sha256_hex out { row with fingerprint := "" }.json }

/-- A root whose one request belongs to a child. -/
def child_root (out : Outside) (name : String) : Root where
  root_session_id := name
  api_rows := [sealed_api out { capture_revision := "claude_api_request:v2", session_id := name
                                request_id := "req_1", model := "claude-opus-4", request_count := 1
                                observed_at := "2026-12-01T10:00:00Z" }]
  trace_rows := some [sealed_trace out {
    capture_revision := "claude_llm_request_ownership:v1", session_id := name, request_id := "req_1"
    agent_id := "a1", observed_at := "2026-12-01T10:00:00Z" }]

/-- A root whose one request is its own. -/
def owning_root (out : Outside) (name : String) : Root :=
  { child_root out name with
    trace_rows := some [sealed_trace out {
      capture_revision := "claude_llm_request_ownership:v1", session_id := name, request_id := "req_1"
      agent_id := "", observed_at := "2026-12-01T10:00:00Z" }] }

/-- Beside a root that leaves it to a child, in either order. -/
example :
    let out := { exampleOutside with
      sha256 := fun bytes => ⟨List.replicate 32 (bytes.headD 0), by simp⟩ }
    let owner := fun roots => (classify_claude_legacy_request_owners out roots).toOption.bind
      (fun owners => (owners.get (sha256_hex out (as_bytes "req_1"))).map (·.root_session_id))
    owner [child_root out "s1", owning_root out "s2"] = some "s2" ∧
      owner [owning_root out "s2", child_root out "s1"] = some "s2" := by
  decide +kernel

theorem sealed_api_valid (out : Outside) (row : ClaudeLocalOtelEvidence) :
    claude_api_evidence_fingerprint_is_valid out (sealed_api out row) = true := beq_self_eq_true _

theorem sealed_trace_valid (out : Outside) (row : ClaudeTraceOwnershipEvidence) :
    claude_trace_evidence_fingerprint_is_valid out (sealed_trace out row) = true := beq_self_eq_true _

/-- A ledger of one API row and its trace row. -/
theorem classify_single {R : Type} {row_view : ClaudeLocalOtelEvidence → R}
    {root_session_id : String} {members : SortedMap String Unit}
    {trace : ClaudeTraceOwnershipEvidence} (hroot : members.contains root_session_id = true)
    (hrow : validate_claude_api_row out root_session_id row = true)
    (htrace : validate_claude_trace_row out root_session_id trace = true)
    (hrequest : row.request_id = trace.request_id) (hclient : row.client_request_id = "")
    (howner : members.contains (claude_trace_owner_session_id root_session_id trace.agent_id) = true) :
    ∃ ledger, classify_claude_usage_ledger_with_rows out row_view root_session_id members [row] [trace] =
      .ok ledger := by
  have hapi : collect_by_request (validate_claude_api_row out root_session_id)
      ClaudeLocalOtelEvidence.request_id [row] = .ok (by_request ClaudeLocalOtelEvidence.request_id [row]) :=
    collect_ok.mpr ⟨by simpa using hrow, by simp, rfl⟩
  have htraces : collect_by_request (validate_claude_trace_row out root_session_id)
      request_id [trace] =
        .ok (by_request request_id [trace]) :=
    collect_ok.mpr ⟨by simpa using htrace, by simp, rfl⟩
  have hget : ∀ {α : Type} (empty : α), (for_each_member members empty).get?
      (claude_trace_owner_session_id root_session_id trace.agent_id) = some empty := by
    intro α empty
    rw [Assigns.for_each_get, if_pos howner]
  have hkeys : (by_request ClaudeLocalOtelEvidence.request_id [row]).keys =
      (by_request request_id [trace]).keys := by
    change [row.request_id] = [trace.request_id]
    rw [hrequest]
  have hfound : (by_request request_id [trace]).get? row.request_id =
      some trace := by
    rw [hrequest]
    exact get?_insert_self _ _ _
  unfold classify_claude_usage_ledger_with_rows
  rw [hroot]
  refine bind_comes_through hapi (bind_comes_through htraces ?_)
  rw [if_neg (fun hne => hne hkeys)]
  change ∃ ledger, (List.foldlM _ _ [(row.request_id, row)] >>= _) = Except.ok ledger
  rw [foldlM_cons]
  unfold assign_request
  simp only [hfound, hclient, ne_eq, not_true_eq_false, false_and, if_false, howner, hget]
  exact ⟨_, rfl⟩

theorem child_root_ledger (htime : (out.time.parse "2026-12-01T10:00:00Z").isSome = true)
    (name : String) : ∃ ledger, (child_root out name).ledger out = .ok ledger := by
  have hagent : (trim "a1" != "") = true := by decide +kernel
  have howner : ∀ trace : ClaudeTraceOwnershipEvidence, trace.agent_id = "a1" →
      (owner_members name [trace]).contains name = true ∧
      (owner_members name [trace]).contains
        (claude_trace_owner_session_id name trace.agent_id) = true := by
    intro trace htrace
    unfold owner_members
    rw [filter_cons_of_pos (by rw [htrace]; exact hagent), filter_nil]
    simp only [map_cons, map_nil, foldl_cons, foldl_nil, SortedMap.contains,
      get?_insert]
    constructor
    · split_ifs <;> rfl
    · rw [if_pos trivial]
      rfl
  unfold Root.ledger child_root
  dsimp only [Option.elim]
  refine classify_single (howner _ rfl).1 ?_ ?_ rfl rfl (howner _ rfl).2
  · unfold validate_claude_api_row
    rw [sealed_api_valid]
    simp [sealed_api, htime]
  · unfold validate_claude_trace_row
    rw [sealed_trace_valid]
    simp [sealed_trace, htime]

theorem child_root_claimed (out : Outside) (name : String) : (child_root out name).claimed = [] := by
  have hagent : trim "a1" ≠ "" := by decide +kernel
  unfold Root.claimed
  rw [filter_eq_nil_iff]
  intro row hrow
  rw [decide_eq_true_iff]
  intro howner
  obtain ⟨trace, htrace, hroot⟩ := map_eq_some_iff.mp howner
  have hmem := mem_of_find?_eq_some htrace
  rw [mem_singleton.mp hmem] at hroot
  exact hagent (owner_is_root.mp hroot)

/-- Each name is one letter longer than the one before. -/
def many_roots : List Root :=
  (List.range (2 ^ 32 + 1)).map
    (fun i => child_root exampleOutside (String.ofList (List.replicate (i + 1) 'a')))

/-- 2^32 + 1 roots, each with a ledger and none claiming a request: their ordinals do not fit. -/
theorem too_many_roots_are_refused :
    Distinct exampleOutside many_roots ∧ (many_roots.map root_session_id).Nodup ∧
      (∀ root ∈ many_roots, ∃ ledger, root.ledger exampleOutside = .ok ledger) ∧
      many_roots.Pairwise Apart ∧
      ¬∃ owners, classify_claude_legacy_request_owners exampleOutside many_roots = .ok owners := by
  have hroots : ∀ root ∈ many_roots, ∃ name, root = child_root exampleOutside name := by
    intro root hroot
    obtain ⟨i, -, rfl⟩ := List.mem_map.mp hroot
    exact ⟨_, rfl⟩
  have hdistinct : Distinct exampleOutside many_roots := by
    have hone : ∀ {request_id : String}, (∃ root ∈ many_roots, ∃ row ∈ root.api_rows,
        row.request_id = request_id) → request_id = "req_1" := by
      rintro request_id ⟨root, hroot, row, hrow, rfl⟩
      obtain ⟨name, rfl⟩ := hroots root hroot
      rw [mem_singleton.mp hrow]
      rfl
    intro a ha b hb _
    rw [hone ha, hone hb]
  have htime : (exampleOutside.time.parse "2026-12-01T10:00:00Z").isSome = true := by decide
  refine ⟨hdistinct, ?_, fun root hroot => ?_, ?_, fun ⟨owners, hok⟩ => ?_⟩
  · unfold many_roots
    rw [List.map_map]
    refine List.Nodup.map_on (fun i _ j _ hij => ?_) nodup_range
    have hlength := congrArg String.length hij
    simpa [child_root] using hlength
  · obtain ⟨name, rfl⟩ := hroots root hroot
    exact child_root_ledger htime name
  · refine pairwise_of_forall_mem_list (fun a ha b _ row hrow => ?_)
    obtain ⟨name, rfl⟩ := hroots a ha
    rw [child_root_claimed] at hrow
    cases hrow
  · have hcount := ((fed_spec hdistinct).1.mp (verdict_ok.mp hok).1).ordinals
    unfold many_roots at hcount
    rw [length_map, length_range] at hcount
    exact absurd hcount (by decide)

end ottto_service.claude_usage_ledger
