-- What the births of a table keep: each cutoff is the least birth recorded for
-- its session, each observation the least recorded for its path since a move
-- retired it, and the loader takes every table that the calls leave.
import Ottto.BirthStore

namespace ottto_service.claude_money_birth_store

open Words SortedVec SortedMap
open SortedMap (lookupEntry insertEntry eraseEntry)

variable (out : Outside)

/-! ## Sessions that the loader takes -/

def Session.path (s : Session) (p : LocationKey) : Option Observation := lookupEntry p s.paths

structure Session.Valid (s : Session) : Prop where
  sorted : Sorted s.paths
  positive : s.cutoff ≠ 0
  retired : ∀ p o, s.path p = some o → o.birth = 0 → o.generation ≠ 0
  live : ∃ o, s.path s.owner = some o ∧ o.birth ≠ 0

theorem valid_session_iff (s : Session) : BirthStore.valid_session s = true ↔ s.Valid := by
  unfold BirthStore.valid_session
  simp only [Bool.and_eq_true, bne_iff_ne, ne_eq, Bool.not_eq_true', List.all_eq_true,
    List.any_eq_true, windows_ordered_iff, beq_iff_eq, Bool.and_eq_false_iff, beq_eq_false_iff_ne,
    and_assoc]
  constructor
  · rintro ⟨hpositive, -, hsorted, hretired, ⟨p, o⟩, hmem, howner, hlive⟩
    refine ⟨hsorted, hpositive, fun p o hp hzero => ?_, o, ?_, hlive⟩
    · rcases hretired (p, o) (hsorted.lookup_iff.mp hp) with h | h
      · exact absurd hzero h
      · exact h
    · rw [← howner]
      exact hsorted.lookup_iff.mpr hmem
  · rintro ⟨hsorted, hpositive, hretired, o, howner, hlive⟩
    have hmem := hsorted.lookup_iff.mp howner
    refine ⟨hpositive, ?_, hsorted, ?_, (s.owner, o), hmem, rfl, hlive⟩
    · cases hpaths : s.paths with
      | nil => rw [hpaths] at hmem; cases hmem
      | cons e l => rfl
    · rintro ⟨p, o⟩ hmem
      by_cases hzero : o.birth = 0
      · exact .inr (hretired p o (hsorted.lookup_iff.mpr hmem) hzero)
      · exact .inl hzero

/-! ## One session -/

/-- The observation of a path after one more birth. -/
def sighted (before : Option Observation) (birth : UInt64) : Observation :=
  match before with
  | none => ⟨birth, 0, {}⟩
  | some o =>
    { o with birth := if o.birth = 0 then birth else if birth < o.birth then birth else o.birth }

theorem sighted_ne_zero {birth : UInt64} (before : Option Observation) (h : birth ≠ 0) :
    (sighted before birth).birth ≠ 0 := by
  cases before with
  | none => exact h
  | some o =>
    simp only [sighted]
    split_ifs with hzero
    · exact h
    · exact h
    · exact hzero

namespace Session

variable {s s' : Session} {pk : LocationKey} {birth : UInt64}

theorem observe_eq (hs : Sorted s.paths) :
    s.observe pk birth =
      if (sighted (s.path pk) birth).birth < s.cutoff then
        { owner := pk, cutoff := (sighted (s.path pk) birth).birth, absent := 0
          paths := insertEntry pk (sighted (s.path pk) birth) s.paths }
      else { s with absent := 0, paths := insertEntry pk (sighted (s.path pk) birth) s.paths } := by
  have hpaths : observe_path s.paths pk birth =
      insertEntry pk (sighted (s.path pk) birth) s.paths := by
    have hfound := binary_search_spec hs pk
    unfold observe_path path
    generalize binary_search s.paths pk = found at hfound ⊢
    cases hfound with
    | found j o hentry hlookup hset _ =>
      simp only [hentry, hlookup, sighted]
      exact hset _
    | absent j hlookup hinsert =>
      simp only [hlookup, sighted]
      exact hinsert _
  unfold observe
  rw [hpaths]
  dsimp only
  -- the search for the path that is there now
  have hnow := binary_search_spec (hs.insertEntry pk (sighted (s.path pk) birth)) pk
  have hget : lookupEntry pk (insertEntry pk (sighted (s.path pk) birth) s.paths) =
      some (sighted (s.path pk) birth) := by
    rw [lookupEntry_insertEntry _ _ _ hs, if_pos rfl]
  generalize binary_search (insertEntry pk (sighted (s.path pk) birth) s.paths) pk = found at hnow ⊢
  cases hnow with
  | found j o hentry hlookup _ _ =>
    have ho : o = sighted (s.path pk) birth := Option.some.inj (hlookup.symm.trans hget)
    subst ho
    simp only [hentry]
  | absent j hlookup _ => cases hlookup.symm.trans hget

/-- One more birth: the path has the least, and the session too. -/
structure Observed (s s' : Session) (pk : LocationKey) (birth : UInt64) : Prop where
  sorted : Sorted s'.paths
  path : ∀ p, s'.path p = if p = pk then some (sighted (s.path pk) birth) else s.path p
  place : (s'.owner = s.owner ∧ s'.cutoff = s.cutoff ∧ s.cutoff ≤ (sighted (s.path pk) birth).birth) ∨
    (s'.owner = pk ∧ s'.cutoff = (sighted (s.path pk) birth).birth ∧
      (sighted (s.path pk) birth).birth < s.cutoff)

theorem observe_spec (hs : Sorted s.paths) : Observed s (s.observe pk birth) pk birth := by
  rw [observe_eq hs]
  have hpath : ∀ p, lookupEntry p (insertEntry pk (sighted (s.path pk) birth) s.paths) =
      if p = pk then some (sighted (s.path pk) birth) else s.path p :=
    fun p => lookupEntry_insertEntry _ _ _ hs
  split_ifs with hless
  · exact ⟨hs.insertEntry _ _, hpath, .inr ⟨rfl, rfl, hless⟩⟩
  · exact ⟨hs.insertEntry _ _, hpath, .inl ⟨rfl, rfl, UInt64.not_lt.mp hless⟩⟩

theorem Observed.valid (h : Observed s s' pk birth) (hs : s.Valid) (hbirth : birth ≠ 0) :
    s'.Valid := by
  have hsighted := sighted_ne_zero (s.path pk) hbirth
  refine ⟨h.sorted, ?_, ?_, ?_⟩
  · rcases h.place with ⟨-, hcutoff, -⟩ | ⟨-, hcutoff, -⟩
    · rw [hcutoff]
      exact hs.positive
    · rw [hcutoff]
      exact hsighted
  · intro p o hp hzero
    rw [h.path] at hp
    split_ifs at hp with hpk
    · cases hp
      exact absurd hzero hsighted
    · exact hs.retired p o hp hzero
  · rcases h.place with ⟨howner, -, -⟩ | ⟨howner, -, -⟩
    · obtain ⟨o, ho, hlive⟩ := hs.live
      rw [howner, h.path]
      split_ifs with hpk
      · exact ⟨_, rfl, hsighted⟩
      · exact ⟨o, ho, hlive⟩
    · rw [howner, h.path, if_pos rfl]
      exact ⟨_, rfl, hsighted⟩

/-- Only the identity of one path's opened object changes, and where the path
was remembered only its size grows. -/
structure Noted (s s' : Session) (pk : LocationKey) (remembered : Bool) : Prop where
  sorted : Sorted s'.paths
  owner : s'.owner = s.owner
  cutoff : s'.cutoff = s.cutoff
  path : ∀ p, ∃ opened : Option BirthIdentity,
    s'.path p = (s.path p).map (fun o => { o with opened := opened.getD o.opened }) ∧
      (p ≠ pk → opened = none) ∧
      (remembered = true → ∀ o, s.path p = some o →
        (opened.getD o.opened).object = o.opened.object ∧
          o.opened.size.toNat ≤ (opened.getD o.opened).size.toNat)

theorem Noted.refl (hs : Sorted s.paths) (remembered : Bool) : Noted s s pk remembered := by
  refine ⟨hs, rfl, rfl, fun p => ⟨none, ?_, fun _ => rfl, fun _ o _ => ⟨rfl, le_refl _⟩⟩⟩
  cases s.path p <;> rfl

theorem note_opened_spec (hs : Sorted s.paths) (remembered : Bool) (birth : Int)
    (opened : ClaudeOpenedBirth) :
    Noted s (s.note_opened out pk remembered birth opened) pk remembered := by
  -- one path's identity is replaced
  have hreplaced : ∀ (o : Observation) (identity : BirthIdentity), s.path pk = some o →
      (remembered = true → identity.object = o.opened.object ∧
        o.opened.size.toNat ≤ identity.size.toNat) →
      Noted s { s with paths := insertEntry pk { o with opened := identity } s.paths } pk
        remembered := by
    intro o identity hget hgrows
    refine ⟨hs.insertEntry _ _, rfl, rfl, fun p => ?_⟩
    by_cases hpk : p = pk
    · subst hpk
      refine ⟨some identity, ?_, fun h => absurd rfl h, fun hremembered o' ho' => ?_⟩
      · rw [path, lookupEntry_insertEntry _ _ _ hs, if_pos rfl, hget]
        rfl
      · obtain rfl : o = o' := Option.some.inj (hget.symm.trans ho')
        exact hgrows hremembered
    · refine ⟨none, ?_, fun _ => rfl, fun _ o' _ => ⟨rfl, le_refl _⟩⟩
      rw [path, lookupEntry_insertEntry _ _ _ hs, if_neg hpk]
      change s.path p = _
      cases s.path p <;> rfl
  have hfound := binary_search_spec hs pk
  unfold note_opened
  generalize binary_search s.paths pk = found at hfound ⊢
  cases hfound with
  | absent _ _ _ => exact Noted.refl hs remembered
  | found j o hentry hlookup hset _ =>
    simp only [hentry, hset]
    by_cases hnew : (!remembered && decide ((o.birth.toNat : Int) = birth)) = true
    · rw [if_pos hnew]
      refine hreplaced o _ hlookup (fun hremembered => ?_)
      rw [hremembered] at hnew
      cases hnew
    · rw [if_neg hnew]
      by_cases hcovers : o.opened.covers out opened = true
      · rw [if_pos hcovers]
        refine hreplaced o _ hlookup (fun _ => ⟨rfl, ?_⟩)
        unfold BirthIdentity.covers at hcovers
        simp only [Bool.and_eq_true, decide_eq_true_eq] at hcovers
        have hsize := hcovers.1.1.2
        rw [if_pos hsize, UInt32.toNat_ofNat', Nat.mod_eq_of_lt hsize]
        exact hcovers.2
      · rw [if_neg hcovers]
        exact Noted.refl hs remembered

theorem Noted.valid (h : Noted s s' pk remembered) (hs : s.Valid) : s'.Valid := by
  refine ⟨h.sorted, h.cutoff ▸ hs.positive, ?_, ?_⟩
  · intro p o hp hzero
    obtain ⟨opened, hpath, -, -⟩ := h.path p
    rw [hpath] at hp
    obtain ⟨before, hbefore, rfl⟩ := Option.map_eq_some_iff.mp hp
    exact hs.retired p before hbefore hzero
  · obtain ⟨o, ho, hlive⟩ := hs.live
    obtain ⟨opened, hpath, -, -⟩ := h.path s.owner
    rw [h.owner, hpath, ho]
    exact ⟨_, rfl, hlive⟩

/-- The owner of a session moves: its path is retired. -/
structure Moved (s s' : Session) (source target : LocationKey) : Prop where
  sorted : Sorted s'.paths
  owned : s.owner = source
  owner : s'.owner = target
  cutoff : s'.cutoff = s.cutoff
  live : ∃ o, s.path target = some o ∧ o.birth ≠ 0
  path : ∀ p, s'.path p = if p = source ∧ source ≠ target then
    (s.path source).map (fun o => ⟨0, o.generation + 1, {}⟩) else s.path p
  grows : source ≠ target → ∃ o, s.path source = some o ∧
    (o.generation + 1).toNat = o.generation.toNat + 1

theorem proven_move_spec (hs : Sorted s.paths) {source target : LocationKey}
    (h : s.proven_move source target = some s') : Moved s s' source target := by
  have howner : s.owner = source := by
    by_contra hne
    unfold proven_move at h
    rw [if_pos hne] at h
    cases h
  unfold proven_move at h
  rw [if_neg (not_not.mpr howner)] at h
  have htarget := binary_search_spec hs target
  generalize binary_search s.paths target = found at htarget h
  cases htarget with
  | absent _ _ _ => cases h
  | found j o hentry hlookup _ _ =>
    simp only [hentry] at h
    split_ifs at h with hzero hsame
    · cases h
      subst hsame
      exact ⟨hs, howner, howner, rfl, ⟨o, hlookup, hzero⟩, fun p => by simp, fun h => absurd rfl h⟩
    · have hsource := binary_search_spec hs source
      generalize binary_search s.paths source = found at hsource h
      cases hsource with
      | absent _ _ _ => cases h
      | found i old hentry' hlookup' hset _ =>
        simp only [hentry', hset] at h
        split_ifs at h with hmax
        cases h
        have hword : (UInt64.ofNat (old.generation.toNat + 1)) = old.generation + 1 := by
          rw [UInt64.ofNat_add, UInt64.ofNat_toNat]
          rfl
        refine ⟨hs.insertEntry _ _, howner, rfl, rfl, ⟨o, hlookup, hzero⟩, fun p => ?_,
          fun _ => ⟨old, hlookup', ?_⟩⟩
        · rw [path, lookupEntry_insertEntry _ _ _ hs, path, hlookup', hword]
          by_cases hp : p = source
          · rw [if_pos hp, if_pos ⟨hp, hsame⟩]
            rfl
          · rw [if_neg hp, if_neg (fun h => hp h.1)]
            rfl
        · rw [← hword, UInt64.toNat_ofNat', Nat.mod_eq_of_lt]
          have : MAX_GENERATION.toNat = 2147483647 := rfl
          omega

theorem Moved.valid {source target : LocationKey} (h : Moved s s' source target) (hs : s.Valid) :
    s'.Valid := by
  obtain ⟨live, hlive, hne⟩ := h.live
  refine ⟨h.sorted, h.cutoff ▸ hs.positive, ?_, ?_⟩
  · intro p o hp hzero
    rw [h.path] at hp
    split_ifs at hp with hmoved
    · obtain ⟨before, hbefore, rfl⟩ := Option.map_eq_some_iff.mp hp
      obtain ⟨o, ho, hgrows⟩ := h.grows hmoved.2
      obtain rfl : before = o := Option.some.inj (hbefore.symm.trans ho)
      intro hgeneration
      have hnext : before.generation + 1 = 0 := hgeneration
      rw [hnext] at hgrows
      simp at hgrows
    · exact hs.retired p o hp hzero
  · rw [h.owner, h.path, if_neg (fun hsame => hsame.2 hsame.1.symm)]
    exact ⟨live, hlive, hne⟩

end Session

end ottto_service.claude_money_birth_store
