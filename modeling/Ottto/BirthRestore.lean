-- A table later in a run: its sessions have no greater cutoffs and no smaller
-- generations, so what an older table restores to it was never lost.
import Ottto.BirthRuns

namespace ottto_service.claude_money_birth_store

open Words SortedVec Option BirthStore UInt64
open SortedMap (lookupEntry insertEntry eraseEntry)
open BirthStore (known Recorded Opened Marked session_put)

variable (out : Outside)

/-! ## Later sessions -/

/-- A later observation of the path: a move has retired it since, or its birth
is no greater and its opened object is the same, grown. -/
def Observation.Later (o o' : Observation) : Prop :=
  o.generation < o'.generation ∨
    (o'.generation = o.generation ∧ (o.birth ≠ 0 → o'.birth ≠ 0 ∧ o'.birth ≤ o.birth ∧
      o'.opened.object = o.opened.object ∧ o.opened.size.toNat ≤ o'.opened.size.toNat))

theorem Observation.Later.refl (o : Observation) : o.Later o :=
  .inr ⟨rfl, fun h => ⟨h, UInt64.le_refl _, rfl, le_refl _⟩⟩

theorem Observation.Later.trans {o o' o'' : Observation} (h : o.Later o') (h' : o'.Later o'') :
    o.Later o'' := by
  rcases h with hless | ⟨hsame, hlive⟩
  · rcases h' with hless' | ⟨hsame', -⟩
    · exact .inl (UInt64.lt_trans hless hless')
    · exact .inl (hsame' ▸ hless)
  · rcases h' with hless' | ⟨hsame', hlive'⟩
    · exact .inl (hsame ▸ hless')
    · refine .inr ⟨hsame'.trans hsame, fun hne => ?_⟩
      obtain ⟨h1, h2, h3, h4⟩ := hlive hne
      obtain ⟨h1', h2', h3', h4'⟩ := hlive' h1
      exact ⟨h1', UInt64.le_trans h2' h2, h3'.trans h3, h4.trans h4'⟩

structure Session.Later (s s' : Session) : Prop where
  cutoff : s'.cutoff ≤ s.cutoff
  path : ∀ p o, s.path p = some o → ∃ o', s'.path p = some o' ∧ o.Later o'

namespace Session.Later

variable {s s' s'' : Session} {pk : LocationKey}

theorem refl (s : Session) : s.Later s :=
  ⟨UInt64.le_refl _, fun _ o hp => ⟨o, hp, .refl o⟩⟩

theorem trans (h : s.Later s') (h' : s'.Later s'') : s.Later s'' := by
  refine ⟨UInt64.le_trans h'.cutoff h.cutoff, fun p o hp => ?_⟩
  obtain ⟨o', hp', ho⟩ := h.path p o hp
  obtain ⟨o'', hp'', ho'⟩ := h'.path p o' hp'
  exact ⟨o'', hp'', ho.trans ho'⟩

theorem of_observed {b : UInt64} (h : s.Observed s' pk b) (hb : b ≠ 0) : s.Later s' := by
  constructor
  · rcases h.place with ⟨-, hcutoff, -⟩ | ⟨-, hcutoff, hless⟩
    · rw [hcutoff]
      exact UInt64.le_refl _
    · rw [hcutoff]
      exact UInt64.le_of_lt hless
  · intro p o hp
    rw [h.path]
    split_ifs with hpk
    · subst hpk
      refine ⟨_, rfl, ?_⟩
      rw [hp]
      refine .inr ⟨rfl, fun hne => ⟨sighted_ne_zero (some o) hb, ?_, rfl, le_refl _⟩⟩
      simp only [sighted, if_neg hne]
      split_ifs with hless
      · exact UInt64.le_of_lt hless
      · exact UInt64.le_refl _
    · exact ⟨o, hp, .refl o⟩

/-- A path that had no birth may be given another identity. -/
theorem noted {remembered : Bool} (h : s.Later s') (hn : s'.Noted s'' pk remembered)
    (hremembered : ∀ o, s.path pk = some o → o.birth ≠ 0 → remembered = true) : s.Later s'' := by
  refine ⟨hn.cutoff ▸ h.cutoff, fun p o hp => ?_⟩
  obtain ⟨o', hp', ho⟩ := h.path p o hp
  obtain ⟨opened, hpath, hother, hgrows⟩ := hn.path p
  rw [hpath, hp']
  refine ⟨_, rfl, ?_⟩
  rcases ho with hless | ⟨hsame, hlive⟩
  · exact .inl hless
  · refine .inr ⟨hsame, fun hne => ?_⟩
    obtain ⟨h1, h2, h3, h4⟩ := hlive hne
    by_cases hpk : p = pk
    · subst hpk
      obtain ⟨hobject, hsize⟩ := hgrows (hremembered o hp hne) o' hp'
      exact ⟨h1, h2, hobject.trans h3, h4.trans hsize⟩
    · rw [hother hpk]
      exact ⟨h1, h2, h3, h4⟩

theorem of_moved {source target : LocationKey} (h : s.Moved s' source target) : s.Later s' := by
  refine ⟨h.cutoff ▸ UInt64.le_refl _, fun p o hp => ?_⟩
  rw [h.path]
  split_ifs with hretired
  · obtain ⟨before, hbefore, hgrows⟩ := h.grows hretired.2
    rw [hretired.1, hbefore] at hp
    obtain rfl := Option.some.inj hp
    rw [hbefore]
    refine ⟨_, rfl, .inl (UInt64.lt_iff_toNat_lt.mpr ?_)⟩
    change before.generation.toNat < (before.generation + 1).toNat
    omega
  · exact ⟨o, hp, .refl o⟩

end Session.Later

/-! ## Later tables -/

structure BirthStore.Later (t t' : BirthStore) : Prop where
  session : ∀ k s, t.session k = some s → ∃ s', t'.session k = some s' ∧ s.Later s'

namespace BirthStore.Later

variable {t t' t'' : BirthStore} {sk pk : LocationKey}

theorem refl (t : BirthStore) : t.Later t := ⟨fun _ s hs => ⟨s, hs, .refl s⟩⟩

theorem trans (h : t.Later t') (h' : t'.Later t'') : t.Later t'' := by
  refine ⟨fun k s hs => ?_⟩
  obtain ⟨s', hs', hlater⟩ := h.session k s hs
  obtain ⟨s'', hs'', hlater'⟩ := h'.session k s' hs'
  exact ⟨s'', hs'', hlater.trans hlater'⟩

theorem put (h : Sorted t.sessions) {s' : Session}
    (hlater : ∀ s, t.session sk = some s → s.Later s') : t.Later (t.put sk s') := by
  refine ⟨fun k s hs => ?_⟩
  rw [session_put h]
  split_ifs with hk
  · exact ⟨s', rfl, hlater s (hk ▸ hs)⟩
  · exact ⟨s, hs, .refl s⟩

theorem of_recorded {birth : Int} (h : Recorded t sk pk birth t') (ht : t.Valid) : t.Later t' := by
  cases h with
  | ignored _ => exact .refl t
  | first b _ _ habsent =>
    exact put ht.sorted (fun s hs => by cases habsent.symm.trans hs)
  | again b _ hb s s' hfound hobserved =>
    refine put ht.sorted (fun s1 hs1 => ?_)
    cases hfound.symm.trans hs1
    exact .of_observed hobserved hb

theorem opened {middle : BirthStore} (h : t.Later middle) (hm : middle.Valid)
    (ho : Opened t middle sk pk t') : t.Later t' := by
  cases ho with
  | absent _ => exact h
  | noted s s' hfound hnoted =>
    refine ⟨fun k s0 hs0 => ?_⟩
    obtain ⟨s1, hs1, hlater⟩ := h.session k s0 hs0
    rw [session_put hm.sorted]
    split_ifs with hk
    · subst hk
      cases hfound.symm.trans hs1
      refine ⟨s', rfl, hlater.noted hnoted (fun o hpath hne => ?_)⟩
      rw [hs0, bind_some, hpath, bind_some, known, if_neg hne]
      rfl
    · exact ⟨s1, hs1, hlater⟩

theorem of_moved {s s' : Session} {source target : LocationKey} (ht : Sorted t.sessions)
    (hfound : t.session sk = some s) (h : s.Moved s' source target) : t.Later (t.put sk s') := by
  refine put ht (fun s1 hs1 => ?_)
  cases hfound.symm.trans hs1
  exact .of_moved h

theorem of_same (h : ∀ k, t'.session k = t.session k) : t.Later t' :=
  ⟨fun k s hs => ⟨s, (h k).trans hs, .refl s⟩⟩

end BirthStore.Later

/-! ## One call -/

/-- The session whose live location the call may move, and where to. -/
def Call.Moves (k target : LocationKey) : Call → Prop
  | .record_proven_move session _ path | .record_discovered_move session _ path _ =>
    k = session_key out session ∧ target = location_key out path
  | _ => False

/-- The live location changes by a strictly smaller birth, or by the move. -/
def LiveStep (s s' : Session) (moves : Prop) : Prop :=
  s'.owner ≠ s.owner →
    (s'.cutoff < s.cutoff ∧ ∃ o, s'.path s'.owner = some o ∧ o.birth = s'.cutoff) ∨ moves

variable {s s' : Session} {moves : Prop}

theorem LiveStep.same (h : s'.owner = s.owner) :
    LiveStep s s' moves := fun hne => absurd h hne

variable {t t' : BirthStore}

theorem LiveStep.recorded {sk pk k : LocationKey} {birth : Int} (ht : t.Valid)
    (h : Recorded t sk pk birth t') (hs : t.session k = some s)
    (hs' : t'.session k = some s') : LiveStep s s' moves := by
  cases h with
  | ignored _ =>
    cases hs.symm.trans hs'
    exact .same rfl
  | first b _ _ habsent =>
    rw [session_put ht.sorted] at hs'
    split_ifs at hs' with hk
    · rw [hk, habsent] at hs
      cases hs
    · cases hs.symm.trans hs'
      exact .same rfl
  | again b _ _ s1 s1' hfound hobserved =>
    rw [session_put ht.sorted] at hs'
    split_ifs at hs' with hk
    · rw [hk] at hs
      obtain rfl := Option.some.inj (hfound.symm.trans hs)
      obtain rfl := Option.some.inj hs'
      rcases hobserved.place with ⟨howner, -, -⟩ | ⟨howner, hcutoff, hless⟩
      · exact .same howner
      · refine fun _ => .inl ⟨hcutoff ▸ hless, sighted (s1.path pk) b, ?_, hcutoff.symm⟩
        rw [howner, hobserved.path, if_pos rfl]
    · cases hs.symm.trans hs'
      exact .same rfl

theorem LiveStep.opened {middle : BirthStore} {sk pk k : LocationKey} (hm : middle.Valid)
    (ho : Opened t middle sk pk t')
    (h : ∀ s1, middle.session k = some s1 → LiveStep s s1 moves)
    (hs' : t'.session k = some s') : LiveStep s s' moves := by
  cases ho with
  | absent _ => exact h s' hs'
  | noted s1 s2 hfound hnoted =>
    rw [session_put hm.sorted] at hs'
    split_ifs at hs' with hk
    · cases hs'
      intro hne
      rw [hnoted.owner] at hne
      rcases h s1 (hk ▸ hfound) hne with ⟨hless, o, hpath, hbirth⟩ | hmoves
      · obtain ⟨opened, hnotedPath, -, -⟩ := hnoted.path s1.owner
        refine .inl ⟨hnoted.cutoff ▸ hless, ?_⟩
        rw [hnoted.owner, hnoted.cutoff, hnotedPath, hpath]
        exact ⟨_, rfl, hbirth⟩
      · exact .inr hmoves
    · exact h s' hs'

/-- What one call does to a table. -/
structure Called (t : BirthStore) (c : Call) (t' : BirthStore) (moved : Bool) : Prop where
  valid : t'.Valid
  later : c.prunes = false → t.Later t'
  live : ∀ k s s', t.session k = some s → t'.session k = some s' →
    LiveStep s s' (moved = true ∧ c.Moves out k s'.owner)

namespace Called

variable {t : BirthStore}

/-- A call that changes no session. -/
theorem of_same {t' : BirthStore} {c : Call} {moved : Bool} (ht' : t'.Valid)
    (hsame : ∀ k, t'.session k = t.session k) : Called out t c t' moved := by
  refine ⟨ht', fun _ => .of_same hsame, fun k s s' hs hs' => .same ?_⟩
  rw [hsame k, hs] at hs'
  rw [Option.some.inj hs']

theorem observation (ht : t.Valid) (name path : String) (birth : Int) :
    Called out t (.record_observation name path birth)
      (t.record_observation out name path birth) false := by
  have hrecorded := record_observation_spec out ht name path birth
  exact ⟨hrecorded.valid ht, fun _ => .of_recorded hrecorded ht,
    fun _ _ _ hs hs' => .recorded ht hrecorded hs hs'⟩

theorem opened (ht : t.Valid) (name path : String) (birth : Int) (identity : ClaudeOpenedBirth) :
    Called out t (.record_opened name path birth identity)
      (t.record_opened out name path birth identity) false := by
  obtain ⟨middle, hrecorded, hopened⟩ :=
    record_opened_spec out ht name path birth identity
  have hmiddle := hrecorded.valid ht
  exact ⟨hopened.valid hmiddle,
    fun _ => (BirthStore.Later.of_recorded hrecorded ht).opened hmiddle hopened,
    fun k s s' hs hs' => .opened hmiddle hopened
      (fun _ hs1 => .recorded ht hrecorded hs hs1) hs'⟩

/-- The staged paths are in no fact about sessions. -/
theorem stage {c c' : Call} {recorded : BirthStore} (pk : LocationKey)
    (h : Called out t c' recorded false) (hprunes : c'.prunes = false) :
    Called out t c (recorded.stage pk) false := by
  obtain ⟨staged, hstaged⟩ := stage_spec recorded pk
  rw [hstaged]
  refine ⟨⟨h.valid.sorted, h.valid.marks, h.valid.marked, h.valid.sessions⟩,
    fun _ => ⟨(h.later hprunes).session⟩, fun k s s' hs hs' hne => ?_⟩
  rcases h.live k s s' hs hs' hne with hless | ⟨hmoved, -⟩
  · exact .inl hless
  · cases hmoved

theorem staged (ht : t.Valid) (name path : String) (identity : Option ClaudeOpenedBirth) :
    Called out t (.stage_opened name path identity)
      (t.stage_opened out name path identity) false := by
  unfold stage_opened
  cases hfilter : identity.filter (fun o => o.birth != 0) with
  | none =>
    have hsame : Called out t (.retain_money_marks []) t false := of_same out ht (fun _ => rfl)
    exact hsame.stage out _ rfl
  | some identity =>
    exact (opened out ht name path identity.birth.toNat identity).stage out _ rfl

theorem proven (ht : t.Valid) (name : String) (source : LocationKey) (target : String) :
    Called out t (.record_proven_move name source target)
      (t.record_proven_move out name source target).1
      (t.record_proven_move out name source target).2 := by
  rcases record_proven_move_spec out ht name source target with
    hnone | ⟨s, s', hfound, hmoved, hsome⟩
  · rw [hnone]
    exact of_same out ht (fun _ => rfl)
  · rw [hsome]
    refine ⟨ht.put (hmoved.valid (ht.sessions _ s hfound)),
      fun _ => .of_moved ht.sorted hfound hmoved, fun k s1 s1' hs1 hs1' => ?_⟩
    rw [session_put ht.sorted] at hs1'
    split_ifs at hs1' with hk
    · cases hs1'
      exact fun _ => .inr ⟨rfl, hk, hmoved.owner⟩
    · exact .same (by rw [Option.some.inj (hs1.symm.trans hs1')])

theorem discovered (ht : t.Valid) (name source target : String) (identity : ClaudeOpenedBirth) :
    Called out t (.record_discovered_move name source target identity)
      (t.record_discovered_move out name source target identity).1
      (t.record_discovered_move out name source target identity).2 := by
  unfold record_discovered_move
  by_cases hcan : t.can_record_discovered_move out name source target identity = true
  · rw [if_pos hcan]
    have hopened := opened out ht name target identity.birth.toNat identity
    have hproven := proven out hopened.valid name (location_key out source) target
    refine ⟨hproven.valid, fun _ => (hopened.later rfl).trans (hproven.later rfl),
      fun k s s' hs hs' => ?_⟩
    have hlive := hopened.live k s
    -- the opened birth, and then the move
    rcases record_proven_move_spec out hopened.valid name
      (location_key out source) target with hnone | ⟨s1, s1', hfound, hmoved, hsome⟩
    · rw [hnone] at hs' ⊢
      dsimp only at hs'
      exact fun hne => (hlive s' hs hs' hne).imp id
        (fun hmoves => absurd hmoves.1 Bool.false_ne_true)
    · rw [hsome] at hs' ⊢
      rw [session_put hopened.valid.sorted] at hs'
      split_ifs at hs' with hk
      · cases hs'
        exact fun _ => .inr ⟨rfl, hk, hmoved.owner⟩
      · exact fun hne => (hlive s' hs hs' hne).imp id
          (fun hmoves => absurd hmoves.1 Bool.false_ne_true)
  · rw [if_neg hcan]
    exact of_same out ht (fun _ => rfl)

theorem pruned (ht : t.Valid) (now : UInt64) (indexed : List (String × String)) :
    Called out t (.prune now indexed) (t.prune out now indexed) false := by
  refine ⟨prune_valid out ht now indexed, fun h => Bool.noConfusion h, ?_⟩
  intro k s s' hs hs'
  rcases (session_prune out ht.sorted now indexed).2 k with
    hnone | ⟨before, absent, hbefore, hafter⟩
  · cases hnone.symm.trans hs'
  · cases hbefore.symm.trans hs
    cases hafter.symm.trans hs'
    exact .same rfl

end Called

theorem call_spec (ht : t.Valid) (c : Call) :
    Called out t c (t.call out c).1 (t.call out c).2 := by
  cases c with
  | record_observation name path birth => exact .observation out ht name path birth
  | record_opened name path birth identity => exact .opened out ht name path birth identity
  | stage_opened name path identity => exact .staged out ht name path identity
  | record_proven_move name source target => exact .proven out ht name source target
  | record_discovered_move name source target identity =>
    exact .discovered out ht name source target identity
  | set_money_marks path marks =>
    have hmarked := set_money_marks_spec out ht path marks
    exact .of_same out (hmarked.valid ht) hmarked.session
  | retain_money_marks live =>
    have hmarked := retain_money_marks_spec ht live
    exact .of_same out (hmarked.valid ht) hmarked.session
  | prune now indexed => exact .pruned out ht now indexed

/-! ## The minima of one call -/

namespace Minima

variable {t : BirthStore} {h : History}

theorem record_opened (hm : Minima t h) (name path : String) (birth : Int)
    (identity : ClaudeOpenedBirth) :
    Minima (t.record_opened out name path birth identity)
      (h.record (session_key out name) (location_key out path) birth) := by
  obtain ⟨middle, hrecorded, hopened⟩ :=
    record_opened_spec out hm.valid name path birth identity
  exact (hm.recorded hrecorded).opened hopened

theorem stage (hm : Minima t h) (pk : LocationKey) : Minima (t.stage pk) h := by
  obtain ⟨staged, hstaged⟩ := stage_spec t pk
  rw [hstaged]
  exact ⟨⟨hm.valid.sorted, hm.valid.marks, hm.valid.marked, hm.valid.sessions⟩, hm.cutoff, hm.path,
    hm.least⟩

theorem record_proven_move (hm : Minima t h) (name : String) (source : LocationKey)
    (target : String) :
    Minima (t.record_proven_move out name source target).1
      (if (t.record_proven_move out name source target).2 ∧ source ≠ location_key out target then
        h.retire (session_key out name) source else h) := by
  rcases record_proven_move_spec out hm.valid name source target with
    hnone | ⟨s, s', hfound, hmoved, hsome⟩
  · rw [hnone, if_neg (fun h => Bool.false_ne_true h.1)]
    exact hm
  · rw [hsome]
    have hminima := hm.moved hfound hmoved
    simp only [true_and]
    exact hminima

theorem call (hm : Minima t h) (c : Call) :
    Minima (t.call out c).1 (h.step out t (t.call out c).1 (t.call out c).2 c) := by
  cases c with
  | record_observation name path birth =>
    exact hm.recorded (record_observation_spec out hm.valid name path birth)
  | record_opened name path birth identity => exact hm.record_opened out name path birth identity
  | stage_opened name path identity =>
    simp only [BirthStore.call, History.step]
    cases identity with
    | none => exact hm.stage _
    | some identity =>
      simp only [stage_opened, filter_some, bne_iff_ne, ne_eq]
      by_cases hzero : identity.birth = 0
      · rw [if_neg (not_not.mpr hzero)]
        have hsame : h.record (session_key out name) (location_key out path)
            identity.birth.toNat = h := by simp [History.record, hzero]
        rw [hsame]
        exact hm.stage _
      · rw [if_pos hzero]
        exact (hm.record_opened out name path identity.birth.toNat identity).stage _
  | record_proven_move name source target => exact hm.record_proven_move out name source target
  | record_discovered_move name source target identity =>
    simp only [BirthStore.call, History.step, record_discovered_move]
    by_cases hcan : t.can_record_discovered_move out name source target identity = true
    · simp only [if_pos hcan]
      exact (hm.record_opened out name target identity.birth.toNat identity).record_proven_move out
        name (location_key out source) target
    · simp only [if_neg hcan]
      exact hm
  | set_money_marks path marks => exact hm.marks (set_money_marks_spec out hm.valid path marks)
  | retain_money_marks live => exact hm.marks (retain_money_marks_spec hm.valid live)
  | prune now indexed => exact hm.pruned out now indexed

end Minima

theorem minima_run (calls : List Call) :
    Minima (run (stepped out) ({}, {}) calls).1 (run (stepped out) ({}, {}) calls).2 :=
  Run.invariant (fun s : BirthStore × History => Minima s.1 s.2) (fun _ c hs => hs.call out c)
    Minima.empty calls

/-! ## Restoring an older table -/

theorem preserve_path_later {e : LocationKey × Observation} (h : s.Later s')
    (hs : Sorted s.paths) (hs' : Sorted s'.paths) (he : e ∈ s.paths) :
    BirthStore.preserve_path s'.paths e = s'.paths := by
  obtain ⟨o', hpath, hlater⟩ := h.path e.1 e.2 (hs.lookup_iff.mpr he)
  have hfound := binary_search_spec hs' e.1
  unfold BirthStore.preserve_path
  generalize binary_search s'.paths e.1 = found at hfound ⊢
  cases hfound with
  | absent j hlookup _ => cases hlookup.symm.trans hpath
  | found j o hentry hlookup _ _ =>
    obtain rfl := Option.some.inj (hlookup.symm.trans hpath)
    have hkept : s'.paths.set j (e.1, o) = s'.paths := by
      rw [← hentry]
      exact List.set_getElem_self j.2
    simp only [hentry]
    rcases hlater with hless | ⟨hsame, hlive⟩
    · have hne : e.2.generation ≠ o.generation := fun heq => UInt64.lt_irrefl _ (heq ▸ hless)
      rw [if_neg (UInt64.not_lt.mpr (UInt64.le_of_lt hless)), if_neg (fun h => hne h.1)]
    · rw [if_neg (hsame ▸ UInt64.lt_irrefl _)]
      by_cases hboth : e.2.generation = o.generation ∧ e.2.birth ≠ 0 ∧ o.birth ≠ 0
      · -- the older birth is no smaller, and its object is the same, no larger
        obtain ⟨-, hbirth, hobject, hsize⟩ := hlive hboth.2.1
        have hleast : (if e.2.birth < o.birth then e.2.birth else o.birth) = o.birth :=
          if_neg (UInt64.not_lt.mpr hbirth)
        have hgrown : (if o.opened.size < e.2.opened.size then e.2.opened.size else o.opened.size) =
            o.opened.size := if_neg (UInt32.not_lt.mpr (UInt32.le_iff_toNat_le.mpr hsize))
        rw [if_pos hboth, hleast, if_pos hobject, hgrown]
        exact hkept
      · rw [if_neg hboth]

theorem preserve_session_later {e : LocationKey × Session} (h : t.Later t')
    (ht : t.Valid) (ht' : t'.Valid) (he : e ∈ t.sessions) :
    BirthStore.preserve_session t'.sessions e = t'.sessions := by
  have hsession : t.session e.1 = some e.2 := ht.sorted.lookup_iff.mpr he
  obtain ⟨s', hs', hlater⟩ := h.session e.1 e.2 hsession
  have hsorted := (ht'.sessions e.1 s' hs').sorted
  have hpaths : e.2.paths.foldl BirthStore.preserve_path s'.paths = s'.paths := by
    refine List.foldlRecOn (motive := fun paths => paths = s'.paths) _ _ rfl ?_
    rintro _ rfl o ho
    exact preserve_path_later hlater (ht.sessions e.1 e.2 hsession).sorted hsorted ho
  have hfound := binary_search_spec ht'.sorted e.1
  unfold BirthStore.preserve_session
  generalize binary_search t'.sessions e.1 = found at hfound ⊢
  cases hfound with
  | absent j hlookup _ => cases hlookup.symm.trans hs'
  | found j s1 hentry hlookup _ _ =>
    cases hlookup.symm.trans hs'
    simp only [hentry, hpaths]
    rw [if_neg (UInt64.not_lt.mpr hlater.cutoff), ← hentry]
    exact List.set_getElem_self j.2

theorem preserve_mark_spec {paths : List (LocationKey × UInt8)} (hs : Sorted paths)
    (hmarked : ∀ m ∈ paths, m.2 ≠ 0) {old : LocationKey × UInt8} (hold : old.2 ≠ 0) :
    Sorted (preserve_mark paths old) ∧
      ∀ m ∈ preserve_mark paths old, m.2 ≠ 0 := by
  have hfound := binary_search_spec hs old.1
  unfold preserve_mark
  generalize binary_search paths old.1 = found at hfound ⊢
  cases hfound with
  | found _ _ _ _ _ _ => exact ⟨hs, hmarked⟩
  | absent j _ hinsert =>
    have hold' : paths.insertIdx j old = insertEntry old.1 old.2 paths := hinsert old.2
    simp only [hold']
    refine ⟨hs.insertEntry _ _, fun m hm => ?_⟩
    rcases SortedMap.mem_insertEntry hm with rfl | hm
    · exact hold
    · exact hmarked m hm

/-- An older table of the same run restores marks alone: no session changes. -/
theorem preserve_missing_from_later (h : t.Later t') (ht : t.Valid) (ht' : t'.Valid) :
    (t'.preserve_missing_from t).sessions = t'.sessions ∧ (t'.preserve_missing_from t).Valid := by
  have hsessions : t.sessions.foldl preserve_session t'.sessions = t'.sessions := by
    refine List.foldlRecOn (motive := fun sessions => sessions = t'.sessions) _ _ rfl ?_
    rintro _ rfl e he
    exact preserve_session_later h ht ht' he
  have hmarks : Sorted (t.marks.paths.foldl preserve_mark t'.marks.paths) ∧
      ∀ m ∈ t.marks.paths.foldl preserve_mark t'.marks.paths, m.2 ≠ 0 := by
    refine List.foldlRecOn (motive := fun paths => Sorted paths ∧ ∀ m ∈ paths, m.2 ≠ 0) _ _
      ⟨ht'.marks, ht'.marked⟩ ?_
    exact fun paths hpaths old hold => preserve_mark_spec hpaths.1 hpaths.2 (ht.marked old hold)
  refine ⟨hsessions, ?_, hmarks.1, hmarks.2, fun k s hs => ht'.sessions k s ?_⟩
  · unfold preserve_missing_from
    rw [hsessions]
    exact ht'.sorted
  · unfold BirthStore.session preserve_missing_from at hs
    rw [hsessions] at hs
    exact hs

theorem later_run (ht : t.Valid) (calls : List Call) (hprunes : ∀ c ∈ calls, c.prunes = false) :
    (run (fun t c => (t.call out c).1) t calls).Valid ∧
      t.Later (run (fun t c => (t.call out c).1) t calls) := by
  refine Run.related (g := fun _ _ => ()) (t := ()) (fun t' _ => t'.Valid ∧ t.Later t') calls ?_
    ⟨ht, .refl t⟩
  intro c hc t' _ ⟨hvalid, hlater⟩
  have hcalled := call_spec out hvalid c
  exact ⟨hcalled.valid, hlater.trans (hcalled.later (hprunes c hc))⟩

/-- A path that a session keeps over a call keeps or raises its generation. -/
theorem generations_grow (ht : t.Valid) (c : Call) {k : LocationKey} {before after : Session}
    (hbefore : t.session k = some before) (hafter : (t.call out c).1.session k = some after)
    {p : LocationKey} {o : Observation} (hp : before.path p = some o) :
    ∃ o', after.path p = some o' ∧ o.generation ≤ o'.generation := by
  cases hprunes : c.prunes with
  | false =>
    obtain ⟨after', hafter', hlater⟩ := ((call_spec out ht c).later hprunes).session k before hbefore
    cases hafter.symm.trans hafter'
    obtain ⟨o', hp', ho⟩ := hlater.path p o hp
    refine ⟨o', hp', ?_⟩
    rcases ho with hless | ⟨hsame, -⟩
    · exact UInt64.le_of_lt hless
    · rw [hsame]
      exact UInt64.le_refl _
  | true =>
    obtain ⟨now, indexed, rfl⟩ : ∃ now indexed, c = .prune now indexed := by
      cases c with
      | prune now indexed => exact ⟨now, indexed, rfl⟩
      | _ => cases hprunes
    rcases (BirthStore.session_prune out ht.sorted now indexed).2 k with
      hnone | ⟨before', absent, hbefore', hafter'⟩
    · cases hnone.symm.trans hafter
    · cases hbefore'.symm.trans hbefore
      cases hafter'.symm.trans hafter
      exact ⟨o, hp, UInt64.le_refl _⟩

/-! ## Every run -/

/-- In every run from the empty table: the loader takes the table; the cutoff of
a session is the least birth recorded for it since it was last pruned, and a
path's birth the least recorded for it since a move last retired it; the live
location has a birth, and moves only by a smaller one or by a move; generations
only grow. And what an older table that the loader takes restores to a later
one leaves its sessions as they are. -/
theorem the_table_keeps_true_minima (calls : List Call) :
    let s := run (stepped out) ({}, {}) calls
    s.1.valid = some s.1 ∧
    (∀ session, s.1.session_effective_cutoff out session =
      (s.2.births (session_key out session)).min?.map Int.ofNat) ∧
    (∀ session path, s.1.observed_birth out session path =
      (s.2.path_births (session_key out session) (location_key out path)).min?.map Int.ofNat) ∧
    (∀ k session, s.1.session k = some session →
      ∃ o, session.path session.owner = some o ∧ o.birth ≠ 0) ∧
    (∀ c k before after, s.1.session k = some before → (s.1.call out c).1.session k = some after →
      LiveStep before after ((s.1.call out c).2 = true ∧ c.Moves out k after.owner) ∧
      ∀ p o, before.path p = some o →
        ∃ o', after.path p = some o' ∧ o.generation ≤ o'.generation) ∧
    ∀ (t : BirthStore) (later : List Call), t.valid = some t → (∀ c ∈ later, c.prunes = false) →
      let t' := run (fun t c => (t.call out c).1) t later
      (t'.preserve_missing_from t).valid = some (t'.preserve_missing_from t) ∧
      (t'.preserve_missing_from t).sessions = t'.sessions := by
  intro s
  have hm : Minima s.1 s.2 := minima_run out calls
  refine ⟨s.1.valid_iff.mpr hm.valid, fun session => ?_, fun session path => ?_,
    fun k session hk => (hm.valid.sessions k session hk).live, ?_, ?_⟩
  · rw [hm.cutoff]
    unfold session_effective_cutoff
    rw [get_eq out hm.valid.sorted]
    cases s.1.session (session_key out session) <;> rfl
  · rw [hm.path]
    exact observed_birth_eq out hm.valid session path
  · intro c k before after hbefore hafter
    exact ⟨(call_spec out hm.valid c).live k before after hbefore hafter,
      fun p o hp => generations_grow out hm.valid c hbefore hafter hp⟩
  · intro t later ht hprunes
    have ht := t.valid_iff.mp ht
    obtain ⟨hvalid, hlater⟩ := later_run out ht later hprunes
    obtain ⟨hsessions, hrestored⟩ := preserve_missing_from_later hlater ht hvalid
    exact ⟨(valid_iff _).mpr hrestored, hsessions⟩

end ottto_service.claude_money_birth_store
