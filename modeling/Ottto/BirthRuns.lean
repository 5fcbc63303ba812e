-- Runs of the birth table's calls: every table that they leave loads, keeps its
-- minima, and restores what an older table of the same run lost.
import Ottto.BirthMinima

namespace ottto_service.claude_money_birth_store

open Words SortedVec List Option SortedMap Session
open SortedMap (lookupEntry insertEntry eraseEntry)

/-! ## The calls -/

inductive Call where
  | record_observation (session path : String) (birth : Int)
  | record_opened (session path : String) (birth : Int) (opened : ClaudeOpenedBirth)
  | stage_opened (session path : String) (opened : Option ClaudeOpenedBirth)
  | record_proven_move (session : String) (source : LocationKey) (target : String)
  | record_discovered_move (session source target : String) (opened : ClaudeOpenedBirth)
  | set_money_marks (path : String) (marks : UInt8)
  | retain_money_marks (live : List LocationKey)
  | prune (now : UInt64) (indexed : List (String × String))

/-- Whole sessions go in this call alone. -/
def Call.prunes : Call → Bool
  | .prune _ _ => true
  | _ => false

variable (out : Outside)

/-- The table after a call, and whether the call recorded a move. -/
def BirthStore.call (self : BirthStore) : Call → BirthStore × Bool
  | .record_observation session path birth => (self.record_observation out session path birth, false)
  | .record_opened session path birth opened =>
    (self.record_opened out session path birth opened, false)
  | .stage_opened session path opened => (self.stage_opened out session path opened, false)
  | .record_proven_move session source target => self.record_proven_move out session source target
  | .record_discovered_move session source target opened =>
    self.record_discovered_move out session source target opened
  | .set_money_marks path marks => (self.set_money_marks out path marks, false)
  | .retain_money_marks live => (self.retain_money_marks live, false)
  | .prune now indexed => (self.prune out now indexed, false)

/-! ## What was recorded -/

/-- The births recorded for each session since it was last pruned, and for each
of its paths since a move last retired the path. Sessions and paths go by key. -/
structure History where
  births : LocationKey → List Nat := fun _ => []
  path_births : LocationKey → LocationKey → List Nat := fun _ _ => []

namespace History

variable (h : History)

/-- A physical birth is a positive `u64`; any other is not recorded. -/
def record (sk pk : LocationKey) (birth : Int) : History :=
  if 0 < birth ∧ birth < 2 ^ 64 then
    { births := fun k => if k = sk then birth.toNat :: h.births k else h.births k
      path_births := fun k p =>
        if k = sk ∧ p = pk then birth.toNat :: h.path_births k p else h.path_births k p }
  else h

def retire (sk pk : LocationKey) : History :=
  { h with path_births := fun k p => if k = sk ∧ p = pk then [] else h.path_births k p }

/-- The sessions that a prune leaves. -/
def keep (left : BirthStore) : History where
  births := fun k => if (lookupEntry k left.sessions).isSome then h.births k else []
  path_births := fun k p => if (lookupEntry k left.sessions).isSome then h.path_births k p else []

/-- What a call on the table `before` adds: `after` and `moved` are the table and
the answer of the call. -/
def step (before after : BirthStore) (moved : Bool) : Call → History
  | .record_observation session path birth | .record_opened session path birth _ =>
    h.record (session_key out session) (location_key out path) birth
  | .stage_opened session path opened =>
    match opened with
    | some opened => h.record (session_key out session) (location_key out path) opened.birth.toNat
    | none => h
  | .record_proven_move session source target =>
    if moved ∧ source ≠ location_key out target then h.retire (session_key out session) source else h
  | .record_discovered_move session source target opened =>
    if before.can_record_discovered_move out session source target opened then
      let h := h.record (session_key out session) (location_key out target) opened.birth.toNat
      if moved ∧ location_key out source ≠ location_key out target then
        h.retire (session_key out session) (location_key out source)
      else h
    else h
  | .prune _ _ => h.keep after
  | .set_money_marks _ _ | .retain_money_marks _ => h

end History

/-- One call on the table, with what it recorded. -/
def stepped (s : BirthStore × History) (c : Call) : BirthStore × History :=
  let (after, moved) := s.1.call out c
  (after, s.2.step out s.1 after moved c)

/-! ## Tables that the loader takes -/

namespace BirthStore

def session (self : BirthStore) (k : LocationKey) : Option Session := lookupEntry k self.sessions

structure Valid (t : BirthStore) : Prop where
  sorted : Sorted t.sessions
  marks : Sorted t.marks.paths
  marked : ∀ m ∈ t.marks.paths, m.2 ≠ 0
  sessions : ∀ k s, t.session k = some s → s.Valid

theorem valid_iff (t : BirthStore) : t.valid = some t ↔ t.Valid := by
  unfold valid
  rw [ite_eq_left_iff]
  simp only [Bool.and_eq_true, windows_ordered_iff, List.all_eq_true, bne_iff_ne, ne_eq,
    valid_session_iff, reduceCtorEq, imp_false, not_not, and_assoc]
  constructor
  · rintro ⟨hsorted, hmarks, hmarked, hsessions⟩
    exact ⟨hsorted, hmarks, hmarked, fun k s hk => hsessions (k, s) (hsorted.lookup_iff.mp hk)⟩
  · intro h
    exact ⟨h.sorted, h.marks, h.marked,
      fun e he => h.sessions e.1 e.2 (h.sorted.lookup_iff.mpr he)⟩

theorem get_eq {t : BirthStore} (h : Sorted t.sessions) (name : String) :
    t.get out name = t.session (session_key out name) := by
  have hfound := binary_search_spec h (session_key out name)
  unfold get session
  generalize binary_search t.sessions (session_key out name) = found at hfound ⊢
  cases hfound with
  | found i s hentry hlookup _ _ => simp only [hentry, hlookup]
  | absent i hlookup _ => exact hlookup.symm

/-- A birth of zero is no birth. -/
def known (o : Observation) : Option Nat := if o.birth = 0 then none else some o.birth.toNat

theorem observed_birth_eq {t : BirthStore} (h : t.Valid) (name path : String) :
    t.observed_birth out name path =
      (((t.session (session_key out name)).bind (Session.path · (location_key out path))).bind
        known).map Int.ofNat := by
  unfold observed_birth
  rw [get_eq out h.sorted]
  cases hs : t.session (session_key out name) with
  | none => rfl
  | some s =>
    have hfound := binary_search_spec (h.sessions _ s hs).sorted (location_key out path)
    simp only [bind_eq_bind, bind_some, Session.path]
    generalize binary_search s.paths (location_key out path) = found at hfound ⊢
    cases hfound with
    | found i o hentry hlookup _ _ =>
      simp only [hentry, hlookup, bind_some, known, bne_iff_ne, ne_eq]
      split_ifs <;> rfl
    | absent i hlookup _ =>
      rw [hlookup]
      rfl

/-! ## One session of a table -/

def put (t : BirthStore) (sk : LocationKey) (s : Session) : BirthStore :=
  { t with sessions := insertEntry sk s t.sessions }

variable {t t' : BirthStore} {sk pk : LocationKey}

theorem session_put (h : Sorted t.sessions) (sk k : LocationKey) (s : Session) :
    (t.put sk s).session k = if k = sk then some s else t.session k :=
  lookupEntry_insertEntry sk k s h

theorem Valid.put {s : Session} (h : t.Valid) (hs : s.Valid) : (t.put sk s).Valid := by
  refine ⟨h.sorted.insertEntry _ _, h.marks, h.marked, fun k s' hk => ?_⟩
  rw [session_put h.sorted] at hk
  split_ifs at hk with hkey
  · cases hk
    exact hs
  · exact h.sessions k s' hk

/-- What `record_observation` does. -/
inductive Recorded (t : BirthStore) (sk pk : LocationKey) (birth : Int) : BirthStore → Prop where
  | ignored (outside : ¬(0 < birth ∧ birth < 2 ^ 64)) : Recorded t sk pk birth t
  | first (b : UInt64) (word : (b.toNat : Int) = birth) (positive : b ≠ 0)
      (absent : t.session sk = none) :
      Recorded t sk pk birth (t.put sk ⟨pk, b, 0, [(pk, ⟨b, 0, {}⟩)]⟩)
  | again (b : UInt64) (word : (b.toNat : Int) = birth) (positive : b ≠ 0) (s s' : Session)
      (found : t.session sk = some s) (observed : s.Observed s' pk b) :
      Recorded t sk pk birth (t.put sk s')

theorem record_observation_spec (h : t.Valid) (name path : String) (birth : Int) :
    Recorded t (session_key out name) (location_key out path) birth
      (t.record_observation out name path birth) := by
  unfold record_observation u64_try_from
  by_cases hrange : 0 ≤ birth ∧ birth < 2 ^ 64
  · simp only [if_pos hrange]
    have hword : ((UInt64.ofNat birth.toNat).toNat : Int) = birth := by
      rw [UInt64.toNat_ofNat', Nat.mod_eq_of_lt (by omega)]
      omega
    by_cases hzero : UInt64.ofNat birth.toNat = 0
    · rw [if_pos hzero]
      apply Recorded.ignored
      rw [hzero, UInt64.toNat_zero] at hword
      omega
    · rw [if_neg hzero]
      have hfound := binary_search_spec h.sorted (session_key out name)
      generalize binary_search t.sessions (session_key out name) = found at hfound ⊢
      cases hfound with
      | found i s hentry hlookup hset _ =>
        simp only [hentry, hset]
        exact .again _ hword hzero s _ hlookup (observe_spec (h.sessions _ s hlookup).sorted)
      | absent i hlookup hinsert =>
        simp only [hinsert]
        exact .first _ hword hzero hlookup
  · simp only [if_neg hrange]
    exact .ignored (by omega)

theorem Recorded.valid {birth : Int} (h : Recorded t sk pk birth t') (ht : t.Valid) : t'.Valid := by
  cases h with
  | ignored _ => exact ht
  | first b _ hpositive _ =>
    refine ht.put ⟨pairwise_singleton _ _, hpositive, ?_, ⟨b, 0, {}⟩, ?_, hpositive⟩
    · intro p o hp hzero
      simp only [Session.path, lookupEntry] at hp
      split_ifs at hp
      cases hp
      exact absurd hzero hpositive
    · simp [Session.path, lookupEntry]
  | again b _ hpositive s s' hfound hobserved =>
    exact ht.put (hobserved.valid (ht.sessions sk s hfound) hpositive)

/-- The identity that `record_opened` notes on the recorded table. -/
inductive Opened (t t' : BirthStore) (sk pk : LocationKey) : BirthStore → Prop where
  | absent (none : t'.session sk = none) : Opened t t' sk pk t'
  | noted (s s' : Session) (found : t'.session sk = some s)
      (noted : s.Noted s' pk (((t.session sk).bind (Session.path · pk)).bind known).isSome) :
      Opened t t' sk pk (t'.put sk s')

theorem record_opened_spec (h : t.Valid) (name path : String) (birth : Int)
    (opened : ClaudeOpenedBirth) :
    ∃ middle, Recorded t (session_key out name) (location_key out path) birth middle ∧
      Opened t middle (session_key out name) (location_key out path)
        (t.record_opened out name path birth opened) := by
  have hrecorded := record_observation_spec out h name path birth
  refine ⟨_, hrecorded, ?_⟩
  have hvalid := hrecorded.valid h
  unfold record_opened
  rw [observed_birth_eq out h, isSome_map]
  dsimp only
  generalize t.record_observation out name path birth = recorded at hvalid ⊢
  have hfound := binary_search_spec hvalid.sorted (session_key out name)
  generalize binary_search recorded.sessions (session_key out name) = found at hfound ⊢
  cases hfound with
  | found i s hentry hlookup hset _ =>
    simp only [hentry, hset]
    exact .noted s _ hlookup (note_opened_spec out (hvalid.sessions _ s hlookup).sorted _ _ _)
  | absent i hlookup _ => exact .absent hlookup

theorem Opened.valid {middle : BirthStore} (h : Opened t middle sk pk t') (ht : middle.Valid) :
    t'.Valid := by
  cases h with
  | absent _ => exact ht
  | noted s s' hfound hnoted => exact ht.put (hnoted.valid (ht.sessions sk s hfound))

theorem record_proven_move_spec (h : t.Valid) (name : String) (source : LocationKey)
    (target : String) :
    t.record_proven_move out name source target = (t, false) ∨
      ∃ s s', t.session (session_key out name) = some s ∧
        s.Moved s' source (location_key out target) ∧
        t.record_proven_move out name source target = (t.put (session_key out name) s', true) := by
  unfold record_proven_move
  dsimp only
  have hfound := binary_search_spec h.sorted (session_key out name)
  generalize binary_search t.sessions (session_key out name) = found at hfound ⊢
  cases hfound with
  | absent _ _ _ => exact .inl rfl
  | found i s hentry hlookup hset _ =>
    simp only [hentry, hset]
    cases hmove : s.proven_move source (location_key out target) with
    | none => exact .inl rfl
    | some s' =>
      exact .inr ⟨s, s', hlookup, proven_move_spec (h.sessions _ s hlookup).sorted hmove, rfl⟩

/-- Marks change alone, and stay ordered and not zero. -/
structure Marked (t t' : BirthStore) : Prop where
  sessions : t'.sessions = t.sessions
  marks : Sorted t'.marks.paths
  marked : ∀ m ∈ t'.marks.paths, m.2 ≠ 0

theorem Marked.session (h : Marked t t') (k : LocationKey) : t'.session k = t.session k := by
  unfold BirthStore.session
  rw [h.sessions]

theorem Marked.valid (h : Marked t t') (ht : t.Valid) : t'.Valid :=
  ⟨h.sessions ▸ ht.sorted, h.marks, h.marked, fun k s hk => ht.sessions k s (h.session k ▸ hk)⟩

theorem set_money_marks_spec (h : t.Valid) (path : String) (marks : UInt8) :
    Marked t (t.set_money_marks out path marks) := by
  have hrefl : Marked t t := ⟨rfl, h.marks, h.marked⟩
  unfold set_money_marks
  by_cases hnone : marks = 0 ∧ t.marks.paths = []
  · rw [if_pos hnone]
    exact hrefl
  · rw [if_neg hnone]
    dsimp only
    have hfound := binary_search_spec h.marks (location_key out path)
    generalize binary_search t.marks.paths (location_key out path) = found at hfound ⊢
    cases hfound with
    | found i old hentry hlookup hset herase =>
      simp only [hset, herase]
      split_ifs with hzero
      · exact ⟨rfl, h.marks.eraseEntry _, fun m hm => h.marked m (mem_filter.mp hm).1⟩
      · refine ⟨rfl, h.marks.insertEntry _ _, fun m hm => ?_⟩
        rcases mem_insertEntry hm with rfl | hm
        · exact hzero
        · exact h.marked m hm
    | absent i hlookup hinsert =>
      simp only [hinsert]
      split_ifs with hzero
      · exact hrefl
      · refine ⟨rfl, h.marks.insertEntry _ _, fun m hm => ?_⟩
        rcases mem_insertEntry hm with rfl | hm
        · exact hzero
        · exact h.marked m hm

theorem retain_money_marks_spec (h : t.Valid) (live : List LocationKey) :
    Marked t (t.retain_money_marks live) :=
  ⟨rfl, h.marks.filter _, fun m hm => h.marked m (mem_filter.mp hm).1⟩

theorem stage_spec (t : BirthStore) (pk : LocationKey) :
    ∃ staged, t.stage pk = { t with staged } := by
  unfold stage
  cases binary_search t.staged pk with
  | error i => exact ⟨_, rfl⟩
  | ok i => exact ⟨t.staged, rfl⟩

/-- The sessions that a prune leaves keep all but their absence. -/
theorem session_prune (h : Sorted t.sessions) (now : UInt64) (indexed : List (String × String)) :
    Sorted (t.prune out now indexed).sessions ∧
      ∀ k, (t.prune out now indexed).session k = none ∨
        ∃ s absent, t.session k = some s ∧
          (t.prune out now indexed).session k = some { s with absent } := by
  unfold prune session
  dsimp only
  set mark : LocationKey × Session → LocationKey × Session := fun s =>
    if (indexed.map (fun i => session_key out i.1)).contains s.1 then (s.1, { s.2 with absent := 0 })
    else if s.2.absent = 0 then (s.1, { s.2 with absent := if now = 0 then 1 else now })
    else s with hmark
  have hkey : ∀ e, (mark e).1 = e.1 := by
    intro e
    simp only [hmark]
    split_ifs <;> rfl
  have hsorted := h.map mark hkey
  refine ⟨hsorted.filter _, fun k => ?_⟩
  rw [hsorted.lookup_filter, lookup_map mark hkey]
  cases hk : lookupEntry k t.sessions with
  | none => exact .inl rfl
  | some s =>
    obtain ⟨absent, habsent⟩ : ∃ absent, (mark (k, s)).2 = { s with absent } := by
      simp only [hmark]
      by_cases hlive : (indexed.map (fun i => session_key out i.1)).contains k = true
      · exact ⟨0, by rw [if_pos hlive]⟩
      · by_cases habsent : s.absent = 0
        · exact ⟨_, by rw [if_neg hlive, if_pos habsent]⟩
        · exact ⟨s.absent, by rw [if_neg hlive, if_neg habsent]⟩
    rw [map_some, habsent, filter_some]
    split_ifs
    · exact .inr ⟨s, absent, rfl, rfl⟩
    · exact .inl rfl

theorem prune_valid (h : t.Valid) (now : UInt64) (indexed : List (String × String)) :
    (t.prune out now indexed).Valid := by
  obtain ⟨hsorted, hsessions⟩ := session_prune out h.sorted now indexed
  refine ⟨hsorted, h.marks, h.marked, fun k s hk => ?_⟩
  rcases hsessions k with hnone | ⟨before, absent, hbefore, hafter⟩
  · cases hnone.symm.trans hk
  · cases hafter.symm.trans hk
    have hvalid := h.sessions k before hbefore
    exact ⟨hvalid.sorted, hvalid.positive, hvalid.retired, hvalid.live⟩

end BirthStore

/-! ## The minima -/

open BirthStore (known Recorded Opened Marked session_put)

/-- The table's births are the least recorded. -/
structure Minima (t : BirthStore) (h : History) : Prop where
  valid : t.Valid
  cutoff : ∀ k, (h.births k).min? = (t.session k).map (·.cutoff.toNat)
  path : ∀ k p, (h.path_births k p).min? = ((t.session k).bind (·.path p)).bind known
  least : ∀ k s p o, t.session k = some s → s.path p = some o → o.birth ≠ 0 → s.cutoff ≤ o.birth

namespace Minima

variable {t t' : BirthStore} {h : History} {sk pk : LocationKey}

theorem empty : Minima {} {} where
  valid := ⟨.nil, .nil, by simp, fun _ _ hk => by cases hk⟩
  cutoff := fun _ => rfl
  path := fun _ _ => rfl
  least := fun _ _ _ _ hk => by cases hk

theorem known_sighted (before : Option Observation) {b : UInt64} (hb : b ≠ 0) :
    known (sighted before b) = some ((before.bind known).elim b.toNat (min b.toNat)) := by
  have hne := sighted_ne_zero before hb
  unfold known at *
  rw [if_neg hne]
  cases before with
  | none => rfl
  | some o =>
    simp only [sighted, bind_some]
    by_cases hzero : o.birth = 0
    · rw [if_pos hzero, if_pos hzero]
      rfl
    · rw [if_neg hzero, if_neg hzero, elim_some]
      split_ifs with hless
      · rw [min_eq_left (UInt64.lt_iff_toNat_lt.mp hless).le]
      · rw [min_eq_right (UInt64.le_iff_toNat_le.mp (UInt64.not_lt.mp hless))]

variable {s s' : Session}

/-- One more birth takes the place of the cutoff where it is less. -/
theorem cutoff_observed {b : UInt64} (hobserved : s.Observed s' pk b)
    (hleast : ∀ o, s.path pk = some o → o.birth ≠ 0 → s.cutoff ≤ o.birth) :
    s'.cutoff.toNat = min b.toNat s.cutoff.toNat ∧ s'.cutoff ≤ (sighted (s.path pk) b).birth := by
  have hplace := hobserved.place
  cases hpath : s.path pk with
  | none =>
    rw [hpath] at hplace
    simp only [sighted] at hplace ⊢
    rcases hplace with ⟨-, hcutoff, hle⟩ | ⟨-, hcutoff, hlt⟩
    · rw [hcutoff]
      exact ⟨(min_eq_right (UInt64.le_iff_toNat_le.mp hle)).symm, hle⟩
    · rw [hcutoff]
      exact ⟨(min_eq_left (UInt64.lt_iff_toNat_lt.mp hlt).le).symm, UInt64.le_refl _⟩
  | some o =>
    rw [hpath] at hplace
    simp only [sighted] at hplace ⊢
    have hleast := hleast o hpath
    simp only [UInt64.le_iff_toNat_le, UInt64.lt_iff_toNat_lt] at hplace hleast ⊢
    by_cases hzero : o.birth = 0
    · simp only [if_pos hzero] at hplace ⊢
      rcases hplace with ⟨-, hcutoff, hle⟩ | ⟨-, hcutoff, hlt⟩
      · rw [hcutoff]
        omega
      · rw [hcutoff]
        omega
    · have hleast := hleast hzero
      simp only [if_neg hzero] at hplace ⊢
      split_ifs at hplace ⊢ with hless
      · rcases hplace with ⟨-, hcutoff, hle⟩ | ⟨-, hcutoff, hlt⟩
        · rw [hcutoff]
          omega
        · rw [hcutoff]
          omega
      · rcases hplace with ⟨-, hcutoff, hle⟩ | ⟨-, hcutoff, hlt⟩
        · rw [hcutoff]
          omega
        · omega

theorem recorded {birth : Int} (hm : Minima t h) (hr : Recorded t sk pk birth t') :
    Minima t' (h.record sk pk birth) := by
  have hvalid := hr.valid hm.valid
  unfold History.record
  cases hr with
  | ignored houtside =>
    rw [if_neg houtside]
    exact hm
  | first b hword hpositive habsent =>
    have hb : 0 < b.toNat := Nat.pos_of_ne_zero (fun h => hpositive (UInt64.toNat_inj.mp h))
    have hlt := b.toNat_lt
    rw [if_pos (by omega)]
    have hbirth : birth.toNat = b.toNat := by omega
    have hpath : ∀ p, (Session.path ⟨pk, b, 0, [(pk, ⟨b, 0, {}⟩)]⟩ p) =
        if p = pk then some ⟨b, 0, {}⟩ else none := by
      intro p
      simp only [Session.path, lookupEntry]
    refine ⟨hvalid, fun k => ?_, fun k p => ?_, fun k s p o hk hp _ => ?_⟩
    · rw [session_put hm.valid.sorted]
      by_cases hk : k = sk
      · subst hk
        have hnone : h.births k = [] := by simpa [habsent] using hm.cutoff k
        simp [hnone, hbirth]
      · simp only [if_neg hk]
        exact hm.cutoff k
    · rw [session_put hm.valid.sorted]
      by_cases hk : k = sk
      · subst hk
        have hnone : h.path_births k p = [] := by simpa [habsent] using hm.path k p
        rw [if_pos rfl, bind_some, hpath]
        by_cases hp : p = pk
        · subst hp
          simp [hnone, hbirth, known, hpositive]
        · simp [hp, hnone]
      · simp only [hk, false_and, if_false]
        exact hm.path k p
    · rw [session_put hm.valid.sorted] at hk
      split_ifs at hk with hkey
      · cases hk
        rw [hpath] at hp
        split_ifs at hp
        cases hp
        exact UInt64.le_refl _
      · exact hm.least k s p o hk hp ‹_›
  | again b hword hpositive s s' hfound hobserved =>
    have hb : 0 < b.toNat := Nat.pos_of_ne_zero (fun h => hpositive (UInt64.toNat_inj.mp h))
    have hlt := b.toNat_lt
    rw [if_pos (by omega)]
    have hbirth : birth.toNat = b.toNat := by omega
    obtain ⟨hcutoff, hbelow⟩ := cutoff_observed hobserved (hm.least sk s pk · hfound)
    refine ⟨hvalid, fun k => ?_, fun k p => ?_, fun k s1 p o hk hp hne => ?_⟩
    · rw [session_put hm.valid.sorted]
      by_cases hk : k = sk
      · subst hk
        have hmin := hm.cutoff k
        rw [hfound, map_some] at hmin
        simp [hmin, hbirth, hcutoff]
      · simp only [if_neg hk]
        exact hm.cutoff k
    · rw [session_put hm.valid.sorted]
      have hmin := hm.path k p
      by_cases hk : k = sk
      · subst hk
        rw [hfound, bind_some] at hmin
        rw [if_pos rfl, bind_some, hobserved.path]
        by_cases hp : p = pk
        · subst hp
          simp only [and_self, if_true, bind_some, List.min?_cons, hmin, hbirth]
          exact (known_sighted _ hpositive).symm
        · simp only [hp, and_false, if_false]
          exact hmin
      · simp only [hk, false_and, if_false]
        exact hmin
    · rw [session_put hm.valid.sorted] at hk
      split_ifs at hk with hkey
      · cases hk
        rw [hobserved.path] at hp
        split_ifs at hp with hpk
        · cases hp
          exact hbelow
        · have hold := hm.least sk s p o hfound hp hne
          rw [UInt64.le_iff_toNat_le] at hold ⊢
          omega
      · exact hm.least k s1 p o hk hp hne

/-- What does not change the births of a session keeps its minima. -/
theorem same (hm : Minima t h) (hfound : t.session sk = some s) (hs : s'.Valid)
    (hcutoff : s'.cutoff = s.cutoff)
    (hpath : ∀ p, (s'.path p).bind known = (s.path p).bind known) : Minima (t.put sk s') h := by
  refine ⟨hm.valid.put hs, fun k => ?_, fun k p => ?_, fun k s1 p o hk hp hne => ?_⟩
  · rw [session_put hm.valid.sorted, hm.cutoff k]
    split_ifs with hk
    · rw [hk, hfound, map_some, map_some, hcutoff]
    · rfl
  · rw [session_put hm.valid.sorted, hm.path k p]
    split_ifs with hk
    · rw [hk, hfound, bind_some, bind_some, hpath]
    · rfl
  · rw [session_put hm.valid.sorted] at hk
    split_ifs at hk with hkey
    · cases hk
      have hknown := hpath p
      rw [hp, bind_some] at hknown
      unfold known at hknown
      rw [if_neg hne] at hknown
      obtain ⟨before, hbefore, hbirth⟩ := bind_eq_some_iff.mp hknown.symm
      split_ifs at hbirth with hzero
      have hold := hm.least sk s p before hfound hbefore hzero
      rw [hcutoff, UInt64.le_iff_toNat_le, ← Option.some.inj hbirth]
      exact UInt64.le_iff_toNat_le.mp hold
    · exact hm.least k s1 p o hk hp hne

theorem opened {middle : BirthStore} (hm : Minima middle h) (ho : Opened t middle sk pk t') :
    Minima t' h := by
  cases ho with
  | absent _ => exact hm
  | noted s s' hfound hnoted =>
    apply hm.same hfound (hnoted.valid (hm.valid.sessions sk s hfound)) hnoted.cutoff
    intro p
    obtain ⟨opened, hpath, -, -⟩ := hnoted.path p
    rw [hpath]
    cases s.path p <;> rfl

theorem moved {source target : LocationKey} (hm : Minima t h)
    (hfound : t.session sk = some s) (hmoved : s.Moved s' source target) :
    Minima (t.put sk s') (if source ≠ target then h.retire sk source else h) := by
  have hs := hmoved.valid (hm.valid.sessions sk s hfound)
  by_cases hsame : source = target
  · rw [if_neg (not_not.mpr hsame)]
    apply hm.same hfound hs hmoved.cutoff
    intro p
    rw [hmoved.path, if_neg (fun h => h.2 hsame)]
  · rw [if_pos hsame]
    have hpath : ∀ p, (s'.path p).bind known =
        if p = source then none else (s.path p).bind known := by
      intro p
      rw [hmoved.path]
      by_cases hp : p = source
      · rw [if_pos ⟨hp, hsame⟩, if_pos hp]
        cases s.path source <;> rfl
      · rw [if_neg (fun h => hp h.1), if_neg hp]
    refine ⟨hm.valid.put hs, fun k => ?_, fun k p => ?_, fun k s1 p o hk hp hne => ?_⟩
    · rw [session_put hm.valid.sorted]
      change (h.births k).min? = _
      rw [hm.cutoff k]
      split_ifs with hk
      · rw [hk, hfound, map_some, map_some, hmoved.cutoff]
      · rfl
    · rw [session_put hm.valid.sorted]
      unfold History.retire
      by_cases hk : k = sk
      · subst hk
        rw [if_pos rfl, bind_some, hpath]
        by_cases hp : p = source
        · simp [hp]
        · simp only [hp, and_false, if_false]
          rw [hm.path k p, hfound, bind_some]
      · simp only [hk, false_and, if_false]
        exact hm.path k p
    · rw [session_put hm.valid.sorted] at hk
      split_ifs at hk with hkey
      · cases hk
        rw [hmoved.path] at hp
        split_ifs at hp with hretired
        · obtain ⟨before, -, rfl⟩ := map_eq_some_iff.mp hp
          exact absurd rfl hne
        · rw [hmoved.cutoff]
          exact hm.least sk s p o hfound hp hne
      · exact hm.least k s1 p o hk hp hne

theorem marks (hm : Minima t h) (hmarked : Marked t t') : Minima t' h := by
  refine ⟨hmarked.valid hm.valid, ?_, ?_, ?_⟩
  · simpa only [hmarked.session] using hm.cutoff
  · simpa only [hmarked.session] using hm.path
  · simpa only [hmarked.session] using hm.least

theorem pruned (hm : Minima t h) (now : UInt64) (indexed : List (String × String)) :
    Minima (t.prune out now indexed) (h.keep (t.prune out now indexed)) := by
  obtain ⟨-, hsessions⟩ := BirthStore.session_prune out hm.valid.sorted now indexed
  refine ⟨BirthStore.prune_valid out hm.valid now indexed, fun k => ?_, fun k p => ?_,
    fun k s p o hk hp hne => ?_⟩
  · change (if ((t.prune out now indexed).session k).isSome then h.births k else []).min? = _
    rcases hsessions k with hnone | ⟨before, absent, hbefore, hafter⟩
    · rw [hnone]
      rfl
    · rw [hafter, isSome_some, if_pos rfl, hm.cutoff k, hbefore]
      rfl
  · change (if ((t.prune out now indexed).session k).isSome then h.path_births k p else []).min? = _
    rcases hsessions k with hnone | ⟨before, absent, hbefore, hafter⟩
    · rw [hnone]
      rfl
    · rw [hafter, isSome_some, if_pos rfl, hm.path k p, hbefore]
      rfl
  · rcases hsessions k with hnone | ⟨before, absent, hbefore, hafter⟩
    · cases hnone.symm.trans hk
    · cases hafter.symm.trans hk
      exact hm.least k before p o hbefore hp hne

end Minima

end ottto_service.claude_money_birth_store
