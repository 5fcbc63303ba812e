-- When the root account of a session depends on the order of its page
-- (snapshots/claude_request_identity.rs): path twins are folded one by one into a running root.
import Ottto.FileFold

namespace ottto_service.claude_request_money

open List SortedMap

/-! ## The twins of one root -/

/-- One twin after the others. -/
def observe_twin (root : Option Root) (candidate : Root) : Option Root :=
  some (match root with
    | none => candidate
    | some root => root.observe candidate)

def observe_twins (candidates : List Root) : Option Root := candidates.foldl observe_twin none

/-- A candidate as an item gives it; its bound account is a login. -/
structure Plain (c : Root) : Prop where
  known : c.known = c.starting.isSome
  org : c.org_start = c.starting.any (fun key => key.org.isSome)
  start : c.start_conflict = false
  bound : c.bound_conflict = false
  login : ∀ key, c.bound = some key → key.org = none

/-- Two starts of one kind at one time that name different accounts. -/
def Clash (a b : Root) : Prop :=
  a.known = true ∧ b.known = true ∧ a.first = b.first ∧ a.org_start = b.org_start ∧
    a.starting ≠ b.starting

def Clashes (cs : List Root) : Prop := ∃ a ∈ cs, ∃ b ∈ cs, Clash a b

/-- A known start that no other known start is before. -/
def Earliest (cs : List Root) (a : Root) : Prop :=
  a ∈ cs ∧ a.known = true ∧ ∀ c ∈ cs, c.known = true → a.first ≤ c.first

/-- Of the earliest starts those of organisations decide, where there are any. -/
def Governs (cs : List Root) (a : Root) : Prop :=
  Earliest cs a ∧ (a.org_start = true ∨ ∀ c, Earliest cs c → c.org_start = false)

def TopClash (cs : List Root) : Prop := ∃ a b, Governs cs a ∧ Governs cs b ∧ a.starting ≠ b.starting

/-- The bound account is the same whichever twins without a start come after the first earliest one:
two earliest starts are bound to different accounts, or no twin without a start is bound to an account
that no earliest start is bound to. -/
def BoundsSteady (cs : List Root) : Prop :=
  (∃ a b, Earliest cs a ∧ Earliest cs b ∧ a.bound ≠ none ∧ b.bound ≠ none ∧ a.bound ≠ b.bound) ∨
  ∀ u ∈ cs, ∀ a, Earliest cs a → u.first = a.first → u.bound ≠ none →
    ∃ k, Earliest cs k ∧ k.bound = u.bound

/-- No order of the twins changes the account of the root. -/
def StartSteady (cs : List Root) : Prop := TopClash cs → BoundsSteady cs

/-- No order of the twins changes whether the root is in conflict. -/
def ConflictSteady (cs : List Root) : Prop :=
  Clashes cs → TopClash cs ∨ ∃ c ∈ cs, c.conflict = true

theorem earliest_perm {cs cs' : List Root} (h : cs.Perm cs') (a : Root) :
    Earliest cs a ↔ Earliest cs' a := by
  unfold Earliest
  simp only [h.mem_iff]

theorem governs_perm {cs cs' : List Root} (h : cs.Perm cs') (a : Root) :
    Governs cs a ↔ Governs cs' a := by
  unfold Governs
  simp only [earliest_perm h]

theorem topClash_perm {cs cs' : List Root} (h : cs.Perm cs') : TopClash cs ↔ TopClash cs' := by
  unfold TopClash
  simp only [governs_perm h]

/-! ## One meeting -/

variable {r c : Root}

/-- The bound accounts that a root has met: which one it keeps. -/
structure Agreed (seen : List Root) (bound : AccountPartition) (conflict : Bool) : Prop where
  differ : conflict = true ↔
    ∃ a ∈ seen, ∃ b ∈ seen, a.bound ≠ none ∧ b.bound ≠ none ∧ a.bound ≠ b.bound
  none_left : conflict = true → bound = none
  kept : conflict = false → ∀ a ∈ seen, a.bound = none ∨ a.bound = bound
  given : bound = none ∨ ∃ a ∈ seen, a.bound = bound

theorem agreed_singleton (c : Root) : Agreed [c] c.bound false := by
  refine ⟨by simp, by simp, by simp, ?_⟩
  exact .inr ⟨c, mem_singleton_self c, rfl⟩

/-- The accounts that are kept are the same however they were met. -/
theorem Agreed.unique {seen seen' : List Root} {bound bound' : AccountPartition}
    {conflict conflict' : Bool} (h : Agreed seen bound conflict) (h' : Agreed seen' bound' conflict')
    (hsame : ∀ key, (∃ a ∈ seen, a.bound = some key) ↔ ∃ a ∈ seen', a.bound = some key) :
    bound = bound' := by
  have hdiffer : conflict = conflict' := by
    rw [Bool.eq_iff_iff, h.differ, h'.differ]
    have hiff : ∀ {l l' : List Root},
        (∀ key, (∃ a ∈ l, a.bound = some key) → ∃ a ∈ l', a.bound = some key) →
        (∃ a ∈ l, ∃ b ∈ l, a.bound ≠ none ∧ b.bound ≠ none ∧ a.bound ≠ b.bound) →
        ∃ a ∈ l', ∃ b ∈ l', a.bound ≠ none ∧ b.bound ≠ none ∧ a.bound ≠ b.bound := by
      rintro l l' hsub ⟨a, ha, b, hb, hane, hbne, hab⟩
      obtain ⟨x, hx⟩ := Option.ne_none_iff_exists'.mp hane
      obtain ⟨y, hy⟩ := Option.ne_none_iff_exists'.mp hbne
      obtain ⟨a', ha', hax⟩ := hsub x ⟨a, ha, hx⟩
      obtain ⟨b', hb', hby⟩ := hsub y ⟨b, hb, hy⟩
      refine ⟨a', ha', b', hb', by simp [hax], by simp [hby], ?_⟩
      rw [hax, hby, ← hx, ← hy]
      exact hab
    exact ⟨hiff (fun key => (hsame key).mp), hiff (fun key => (hsame key).mpr)⟩
  subst hdiffer
  cases hconflict : conflict with
  | true => rw [h.none_left hconflict, h'.none_left hconflict]
  | false =>
    have hle : ∀ {l l' : List Root} {x y : AccountPartition}, Agreed l x conflict →
        Agreed l' y conflict →
        (∀ key, (∃ a ∈ l, a.bound = some key) → ∃ a ∈ l', a.bound = some key) →
        ∀ key, x = some key → y = some key := by
      intro l l' x y hx hy hsub key hkey
      rcases hx.given with hnone | ⟨a, ha, hbound⟩
      · rw [hnone] at hkey
        cases hkey
      · obtain ⟨a', ha', hbound'⟩ := hsub key ⟨a, ha, hbound.trans hkey⟩
        rcases hy.kept hconflict a' ha' with hnone | heq
        · rw [hnone] at hbound'
          cases hbound'
        · exact heq.symm.trans hbound'
    apply Option.ext
    intro key
    exact ⟨hle h h' (fun key => (hsame key).mp) key, hle h' h (fun key => (hsame key).mpr) key⟩

@[simp] theorem meet_first : (r.meet c).first = r.first := by
  unfold Root.meet
  dsimp only
  split_ifs <;> rfl

@[simp] theorem meet_known : (r.meet c).known = r.known := by
  unfold Root.meet
  dsimp only
  split_ifs <;> rfl

theorem meet_bound_conflict : (r.meet c).bound_conflict =
    (r.bound_conflict || (r.bound.isSome && c.bound.isSome && r.bound != c.bound)) := by
  unfold Root.meet
  dsimp only
  split_ifs <;> rfl

theorem meet_bound : (r.meet c).bound =
    if (r.meet c).bound_conflict then none else r.bound.or c.bound := by
  unfold Root.meet
  dsimp only
  split_ifs <;> rfl

theorem Agreed.meet {seen : List Root} (h : Agreed seen r.bound r.bound_conflict) :
    Agreed (seen ++ [c]) (r.meet c).bound (r.meet c).bound_conflict := by
  have hconflict := meet_bound_conflict (r := r) (c := c)
  have hbound := meet_bound (r := r) (c := c)
  cases hold : r.bound_conflict with
  | true =>
    rw [hold, Bool.true_or] at hconflict
    rw [hbound, hconflict]
    obtain ⟨a, ha, b, hb, hdiffer⟩ := h.differ.mp hold
    refine ⟨?_, fun _ => rfl, by simp, Or.inl rfl⟩
    simp only [true_iff]
    exact ⟨a, mem_append_left _ ha, b, mem_append_left _ hb, hdiffer⟩
  | false =>
    rw [hold, Bool.false_or] at hconflict
    have hkept := h.kept hold
    have hnone : ¬ ∃ a ∈ seen, ∃ b ∈ seen, a.bound ≠ none ∧ b.bound ≠ none ∧ a.bound ≠ b.bound := by
      rw [← h.differ, hold]
      exact Bool.false_ne_true
    cases hrb : r.bound with
    | none =>
      rw [hrb] at hconflict hbound hkept
      have hfalse : (r.meet c).bound_conflict = false := by simp [hconflict]
      rw [hfalse] at hbound ⊢
      have hcb : (r.meet c).bound = c.bound := by simp [hbound]
      rw [hcb]
      have hempty : ∀ a ∈ seen, a.bound = none := fun a ha => (hkept a ha).elim id id
      refine ⟨?_, by simp, ?_, Or.inr ⟨c, by simp, rfl⟩⟩
      · simp only [Bool.false_eq_true, false_iff]
        rintro ⟨a, ha, b, hb, hane, hbne, hab⟩
        have honly : ∀ x ∈ seen ++ [c], x.bound ≠ none → x = c := by
          intro x hx hne
          rcases mem_append.mp hx with hx | hx
          · exact absurd (hempty x hx) hne
          · exact mem_singleton.mp hx
        exact hab (by rw [honly a ha hane, honly b hb hbne])
      · intro _ a ha
        rcases mem_append.mp ha with ha | ha
        · exact Or.inl (hempty a ha)
        · exact Or.inr (by rw [mem_singleton.mp ha])
    | some key =>
      rw [hrb] at hconflict hbound hkept
      obtain ⟨a₀, ha₀, hkey⟩ : ∃ a ∈ seen, a.bound = some key := by
        rcases h.given with hnone | ⟨a, ha, heq⟩
        · rw [hnone] at hrb
          cases hrb
        · exact ⟨a, ha, heq.trans hrb⟩
      by_cases hdiffer : c.bound ≠ none ∧ c.bound ≠ some key
      · have htrue : (r.meet c).bound_conflict = true := by
          rw [hconflict]
          have hsome := Option.ne_none_iff_isSome.mp hdiffer.1
          simp [hsome, Ne.symm hdiffer.2]
        rw [hbound, htrue]
        refine ⟨?_, fun _ => rfl, by simp, .inl rfl⟩
        simp only [true_iff]
        exact ⟨a₀, mem_append_left _ ha₀, c, by simp, by simp [hkey], hdiffer.1,
          by rw [hkey]; exact Ne.symm hdiffer.2⟩
      · have hagree : c.bound = none ∨ c.bound = some key := by tauto
        have hfalse : (r.meet c).bound_conflict = false := by
          rw [hconflict]
          rcases hagree with heq | heq <;> simp [heq]
        rw [hfalse] at hbound ⊢
        have hkeep : (r.meet c).bound = some key := by simp [hbound]
        rw [hkeep]
        have hall : ∀ a ∈ seen ++ [c], a.bound = none ∨ a.bound = some key := by
          intro a ha
          rcases mem_append.mp ha with ha | ha
          · exact hkept a ha
          · rw [mem_singleton.mp ha]
            exact hagree
        refine ⟨?_, by simp, fun _ => hall, .inr ⟨a₀, mem_append_left _ ha₀, hkey⟩⟩
        simp only [Bool.false_eq_true, false_iff]
        rintro ⟨a, ha, b, hb, hane, hbne, hab⟩
        exact hab (((hall a ha).resolve_left hane).trans ((hall b hb).resolve_left hbne).symm)

/-- The start stays at a meeting, and is the bound account where starts clashed before. -/
structure Stays (r c : Root) : Prop where
  org : (r.meet c).org_start = r.org_start
  start : (r.meet c).start_conflict = r.start_conflict
  conflict : (r.meet c).conflict = r.conflict
  starting : (r.meet c).starting = if r.start_conflict then (r.meet c).bound else r.starting

theorem meet_same (h : ¬ (r.known = true ∧ c.known = true ∧ r.starting ≠ c.starting)) :
    Stays r c := by
  have hguard : (r.known && c.known && r.starting != c.starting) = false := by
    simpa using h
  constructor <;>
    · unfold Root.meet
      dsimp only
      rw [hguard]
      cases r.start_conflict <;> simp

theorem meet_login (hr : r.known = true) (hc : c.known = true) (hne : r.starting ≠ c.starting)
    (horg : r.org_start = true) (hlogin : c.org_start = false) : Stays r c := by
  constructor <;>
    · unfold Root.meet
      cases r.start_conflict <;> simp [hr, hc, hne, horg, hlogin]

theorem meet_org (hr : r.known = true) (hc : c.known = true) (hne : r.starting ≠ c.starting)
    (hlogin : r.org_start = false) (horg : c.org_start = true) :
    (r.meet c).org_start = true ∧ (r.meet c).start_conflict = false ∧
      (r.meet c).conflict = r.conflict ∧ (r.meet c).starting = c.starting := by
  unfold Root.meet
  simp [hr, hc, hne, hlogin, horg]

theorem meet_clash (hr : r.known = true) (hc : c.known = true) (hne : r.starting ≠ c.starting)
    (hkind : r.org_start = c.org_start) :
    (r.meet c).org_start = r.org_start ∧ (r.meet c).start_conflict = true ∧
      (r.meet c).conflict = true ∧ (r.meet c).starting = (r.meet c).bound := by
  unfold Root.meet
  simp [hr, hc, hne, hkind]

/-- What a meeting makes of the start of a root: it stays, an organisation's takes the place of a
login's, or another start of its kind clashes with it. -/
inductive Meeting (r c : Root) : Prop
  | same (h : ¬ (r.known = true ∧ c.known = true ∧ r.starting ≠ c.starting)) (hstays : Stays r c)
  | login (hr : r.org_start = true) (hc : c.org_start = false) (hstays : Stays r c)
  | org (hr : r.known = true) (hc : c.known = true) (hne : r.starting ≠ c.starting)
    (hlogin : r.org_start = false) (horg : c.org_start = true)
  | clash (hr : r.known = true) (hc : c.known = true) (hne : r.starting ≠ c.starting)
    (hkind : r.org_start = c.org_start)

theorem meeting (r c : Root) : Meeting r c := by
  by_cases hdiffers : r.known = true ∧ c.known = true ∧ r.starting ≠ c.starting
  · obtain ⟨hr, hc, hne⟩ := hdiffers
    cases hro : r.org_start <;> cases hco : c.org_start
    · exact .clash hr hc hne (hro.trans hco.symm)
    · exact .org hr hc hne hro hco
    · exact .login hro hco (meet_login hr hc hne hro hco)
    · exact .clash hr hc hne (hro.trans hco.symm)
  · exact .same hdiffers (meet_same hdiffers)

/-- A known start before the root's takes its place. -/
theorem observe_replace (hc : c.known = true) (h : r.known = false ∨ c.first < r.first) :
    r.observe c = { c with conflict := r.conflict || c.conflict } := by
  have hguard : (c.known && (!r.known || decide (c.first < r.first))) = true := by
    rcases h with h | h <;> simp [hc, h]
  unfold Root.observe
  rw [hguard]
  cases r.conflict <;> cases hconflict : c.conflict <;> simp [hconflict]

theorem observe_meet (hfirst : c.first = r.first) (h : c.known = true → r.known = true) :
    r.observe c = { r.meet c with conflict := (r.meet c).conflict || (r.conflict || c.conflict) } := by
  have hguard : (c.known && (!r.known || decide (c.first < r.first))) = false := by
    rw [hfirst]
    cases hc : c.known with
    | false => rfl
    | true => simp [h hc]
  unfold Root.observe
  rw [hguard, hfirst]
  simp

theorem observe_other (hfirst : c.first ≠ r.first)
    (h : c.known = true → r.known = true ∧ r.first < c.first) :
    r.observe c = { r with conflict := r.conflict || c.conflict } := by
  have hguard : (c.known && (!r.known || decide (c.first < r.first))) = false := by
    cases hc : c.known with
    | false => rfl
    | true =>
      obtain ⟨hr, hlt⟩ := h hc
      simp [hr, hlt.le]
  unfold Root.observe
  rw [hguard]
  simp [hfirst]

/-! ## A root at the earliest start -/

/-- What a root has become once it stands at the earliest start, after the twins of that time. -/
structure Settled (seen : List Root) (r : Root) : Prop where
  plain : ∀ a ∈ seen, Plain a
  first : ∀ a ∈ seen, a.first = r.first
  known : r.known = true
  org : r.org_start = true ↔ ∃ a ∈ seen, a.known = true ∧ a.org_start = true
  agreed : Agreed seen r.bound r.bound_conflict
  start : r.start_conflict = false →
    (∃ a ∈ seen, a.known = true ∧ a.org_start = r.org_start ∧ a.starting = r.starting) ∧
      ∀ a ∈ seen, a.known = true → a.org_start = r.org_start → a.starting = r.starting
  clash : r.start_conflict = true → r.starting = r.bound ∧
    ∃ a ∈ seen, ∃ b ∈ seen, a.known = true ∧ b.known = true ∧ a.org_start = r.org_start ∧
      b.org_start = r.org_start ∧ a.starting ≠ b.starting

variable {seen : List Root}

theorem settled_singleton (hplain : Plain c) (hknown : c.known = true) (conflict : Bool) :
    Settled [c] { c with conflict } := by
  refine ⟨?_, ?_, hknown, ?_, ?_, ?_, ?_⟩
  · intro a ha
    rw [mem_singleton.mp ha]
    exact hplain
  · intro a ha
    rw [mem_singleton.mp ha]
  · simp [hknown]
  · have hagreed := agreed_singleton c
    rwa [← hplain.bound] at hagreed
  · intro _
    refine ⟨⟨c, mem_singleton_self c, hknown, rfl, rfl⟩, ?_⟩
    intro a ha _ _
    rw [mem_singleton.mp ha]
  · intro hconflict
    rw [hplain.start] at hconflict
    cases hconflict

theorem Settled.conflict (h : Settled seen r) (conflict : Bool) : Settled seen { r with conflict } :=
  ⟨h.plain, h.first, h.known, h.org, h.agreed, h.start, h.clash⟩

/-- A start that a root fell back on is no organisation's. -/
theorem Settled.bound_login (h : Settled seen r) {key : AuthorityKey} (hbound : r.bound = some key) :
    key.org = none := by
  rcases h.agreed.given with hnone | ⟨a, ha, heq⟩
  · rw [hnone] at hbound
    cases hbound
  · exact (h.plain a ha).login key (heq.trans hbound)

theorem forall_mem_concat {p : Root → Prop} (hseen : ∀ a ∈ seen, p a) (hc : p c) :
    ∀ a ∈ seen ++ [c], p a := by
  intro a ha
  rcases mem_append.mp ha with ha | ha
  · exact hseen a ha
  · rw [mem_singleton.mp ha]
    exact hc

/-- The start of a root that stays is still that of the twins of its kind. -/
theorem Settled.stay (h : Settled seen r) (hstays : Stays r c)
    (hkept : r.start_conflict = false → c.known = true → c.org_start = r.org_start →
      c.starting = r.starting) :
    ((r.meet c).start_conflict = false →
      (∃ a ∈ seen ++ [c], a.known = true ∧ a.org_start = (r.meet c).org_start ∧
        a.starting = (r.meet c).starting) ∧
      ∀ a ∈ seen ++ [c], a.known = true → a.org_start = (r.meet c).org_start →
        a.starting = (r.meet c).starting) ∧
    ((r.meet c).start_conflict = true → (r.meet c).starting = (r.meet c).bound ∧
      ∃ a ∈ seen ++ [c], ∃ b ∈ seen ++ [c], a.known = true ∧ b.known = true ∧
        a.org_start = (r.meet c).org_start ∧ b.org_start = (r.meet c).org_start ∧
        a.starting ≠ b.starting) := by
  rw [hstays.start, hstays.starting, hstays.org]
  constructor
  · intro hsc
    obtain ⟨⟨a, ha, hpair⟩, hall⟩ := h.start hsc
    rw [hsc, if_neg Bool.false_ne_true]
    exact ⟨⟨a, mem_append_left _ ha, hpair⟩, forall_mem_concat hall (hkept hsc)⟩
  · intro hsc
    obtain ⟨-, a, ha, b, hb, hpair⟩ := h.clash hsc
    rw [hsc, if_pos rfl]
    exact ⟨rfl, a, mem_append_left _ ha, b, mem_append_left _ hb, hpair⟩

/-- A twin with the root's own start is of the root's kind. -/
theorem Settled.same_kind (h : Settled seen r) (hplain : Plain c) (hsame : c.starting = r.starting)
    (hco : c.org_start = true) : r.org_start = true := by
  cases hsc : r.start_conflict with
  | false =>
    obtain ⟨⟨a, ha, -, hao, has⟩, -⟩ := h.start hsc
    rw [← hao, (h.plain a ha).org, has.trans hsame.symm, ← hplain.org, hco]
  | true =>
    rw [hplain.org, hsame.trans (h.clash hsc).1] at hco
    obtain ⟨key, hkey, hsome⟩ := (Option.any_eq_true _ _).mp hco
    rw [h.bound_login hkey] at hsome
    cases hsome

/-- One more twin of the same time. -/
theorem Settled.meet (h : Settled seen r) (hplain : Plain c) (hfirst : c.first = r.first) :
    Settled (seen ++ [c]) (r.meet c) := by
  have hc_mem : c ∈ seen ++ [c] := by simp
  have hold : ∀ {a}, a ∈ seen → a ∈ seen ++ [c] := fun ha => mem_append_left _ ha
  have hplains := forall_mem_concat h.plain hplain
  have hfirsts : ∀ a ∈ seen ++ [c], a.first = (r.meet c).first := by
    rw [meet_first]
    exact forall_mem_concat h.first hfirst
  have hknown : (r.meet c).known = true := by rw [meet_known, h.known]
  have hsome : (∃ a ∈ seen ++ [c], a.known = true ∧ a.org_start = true) ↔
      r.org_start = true ∨ c.known = true ∧ c.org_start = true := by
    rw [h.org]
    simp [or_and_right, exists_or]
  cases meeting r c with
  | same hdiffers hstays =>
    have hsame : c.known = true → c.starting = r.starting := by
      intro hc
      by_contra hne
      exact hdiffers ⟨h.known, hc, Ne.symm hne⟩
    obtain ⟨hstart, hclash⟩ := h.stay hstays (fun _ hc _ => hsame hc)
    refine ⟨hplains, hfirsts, hknown, ?_, h.agreed.meet, hstart, hclash⟩
    rw [hsome, hstays.org]
    exact ⟨.inl, fun htrue => htrue.elim id (fun hc => h.same_kind hplain (hsame hc.1) hc.2)⟩
  | login hro hco hstays =>
    obtain ⟨hstart, hclash⟩ := h.stay hstays (fun _ _ hkind => by
      rw [hco, hro] at hkind
      cases hkind)
    refine ⟨hplains, hfirsts, hknown, ?_, h.agreed.meet, hstart, hclash⟩
    rw [hsome, hstays.org]
    exact iff_of_true hro (.inl hro)
  | org hr hc hne hro hco =>
    obtain ⟨horg, hconflict, -, hstarting⟩ := meet_org hr hc hne hro hco
    have hnone : ∀ a ∈ seen, a.known = true → a.org_start ≠ true := by
      intro a ha hak hao
      cases hro.symm.trans (h.org.mpr ⟨a, ha, hak, hao⟩)
    refine ⟨hplains, hfirsts, hknown, ?_, h.agreed.meet, fun _ => ?_, fun htrue => ?_⟩
    · rw [hsome, horg]
      exact iff_of_true rfl (.inr ⟨hc, hco⟩)
    · rw [horg, hstarting]
      refine ⟨⟨c, hc_mem, hc, hco, rfl⟩, ?_⟩
      exact forall_mem_concat (fun a ha hak hao => absurd hao (hnone a ha hak)) (fun _ _ => rfl)
    · cases hconflict.symm.trans htrue
  | clash hr hc hne hkind =>
    obtain ⟨horg, hconflict, -, hstarting⟩ := meet_clash hr hc hne hkind
    refine ⟨hplains, hfirsts, hknown, ?_, h.agreed.meet, fun hfalse => ?_,
      fun _ => ⟨hstarting, ?_⟩⟩
    · rw [hsome, horg, hkind]
      exact ⟨.inl, fun htrue => htrue.elim id And.right⟩
    · cases hconflict.symm.trans hfalse
    · rw [horg]
      cases hsc : r.start_conflict with
      | true =>
        obtain ⟨-, a, ha, b, hb, hpair⟩ := h.clash hsc
        exact ⟨a, hold ha, b, hold hb, hpair⟩
      | false =>
        obtain ⟨⟨a, ha, hak, hao, has⟩, -⟩ := h.start hsc
        exact ⟨a, hold ha, c, hc_mem, hak, hc, hao, hkind.symm, by rwa [has]⟩

/-- Only the twins of the earliest time change a root that stands there. -/
theorem Settled.rest {rest : List Root} (h : Settled seen r) (hplain : ∀ c ∈ rest, Plain c)
    (hleast : ∀ c ∈ rest, c.known = true → r.first ≤ c.first) :
    ∃ r', rest.foldl observe_twin (some r) = some r' ∧
      Settled (seen ++ rest.filter (fun c => decide (c.first = r.first))) r' := by
  induction rest generalizing seen r with
  | nil => exact ⟨r, rfl, by simpa using h⟩
  | cons c rest ih =>
    have hplain_rest : ∀ c ∈ rest, Plain c := fun c hc => hplain c (mem_cons_of_mem _ hc)
    have hc := hplain c mem_cons_self
    by_cases hfirst : c.first = r.first
    · have hmeet := (h.meet hc hfirst).conflict ((r.meet c).conflict || (r.conflict || c.conflict))
      rw [← observe_meet hfirst (fun _ => h.known)] at hmeet
      have hsame : (r.observe c).first = r.first := by
        rw [observe_meet hfirst (fun _ => h.known)]
        exact meet_first
      obtain ⟨r', hfold, hsettled⟩ := ih hmeet hplain_rest (by
        intro later hlater hknown
        rw [hsame]
        exact hleast later (mem_cons_of_mem _ hlater) hknown)
      refine ⟨r', hfold, ?_⟩
      rw [hsame] at hsettled
      rw [filter_cons_of_pos (by simpa using hfirst)]
      simpa using hsettled
    · have hother := observe_other hfirst (fun hknown =>
        ⟨h.known, lt_of_le_of_ne (hleast c mem_cons_self hknown) (Ne.symm hfirst)⟩)
      have hstay := h.conflict (r.conflict || c.conflict)
      rw [← hother] at hstay
      have hsame : (r.observe c).first = r.first := by rw [hother]
      obtain ⟨r', hfold, hsettled⟩ := ih hstay hplain_rest (by
        intro later hlater hknown
        rw [hsame]
        exact hleast later (mem_cons_of_mem _ hlater) hknown)
      refine ⟨r', hfold, ?_⟩
      rw [hsame] at hsettled
      rw [filter_cons_of_neg (by simpa using hfirst)]
      exact hsettled

/-! ## Any root -/

/-- What holds of a root after any twins. -/
structure Met (cs : List Root) (r : Root) : Prop where
  known : r.known = true → ∃ a ∈ cs, a.known = true ∧ a.first = r.first
  any : (∃ a ∈ cs, a.known = true) → r.known = true
  unknown : r.known = false → r.starting = none ∧ r.start_conflict = false
  start : r.known = true → r.start_conflict = false → ∃ a ∈ cs, a.known = true ∧
    a.first = r.first ∧ a.org_start = r.org_start ∧ a.starting = r.starting
  clash : r.start_conflict = true → Clashes cs
  flagged : r.start_conflict = true → r.conflict = true
  given : (∃ a ∈ cs, a.conflict = true) → r.conflict = true
  conflict : r.conflict = true → (∃ a ∈ cs, a.conflict = true) ∨ Clashes cs

theorem met_singleton (hplain : Plain c) : Met [c] c := by
  have hself := mem_singleton_self c
  refine ⟨fun hc => ⟨c, hself, hc, rfl⟩, ?_, ?_, fun hc _ => ⟨c, hself, hc, rfl, rfl, rfl⟩, ?_, ?_, ?_,
    fun hc => .inl ⟨c, hself, hc⟩⟩
  · simp
  · intro hc
    rw [hplain.known, Option.isSome_eq_false_iff, Option.isNone_iff_eq_none] at hc
    exact ⟨hc, hplain.start⟩
  · intro hc
    rw [hplain.start] at hc
    cases hc
  · intro hc
    rw [hplain.start] at hc
    cases hc
  · simp

variable {cs : List Root}

theorem Clashes.mono (h : Clashes cs) : Clashes (cs ++ [c]) := by
  obtain ⟨a, ha, b, hb, hclash⟩ := h
  exact ⟨a, mem_append_left _ ha, b, mem_append_left _ hb, hclash⟩

/-- The start after a meeting is that of a twin at its time, as long as none clashed. -/
theorem Met.meet_start (h : Met cs r) (hfirst : c.first = r.first) (hr : r.known = true)
    (hsc : (r.meet c).start_conflict = false) : ∃ a ∈ cs ++ [c], a.known = true ∧
      a.first = r.first ∧ a.org_start = (r.meet c).org_start ∧
      a.starting = (r.meet c).starting := by
  have hstay : Stays r c → ∃ a ∈ cs ++ [c], a.known = true ∧ a.first = r.first ∧
      a.org_start = (r.meet c).org_start ∧ a.starting = (r.meet c).starting := by
    intro hstays
    rw [hstays.start] at hsc
    obtain ⟨a, ha, hak, haf, hao, has⟩ := h.start hr hsc
    have hstarting := hstays.starting
    rw [hsc, if_neg Bool.false_ne_true] at hstarting
    exact ⟨a, mem_append_left _ ha, hak, haf, hao.trans hstays.org.symm, has.trans hstarting.symm⟩
  cases meeting r c with
  | same _ hstays => exact hstay hstays
  | login _ _ hstays => exact hstay hstays
  | org hr hc hne hro hco =>
    obtain ⟨horg, -, -, hstarting⟩ := meet_org hr hc hne hro hco
    exact ⟨c, by simp, hc, hfirst, hco.trans horg.symm, hstarting.symm⟩
  | clash hr hc hne hkind =>
    cases (meet_clash hr hc hne hkind).2.1.symm.trans hsc

/-- A clash is one of an earlier twin with another, or with this one. -/
theorem Met.meet_clash (h : Met cs r) (hfirst : c.first = r.first)
    (hsc : (r.meet c).start_conflict = true) : Clashes (cs ++ [c]) := by
  cases meeting r c with
  | same _ hstays => exact (h.clash (hstays.start.symm.trans hsc)).mono
  | login _ _ hstays => exact (h.clash (hstays.start.symm.trans hsc)).mono
  | org hr hc hne hro hco => cases (meet_org hr hc hne hro hco).2.1.symm.trans hsc
  | clash hr hc hne hkind =>
    cases hold : r.start_conflict with
    | true => exact (h.clash hold).mono
    | false =>
      obtain ⟨a, ha, hak, haf, hao, has⟩ := h.start hr hold
      exact ⟨a, mem_append_left _ ha, c, by simp, hak, hc, haf.trans hfirst.symm, hao.trans hkind,
        by rwa [has]⟩

/-- Only a clash of starts at a meeting marks a conflict that no twin carries. -/
theorem meet_conflict (r c : Root) :
    (r.meet c).conflict = r.conflict ∧
        ((r.meet c).start_conflict = true → r.start_conflict = true) ∨
      (r.meet c).conflict = true ∧ (r.meet c).start_conflict = true := by
  cases meeting r c with
  | same _ hstays => exact .inl ⟨hstays.conflict, fun hsc => hstays.start.symm.trans hsc⟩
  | login _ _ hstays => exact .inl ⟨hstays.conflict, fun hsc => hstays.start.symm.trans hsc⟩
  | org hr hc hne hro hco =>
    obtain ⟨-, hfalse, hconflict, -⟩ := meet_org hr hc hne hro hco
    exact .inl ⟨hconflict, fun hsc => by cases hfalse.symm.trans hsc⟩
  | clash hr hc hne hkind =>
    obtain ⟨-, hsc, hconflict, -⟩ := meet_clash hr hc hne hkind
    exact .inr ⟨hconflict, hsc⟩

/-- The facts about the root that a meeting leaves for the next one. -/
theorem Met.meet (h : Met cs r) (hfirst : c.first = r.first)
    (hc_known : c.known = true → r.known = true) (conflict : Bool)
    (hconflict : conflict = ((r.meet c).conflict || (r.conflict || c.conflict))) :
    Met (cs ++ [c]) { r.meet c with conflict } := by
  have hlast : ∀ {p : Root → Prop}, (∃ a ∈ cs ++ [c], p a) ↔ (∃ a ∈ cs, p a) ∨ p c := by
    intro p
    simp [or_and_right, exists_or]
  refine ⟨?_, ?_, ?_, ?_, h.meet_clash hfirst, ?_, ?_, ?_⟩
  · rw [meet_known, meet_first]
    exact fun hr => hlast.mpr (.inl (h.known hr))
  · rw [meet_known]
    exact fun hsome => (hlast.mp hsome).elim h.any hc_known
  · rw [meet_known]
    intro hr
    obtain ⟨hnone, hfalse⟩ := h.unknown hr
    have hstays := meet_same (r := r) (c := c) (by simp [hr])
    exact ⟨by rw [hstays.starting, hfalse, if_neg Bool.false_ne_true, hnone],
      hstays.start.trans hfalse⟩
  · rw [meet_known, meet_first]
    exact h.meet_start hfirst
  · intro hsc
    rw [hconflict]
    rcases meet_conflict r c with ⟨-, hkept⟩ | ⟨hmarked, -⟩
    · simp [h.flagged (hkept hsc)]
    · simp [hmarked]
  · intro hsome
    rw [hconflict]
    rcases hlast.mp hsome with hsome | hcc
    · simp [h.given hsome]
    · simp [hcc]
  · intro htrue
    rcases meet_conflict r c with ⟨hsame, -⟩ | ⟨-, hsc⟩
    · rw [hconflict, hsame, Bool.or_self_left, Bool.or_eq_true] at htrue
      rcases htrue with hr | hcc
      · exact (h.conflict hr).imp (fun hsome => hlast.mpr (.inl hsome)) Clashes.mono
      · exact .inl (hlast.mpr (.inr hcc))
    · exact .inr (h.meet_clash hfirst hsc)

theorem Met.observe (h : Met cs r) (hplain : Plain c) : Met (cs ++ [c]) (r.observe c) := by
  have hc_mem : c ∈ cs ++ [c] := by simp
  have hold : ∀ {a}, a ∈ cs → a ∈ cs ++ [c] := fun ha => mem_append_left _ ha
  have hsplit : ∀ {p : Root → Prop}, (∃ a ∈ cs ++ [c], p a) ↔ (∃ a ∈ cs, p a) ∨ p c := by
    intro p
    simp [or_and_right, exists_or]
  by_cases hreplace : c.known = true ∧ (r.known = false ∨ c.first < r.first)
  · obtain ⟨hc, hearlier⟩ := hreplace
    rw [observe_replace hc hearlier]
    refine ⟨fun _ => ⟨c, hc_mem, hc, rfl⟩, fun _ => hc, ?_,
      fun _ _ => ⟨c, hc_mem, hc, rfl, rfl, rfl⟩, ?_, ?_, ?_, ?_⟩
    · intro hfalse
      cases hc.symm.trans hfalse
    · intro htrue
      cases htrue.symm.trans hplain.start
    · intro htrue
      cases htrue.symm.trans hplain.start
    · intro hsome
      rcases hsplit.mp hsome with hsome | hcc
      · simp [h.given hsome]
      · simp [hcc]
    · intro htrue
      rcases Bool.or_eq_true _ _ ▸ htrue with hr | hcc
      · rcases h.conflict hr with hsome | hclash
        · exact .inl (hsplit.mpr (.inl hsome))
        · exact .inr hclash.mono
      · exact .inl (hsplit.mpr (.inr hcc))
  · have hlater : c.known = true → r.known = true ∧ r.first ≤ c.first := by
      intro hc
      have hnot := not_and.mp hreplace hc
      rw [not_or, Bool.not_eq_false, not_lt] at hnot
      exact hnot
    by_cases hfirst : c.first = r.first
    · rw [observe_meet hfirst (fun hc => (hlater hc).1)]
      exact h.meet hfirst (fun hc => (hlater hc).1) _ rfl
    · rw [observe_other hfirst (fun hc =>
        ⟨(hlater hc).1, lt_of_le_of_ne (hlater hc).2 (Ne.symm hfirst)⟩)]
      refine ⟨?_, ?_, h.unknown, ?_, fun htrue => (h.clash htrue).mono, ?_, ?_, ?_⟩
      · intro hr
        obtain ⟨a, ha, hpair⟩ := h.known hr
        exact ⟨a, hold ha, hpair⟩
      · intro hsome
        rcases hsplit.mp hsome with hsome | hc
        · exact h.any hsome
        · exact (hlater hc).1
      · intro hr hsc
        obtain ⟨a, ha, hpair⟩ := h.start hr hsc
        exact ⟨a, hold ha, hpair⟩
      · intro htrue
        simp [h.flagged htrue]
      · intro hsome
        rcases hsplit.mp hsome with hsome | hcc
        · simp [h.given hsome]
        · simp [hcc]
      · intro htrue
        rcases Bool.or_eq_true _ _ ▸ htrue with hr | hcc
        · rcases h.conflict hr with hsome | hclash
          · exact .inl (hsplit.mpr (.inl hsome))
          · exact .inr hclash.mono
        · exact .inl (hsplit.mpr (.inr hcc))

theorem Met.all {rest : List Root} (h : Met cs r) (hplain : ∀ c ∈ rest, Plain c) :
    ∃ r', rest.foldl observe_twin (some r) = some r' ∧ Met (cs ++ rest) r' := by
  induction rest generalizing cs r with
  | nil => exact ⟨r, rfl, by simpa using h⟩
  | cons c rest ih =>
    obtain ⟨r', hfold, hmet⟩ := ih (h.observe (hplain c mem_cons_self))
      (fun c hc => hplain c (mem_cons_of_mem _ hc))
    exact ⟨r', hfold, by simpa using hmet⟩

/-- Some twins make a root. -/
theorem observe_twins_met (hne : cs ≠ []) (hplain : ∀ c ∈ cs, Plain c) :
    ∃ r, observe_twins cs = some r ∧ Met cs r := by
  cases cs with
  | nil => exact absurd rfl hne
  | cons c rest =>
    obtain ⟨r, hfold, hmet⟩ := (met_singleton (hplain c mem_cons_self)).all
      (fun c hc => hplain c (mem_cons_of_mem _ hc))
    exact ⟨r, hfold, hmet⟩

/-! ## Where the root stands in the end -/

theorem exists_earliest (h : ∃ c ∈ cs, c.known = true) : ∃ a, Earliest cs a := by
  induction cs with
  | nil =>
    obtain ⟨c, hc, -⟩ := h
    cases hc
  | cons c cs ih =>
    by_cases hrest : ∃ c ∈ cs, c.known = true
    · obtain ⟨a, ha, hak, hleast⟩ := ih hrest
      by_cases hbefore : c.known = true ∧ c.first < a.first
      · refine ⟨c, mem_cons_self, hbefore.1, ?_⟩
        intro b hb hbk
        rcases mem_cons.mp hb with rfl | hb
        · exact le_rfl
        · exact hbefore.2.le.trans (hleast b hb hbk)
      · refine ⟨a, mem_cons_of_mem _ ha, hak, ?_⟩
        intro b hb hbk
        rcases mem_cons.mp hb with rfl | hb
        · exact not_lt.mp (fun hlt => hbefore ⟨hbk, hlt⟩)
        · exact hleast b hb hbk
    · obtain ⟨a, ha, hak⟩ := h
      refine ⟨a, ha, hak, ?_⟩
      have honly : ∀ b ∈ c :: cs, b.known = true → b = c := by
        intro b hb hbk
        rcases mem_cons.mp hb with heq | hb
        · exact heq
        · exact absurd ⟨b, hb, hbk⟩ hrest
      intro b hb hbk
      rw [honly a ha hak, honly b hb hbk]

theorem exists_governs (h : ∃ c ∈ cs, c.known = true) : ∃ g, Governs cs g := by
  by_cases horg : ∃ a, Earliest cs a ∧ a.org_start = true
  · obtain ⟨a, ha, hao⟩ := horg
    exact ⟨a, ha, .inl hao⟩
  · obtain ⟨a, ha⟩ := exists_earliest h
    refine ⟨a, ha, .inr (fun c hc => ?_)⟩
    cases hco : c.org_start with
    | false => rfl
    | true => exact absurd ⟨c, hc, hco⟩ horg

/-- The twins of the time that a start has. -/
def at_time (k : Root) (rest : List Root) : List Root :=
  rest.filter (fun c => decide (c.first = k.first))

/-- From the first earliest start on, the twins of its time decide. -/
theorem settled_from {pre rest : List Root} {k : Root} (hk : Earliest (pre ++ k :: rest) k)
    (hpre : ∀ c ∈ pre, c.known = true → k.first < c.first)
    (hplain : ∀ c ∈ pre ++ k :: rest, Plain c) :
    ∃ r, observe_twins (pre ++ k :: rest) = some r ∧ Settled (k :: at_time k rest) r := by
  obtain ⟨hmem, hknown, hleast⟩ := hk
  have hk_plain := hplain k hmem
  have hpre_plain : ∀ c ∈ pre, Plain c := fun c hc => hplain c (mem_append_left _ hc)
  have hrest_plain : ∀ c ∈ rest, Plain c := fun c hc =>
    hplain c (mem_append_right _ (mem_cons_of_mem _ hc))
  have hrest_least : ∀ c ∈ rest, c.known = true → k.first ≤ c.first := fun c hc =>
    hleast c (mem_append_right _ (mem_cons_of_mem _ hc))
  unfold observe_twins
  rw [foldl_append, foldl_cons]
  have hstart : ∃ conflict, observe_twin (pre.foldl observe_twin none) k =
      some { k with conflict } := by
    by_cases hempty : pre = []
    · exact ⟨k.conflict, by rw [hempty]; rfl⟩
    · obtain ⟨r, hfold, hmet⟩ := observe_twins_met hempty hpre_plain
      refine ⟨r.conflict || k.conflict, ?_⟩
      have hearlier : r.known = false ∨ k.first < r.first := by
        cases hr : r.known with
        | false => exact .inl rfl
        | true =>
          obtain ⟨a, ha, hak, haf⟩ := hmet.known hr
          exact .inr (haf ▸ hpre a ha hak)
      rw [show pre.foldl observe_twin none = some r from hfold]
      exact congrArg some (observe_replace hknown hearlier)
  obtain ⟨conflict, hstart⟩ := hstart
  obtain ⟨r, hfold, hsettled⟩ := (settled_singleton hk_plain hknown conflict).rest hrest_plain
    hrest_least
  exact ⟨r, by rw [hstart]; exact hfold, hsettled⟩

/-- The first earliest start of a list. -/
theorem exists_first_earliest (h : ∃ c ∈ cs, c.known = true) :
    ∃ pre k rest, cs = pre ++ k :: rest ∧ Earliest cs k ∧ ∀ c ∈ pre, c.known = true → k.first < c.first := by
  obtain ⟨a, ha⟩ := exists_earliest h
  obtain ⟨hmem, hknown, hleast⟩ := ha
  have hsplit := takeWhile_append_dropWhile
    (p := fun c : Root => !(c.known && decide (c.first = a.first))) (l := cs)
  have hhead := List.head?_dropWhile_not
    (fun c : Root => !(c.known && decide (c.first = a.first))) cs
  cases hdrop : cs.dropWhile (fun c => !(c.known && decide (c.first = a.first))) with
  | nil =>
    have hall := dropWhile_eq_nil_iff.mp hdrop a hmem
    simp [hknown] at hall
  | cons k rest =>
    rw [hdrop] at hsplit hhead
    have hk : k.known = true ∧ k.first = a.first := by simpa using hhead
    refine ⟨_, k, rest, hsplit.symm, ⟨?_, hk.1, ?_⟩, ?_⟩
    · rw [← hsplit]
      exact mem_append_right _ mem_cons_self
    · rw [hk.2]
      exact hleast
    · intro c hc hck
      have hnot := mem_takeWhile_imp hc
      have hne : c.first ≠ a.first := by simpa [hck] using hnot
      have hc_mem : c ∈ cs := by
        rw [← hsplit]
        exact mem_append_left _ hc
      rw [hk.2]
      exact lt_of_le_of_ne (hleast c hc_mem hck) hne.symm

/-- The twins that settled a root are the earliest starts, and some without a start at their time. -/
structure Between (cs seen : List Root) : Prop where
  all : ∀ a, Earliest cs a → a ∈ seen
  only : ∀ a ∈ seen, a ∈ cs ∧ ∀ k, Earliest cs k → a.first = k.first

theorem Between.earliest (h : Between cs seen) {a : Root} (ha : a ∈ seen) (hak : a.known = true) :
    Earliest cs a := by
  obtain ⟨hmem, hfirst⟩ := h.only a ha
  obtain ⟨k, hk⟩ := exists_earliest ⟨a, hmem, hak⟩
  refine ⟨hmem, hak, ?_⟩
  rw [hfirst k hk]
  exact hk.2.2

theorem between_from {pre rest : List Root} {k : Root} (hk : Earliest (pre ++ k :: rest) k)
    (hpre : ∀ c ∈ pre, c.known = true → k.first < c.first) :
    Between (pre ++ k :: rest) (k :: at_time k rest) := by
  have hsame : ∀ a, Earliest (pre ++ k :: rest) a → a.first = k.first := by
    intro a ha
    exact le_antisymm (ha.2.2 k hk.1 hk.2.1) (hk.2.2 a ha.1 ha.2.1)
  refine ⟨?_, ?_⟩
  · intro a ha
    have hfirst := hsame a ha
    rcases mem_append.mp ha.1 with hmem | hmem
    · exact absurd (hpre a hmem ha.2.1) (by rw [hfirst]; exact lt_irrefl _)
    · rcases mem_cons.mp hmem with rfl | hmem
      · exact mem_cons_self
      · exact mem_cons_of_mem _ (mem_filter.mpr ⟨hmem, decide_eq_true hfirst⟩)
  · intro a ha
    rcases mem_cons.mp ha with rfl | ha
    · exact ⟨hk.1, fun b hb => (hsame b hb).symm⟩
    · obtain ⟨hmem, hfirst⟩ := mem_filter.mp ha
      exact ⟨mem_append_right _ (mem_cons_of_mem _ hmem),
        fun b hb => (of_decide_eq_true hfirst).trans (hsame b hb).symm⟩

variable {cs' seen' : List Root} {r' : Root}

variable {g : Root}

theorem Settled.kind (h : Settled seen r) (hbetween : Between cs seen)
    (hg : Governs cs g) : g.org_start = r.org_start := by
  rw [Bool.eq_iff_iff, h.org]
  constructor
  · intro hgo
    exact ⟨g, hbetween.all g hg.1, hg.1.2.1, hgo⟩
  · rintro ⟨a, ha, hak, hao⟩
    rcases hg.2 with hgo | hnone
    · exact hgo
    · exact absurd (hao.symm.trans (hnone a (hbetween.earliest ha hak))) (by simp)

theorem Settled.clash_iff (h : Settled seen r) (hbetween : Between cs seen) :
    r.start_conflict = true ↔ TopClash cs := by
  constructor
  · intro hsc
    obtain ⟨-, a, ha, b, hb, hak, hbk, hao, hbo, hne⟩ := h.clash hsc
    have hgoverns : ∀ x ∈ seen, x.known = true → x.org_start = r.org_start → Governs cs x := by
      intro x hx hxk hxo
      refine ⟨hbetween.earliest hx hxk, ?_⟩
      cases hro : r.org_start with
      | true => exact .inl (hxo.trans hro)
      | false =>
        refine .inr (fun c hc => ?_)
        cases hco : c.org_start with
        | false => rfl
        | true =>
          have htrue := h.org.mpr ⟨c, hbetween.all c hc, hc.2.1, hco⟩
          rw [hro] at htrue
          cases htrue
    exact ⟨a, b, hgoverns a ha hak hao, hgoverns b hb hbk hbo, hne⟩
  · rintro ⟨a, b, ha, hb, hne⟩
    cases hsc : r.start_conflict with
    | true => rfl
    | false =>
      obtain ⟨-, hall⟩ := h.start hsc
      have ha_eq := hall a (hbetween.all a ha.1) ha.1.2.1 (h.kind hbetween ha)
      have hb_eq := hall b (hbetween.all b hb.1) hb.1.2.1 (h.kind hbetween hb)
      exact absurd (ha_eq.trans hb_eq.symm) hne

/-- Without a clash that governs, the root has the start that governs. -/
theorem Settled.start_of_governs (h : Settled seen r) (hbetween : Between cs seen)
    (hcalm : ¬ TopClash cs) (hg : Governs cs g) : r.starting = g.starting := by
  have hsc : r.start_conflict = false := by
    rw [Bool.eq_false_iff]
    exact mt (h.clash_iff hbetween).mp hcalm
  exact ((h.start hsc).2 g (hbetween.all g hg.1) hg.1.2.1 (h.kind hbetween hg)).symm

theorem Settled.start_of_clash (h : Settled seen r) (hbetween : Between cs seen)
    (hclash : TopClash cs) : r.starting = r.bound :=
  (h.clash ((h.clash_iff hbetween).mpr hclash)).1

/-- Where no order changes the bound account, it is the same. -/
theorem bound_steady (hsteady : BoundsSteady cs) (h : Settled seen r) (hbetween : Between cs seen)
    (h' : Settled seen' r') (hbetween' : Between cs seen') : r.bound = r'.bound := by
  rcases hsteady with ⟨a, b, ha, hb, hdiffer⟩ | hcovered
  · have hnone : ∀ {seen : List Root} {r : Root}, Settled seen r → Between cs seen → r.bound = none := by
      intro seen r h hbetween
      apply h.agreed.none_left
      exact h.agreed.differ.mpr ⟨a, hbetween.all a ha, b, hbetween.all b hb, hdiffer⟩
    rw [hnone h hbetween, hnone h' hbetween']
  · have hto : ∀ {seen seen' : List Root} {r : Root}, Settled seen r → Between cs seen →
        Between cs seen' → ∀ key, (∃ a ∈ seen, a.bound = some key) →
          ∃ a ∈ seen', a.bound = some key := by
      rintro seen seen' r h hbetween hbetween' key ⟨a, ha, hkey⟩
      obtain ⟨hmem, hfirst⟩ := hbetween.only a ha
      obtain ⟨k, hk⟩ : ∃ k, Earliest cs k := by
        cases hsc : r.start_conflict with
        | true =>
          obtain ⟨-, b, hb, -, -, hbk, -⟩ := h.clash hsc
          exact ⟨b, hbetween.earliest hb hbk⟩
        | false =>
          obtain ⟨⟨b, hb, hbk, -⟩, -⟩ := h.start hsc
          exact ⟨b, hbetween.earliest hb hbk⟩
      obtain ⟨b, hb, heq⟩ := hcovered a hmem k hk (hfirst k hk) (by simp [hkey])
      exact ⟨b, hbetween'.all b hb, heq.trans hkey⟩
    exact h.agreed.unique h'.agreed (fun key => ⟨hto h hbetween hbetween' key,
      hto h' hbetween' hbetween key⟩)

/-- The account of the root, where some twins are. -/
theorem start_steady (hsteady : StartSteady cs) (hplain : ∀ c ∈ cs, Plain c) (hperm : cs'.Perm cs)
    (h : observe_twins cs = some r) (h' : observe_twins cs' = some r') : r'.starting = r.starting := by
  have hplain' : ∀ c ∈ cs', Plain c := fun c hc => hplain c (hperm.mem_iff.mp hc)
  have hne : cs ≠ [] := by
    rintro rfl
    cases h
  have hne' : cs' ≠ [] := by
    rintro rfl
    cases h'
  by_cases hknown : ∃ c ∈ cs, c.known = true
  · have hknown' : ∃ c ∈ cs', c.known = true := by
      obtain ⟨c, hc, hck⟩ := hknown
      exact ⟨c, hperm.mem_iff.mpr hc, hck⟩
    obtain ⟨pre, k, rest, rfl, hk, hpre⟩ := exists_first_earliest hknown
    obtain ⟨pre', k', rest', rfl, hk', hpre'⟩ := exists_first_earliest hknown'
    obtain ⟨s, hs, hsettled⟩ := settled_from hk hpre hplain
    obtain ⟨s', hs', hsettled'⟩ := settled_from hk' hpre' hplain'
    cases h.symm.trans hs
    cases h'.symm.trans hs'
    have hbetween := between_from hk hpre
    have hbetween' : Between (pre ++ k :: rest) (k' :: at_time k' rest') := by
      have hown := between_from hk' hpre'
      refine ⟨fun a ha => hown.all a ((earliest_perm hperm a).mpr ha), fun a ha => ?_⟩
      obtain ⟨hmem, hfirst⟩ := hown.only a ha
      exact ⟨hperm.mem_iff.mp hmem, fun b hb => hfirst b ((earliest_perm hperm b).mpr hb)⟩
    by_cases hclash : TopClash (pre ++ k :: rest)
    · rw [hsettled.start_of_clash hbetween hclash, hsettled'.start_of_clash hbetween' hclash]
      exact (bound_steady (hsteady hclash) hsettled hbetween hsettled' hbetween').symm
    · obtain ⟨g, hg⟩ := exists_governs hknown
      rw [hsettled.start_of_governs hbetween hclash hg,
        hsettled'.start_of_governs hbetween' hclash hg]
  · obtain ⟨s, hs, hmet⟩ := observe_twins_met hne hplain
    obtain ⟨s', hs', hmet'⟩ := observe_twins_met hne' hplain'
    cases h.symm.trans hs
    cases h'.symm.trans hs'
    have hunknown : r.known = false := by
      rw [Bool.eq_false_iff]
      intro htrue
      obtain ⟨a, ha, hak, -⟩ := hmet.known htrue
      exact hknown ⟨a, ha, hak⟩
    have hunknown' : r'.known = false := by
      rw [Bool.eq_false_iff]
      intro htrue
      obtain ⟨a, ha, hak, -⟩ := hmet'.known htrue
      exact hknown ⟨a, hperm.mem_iff.mp ha, hak⟩
    rw [(hmet.unknown hunknown).1, (hmet'.unknown hunknown').1]

/-! ## Whether the root is in conflict -/

/-- A root of some known start stands at the earliest one. -/
theorem settled_of (hknown : ∃ c ∈ cs, c.known = true) (hplain : ∀ c ∈ cs, Plain c)
    (h : observe_twins cs = some r) : ∃ seen, Settled seen r ∧ Between cs seen := by
  obtain ⟨pre, k, rest, rfl, hk, hpre⟩ := exists_first_earliest hknown
  obtain ⟨s, hs, hsettled⟩ := settled_from hk hpre hplain
  cases h.symm.trans hs
  exact ⟨_, hsettled, between_from hk hpre⟩

theorem met_of (hplain : ∀ c ∈ cs, Plain c) (h : observe_twins cs = some r) : Met cs r := by
  have hne : cs ≠ [] := by
    rintro rfl
    cases h
  obtain ⟨s, hs, hmet⟩ := observe_twins_met hne hplain
  cases h.symm.trans hs
  exact hmet

theorem flagged_of_topClash (hclash : TopClash cs) (hplain : ∀ c ∈ cs, Plain c)
    (h : observe_twins cs = some r) : r.conflict = true := by
  have hknown : ∃ c ∈ cs, c.known = true := by
    obtain ⟨a, -, ha, -⟩ := hclash
    exact ⟨a, ha.1.1, ha.1.2.1⟩
  obtain ⟨seen, hsettled, hbetween⟩ := settled_of hknown hplain h
  exact (met_of hplain h).flagged ((hsettled.clash_iff hbetween).mpr hclash)

theorem clashes_perm (h : cs.Perm cs') : Clashes cs ↔ Clashes cs' := by
  unfold Clashes
  simp only [h.mem_iff]

theorem conflict_steady (hsteady : ConflictSteady cs) (hplain : ∀ c ∈ cs, Plain c)
    (hperm : cs'.Perm cs) (h : observe_twins cs = some r) (h' : observe_twins cs' = some r') :
    r'.conflict = r.conflict := by
  have hplain' : ∀ c ∈ cs', Plain c := fun c hc => hplain c (hperm.mem_iff.mp hc)
  have hmet := met_of hplain h
  have hmet' := met_of hplain' h'
  by_cases hgiven : ∃ c ∈ cs, c.conflict = true
  · rw [hmet.given hgiven, hmet'.given (by simpa only [hperm.mem_iff] using hgiven)]
  · by_cases hclash : Clashes cs
    · have htop : TopClash cs := (hsteady hclash).resolve_right hgiven
      rw [flagged_of_topClash htop hplain h,
        flagged_of_topClash ((topClash_perm hperm).mpr htop) hplain' h']
    · have hcalm : r.conflict = false := by
        rw [Bool.eq_false_iff]
        intro htrue
        exact (hmet.conflict htrue).elim hgiven hclash
      have hcalm' : r'.conflict = false := by
        rw [Bool.eq_false_iff]
        intro htrue
        rcases hmet'.conflict htrue with hgiven' | hclash'
        · exact hgiven (by simpa only [hperm.mem_iff] using hgiven')
        · exact hclash ((clashes_perm hperm).mp hclash')
      rw [hcalm, hcalm']

/-! ## Orders that change a root -/

/-- A list with two of its twins in front. -/
theorem perm_pair {a b : Root} (ha : a ∈ cs) (hb : b ∈ cs) (hne : a ≠ b) :
    ∃ rest, (a :: b :: rest).Perm cs := by
  obtain ⟨front, back, rfl⟩ := append_of_mem ha
  have hb_rest : b ∈ front ++ back := by
    simp only [mem_append, mem_cons] at hb ⊢
    rcases hb with hb | rfl | hb
    · exact .inl hb
    · exact absurd rfl hne
    · exact .inr hb
  obtain ⟨left, right, hsplit⟩ := append_of_mem hb_rest
  refine ⟨left ++ right, ?_⟩
  calc (a :: b :: (left ++ right)).Perm (a :: (left ++ b :: right)) :=
        .cons a perm_middle.symm
    _ = a :: (front ++ back) := by rw [hsplit]
    List.Perm _ (front ++ a :: back) := perm_middle.symm

theorem perm_known_last (front rest : List Root) :
    (rest.filter (fun c => !c.known) ++ (front ++ rest.filter (fun c => c.known))).Perm
      (front ++ rest) := by
  have hsplit : (rest.filter (fun c => !c.known) ++ rest.filter (fun c => c.known)).Perm rest :=
    perm_append_comm.trans (filter_append_perm (fun c => c.known) rest)
  calc (rest.filter (fun c => !c.known) ++ (front ++ rest.filter (fun c => c.known))).Perm
        (front ++ (rest.filter (fun c => !c.known) ++ rest.filter (fun c => c.known))) := by
        rw [← append_assoc, ← append_assoc]
        exact perm_append_comm.append_right _
    List.Perm _ (front ++ rest) := hsplit.append_left front

/-- A twin without a start, bound to an account of its own, counts only after the earliest start. -/
theorem start_unsteady (hunsteady : ¬ StartSteady cs) (hplain : ∀ c ∈ cs, Plain c) :
    ∃ one other r r', one.Perm cs ∧ other.Perm cs ∧ observe_twins one = some r ∧
      observe_twins other = some r' ∧ r.starting ≠ r'.starting := by
  unfold StartSteady BoundsSteady at hunsteady
  push Not at hunsteady
  obtain ⟨hclash, hagree, u, hu, k, hk, hfirst, hu_bound, halone⟩ := hunsteady
  have hu_unknown : u.known = false := by
    rw [Bool.eq_false_iff]
    intro hu_known
    refine halone u ⟨hu, hu_known, ?_⟩ rfl
    rw [hfirst]
    exact hk.2.2
  have hne : k ≠ u := by
    rintro rfl
    rw [hk.2.1] at hu_unknown
    cases hu_unknown
  obtain ⟨rest, hrest⟩ := perm_pair hk.1 hu hne
  have hone : (rest.filter (fun c => !c.known) ++ k :: (u :: rest.filter (fun c => c.known))).Perm cs :=
    (perm_known_last [k, u] rest).trans hrest
  have hother : ((u :: rest.filter (fun c => !c.known)) ++ k :: rest.filter (fun c => c.known)).Perm cs := by
    refine .trans ?_ (.trans (.swap k u rest) hrest)
    exact .cons u (perm_known_last [k] rest)
  have hunknown : ∀ c ∈ rest.filter (fun c => !c.known), c.known = true → k.first < c.first := by
    intro c hc hc_known
    have hc_unknown := (mem_filter.mp hc).2
    simp [hc_known] at hc_unknown
  have hunknown' : ∀ c ∈ u :: rest.filter (fun c => !c.known), c.known = true → k.first < c.first := by
    intro c hc hc_known
    rcases mem_cons.mp hc with rfl | hc
    · rw [hu_unknown] at hc_known
      cases hc_known
    · exact hunknown c hc hc_known
  have hk_one := (earliest_perm hone k).mpr hk
  have hk_other := (earliest_perm hother k).mpr hk
  obtain ⟨r, hr, hsettled⟩ := settled_from hk_one hunknown
    (fun c hc => hplain c (hone.mem_iff.mp hc))
  obtain ⟨r', hr', hsettled'⟩ := settled_from hk_other hunknown'
    (fun c hc => hplain c (hother.mem_iff.mp hc))
  have hbetween' := between_from hk_other hunknown'
  refine ⟨_, _, r, r', hone, hother, hr, hr', ?_⟩
  rw [hsettled.start_of_clash (between_from hk_one hunknown) ((topClash_perm hone).mpr hclash),
    hsettled'.start_of_clash hbetween' ((topClash_perm hother).mpr hclash)]
  -- After the twin only earliest starts are met, so the accounts met differ by the twin's.
  have hseen : ∀ a ∈ k :: at_time k (rest.filter (fun c => c.known)), Earliest cs a := by
    intro a ha
    refine (earliest_perm hother a).mp (hbetween'.earliest ha ?_)
    rcases mem_cons.mp ha with rfl | ha
    · exact hk.2.1
    · exact (mem_filter.mp (mem_filter.mp ha).1).2
  have hmet : ∀ a ∈ k :: at_time k (u :: rest.filter (fun c => c.known)),
      a = u ∨ a ∈ k :: at_time k (rest.filter (fun c => c.known)) := by
    intro a ha
    simp only [at_time, filter_cons, hfirst, decide_true, if_true, mem_cons] at ha ⊢
    tauto
  have hu_met : u ∈ k :: at_time k (u :: rest.filter (fun c => c.known)) := by
    simp [at_time, hfirst]
  have hcalm : r'.bound_conflict = false := by
    rw [Bool.eq_false_iff]
    intro htrue
    obtain ⟨a, ha, b, hb, hane, hbne, hab⟩ := hsettled'.agreed.differ.mp htrue
    exact hab (hagree a b (hseen a ha) (hseen b hb) hane hbne)
  intro heq
  cases hconflict : r.bound_conflict with
  | true =>
    have hnone : r'.bound = none := heq.symm.trans (hsettled.agreed.none_left hconflict)
    have honly : ∀ a ∈ k :: at_time k (u :: rest.filter (fun c => c.known)), a.bound ≠ none → a = u := by
      intro a ha hane
      rcases hmet a ha with rfl | ha
      · rfl
      · have hkept := hsettled'.agreed.kept hcalm a ha
        rw [hnone, or_self] at hkept
        exact absurd hkept hane
    obtain ⟨a, ha, b, hb, hane, hbne, hab⟩ := hsettled.agreed.differ.mp hconflict
    exact hab (by rw [honly a ha hane, honly b hb hbne])
  | false =>
    have hkept := (hsettled.agreed.kept hconflict u hu_met).resolve_left hu_bound
    rcases hsettled'.agreed.given with hnone | ⟨a, ha, hbound⟩
    · exact hu_bound (hkept.trans (heq.trans hnone))
    · exact halone a (hseen a ha) (hbound.trans (heq.symm.trans hkept.symm))

theorem observe_conflict (h : r.conflict = true) : (r.observe c).conflict = true := by
  unfold Root.observe
  simp [h]

theorem conflict_stays {rest : List Root} (h : r.conflict = true) :
    ∃ r', rest.foldl observe_twin (some r) = some r' ∧ r'.conflict = true := by
  induction rest generalizing r with
  | nil => exact ⟨r, rfl, h⟩
  | cons c rest ih => exact ih (observe_conflict h)

/-- A root that stands at a start that governs, and saw no conflict. -/
structure Calm (g r : Root) : Prop where
  known : r.known = true
  first : r.first = g.first
  org : r.org_start = g.org_start
  starting : r.starting = g.starting
  start : r.start_conflict = false
  conflict : r.conflict = false

theorem Calm.observe (h : Calm g r) (hg : Governs cs g) (hcalm : ¬ TopClash cs)
    (hc : c ∈ cs) (hunflagged : c.conflict = false) : Calm g (r.observe c) := by
  have hleast : c.known = true → r.first ≤ c.first := by
    rw [h.first]
    exact hg.1.2.2 c hc
  by_cases hfirst : c.first = r.first
  · rw [observe_meet hfirst (fun _ => h.known)]
    have hstays : Stays r c := by
      by_cases hdiffers : c.known = true ∧ r.starting ≠ c.starting
      · obtain ⟨hc_known, hne⟩ := hdiffers
        have hc_earliest : Earliest cs c := by
          refine ⟨hc, hc_known, ?_⟩
          rw [hfirst, h.first]
          exact hg.1.2.2
        have hg_org : g.org_start = true := by
          rcases hg.2 with hg_org | hnone
          · exact hg_org
          · exact absurd ⟨g, c, hg, ⟨hc_earliest, .inr hnone⟩, by rwa [← h.starting]⟩ hcalm
        have hc_org : c.org_start = false := by
          rw [Bool.eq_false_iff]
          intro hc_org
          exact hcalm ⟨g, c, hg, ⟨hc_earliest, .inl hc_org⟩, by rwa [← h.starting]⟩
        exact meet_login h.known hc_known hne (h.org.trans hg_org) hc_org
      · exact meet_same (by tauto)
    have hstarting := hstays.starting
    rw [h.start, if_neg Bool.false_ne_true] at hstarting
    refine ⟨?_, ?_, hstays.org.trans h.org, hstarting.trans h.starting,
      hstays.start.trans h.start, ?_⟩
    · rw [meet_known]
      exact h.known
    · rw [meet_first]
      exact h.first
    · simp [hstays.conflict, h.conflict, hunflagged]
  · rw [observe_other hfirst (fun hc_known =>
      ⟨h.known, lt_of_le_of_ne (hleast hc_known) (Ne.symm hfirst)⟩)]
    exact ⟨h.known, h.first, h.org, h.starting, h.start, by simp [h.conflict, hunflagged]⟩

theorem Calm.rest {rest : List Root} (h : Calm g r) (hg : Governs cs g)
    (hcalm : ¬ TopClash cs) (hrest : ∀ c ∈ rest, c ∈ cs ∧ c.conflict = false) :
    ∃ r', rest.foldl observe_twin (some r) = some r' ∧ r'.conflict = false := by
  induction rest generalizing r with
  | nil => exact ⟨r, rfl, h.conflict⟩
  | cons c rest ih =>
    obtain ⟨hc, hunflagged⟩ := hrest c mem_cons_self
    exact ih (h.observe hg hcalm hc hunflagged) (fun c hc => hrest c (mem_cons_of_mem _ hc))

/-- A clash counts only where the start that governs comes after it. -/
theorem conflict_unsteady (hunsteady : ¬ ConflictSteady cs) (hplain : ∀ c ∈ cs, Plain c) :
    ∃ one other r r', one.Perm cs ∧ other.Perm cs ∧ observe_twins one = some r ∧
      observe_twins other = some r' ∧ r.conflict = true ∧ r'.conflict = false := by
  unfold ConflictSteady at hunsteady
  push Not at hunsteady
  obtain ⟨⟨a, ha, b, hb, hak, hbk, hfirst, horg, hne⟩, hcalm, hgiven⟩ := hunsteady
  have hunflagged : ∀ c ∈ cs, c.conflict = false := fun c hc => Bool.eq_false_iff.mpr (hgiven c hc)
  obtain ⟨rest, hrest⟩ := perm_pair ha hb (fun heq => hne (by rw [heq]))
  have hflagged : (a.observe b).conflict = true := by
    rw [observe_meet hfirst.symm (fun _ => hak)]
    simp [(meet_clash hak hbk hne horg).2.2.1]
  obtain ⟨r, hr, htrue⟩ := @conflict_stays _ rest hflagged
  obtain ⟨g, hg⟩ := exists_governs ⟨a, ha, hak⟩
  obtain ⟨front, back, rfl⟩ := append_of_mem hg.1.1
  have hstart : Calm g g :=
    ⟨hg.1.2.1, rfl, rfl, rfl, (hplain g hg.1.1).start, hunflagged g hg.1.1⟩
  obtain ⟨r', hr', hfalse⟩ := @Calm.rest _ _ _ (front ++ back) hstart hg hcalm (by
    intro c hc
    have hmem : c ∈ front ++ g :: back := by
      simp only [mem_append, mem_cons] at hc ⊢
      tauto
    exact ⟨hmem, hunflagged c hmem⟩)
  exact ⟨_, g :: (front ++ back), r, r', hrest, perm_middle.symm, hr, hr', htrue, hfalse⟩

/-! ## The roots of a page -/

variable (time : accumulator.Rfc3339)

/-- The twins of one root, in the order of the page. -/
def candidates (items : List SnapshotItem) (root : String) : List Root :=
  items.filterMap (fun item =>
    if item.source_session_id = root then root_candidate time item else none)

def roots (items : List SnapshotItem) : SortedMap String Root :=
  items.foldl (observe_root time) .empty

/-- The item's file takes the start of its root. -/
def Heir (accounts : RequestAccounts) : Prop :=
  accounts.unhealthy_no_fallback = false ∧
    (accounts.reconciled = true → accounts.carried.blocked_no_account = false ∧
      accounts.carried.no_seed = false)

/-- Every account that an item is bound to is a login. -/
def BoundToLogins (items : List SnapshotItem) : Prop :=
  ∀ item ∈ items, ∀ accounts, item.claude_money.bind (fun fold => fold.accounts) = some accounts →
    ∀ key, accounts.bound = some key → key.org = none

variable {time} {items items' : List SnapshotItem}

theorem observe_root_get? (map : SortedMap String Root) (item : SnapshotItem) (root : String) :
    (observe_root time map item).get? root =
      match if item.source_session_id = root then root_candidate time item else none with
      | none => map.get? root
      | some candidate => observe_twin (map.get? root) candidate := by
  unfold observe_root observe_twin
  by_cases hroot : item.source_session_id = root
  · rw [if_pos hroot]
    subst hroot
    cases root_candidate time item with
    | none => rfl
    | some candidate =>
      refine (get?_insert_self _ _ _).trans ?_
      cases map.get? item.source_session_id <;> rfl
  · rw [if_neg hroot]
    cases root_candidate time item with
    | none => rfl
    | some candidate => exact get?_insert_ne map _ (Ne.symm hroot)

/-- Each root of the page is made of its own twins. -/
theorem roots_get? (root : String) :
    (roots time items).get? root = observe_twins (candidates time items root) := by
  have hfold : ∀ (items : List SnapshotItem) (map : SortedMap String Root),
      (items.foldl (observe_root time) map).get? root =
        (candidates time items root).foldl observe_twin (map.get? root) := by
    intro items
    induction items with
    | nil => exact fun _ => rfl
    | cons item items ih =>
      intro map
      rw [foldl_cons, ih, observe_root_get?]
      unfold candidates
      rw [filterMap_cons]
      cases (if item.source_session_id = root then root_candidate time item else none) <;> rfl
  rw [roots, hfold, get?_empty]
  rfl

theorem candidates_plain (hlogins : BoundToLogins items) (root : String) :
    ∀ c ∈ candidates time items root, Plain c := by
  intro c hc
  obtain ⟨item, hitem, hsome⟩ := mem_filterMap.mp hc
  have hcandidate : root_candidate time item = some c := by
    split at hsome
    · exact hsome
    · cases hsome
  obtain ⟨accounts, haccounts, rfl⟩ := Option.map_eq_some_iff.mp hcandidate
  have hgiven := (Option.filter_eq_some_iff.mp haccounts).1
  exact ⟨rfl, rfl, rfl, rfl, hlogins item hitem accounts hgiven⟩

theorem candidates_perm (h : items'.Perm items) (root : String) :
    (candidates time items' root).Perm (candidates time items root) := h.filterMap _

/-- Any order of the twins is the order of some page. -/
theorem exists_page {α β : Type} (f : α → Option β) {items : List α} {order : List β}
    (h : order.Perm (items.filterMap f)) : ∃ items' :
    List α, items'.Perm items ∧ items'.filterMap f = order := by
  induction order generalizing items with
  | nil => exact ⟨items, .refl _, h.symm.eq_nil⟩
  | cons b order ih =>
    obtain ⟨a, ha, hab⟩ := mem_filterMap.mp (h.mem_iff.mp mem_cons_self)
    obtain ⟨front, back, rfl⟩ := append_of_mem ha
    have hrest : order.Perm ((front ++ back).filterMap f) := by
      have hcons : (b :: order).Perm (b :: (front ++ back).filterMap f) := by
        refine h.trans ?_
        rw [filterMap_append, filterMap_cons_some hab, filterMap_append]
        exact perm_middle
      exact hcons.cons_inv
    obtain ⟨items', hperm, hitems'⟩ := ih hrest
    refine ⟨a :: items', (hperm.cons a).trans perm_middle.symm, ?_⟩
    rw [filterMap_cons_some hab, hitems']

theorem heir_iff {accounts : RequestAccounts} : Heir accounts ↔
    (accounts.unhealthy_no_fallback || (accounts.reconciled &&
      (accounts.carried.blocked_no_account || accounts.carried.no_seed))) = false := by
  unfold Heir
  cases accounts.unhealthy_no_fallback <;> cases accounts.reconciled <;> simp

variable {settled : Bool} {root : String} {fold : FileFold}

/-- What one file takes from its root: an account, and whether it is in conflict. -/
theorem inherit_root_congr {roots roots' : SortedMap String Root}
    (h : ∀ accounts, fold.accounts = some accounts → Heir accounts →
      (roots'.get? root).map Root.starting = (roots.get? root).map Root.starting ∧
        (accounts.subagent = false → accounts.conflict = false →
          (roots'.get? root).map Root.conflict = (roots.get? root).map Root.conflict)) :
    inherit_root roots' settled root fold = inherit_root roots settled root fold := by
  unfold inherit_root
  cases haccounts : fold.accounts with
  | none => rfl
  | some accounts =>
    dsimp only
    by_cases hheir : Heir accounts
    · obtain ⟨hstart, hconflict⟩ := h accounts haccounts hheir
      cases hsub : accounts.subagent with
      | true => cases hroot : roots.get? root <;> cases hroot' : roots'.get? root <;> simp_all
      | false =>
        cases hroot : roots.get? root <;> cases hroot' : roots'.get? root <;>
          cases hflagged : accounts.conflict <;> simp_all
    · have hfrozen := Bool.not_eq_false _ ▸ mt heir_iff.mpr hheir
      rw [if_pos hfrozen, if_pos hfrozen]

/-- Each item of a page as the roots of another order of the page leave it. -/
def inherited (roots : SortedMap String Root) (settled : Bool) (items : List SnapshotItem) :
    List SnapshotItem :=
  items.map (fun item =>
    { item with
      claude_money := item.claude_money.map
        (inherit_root roots settled (claude_snapshot_family_root_ref item)) })

theorem inherit_root_accounts_eq (settled : Bool) :
    inherit_root_accounts time items settled = inherited (roots time items) settled items := rfl

/-- No order of the page changes what any of its items becomes. -/
def OrderFree (time : accumulator.Rfc3339) (items : List SnapshotItem) (settled : Bool) : Prop :=
  ∀ items', items'.Perm items →
    inherit_root_accounts time items' settled = inherited (roots time items) settled items'

/-- Every root that some item takes has twins that no order changes. -/
def RootsSteady (time : accumulator.Rfc3339) (items : List SnapshotItem) : Prop :=
  ∀ item ∈ items, ∀ accounts, item.claude_money.bind (fun fold => fold.accounts) = some accounts →
    Heir accounts →
      StartSteady (candidates time items (claude_snapshot_family_root_ref item)) ∧
        (accounts.subagent = false → accounts.conflict = false →
          ConflictSteady (candidates time items (claude_snapshot_family_root_ref item)))

/-- What the twins of a root agree on in either order is the root's in either order. -/
theorem map_roots_perm {β : Type} (read : Root → β) (hlogins : BoundToLogins items)
    (hperm : items'.Perm items)
    (hsame : ∀ r r', observe_twins (candidates time items root) = some r →
      observe_twins (candidates time items' root) = some r' → read r' = read r) :
    ((roots time items').get? root).map read = ((roots time items).get? root).map read := by
  have hplain := @candidates_plain time _ hlogins root
  have htwins := @candidates_perm time _ _ hperm root
  rw [roots_get?, roots_get?]
  by_cases hempty : candidates time items root = []
  · rw [hempty] at htwins ⊢
    rw [htwins.eq_nil]
  · have hempty' : candidates time items' root ≠ [] := by
      intro heq
      rw [heq] at htwins
      exact hempty htwins.symm.eq_nil
    obtain ⟨r, hr, -⟩ := observe_twins_met hempty hplain
    obtain ⟨r', hr', -⟩ := observe_twins_met hempty' (fun c hc => hplain c (htwins.mem_iff.mp hc))
    rw [hr, hr']
    exact congrArg some (hsame r r' hr hr')

/-- An order of the twins is what the roots of some page are made of. -/
theorem exists_page_of_order {order : List Root} {r : Root}
    (hperm : order.Perm (candidates time items root)) (h : observe_twins order = some r) :
    ∃ items', items'.Perm items ∧ (roots time items').get? root = some r := by
  obtain ⟨items', hitems', rfl⟩ := exists_page _ hperm
  exact ⟨items', hitems', (roots_get? root).trans h⟩

/-- In an order-free page every order leaves an item as the roots of any other do. -/
theorem OrderFree.same (h : OrderFree time items settled) (hperm : items'.Perm items)
    {item : SnapshotItem} (hitem : item ∈ items) (hfold : item.claude_money = some fold) :
    inherit_root (roots time items') settled (claude_snapshot_family_root_ref item) fold =
      inherit_root (roots time items) settled (claude_snapshot_family_root_ref item) fold := by
  have hpage := (inherit_root_accounts_eq settled).symm.trans (h items' hperm)
  have hall := map_inj_left.mp hpage item (hperm.mem_iff.mpr hitem)
  have hmoney := congrArg SnapshotItem.claude_money hall
  simpa only [hfold, Option.map_some, Option.some.injEq] using hmoney

theorem heir_fallback {accounts : RequestAccounts} {map : SortedMap String Root} {r : Root}
    (haccounts : fold.accounts = some accounts)
    (hheir : Heir accounts) (hroot : map.get? root = some r) :
    ((inherit_root map settled root fold).accounts.map (fun accounts => accounts.fallback)) =
        some r.starting ∧
      (accounts.subagent = false →
        (inherit_root map settled root fold).accounts.map (fun accounts => accounts.conflict) =
          some (accounts.conflict || r.conflict)) := by
  unfold inherit_root
  rw [haccounts]
  dsimp only
  rw [heir_iff.mp hheir, hroot]
  cases accounts.subagent <;> simp

/-- A page is order-free exactly when every root that some item takes is steady. -/
theorem order_free_iff_roots_steady (hlogins : BoundToLogins items) (settled : Bool) :
    OrderFree time items settled ↔ RootsSteady time items := by
  constructor
  · intro hfree item hitem accounts haccounts hheir
    obtain ⟨fold, hfold, hgiven⟩ := Option.bind_eq_some_iff.mp haccounts
    have hplain := @candidates_plain time _ hlogins (claude_snapshot_family_root_ref item)
    -- Two orders of the twins are two pages, and the item is the same in both.
    have hsame : ∀ {one other : List Root} {r r' : Root},
        one.Perm (candidates time items (claude_snapshot_family_root_ref item)) →
        other.Perm (candidates time items (claude_snapshot_family_root_ref item)) →
        observe_twins one = some r → observe_twins other = some r' →
        r.starting = r'.starting ∧ (accounts.subagent = false →
          (accounts.conflict || r.conflict) = (accounts.conflict || r'.conflict)) := by
      intro one other r r' hone hother hr hr'
      obtain ⟨page, hpage, hroot⟩ := exists_page_of_order hone hr
      obtain ⟨page', hpage', hroot'⟩ := exists_page_of_order hother hr'
      have heq := (hfree.same hpage hitem hfold).trans (hfree.same hpage' hitem hfold).symm
      obtain ⟨hstart, hconflict⟩ := @heir_fallback settled _ _ _ _ _ hgiven hheir hroot
      obtain ⟨hstart', hconflict'⟩ := @heir_fallback settled _ _ _ _ _ hgiven hheir hroot'
      rw [heq] at hstart hconflict
      refine ⟨Option.some.inj (hstart.symm.trans hstart'), fun hsub => ?_⟩
      exact Option.some.inj ((hconflict hsub).symm.trans (hconflict' hsub))
    constructor
    · by_contra hunsteady
      obtain ⟨one, other, r, r', hone, hother, hr, hr', hne⟩ := start_unsteady hunsteady hplain
      exact hne (hsame hone hother hr hr').1
    · intro hsub hunflagged
      by_contra hunsteady
      obtain ⟨one, other, r, r', hone, hother, hr, hr', htrue, hfalse⟩ :=
        conflict_unsteady hunsteady hplain
      have hflag := (hsame hone hother hr hr').2 hsub
      rw [hunflagged, htrue, hfalse] at hflag
      cases hflag
  · intro hsteady items' hperm
    rw [inherit_root_accounts_eq]
    refine map_inj_left.mpr (fun item hitem => ?_)
    have hmem := hperm.mem_iff.mp hitem
    cases hfold : item.claude_money with
    | none => rfl
    | some fold =>
      have hinherit : inherit_root (roots time items') settled (claude_snapshot_family_root_ref item) fold =
          inherit_root (roots time items) settled (claude_snapshot_family_root_ref item) fold := by
        apply inherit_root_congr
        intro accounts haccounts hheir
        obtain ⟨hstart, hconflict⟩ := hsteady item hmem accounts
          (Option.bind_eq_some_iff.mpr ⟨fold, hfold, haccounts⟩) hheir
        have hplain := @candidates_plain time _ hlogins (claude_snapshot_family_root_ref item)
        have htwins := @candidates_perm time _ _ hperm (claude_snapshot_family_root_ref item)
        exact ⟨map_roots_perm Root.starting hlogins hperm
            (fun _ _ => start_steady hstart hplain htwins),
          fun hsub hunflagged => map_roots_perm Root.conflict hlogins hperm
            (fun _ _ => conflict_steady (hconflict hsub hunflagged) hplain htwins)⟩
      simp only [Option.map_some, hinherit]

/-- A clock that reads no text. -/
def no_clock : accumulator.Rfc3339 := .of_table []

def login (hash : String) : AuthorityKey := ⟨some hash, none, "telemetry_login", none⟩

def workspace (hash : String) : AuthorityKey := ⟨none, some hash, "telemetry", none⟩

/-- One twin of a session, with its starting account and the account it is bound to. -/
def twin (starting bound : AccountPartition) : SnapshotItem where
  source_session_id := "session"
  claude_money := some { accounts := some { starting := starting, fallback := starting, bound := bound } }

/-- What each twin takes from the root: the fallback account and the conflict flag. -/
def taken (items : List SnapshotItem) : List (AccountPartition × Bool) :=
  items.filterMap (fun item => (item.claude_money.bind (fun fold => fold.accounts)).map
    (fun accounts => (accounts.fallback, accounts.conflict)))

def first_login : SnapshotItem := twin (some (login "first")) none

def second_login : SnapshotItem := twin (some (login "second")) none

def organisation : SnapshotItem := twin (some (workspace "organisation")) none

/-- Its start is unknown, and it is bound to an account of its own. -/
def bound_elsewhere : SnapshotItem := twin none (some (login "third"))

/-- Three starts at one time, and then two of them with a twin whose start is unknown. -/
theorem the_page_order_reaches_the_root :
    taken (inherit_root_accounts no_clock [first_login, second_login, organisation] true) =
        List.replicate 3 (some (workspace "organisation"), true) ∧
      taken (inherit_root_accounts no_clock [organisation, first_login, second_login] true) =
        List.replicate 3 (some (workspace "organisation"), false) ∧
      taken (inherit_root_accounts no_clock [first_login, second_login, bound_elsewhere] true) =
        List.replicate 3 (some (login "third"), true) ∧
      taken (inherit_root_accounts no_clock [bound_elsewhere, first_login, second_login] true) =
        List.replicate 3 (none, true) := by
  decide +kernel

theorem two_twins_bound_to_logins : BoundToLogins [first_login, organisation] := by
  intro item hitem accounts haccounts key hkey
  simp only [mem_cons, not_mem_nil, or_false] at hitem
  rcases hitem with rfl | rfl <;> cases haccounts <;> cases hkey

/-- A login and an organisation at one time do not clash. -/
theorem order_free_iff_roots_steady_two :
    BoundToLogins [first_login, organisation] ∧
      (OrderFree no_clock [first_login, organisation] true ↔
        RootsSteady no_clock [first_login, organisation]) :=
  ⟨two_twins_bound_to_logins, order_free_iff_roots_steady two_twins_bound_to_logins true⟩

end ottto_service.claude_request_money
