-- The newest requests of an item, kept for its current account
-- (snapshots/claude_request_identity.rs, `LatestRequests`).
import Ottto.EntityBody

namespace ottto_service.snapshots.claude_request_identity

open usage accumulator List
open claude_request_money (AuthorityKey AccountPartition)

/-! ## The newest requests -/

def MAX_LATEST_TIES : Nat := 4

/-- A request's hour, its row there and the key it carried. -/
abbrev Tie : Type := String × RowKey × Option AuthorityKey

structure LatestRequests where
  at_instant : Option Int := none
  ties : List Tie := []
  ties_overflowed : Bool := false
  /-- A request's time did not parse. -/
  unordered : Bool := false

/-- A retained key with the fields of a newer one. -/
def recycle (known key : Option AuthorityKey) : Option AuthorityKey :=
  match known, key with
  -- The account source of the retained key stays.
  | some known, some key => some { known with login := key.login, org := key.org, basis := key.basis }
  | _, key => key

namespace LatestRequests

def push (self : LatestRequests) (tie : Tie) : LatestRequests :=
  { self with ties := self.ties ++ [tie] }

/-- A request newer than all before it. -/
def replace (self : LatestRequests) (instant : Int) (tie : Tie) : LatestRequests :=
  let self := { self with at_instant := some instant, ties_overflowed := false }
  match self.ties.find? (fun known => decide (known = tie)) with
  | some known => { self with ties := [known] }
  | none =>
    match self.ties with
    | [] => self.push tie
    | (_, _, known) :: _ => { self with ties := [(tie.1, tie.2.1, recycle known tie.2.2)] }

/-- A request as new as those that are kept. -/
def gather (self : LatestRequests) (tie : Tie) : LatestRequests :=
  if self.ties.any (fun known => decide (known = tie)) then self
  else if self.ties.length = MAX_LATEST_TIES then { self with ties_overflowed := true }
  else self.push tie

def note (self : LatestRequests) (instant : Int) (bucket_start : String) (row_key : RowKey)
    (key : Option AuthorityKey) : LatestRequests :=
  match self.at_instant with
  | none => self.replace instant (bucket_start, row_key, key)
  | some newest =>
    if instant < newest then self
    else if newest < instant then self.replace instant (bucket_start, row_key, key)
    else self.gather (bucket_start, row_key, key)

end LatestRequests

/-! ## A run of notes -/

/-- One call of `note`. -/
structure Note where
  instant : Int
  tie : Tie

def LatestRequests.noted (self : LatestRequests) (n : Note) : LatestRequests :=
  self.note n.instant n.tie.1 n.tie.2.1 n.tie.2.2

def Newest (notes : List Note) (n : Note) : Prop := n ∈ notes ∧ ∀ m ∈ notes, m.instant ≤ n.instant

/-- The distinct requests at the newest time. -/
def newest_ties (notes : List Note) : Finset Tie :=
  ((notes.filter (fun n => decide (∀ m ∈ notes, m.instant ≤ n.instant))).map Note.tie).toFinset

/-- Every key noted before the newest time has the account source of the keys noted there. -/
def OneSource (notes : List Note) : Prop :=
  ∀ n key, Newest notes n → n.tie.2.2 = some key →
    ∀ m ∈ notes, ∀ old, m.tie.2.2 = some old → m.instant < n.instant →
      old.account_source = key.account_source

/-- The time that is kept is the newest one. -/
structure Stands (notes : List Note) (instant : Option Int) : Prop where
  empty : instant = none → notes = []
  newest : ∀ t, instant = some t → (∃ n ∈ notes, n.instant = t) ∧ ∀ n ∈ notes, n.instant ≤ t

/-- Each kept key has the account source of a noted one. -/
def Sourced (notes : List Note) (ties : List Tie) : Prop :=
  ∀ tie ∈ ties, ∀ known, tie.2.2 = some known →
    ∃ n ∈ notes, ∃ key, n.tie.2.2 = some key ∧ key.account_source = known.account_source

/-- The ties that are kept, of the requests seen at their time. -/
structure Gathered (seen ties : List Tie) (overflowed : Bool) : Prop where
  nodup : ties.Nodup
  sub : ties ⊆ seen
  few : ties.length ≤ MAX_LATEST_TIES
  all : overflowed = false → seen ⊆ ties
  many : overflowed = true → ties.length = MAX_LATEST_TIES ∧ ∃ tie ∈ seen, tie ∉ ties

variable {notes : List Note} {n : Note} {self : LatestRequests} {seen ties : List Tie} {tie : Tie}

theorem Stands.snoc_le {t : Int} (h : Stands notes (some t)) (hle : n.instant ≤ t) :
    Stands (notes ++ [n]) (some t) := by
  obtain ⟨⟨m, hm, hmt⟩, hall⟩ := h.newest t rfl
  refine ⟨by simp, ?_⟩
  rintro t' ⟨⟩
  refine ⟨⟨m, mem_append_left _ hm, hmt⟩, ?_⟩
  intro m' hm'
  rcases mem_append.mp hm' with hm' | hm'
  · exact hall m' hm'
  · rw [mem_singleton.mp hm']
    exact hle

theorem stands_snoc_new (hnew : ∀ m ∈ notes, m.instant ≤ n.instant) :
    Stands (notes ++ [n]) (some n.instant) := by
  refine ⟨by simp, ?_⟩
  rintro t ⟨⟩
  refine ⟨⟨n, by simp, rfl⟩, ?_⟩
  intro m hm
  rcases mem_append.mp hm with hm | hm
  · exact hnew m hm
  · rw [mem_singleton.mp hm]

theorem Sourced.mono (h : Sourced notes ties) : Sourced (notes ++ [n]) ties := by
  intro tie htie known hknown
  obtain ⟨m, hm, hkey⟩ := h tie htie known hknown
  exact ⟨m, mem_append_left _ hm, hkey⟩

theorem sourced_snoc_tie : Sourced (notes ++ [n]) [n.tie] := by
  intro tie htie known hknown
  rw [mem_singleton.mp htie] at hknown
  exact ⟨n, by simp, known, hknown, rfl⟩

theorem Sourced.append {more : List Tie} (h : Sourced notes ties) (hmore : Sourced notes more) :
    Sourced notes (ties ++ more) := by
  intro tie htie
  rcases mem_append.mp htie with htie | htie
  · exact h tie htie
  · exact hmore tie htie

theorem recycle_eq {known key : Option AuthorityKey}
    (h : ∀ old new, known = some old → key = some new → old.account_source = new.account_source) :
    recycle known key = key := by
  cases known with
  | none => rfl
  | some old =>
    cases key with
    | none => rfl
    | some new => simp [recycle, h old new rfl rfl]

variable {instant : Int}

/-- A newer request stands alone, where the first kept key has its account source. -/
theorem replace_eq (h : ∀ known ∈ self.ties, ∀ old new, known.2.2 = some old →
      tie.2.2 = some new → old.account_source = new.account_source) :
    self.replace instant tie =
      { self with at_instant := some instant, ties := [tie], ties_overflowed := false } := by
  unfold LatestRequests.replace
  dsimp only
  cases hfind : self.ties.find? (fun known => decide (known = tie)) with
  | some known =>
    have heq : known = tie := by simpa using List.find?_some hfind
    rw [heq]
  | none =>
    cases hties : self.ties with
    | nil => simp [LatestRequests.push]
    | cons first rest =>
      have hfirst := recycle_eq (h first (by simp [hties]))
      simp [hfirst]

theorem replace_sourced (h : Sourced notes self.ties) :
    Sourced (notes ++ [n]) (self.replace instant n.tie).ties := by
  unfold LatestRequests.replace
  dsimp only
  cases hfind : self.ties.find? (fun known => decide (known = n.tie)) with
  | some known =>
    have heq : known = n.tie := by simpa using List.find?_some hfind
    rw [heq]
    exact sourced_snoc_tie
  | none =>
    cases hties : self.ties with
    | nil =>
      simp only [LatestRequests.push, nil_append]
      exact sourced_snoc_tie
    | cons first rest =>
      intro tie htie known hknown
      rw [mem_singleton.mp htie] at hknown
      cases hold : first.2.2 with
      | none =>
        simp only [hold, recycle] at hknown
        exact ⟨n, by simp, known, hknown, rfl⟩
      | some old =>
        cases hkey : n.tie.2.2 with
        | none => simp [hold, hkey, recycle] at hknown
        | some key =>
          simp only [hold, hkey, recycle, Option.some.injEq] at hknown
          obtain ⟨m, hm, given, hgiven, hsource⟩ := h first (by simp [hties]) old hold
          refine ⟨m, mem_append_left _ hm, given, hgiven, ?_⟩
          rw [hsource, ← hknown]

theorem gather_sourced (h : Sourced notes self.ties) :
    Sourced (notes ++ [n]) (self.gather n.tie).ties := by
  unfold LatestRequests.gather
  split_ifs
  · exact h.mono
  · exact h.mono
  · exact h.mono.append sourced_snoc_tie

@[simp] theorem replace_at : (self.replace instant tie).at_instant = some instant := by
  unfold LatestRequests.replace LatestRequests.push
  dsimp only
  split
  · rfl
  · split <;> rfl

@[simp] theorem gather_at : (self.gather tie).at_instant = self.at_instant := by
  unfold LatestRequests.gather LatestRequests.push
  split_ifs <;> rfl

/-- Any note keeps the time and the sources. -/
theorem noted_stands (hstands : Stands notes self.at_instant) (hsourced : Sourced notes self.ties) :
    Stands (notes ++ [n]) (self.noted n).at_instant ∧ Sourced (notes ++ [n]) (self.noted n).ties := by
  unfold LatestRequests.noted LatestRequests.note
  cases hat : self.at_instant with
  | none =>
    rw [hat] at hstands
    have hempty := hstands.empty rfl
    refine ⟨?_, replace_sourced hsourced⟩
    rw [replace_at]
    exact stands_snoc_new (by simp [hempty])
  | some newest =>
    rw [hat] at hstands
    dsimp only
    split_ifs with hlt hgt
    · rw [hat]
      exact ⟨hstands.snoc_le hlt.le, hsourced.mono⟩
    · refine ⟨?_, replace_sourced hsourced⟩
      rw [replace_at]
      exact stands_snoc_new (fun m hm => ((hstands.newest newest rfl).2 m hm).trans hgt.le)
    · refine ⟨?_, gather_sourced hsourced⟩
      rw [gather_at, hat]
      exact hstands.snoc_le (not_lt.mp hgt)

theorem run_stands (more : List Note) (hstands : Stands notes self.at_instant)
    (hsourced : Sourced notes self.ties) :
    Stands (notes ++ more) (more.foldl LatestRequests.noted self).at_instant ∧
      Sourced (notes ++ more) (more.foldl LatestRequests.noted self).ties := by
  induction more generalizing notes self with
  | nil =>
    rw [append_nil]
    exact ⟨hstands, hsourced⟩
  | cons n more ih =>
    obtain ⟨hnext, hsources⟩ := noted_stands (n := n) hstands hsourced
    simpa using ih hnext hsources

/-! ## At the newest time -/

theorem gathered_singleton (tie : Tie) : Gathered [tie] [tie] false := by
  refine ⟨nodup_singleton tie, List.Subset.refl _, by simp [MAX_LATEST_TIES], ?_, by simp⟩
  exact fun _ => List.Subset.refl _

theorem Gathered.gather (h : Gathered seen self.ties self.ties_overflowed) :
    Gathered (seen ++ [tie]) (self.gather tie).ties (self.gather tie).ties_overflowed := by
  have hsub : self.ties ⊆ seen ++ [tie] := List.Subset.trans h.sub (subset_append_left _ _)
  unfold LatestRequests.gather
  split_ifs with hknown hfull
  · have hmem : tie ∈ self.ties := by simpa using hknown
    refine ⟨h.nodup, hsub, h.few, ?_, ?_⟩
    · intro hover
      exact append_subset.mpr ⟨h.all hover, by simpa using hmem⟩
    · intro hover
      obtain ⟨hlength, missed, hmissed, hout⟩ := h.many hover
      exact ⟨hlength, missed, mem_append_left _ hmissed, hout⟩
  · refine ⟨h.nodup, hsub, h.few, by simp, fun _ => ⟨hfull, tie, by simp, ?_⟩⟩
    simpa using hknown
  · have hout : tie ∉ self.ties := by simpa using hknown
    have hover : self.ties_overflowed = false := by
      rw [Bool.eq_false_iff]
      exact fun hover => hfull (h.many hover).1
    refine ⟨?_, ?_, ?_, ?_, ?_⟩
    · refine nodup_append.mpr ⟨h.nodup, nodup_singleton _, ?_⟩
      intro a ha b hb hab
      rw [mem_singleton.mp hb] at hab
      exact hout (hab ▸ ha)
    · exact append_subset.mpr ⟨hsub, subset_append_right _ _⟩
    · have hfew := h.few
      simp only [LatestRequests.push, length_append, length_singleton]
      omega
    · intro _
      exact append_subset.mpr
        ⟨List.Subset.trans (h.all hover) (subset_append_left _ _), subset_append_right _ _⟩
    · simp [LatestRequests.push, hover]

/-- Older requests change nothing. -/
theorem run_gathered {newest : Int} (more : List Note) (hat : self.at_instant = some newest)
    (hle : ∀ n ∈ more, n.instant ≤ newest) (h : Gathered seen self.ties self.ties_overflowed) :
    (more.foldl LatestRequests.noted self).at_instant = some newest ∧
      Gathered (seen ++ (more.filter (fun n => decide (n.instant = newest))).map Note.tie)
        (more.foldl LatestRequests.noted self).ties
        (more.foldl LatestRequests.noted self).ties_overflowed := by
  induction more generalizing seen self with
  | nil => exact ⟨hat, by simpa using h⟩
  | cons n more ih =>
    have hrest : ∀ n ∈ more, n.instant ≤ newest := fun n hn => hle n (mem_cons_of_mem _ hn)
    by_cases hold : n.instant = newest
    · have hstep : self.noted n = self.gather n.tie := by
        unfold LatestRequests.noted LatestRequests.note
        simp [hat, hold]
      have hnext := @ih (self.gather n.tie) _ (by rw [gather_at, hat]) hrest h.gather
      rw [foldl_cons, hstep, filter_cons_of_pos (by simpa using hold)]
      simpa using hnext
    · have hlt : n.instant < newest := lt_of_le_of_ne (hle n mem_cons_self) hold
      have hstep : self.noted n = self := by
        unfold LatestRequests.noted LatestRequests.note
        simp [hat, hlt]
      rw [foldl_cons, hstep, filter_cons_of_neg (by simpa using hold)]
      exact ih hat hrest h

theorem Gathered.overflowed_iff {overflowed : Bool} (h : Gathered seen ties overflowed) :
    overflowed = true ↔ MAX_LATEST_TIES < seen.toFinset.card := by
  have hcard := toFinset_card_of_nodup h.nodup
  constructor
  · intro hover
    obtain ⟨hlength, missed, hmissed, hout⟩ := h.many hover
    have hlt : ties.toFinset.card < seen.toFinset.card := by
      apply Finset.card_lt_card
      refine ⟨fun x hx => ?_, fun hsub => ?_⟩
      · exact mem_toFinset.mpr (h.sub (mem_toFinset.mp hx))
      · exact hout (mem_toFinset.mp (hsub (mem_toFinset.mpr hmissed)))
    omega
  · intro hmany
    by_contra hnot
    have hall := h.all (Bool.eq_false_iff.mpr hnot)
    have hle : seen.toFinset.card ≤ ties.toFinset.card := by
      apply Finset.card_le_card
      intro x hx
      exact mem_toFinset.mpr (hall (mem_toFinset.mp hx))
    have hfew := h.few
    omega

theorem Gathered.ties_eq {overflowed : Bool} (h : Gathered seen ties overflowed)
    (hover : overflowed = false) : ties.toFinset = seen.toFinset := by
  ext x
  simp only [mem_toFinset]
  exact ⟨fun hx => h.sub hx, fun hx => h.all hover hx⟩

/-! ## Every order of the notes -/

theorem exists_newest (h : notes ≠ []) : ∃ n, Newest notes n := by
  induction notes with
  | nil => exact absurd rfl h
  | cons n notes ih =>
    by_cases hrest : notes = []
    · exact ⟨n, mem_cons_self, by simp [hrest]⟩
    · obtain ⟨m, hm, hall⟩ := ih hrest
      rcases le_total m.instant n.instant with hle | hle
      · refine ⟨n, mem_cons_self, ?_⟩
        intro k hk
        rcases mem_cons.mp hk with rfl | hk
        · exact le_rfl
        · exact (hall k hk).trans hle
      · refine ⟨m, mem_cons_of_mem _ hm, ?_⟩
        intro k hk
        rcases mem_cons.mp hk with rfl | hk
        · exact hle
        · exact hall k hk

/-- The first note of the newest time. -/
theorem exists_first_newest (h : notes ≠ []) :
    ∃ before n after, notes = before ++ n :: after ∧ Newest notes n ∧
      ∀ m ∈ before, m.instant < n.instant := by
  obtain ⟨top, htop⟩ := exists_newest h
  have hfound : (notes.find? (fun n => decide (n.instant = top.instant))).isSome := by
    rw [List.find?_isSome]
    exact ⟨top, htop.1, decide_eq_true rfl⟩
  obtain ⟨n, hn⟩ := Option.isSome_iff_exists.mp hfound
  obtain ⟨hinstant, before, after, heq, hbefore⟩ := List.find?_eq_some_iff_append.mp hn
  have hsame : n.instant = top.instant := of_decide_eq_true hinstant
  refine ⟨before, n, after, heq, ⟨?_, ?_⟩, ?_⟩
  · simp [heq]
  · rw [hsame]
    exact htop.2
  · intro m hm
    have hne : m.instant ≠ top.instant := by simpa using hbefore m hm
    have hmem : m ∈ notes := by simp [heq, hm]
    rw [hsame]
    exact lt_of_le_of_ne (htop.2 m hmem) hne

theorem mem_newest_ties {tie : Tie} :
    tie ∈ newest_ties notes ↔ ∃ n, Newest notes n ∧ n.tie = tie := by
  simp [newest_ties, Newest, and_assoc]

/-- What the notes leave, in any order: the newest time, and its distinct requests or only that they
are too many. -/
structure Kept (notes : List Note) (latest : LatestRequests) : Prop where
  stands : Stands notes latest.at_instant
  overflowed : latest.ties_overflowed = true ↔ MAX_LATEST_TIES < (newest_ties notes).card
  ties : latest.ties_overflowed = false → latest.ties.Nodup ∧ latest.ties.toFinset = newest_ties notes

theorem kept_of_run (hsource : OneSource notes) (start : Bool) :
    Kept notes (notes.foldl LatestRequests.noted { unordered := start }) := by
  by_cases hempty : notes = []
  · subst hempty
    exact ⟨⟨fun _ => rfl, by simp⟩, by simp [newest_ties, MAX_LATEST_TIES], by simp [newest_ties]⟩
  · obtain ⟨before, n, after, heq, hnewest, hbefore⟩ := exists_first_newest hempty
    obtain ⟨hstands, hsourced⟩ := @run_stands [] { unordered := start } before
      ⟨fun _ => rfl, by simp⟩ (by simp [Sourced])
    rw [nil_append] at hstands hsourced
    generalize hmid : before.foldl LatestRequests.noted { unordered := start } = mid at hstands hsourced
    -- The first newest request replaces whatever is kept.
    have hstep : mid.noted n = mid.replace n.instant n.tie := by
      unfold LatestRequests.noted LatestRequests.note
      cases hat : mid.at_instant with
      | none => rfl
      | some newest =>
        obtain ⟨⟨m, hm, hmt⟩, -⟩ := hstands.newest newest hat
        have hlt := hbefore m hm
        dsimp only
        rw [if_neg (by omega), if_pos (by omega)]
    have halone := @replace_eq mid n.tie n.instant (by
      intro known hknown old new hold hnew
      obtain ⟨m, hm, key, hkey, hsame⟩ := hsourced known hknown old hold
      rw [← hsame]
      exact hsource n new hnewest hnew m (by simp [heq, hm]) key hkey (hbefore m hm))
    obtain ⟨hat, hgathered⟩ := @run_gathered (mid.replace n.instant n.tie) [n.tie] _ after replace_at (fun m hm => hnewest.2 m (by simp [heq, hm])) (by
        rw [halone]
        exact gathered_singleton n.tie)
    have hseen : ([n.tie] ++ (after.filter (fun m => decide (m.instant = n.instant))).map
        Note.tie).toFinset = newest_ties notes := by
      ext tie
      rw [mem_newest_ties]
      simp only [singleton_append, mem_toFinset, mem_cons, mem_map,
        mem_filter, decide_eq_true_eq]
      constructor
      · rintro (rfl | ⟨m, ⟨hm, hinstant⟩, rfl⟩)
        · exact ⟨n, hnewest, rfl⟩
        · refine ⟨m, ⟨by simp [heq, hm], ?_⟩, rfl⟩
          rw [hinstant]
          exact hnewest.2
      · rintro ⟨m, ⟨hm, htop⟩, rfl⟩
        have hinstant : m.instant = n.instant :=
          le_antisymm (hnewest.2 m hm) (htop n hnewest.1)
        rw [heq] at hm
        rcases mem_append.mp hm with hm | hm
        · exact absurd hinstant (hbefore m hm).ne
        · rcases mem_cons.mp hm with rfl | hm
          · exact .inl rfl
          · exact .inr ⟨m, ⟨hm, hinstant⟩, rfl⟩
    have hrun : notes.foldl LatestRequests.noted { unordered := start } =
        after.foldl LatestRequests.noted (mid.replace n.instant n.tie) := by
      rw [heq, foldl_append, foldl_cons, hmid, hstep]
    rw [hrun]
    refine ⟨?_, ?_, ?_⟩
    · rw [hat]
      refine ⟨by simp, ?_⟩
      rintro t ⟨⟩
      exact ⟨⟨n, hnewest.1, rfl⟩, hnewest.2⟩
    · rw [← hseen]
      exact hgathered.overflowed_iff
    · intro hover
      rw [← hseen]
      exact ⟨hgathered.nodup, hgathered.ties_eq hover⟩

variable {notes' : List Note}

theorem newest_perm (h : notes'.Perm notes) (n : Note) : Newest notes' n ↔ Newest notes n := by
  unfold Newest
  simp only [h.mem_iff]

theorem newest_ties_perm (h : notes'.Perm notes) : newest_ties notes' = newest_ties notes := by
  ext tie
  simp only [mem_newest_ties, newest_perm h]

theorem OneSource.perm (hsource : OneSource notes) (h : notes'.Perm notes) : OneSource notes' := by
  intro n key hn hkey m hm
  exact hsource n key ((newest_perm h n).mp hn) hkey m (h.mem_iff.mp hm)

theorem Kept.of_perm (hkept : Kept notes' self) (h : notes'.Perm notes) : Kept notes self := by
  obtain ⟨⟨hempty, hnewest⟩, hoverflowed, hties⟩ := hkept
  rw [newest_ties_perm h] at hoverflowed hties
  refine ⟨⟨?_, ?_⟩, hoverflowed, hties⟩
  · intro hnone
    exact (hempty hnone ▸ h).nil_eq.symm
  · intro t ht
    obtain ⟨⟨n, hn, hnt⟩, hall⟩ := hnewest t ht
    exact ⟨⟨n, h.mem_iff.mp hn, hnt⟩, fun m hm => hall m (h.mem_iff.mpr hm)⟩

/-- The newest time of some notes. -/
theorem Stands.unique {a b : Option Int} (ha : Stands notes a) (hb : Stands notes b) : a = b := by
  cases a with
  | none =>
    have hempty := ha.empty rfl
    cases b with
    | none => rfl
    | some t =>
      obtain ⟨⟨n, hn, -⟩, -⟩ := hb.newest t rfl
      rw [hempty] at hn
      cases hn
  | some s =>
    obtain ⟨⟨n, hn, hns⟩, hsall⟩ := ha.newest s rfl
    cases b with
    | none =>
      rw [hb.empty rfl] at hn
      cases hn
    | some t =>
      obtain ⟨⟨m, hm, hmt⟩, htall⟩ := hb.newest t rfl
      have hst := htall n hn
      have hts := hsall m hm
      rw [hns] at hst
      rw [hmt] at hts
      rw [le_antisymm hst hts]

end ottto_service.snapshots.claude_request_identity
