-- The header inventory is an ordered census of its roster, whatever the reads give
-- (snapshots/codex_file_join.rs).
import Ottto.HeaderInventory

namespace ottto_service.header_inventory

open identity codex_usage_occurrence List Option SortedVec String

/-! ## Paths -/

variable {path : String} {name l s : List Char}

/-- What is put after a path without a separator goes to its last part. -/
theorem splitOn_append (h : '/' ∉ s) (l : List Char) :
    ∃ parts part, l.splitOn '/' = parts ++ [part] ∧ (l ++ s).splitOn '/' = parts ++ [part ++ s] := by
  induction l with
  | nil => exact ⟨[], [], by simp [splitOn_eq_singleton h]⟩
  | cons c l ih =>
    obtain ⟨parts, part, hl, hls⟩ := ih
    rw [cons_append, splitOn_cons_eq_if_modifyHead, splitOn_cons_eq_if_modifyHead,
      hl, hls]
    by_cases hc : (c == '/') = true
    · rw [if_pos hc, if_pos hc]
      exact ⟨[] :: parts, part, rfl, rfl⟩
    · rw [if_neg hc, if_neg hc]
      cases parts with
      | nil => exact ⟨[], c :: part, rfl, rfl⟩
      | cons first parts => exact ⟨(c :: first) :: parts, part, rfl, rfl⟩

theorem file_name_append (h : '/' ∉ s) (hs : 3 ≤ s.length) (l : List Char) :
    ∃ part, file_name (String.ofList (l ++ s)) = some (part ++ s) := by
  obtain ⟨parts, part, -, hparts⟩ := splitOn_append h l
  refine ⟨part, ?_⟩
  have hlong : 3 ≤ (part ++ s).length := by
    rw [List.length_append]
    omega
  have hne : part ++ s ≠ [] ∧ part ++ s ≠ ['.'] ∧ part ++ s ≠ ['.', '.'] := by
    refine ⟨?_, ?_, ?_⟩ <;> (intro heq; rw [heq] at hlong; simp at hlong)
  unfold file_name
  rw [toList_ofList, hparts, filter_append]
  simp [hne.1, hne.2.1, hne.2.2]

theorem archive_extension (h : (file_name path).isSome = true) :
    extension (with_extension path "jsonl.zst") = some "zst".toList := by
  obtain ⟨name, hname⟩ := isSome_iff_exists.mp h
  unfold with_extension
  rw [hname]
  obtain ⟨part, hpart⟩ := file_name_append (s := ".jsonl.zst".toList) (by decide) (by decide)
    ((from_name path.toList.reverse).reverse.take ((from_name path.toList.reverse).reverse.length -
      (name.length - (file_stem name).length)))
  refine (congrArg (fun name => name.bind name_extension) hpart).trans ?_
  rw [bind_some]
  unfold name_extension
  rw [reverse_append]
  rfl

/-- A name with an extension is its stem, a dot and the extension. -/
theorem stem_append_extension {ext : List Char} (h : name_extension name = some ext) :
    name = file_stem name ++ '.' :: ext := by
  have hsplit : name.reverse.takeWhile (fun c => decide (c ≠ '.')) ++
      name.reverse.dropWhile (fun c => decide (c ≠ '.')) = name.reverse := takeWhile_append_dropWhile
  unfold name_extension at h
  unfold file_stem
  cases hdrop : name.reverse.dropWhile (fun c => decide (c ≠ '.')) with
  | nil =>
    rw [hdrop] at h
    cases h
  | cons dot before =>
    cases before with
    | nil =>
      rw [hdrop] at h
      cases h
    | cons c before =>
      rw [hdrop] at h hsplit
      have hdot : dot = '.' := by
        have hhead := head?_dropWhile_not (fun c => decide (c ≠ '.')) name.reverse
        rw [hdrop] at hhead
        simpa using hhead
      have hext := Option.some.inj h
      rw [← reverse_reverse name, ← hsplit, reverse_append, hext, hdot]
      simp

/-- The path stands as a listing writes it: it ends in its name. -/
def ends_in_name (path : String) : Bool :=
  (file_name path).all (fun name => name.isSuffixOf path.toList)

theorem archive_of_plaintext (h : ends_in_name path = true)
    (hextension : extension path = some "jsonl".toList) :
    with_extension path "jsonl.zst" = path ++ ".zst" := by
  obtain ⟨name, hname, hext⟩ := bind_eq_some_iff.mp hextension
  have hsuffix : name <:+ path.toList := by
    unfold ends_in_name at h
    rw [hname, all_some, isSuffixOf_iff_suffix] at h
    exact h
  obtain ⟨before, hpath⟩ := hsuffix
  have hstem := stem_append_extension hext
  have hplain : path.toList = (before ++ file_stem name) ++ ".jsonl".toList := by
    rw [← hpath, List.append_assoc]
    exact congrArg (before ++ ·) hstem
  have hfrom : from_name path.toList.reverse = path.toList.reverse := by
    rw [hplain, reverse_append]
    rfl
  have hlength : name.length - (file_stem name).length = ".jsonl".toList.length := by
    have hlen := congrArg List.length hstem
    rw [List.length_append] at hlen
    simp only [length_cons] at hlen
    have hext : "jsonl".toList.length = 5 := rfl
    have hdot : ".jsonl".toList.length = 6 := rfl
    omega
  unfold with_extension
  rw [hname]
  simp only [hfrom, reverse_reverse, hlength]
  rw [hplain, List.length_append, Nat.add_sub_cancel, take_left']
  · apply toList_injective
    have hne : ¬ "jsonl.zst" = "" := by decide
    rw [toList_ofList, toList_append, hplain, if_neg hne]
    simp
  · rfl

theorem lt_append_cons (l : List Char) (c : Char) (s : List Char) : l < l ++ c :: s := by
  induction l with
  | nil => exact List.Lex.nil
  | cons a l ih => exact List.Lex.cons ih

theorem lt_archive (h : ends_in_name path = true)
    (hextension : extension path = some "jsonl".toList) :
    path < with_extension path "jsonl.zst" := by
  rw [archive_of_plaintext h hextension, lt_iff_toList_lt, toList_append]
  exact lt_append_cons _ _ _

/-! ## One step -/

def Ascending (paths : List String) : Prop := paths.Pairwise (fun a b => a < b)

namespace HeaderInventory

variable {self next : HeaderInventory} {pending : List String} {read : HeaderRead}

def HasHeader (self : HeaderInventory) (path : String) : Prop :=
  ∃ header ∈ self.headers, header.candidate.path = path

/-- The file name of a path names a held owner. -/
def NamesHeld (self : HeaderInventory) (path : String) : Prop :=
  ∃ owner ∈ codex_session_id_candidates_from_path path, owner ∈ self.held_owners

def Accounted (self : HeaderInventory) (path : String) : Prop :=
  self.HasHeader path ∨ self.NamesHeld path

/-- What a step leaves of the inventory and the queue behind the path that it takes. -/
inductive Stepped (self : HeaderInventory) (path : String) (pending : List String)
    (read : HeaderRead) : HeaderInventory → Prop
  | held (names : self.NamesHeld path) : Stepped self path pending read { self with pending }
  | header (header : HeaderWitness) (at_path : header.candidate.path = path) :
      Stepped self path pending read { self with pending, headers := self.headers ++ [header] }
  | unfunded : Stepped self path pending read
      { self with
        pending
        complete := self.complete &&
          (codex_archive_path path && !(codex_session_id_candidates_from_path path).isEmpty)
        held_owners := self.held_owners ∪ (codex_session_id_candidates_from_path path).toFinset }
  | swapped (archive : String) (queue : List String) (taken : self.take path read = .swapped archive)
      (ascending : Ascending queue)
      (queued : archive ∈ pending ∧ queue = pending ∨ queue.Perm (archive :: pending)) :
      Stepped self path pending read { self with pending := queue }
  | refused (refused : SortedMap String (Option String)) :
      Stepped self path pending read { self with pending, complete := false, refused }

variable {archive : String}

theorem swapped_of_take (h : self.take path read = .swapped archive) :
    extension path = some "jsonl".toList ∧ archive = with_extension path "jsonl.zst" := by
  unfold take at h
  split at h
  · cases h
  · split at h
    · cases h
    · split at h
      · cases h
      · split at h
        · cases h
        · rename_i error _ _
          split at h
          · rename_i swapped hswapped
            obtain ⟨hfound, hswapped⟩ := ite_none_right_eq_some.mp hswapped
            cases h
            exact ⟨hfound.2.1, (Option.some.inj hswapped).symm⟩
          · cases h

theorem header_of_take {header : HeaderWitness} (h : self.take path read = .header header) :
    header.candidate.path = path := by
  unfold take at h
  split at h
  · cases h
  · split at h
    · cases h
    · split at h
      · cases h
        rfl
      · split at h
        · cases h
        · split at h <;> cases h

theorem held_of_take (h : self.take path read = .held) : self.NamesHeld path := by
  unfold take at h
  split at h
  · rename_i hany
    obtain ⟨owner, howner, hheld⟩ := any_eq_true.mp hany
    exact ⟨owner, howner, of_decide_eq_true hheld⟩
  · split at h
    · cases h
    · split at h
      · cases h
      · split at h
        · cases h
        · split at h <;> cases h

theorem step_selected_nil (h : self.pending = []) : self.step_selected read = (self, true) := by
  unfold step_selected
  rw [h]

theorem mem_of_search (hpending : Ascending pending)
    {index : Fin (pending.map (fun path => (path, ()))).length}
    (h : binary_search (pending.map (fun path => (path, ()))) archive = .ok index) :
    archive ∈ pending := by
  have hsorted : SortedVec.Sorted (pending.map (fun path => (path, ()))) := pairwise_map.mpr hpending
  have hsearch := binary_search_spec hsorted archive
  rw [h] at hsearch
  cases hsearch with
  | found index _ hentry =>
    have hmem := get_mem (pending.map (fun path => (path, ()))) index
    rw [hentry] at hmem
    simpa using hmem

/-- Where the archive goes in the queue. -/
theorem insert_archive (hpending : Ascending pending) {index : Nat}
    (h : binary_search (pending.map (fun path => (path, ()))) archive = .error index) :
    Ascending (pending.insertIdx index archive) ∧
      (pending.insertIdx index archive).Perm (archive :: pending) := by
  have hsorted : SortedVec.Sorted (pending.map (fun path => (path, ()))) := pairwise_map.mpr hpending
  have hsearch := binary_search_spec hsorted archive
  rw [h] at hsearch
  cases hsearch with
  | absent index hlookup hinsert =>
    let m : SortedMap String Unit := ⟨_, hsorted⟩
    have hentries : (pending.insertIdx index archive).map (fun path => (path, ())) =
        (m.insert archive ()).entries := by
      rw [map_insertIdx]
      exact hinsert ()
    have hperm := m.entries_insert_perm archive ()
    rw [SortedMap.erase_of_absent (m := m) hlookup, ← hentries] at hperm
    constructor
    · have hascending := (m.insert archive ()).sorted
      rw [← hentries, pairwise_map] at hascending
      exact hascending
    · have hpaths := hperm.map Prod.fst
      rw [List.map_map, map_cons, List.map_map] at hpaths
      simpa [Function.comp_def] using hpaths

theorem step_selected_cons (h : self.pending = path :: pending) (hpending : Ascending pending) :
    (self.step_selected read).2 = false ∧
      Stepped self path pending read (self.step_selected read).1 := by
  unfold step_selected
  simp only [h]
  cases htake : self.take path read with
  | held => exact ⟨rfl, .held (held_of_take htake)⟩
  | unscoped => exact ⟨rfl, .refused _⟩
  | header header => exact ⟨rfl, .header header (header_of_take htake)⟩
  | unfunded => exact ⟨rfl, .unfunded⟩
  | refused => exact ⟨rfl, .refused _⟩
  | swapped archive =>
    cases hsearch : binary_search (pending.map (fun path => (path, ()))) archive with
    | ok index =>
      have hmem := mem_of_search hpending hsearch
      simp only [hsearch]
      exact ⟨trivial, .swapped archive pending htake hpending (.inl ⟨hmem, rfl⟩)⟩
    | error index =>
      obtain ⟨hascending, hperm⟩ := insert_archive hpending hsearch
      simp only [hsearch]
      exact ⟨trivial, .swapped archive _ htake hascending (.inr hperm)⟩

theorem archive_not_plain (hextension : extension path = some "jsonl".toList) :
    extension (with_extension path "jsonl.zst") ≠ some "jsonl".toList := by
  obtain ⟨name, hname, -⟩ := bind_eq_some_iff.mp hextension
  rw [archive_extension (by rw [hname]; rfl)]
  decide

/-! ## The order -/

/-- Headers rise with their paths, below everything that is still to be read. -/
structure Ordered (inventory : HeaderInventory) : Prop where
  headers : Ascending (inventory.headers.map (fun header => header.candidate.path))
  apart : ∀ header ∈ inventory.headers, ∀ path ∈ inventory.pending, header.candidate.path < path
  plain : ∀ path ∈ inventory.pending, extension path = some "jsonl".toList → ends_in_name path = true

theorem Stepped.ascending (h : Stepped self path pending read next) (hpending : Ascending pending) :
    Ascending next.pending := by
  cases h with
  | swapped archive queue _ hascending _ => exact hascending
  | _ => exact hpending

theorem Stepped.ordered (h : Stepped self path pending read next) (hself : self.Ordered)
    (hqueue : self.pending = path :: pending) (hascending : Ascending self.pending) :
    next.Ordered := by
  rw [hqueue] at hascending
  obtain ⟨hfirst, -⟩ := pairwise_cons.mp hascending
  have hapart : ∀ header ∈ self.headers, ∀ later ∈ pending, header.candidate.path < later := by
    intro header hheader later hlater
    exact hself.apart header hheader later (by rw [hqueue]; exact mem_cons_of_mem _ hlater)
  have hplain : ∀ later ∈ pending, extension later = some "jsonl".toList →
      ends_in_name later = true := by
    intro later hlater
    exact hself.plain later (by rw [hqueue]; exact mem_cons_of_mem _ hlater)
  have hhead : path ∈ self.pending := by
    rw [hqueue]
    exact mem_cons_self
  cases h with
  | held names => exact ⟨hself.headers, hapart, hplain⟩
  | unfunded => exact ⟨hself.headers, hapart, hplain⟩
  | refused refused => exact ⟨hself.headers, hapart, hplain⟩
  | header header at_path =>
    refine ⟨?_, ?_, hplain⟩
    · unfold Ascending
      rw [map_append, pairwise_append]
      refine ⟨hself.headers, pairwise_singleton _ _, ?_⟩
      intro earlier hearlier _ hlater
      obtain ⟨before, hbefore, rfl⟩ := mem_map.mp hearlier
      rw [map_singleton, mem_singleton] at hlater
      rw [hlater, at_path]
      exact hself.apart before hbefore path hhead
    · intro earlier hearlier later hlater
      rcases mem_append.mp hearlier with hearlier | hearlier
      · exact hapart earlier hearlier later hlater
      · rw [mem_singleton.mp hearlier, at_path]
        exact hfirst later hlater
  | swapped archive queue taken _ queued =>
    obtain ⟨hextension, rfl⟩ := swapped_of_take taken
    have hmem : ∀ later ∈ queue, later = with_extension path "jsonl.zst" ∨ later ∈ pending := by
      intro later hlater
      rcases queued with ⟨-, rfl⟩ | hperm
      · exact .inr hlater
      · exact mem_cons.mp (hperm.mem_iff.mp hlater)
    -- The archive stands behind its plaintext, and so behind every header.
    have hlt := lt_archive (hself.plain path hhead hextension) hextension
    refine ⟨hself.headers, ?_, ?_⟩
    · intro header hheader later hlater
      rcases hmem later hlater with rfl | hlater
      · exact (hself.apart header hheader path hhead).trans hlt
      · exact hapart header hheader later hlater
    · intro later hlater
      rcases hmem later hlater with rfl | hlater
      · exact fun hjsonl => absurd hjsonl (archive_not_plain hextension)
      · exact hplain later hlater

/-- In order, a path finds the owner of its own header and no other. -/
theorem Ordered.owner_for_path (h : self.Ordered) (path : String) :
    self.owner_for_path path =
      (self.headers.find? (fun header => decide (header.candidate.path = path))).map
        (fun header => header.owner) := by
  have hlookup : SortedMap.lookupEntry path self.by_path =
      (self.headers.find? (fun header => decide (header.candidate.path = path))).map
        (fun header => header.owner) := by
    unfold by_path
    induction self.headers with
    | nil => rfl
    | cons header headers ih =>
      rw [map_cons, find?_cons, SortedMap.lookupEntry, ih]
      by_cases hpath : header.candidate.path = path
      · simp [hpath]
      · simp [hpath, Ne.symm hpath]
  have hsorted : SortedVec.Sorted self.by_path :=
    pairwise_map.mpr (pairwise_map.mp h.headers)
  have hsearch := binary_search_spec hsorted path
  rw [← hlookup]
  unfold HeaderInventory.owner_for_path
  cases hfound : binary_search self.by_path path with
  | ok index =>
    rw [hfound] at hsearch
    cases hsearch with
    | found index owner hentry hlookup =>
      rw [hlookup]
      exact congrArg (fun entry => some entry.2) hentry
  | error index =>
    rw [hfound] at hsearch
    cases hsearch with
    | absent index hlookup => exact hlookup.symm

/-! ## The end -/

/-- A plaintext can put its archive in its place once. -/
def weight (paths : List String) : Nat :=
  (paths.map (fun path => if extension path = some "jsonl".toList then 2 else 1)).sum

theorem Stepped.weight_lt (h : Stepped self path pending read next) :
    weight next.pending < weight (path :: pending) := by
  have hcons : weight (path :: pending) =
      (if extension path = some "jsonl".toList then 2 else 1) + weight pending := by
    simp [weight]
  have hless : weight pending < weight (path :: pending) := by
    rw [hcons]
    split <;> omega
  cases h with
  | swapped archive queue taken _ queued =>
    rcases queued with ⟨-, rfl⟩ | hperm
    · exact hless
    · obtain ⟨hextension, rfl⟩ := swapped_of_take taken
      have hqueue : weight queue = 1 + weight pending := by
        unfold weight
        rw [(hperm.map _).sum_eq, map_cons, sum_cons, if_neg (archive_not_plain hextension)]
      rw [hcons, if_pos hextension, hqueue]
      omega
  | _ => exact hless

/-! ## What becomes of a path -/

theorem Stepped.complete (h : Stepped self path pending read next) (hnext : next.complete = true) :
    self.complete = true := by
  cases h with
  | unfunded => exact (Bool.and_eq_true_iff.mp hnext).1
  | refused => cases hnext
  | _ => exact hnext

variable {other : String}

theorem Stepped.accounted (h : Stepped self path pending read next)
    (hother : self.Accounted other) : next.Accounted other := by
  rcases hother with ⟨header, hheader, hpath⟩ | ⟨owner, howner, hheld⟩
  · left
    cases h with
    | header => exact ⟨header, mem_append_left _ hheader, hpath⟩
    | _ => exact ⟨header, hheader, hpath⟩
  · right
    cases h with
    | unfunded => exact ⟨owner, howner, Finset.mem_union_left _ hheld⟩
    | _ => exact ⟨owner, howner, hheld⟩

/-- The path that a complete step takes is accounted for, or its archive is queued. -/
theorem Stepped.taken (h : Stepped self path pending read next) (hnext : next.complete = true) :
    next.Accounted path ∨
      ∃ archive, self.take path read = .swapped archive ∧ archive ∈ next.pending := by
  cases h with
  | held names => exact .inl (.inr names)
  | header header at_path => exact .inl (.inl ⟨header, by simp, at_path⟩)
  | refused => cases hnext
  | unfunded =>
    -- Completeness survives only where the name states an owner, which is held from now on.
    have hnamed := (Bool.and_eq_true_iff.mp (Bool.and_eq_true_iff.mp hnext).2).2
    obtain ⟨owner, howner⟩ := exists_mem_of_ne_nil (codex_session_id_candidates_from_path path) (by
      intro hempty
      rw [hempty] at hnamed
      cases hnamed)
    exact .inl (.inr ⟨owner, howner, Finset.mem_union_right _ (mem_toFinset.mpr howner)⟩)
  | swapped archive queue taken _ queued =>
    refine .inr ⟨archive, taken, ?_⟩
    rcases queued with ⟨hmem, rfl⟩ | hperm
    · exact hmem
    · exact hperm.mem_iff.mpr mem_cons_self

theorem Stepped.mem_pending (h : Stepped self path pending read next)
    (hother : other ∈ pending) : other ∈ next.pending := by
  cases h with
  | swapped archive queue _ _ queued =>
    rcases queued with ⟨-, rfl⟩ | hperm
    · exact hother
    · exact hperm.mem_iff.mpr (mem_cons_of_mem _ hother)
  | _ => exact hother

/-! ## A whole run -/

/-- The inventory after some steps. -/
def after (inventory : HeaderInventory) (reads : Nat → HeaderRead) : Nat → HeaderInventory
  | 0 => inventory
  | n + 1 => ((inventory.after reads n).step_selected (reads n)).1

/-- An earlier step took a path and put its archive in its place. -/
def Swapped (inventory : HeaderInventory) (reads : Nat → HeaderRead) (n : Nat)
    (path archive : String) : Prop :=
  ∃ m < n, (inventory.after reads m).pending.head? = some path ∧
    (inventory.after reads m).take path (reads m) = .swapped archive

/-- Still in the queue, or accounted for. -/
def Kept (self : HeaderInventory) (path : String) : Prop := path ∈ self.pending ∨ self.Accounted path

variable {inventory : HeaderInventory} {reads : Nat → HeaderRead}

variable {n : Nat}

theorem after_nil (h : (inventory.after reads n).pending = []) :
    inventory.after reads (n + 1) = inventory.after reads n := by
  show ((inventory.after reads n).step_selected (reads n)).1 = inventory.after reads n
  rw [step_selected_nil h]

theorem after_ascending (h : Ascending inventory.pending) (n : Nat) :
    Ascending (inventory.after reads n).pending := by
  induction n with
  | zero => exact h
  | succ n ih =>
    cases hqueue : (inventory.after reads n).pending with
    | nil =>
      rw [after_nil hqueue]
      exact ih
    | cons path pending =>
      rw [hqueue] at ih
      have hrest := (pairwise_cons.mp ih).2
      exact (step_selected_cons hqueue hrest).2.ascending hrest

theorem after_stepped (h : Ascending inventory.pending) {path : String}
    {pending : List String} (hqueue : (inventory.after reads n).pending = path :: pending) :
    Stepped (inventory.after reads n) path pending (reads n) (inventory.after reads (n + 1)) := by
  have hascending := @after_ascending _ reads h n
  rw [hqueue] at hascending
  exact (step_selected_cons hqueue (pairwise_cons.mp hascending).2).2

theorem after_ordered (h : Ascending inventory.pending) (hordered : inventory.Ordered) (n : Nat) :
    (inventory.after reads n).Ordered := by
  induction n with
  | zero => exact hordered
  | succ n ih =>
    cases hqueue : (inventory.after reads n).pending with
    | nil =>
      rw [after_nil hqueue]
      exact ih
    | cons path pending => exact (after_stepped h hqueue).ordered ih hqueue (after_ascending h n)

/-- Every step but the last takes from the weight of the queue. -/
theorem exists_after_nil (h : Ascending inventory.pending) :
    ∃ n, (inventory.after reads n).pending = [] := by
  have hfrom : ∀ (bound n : Nat), weight (inventory.after reads n).pending ≤ bound →
      ∃ n, (inventory.after reads n).pending = [] := by
    intro bound
    induction bound with
    | zero =>
      intro n hn
      cases hqueue : (inventory.after reads n).pending with
      | nil => exact ⟨n, hqueue⟩
      | cons path pending =>
        have hlt := (after_stepped h hqueue).weight_lt
        rw [hqueue] at hn
        omega
    | succ bound ih =>
      intro n hn
      cases hqueue : (inventory.after reads n).pending with
      | nil => exact ⟨n, hqueue⟩
      | cons path pending =>
        have hlt := (after_stepped h hqueue).weight_lt
        rw [hqueue] at hn
        exact ih (n + 1) (by omega)
  exact hfrom _ 0 le_rfl

theorem Swapped.mono {path : String} (h : inventory.Swapped reads n path archive) :
    inventory.Swapped reads (n + 1) path archive := by
  obtain ⟨m, hm, htaken⟩ := h
  exact ⟨m, by omega, htaken⟩

/-- One complete step keeps a path, or puts its archive in its place. -/
theorem kept_step (h : Ascending inventory.pending)
    (hnext : (inventory.after reads (n + 1)).complete = true)
    (hother : (inventory.after reads n).Kept other) :
    (inventory.after reads (n + 1)).Kept other ∨ ∃ archive,
      extension other = some "jsonl".toList ∧ inventory.Swapped reads (n + 1) other archive ∧
        (inventory.after reads (n + 1)).Kept archive := by
  cases hqueue : (inventory.after reads n).pending with
  | nil =>
    rw [after_nil hqueue]
    exact .inl hother
  | cons path pending =>
    have hstep := after_stepped h hqueue
    rcases hother with hother | hother
    · rw [hqueue] at hother
      rcases mem_cons.mp hother with rfl | hother
      · rcases hstep.taken hnext with haccounted | ⟨archive, htaken, hmem⟩
        · exact .inl (.inr haccounted)
        · exact .inr ⟨archive, (swapped_of_take htaken).1,
            ⟨n, Nat.lt_succ_self n, by rw [hqueue]; rfl, htaken⟩, .inl hmem⟩
      · exact .inl (.inl (hstep.mem_pending hother))
    · exact .inl (.inr (hstep.accounted hother))

theorem after_complete (h : Ascending inventory.pending)
    (hnext : (inventory.after reads (n + 1)).complete = true) :
    (inventory.after reads n).complete = true := by
  cases hqueue : (inventory.after reads n).pending with
  | nil =>
    rw [after_nil hqueue] at hnext
    exact hnext
  | cons path pending => exact (after_stepped h hqueue).complete hnext

theorem after_kept (h : Ascending inventory.pending) {path : String} (hpath : path ∈ inventory.pending)
    (n : Nat) (hcomplete : (inventory.after reads n).complete = true) :
    (inventory.after reads n).Kept path ∨ ∃ archive, extension archive ≠ some "jsonl".toList ∧
      inventory.Swapped reads n path archive ∧ (inventory.after reads n).Kept archive := by
  induction n with
  | zero => exact .inl (.inl hpath)
  | succ n ih =>
    rcases ih (after_complete h hcomplete) with hkept | ⟨archive, hplain, hswapped, hkept⟩
    · rcases kept_step h hcomplete hkept with hkept | ⟨archive, hextension, hswapped, hkept⟩
      · exact .inl hkept
      · obtain ⟨m, hm, hhead, htaken⟩ := hswapped
        have harchive := (swapped_of_take htaken).2
        refine .inr ⟨archive, ?_, ⟨m, hm, hhead, htaken⟩, hkept⟩
        rw [harchive]
        exact archive_not_plain hextension
    · rcases kept_step h hcomplete hkept with hkept | ⟨_, hextension, -⟩
      · exact .inr ⟨archive, hplain, hswapped.mono, hkept⟩
      · exact absurd hextension hplain

theorem Kept.accounted {self : HeaderInventory} {path : String} (h : self.Kept path)
    (hend : self.pending = []) : self.Accounted path := by
  rcases h with hmem | haccounted
  · rw [hend] at hmem
    cases hmem
  · exact haccounted

theorem step_ends_iff (h : Ascending inventory.pending) (n : Nat) :
    ((inventory.after reads n).step_selected (reads n)).2 = true ↔
      (inventory.after reads n).pending = [] := by
  cases hqueue : (inventory.after reads n).pending with
  | nil => simp [step_selected_nil hqueue]
  | cons path pending =>
    have hascending := @after_ascending _ reads h n
    rw [hqueue] at hascending
    have hgoes := (@step_selected_cons _ _ _ (reads n) hqueue (pairwise_cons.mp hascending).2).1
    simp [hgoes]

variable (roots : List String) (paths : SortedMap String Unit) (directories : Option DirectoryCensus)

theorem new_ascending : Ascending (new roots paths directories).pending := by
  have hkeys : Ascending paths.keys := pairwise_map.mpr paths.sorted
  exact hkeys.filter _

theorem new_ordered (h : ∀ path ∈ paths.keys, ends_in_name path = true) :
    (new roots paths directories).Ordered where
  headers := .nil
  apart := by simp [new]
  plain := fun path hpath _ => h path (mem_of_mem_filter hpath)

/-- The queue stays in path order, and so do the headers where paths end in their names; the steps
come to an end, and a complete end has an account of every path. -/
theorem inventory_is_a_census (reads : Nat → HeaderRead) :
    (∀ n, Ascending ((new roots paths directories).after reads n).pending) ∧
      ((∀ path ∈ paths.keys, ends_in_name path = true) → ∀ n,
        ((new roots paths directories).after reads n).Ordered ∧
          ∀ path, ((new roots paths directories).after reads n).owner_for_path path =
            (((new roots paths directories).after reads n).headers.find? (fun header =>
              decide (header.candidate.path = path))).map (fun header => header.owner)) ∧
      (∃ n, (((new roots paths directories).after reads n).step_selected (reads n)).2 = true) ∧
      ∀ n, (((new roots paths directories).after reads n).step_selected (reads n)).2 = true →
        ((new roots paths directories).after reads n).complete = true →
        ((new roots paths directories).after reads n).refused = .empty →
        ∀ path ∈ paths.keys, shadowed_compressed_path path paths = false →
          ((new roots paths directories).after reads n).Accounted path ∨
            ∃ archive, (new roots paths directories).Swapped reads n path archive ∧
              ((new roots paths directories).after reads n).Accounted archive := by
  have hnew := new_ascending roots paths directories
  refine ⟨after_ascending hnew, ?_, ?_, ?_⟩
  · intro hplain n
    have hordered := @after_ordered _ reads hnew (new_ordered roots paths directories hplain) n
    exact ⟨hordered, hordered.owner_for_path⟩
  · obtain ⟨n, hn⟩ := @exists_after_nil _ reads hnew
    exact ⟨n, (step_ends_iff hnew n).mpr hn⟩
  · intro n hended hcomplete _ path hpath hshadowed
    have hend := (step_ends_iff hnew n).mp hended
    have hmem : path ∈ (new roots paths directories).pending := by
      refine mem_filter.mpr ⟨hpath, ?_⟩
      simp [hshadowed]
    rcases after_kept hnew hmem n hcomplete with hkept | ⟨archive, -, hswapped, hkept⟩
    · exact .inl (hkept.accounted hend)
    · exact .inr ⟨archive, hswapped, hkept.accounted hend⟩

def example_roster : SortedMap String Unit :=
  (SortedMap.empty.insert "r/a.jsonl" ()).insert "r/b.jsonl" ()

/-- The second file is gone when its turn comes, and its archive stands there. -/
def example_reads (n : Nat) : HeaderRead where
  result := if n = 1 then .error (some .NotFound) else .ok { owner := "o", created_unix_ms := none }
  prepared := false
  missing := fun path => decide (path = "r/b.jsonl")
  regular := fun path => decide (path = "r/b.jsonl.zst")
  path_witness := fun _ => none

example :
    let census := (new ["r"] example_roster (some ⟨true⟩)).after example_reads 3
    (census.step_selected (example_reads 3)).2 = true ∧ census.complete = true ∧
      census.headers.map (fun header => header.candidate.path) = ["r/a.jsonl", "r/b.jsonl.zst"] ∧
      census.owner_for_path "r/b.jsonl.zst" = some "o" := by
  decide

/-! A roster of a file and of the same file with a separator behind it: both are gone, and the
archive that replaced them is read twice. -/

def doubled_roster : SortedMap String Unit :=
  (SortedMap.empty.insert "r/a.jsonl" ()).insert "r/a.jsonl/" ()

def doubled_reads (n : Nat) : HeaderRead where
  result := if n = 1 ∨ n = 3 then .ok { owner := "o", created_unix_ms := none } else .error (some .NotFound)
  prepared := false
  missing := fun path => decide (path ≠ "r/a.jsonl.zst")
  regular := fun path => decide (path = "r/a.jsonl.zst")
  path_witness := fun _ => none

theorem a_separator_breaks_the_order :
    ¬ (∀ header ∈ ((new ["r"] doubled_roster (some ⟨true⟩)).after doubled_reads 3).headers,
        ∀ path ∈ ((new ["r"] doubled_roster (some ⟨true⟩)).after doubled_reads 3).pending,
          header.candidate.path < path) ∧
      ¬ Ascending (((new ["r"] doubled_roster (some ⟨true⟩)).after doubled_reads 4).headers.map
        (fun header => header.candidate.path)) := by
  have hthree : ((new ["r"] doubled_roster (some ⟨true⟩)).after doubled_reads 3).headers.map
        (fun header => header.candidate.path) = ["r/a.jsonl.zst"] ∧
      ((new ["r"] doubled_roster (some ⟨true⟩)).after doubled_reads 3).pending = ["r/a.jsonl.zst"] := by
    decide
  have hfour : ((new ["r"] doubled_roster (some ⟨true⟩)).after doubled_reads 4).headers.map
      (fun header => header.candidate.path) = ["r/a.jsonl.zst", "r/a.jsonl.zst"] := by
    decide
  constructor
  · intro hapart
    obtain ⟨header, hheader, hpath⟩ := mem_map.mp (by
      rw [hthree.1]
      exact mem_cons_self)
    have hlt := hapart header hheader "r/a.jsonl.zst" (by
      exact mem_cons_self)
    rw [hpath] at hlt
    exact lt_irrefl _ hlt
  · intro hascending
    exact lt_irrefl _ ((pairwise_cons.mp hascending).1 _ mem_cons_self)

end HeaderInventory

end ottto_service.header_inventory
