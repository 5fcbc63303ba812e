-- Paths of a shell command (composition_kinds/shell.rs): where a path leads once `.` and `..` are
-- resolved, and which paths travel in plain text.
import Ottto.ShellEval

open text_slice

namespace ottto_service.composition_kinds.shell

open List

/-! ## The lexical meaning of a path -/

/-- Places with a root: each name leads from a place to a place in it, and back by the parent. -/
structure Places where
  Place : Type
  root : Place
  child : Place → Text → Place
  parent : Place → Place
  parent_child : ∀ p name, parent (child p name) = p
  parent_root : parent root = root

def Places.follow (P : Places) (p : P.Place) (part : Text) : P.Place :=
  if part = [] ∨ part = ['.'] then p
  else if part = ['.', '.'] then P.parent p
  else P.child p part

/-- The place that an absolute path leads to. -/
def Places.locate (P : Places) (path : Text) : P.Place := (path.splitOn '/').foldl P.follow P.root

/-! ## The parts of a path -/

/-- A part that names something. -/
structure Clean (part : Text) : Prop where
  nonempty : part ≠ []
  not_here : part ≠ ['.']
  not_up : part ≠ ['.', '.']
  one_part : '/' ∉ part

def parts_of (path : Text) : List Text := (path.splitOn '/').foldl walk_part []

variable {path : Text}

theorem normalize_absolute (h : path.head? = some '/') :
    normalize_lexically path = '/' :: ['/'].intercalate (parts_of path) := by
  simp [normalize_lexically, parts_of, h]

theorem normalize_relative (h : path.head? ≠ some '/') :
    normalize_lexically path = path := by
  simp [normalize_lexically, h]

theorem one_part_of_split {part : Text} (h : part ∈ path.splitOn '/') : '/' ∉ part := by
  induction path generalizing part with
  | nil =>
    rw [splitOn_nil, mem_singleton] at h
    rw [h]
    exact not_mem_nil
  | cons c path ih =>
    rw [splitOn_cons_eq_if_modifyHead] at h
    split at h
    · rcases mem_cons.mp h with rfl | h
      · exact not_mem_nil
      · exact ih h
    · rename_i hc
      have hne : c ≠ '/' := by simpa using hc
      cases hsplit : path.splitOn '/' with
      | nil => exact absurd hsplit (splitOn_ne_nil '/' path)
      | cons first more =>
        rw [hsplit, modifyHead_cons] at h
        rcases mem_cons.mp h with rfl | h
        · intro hmem
          rcases mem_cons.mp hmem with heq | hmem
          · exact hne heq.symm
          · exact ih (hsplit ▸ mem_cons_self) hmem
        · exact ih (hsplit ▸ mem_cons_of_mem first h)

variable {parts : List Text}

theorem walk_part_clean {part : Text} (h : ∀ p ∈ parts, Clean p)
    (hpart : '/' ∉ part) : ∀ p ∈ walk_part parts part, Clean p := by
  unfold walk_part
  split
  · exact h
  · split
    · exact fun p hp => h p (mem_of_mem_dropLast hp)
    · intro p hp
      rcases mem_append.mp hp with hp | hp
      · exact h p hp
      · rw [mem_singleton.mp hp]
        exact ⟨by tauto, by tauto, by assumption, hpart⟩

theorem foldl_walk_clean {segments : List Text} (h : ∀ p ∈ parts, Clean p)
    (hsegments : ∀ p ∈ segments, '/' ∉ p) : ∀ p ∈ segments.foldl walk_part parts, Clean p := by
  induction segments generalizing parts with
  | nil => exact h
  | cons segment segments ih =>
    refine ih (walk_part_clean h (hsegments segment mem_cons_self)) ?_
    exact fun p hp => hsegments p (mem_cons_of_mem segment hp)

theorem parts_of_clean (path : Text) : ∀ p ∈ parts_of path, Clean p :=
  foldl_walk_clean (by simp) (fun _ hp => one_part_of_split hp)

/-- Clean parts stay as they are. -/
theorem foldl_walk_of_clean {segments : List Text} (parts : List Text)
    (h : ∀ p ∈ segments, Clean p) : segments.foldl walk_part parts = parts ++ segments := by
  induction segments generalizing parts with
  | nil => simp
  | cons segment segments ih =>
    have hclean := h segment mem_cons_self
    have hstep : walk_part parts segment = parts ++ [segment] := by
      simp [walk_part, hclean.nonempty, hclean.not_here, hclean.not_up]
    rw [foldl_cons, hstep, ih _ (fun p hp => h p (mem_cons_of_mem segment hp)),
      append_assoc, singleton_append]

/-- The parts of a path that clean parts make. -/
theorem parts_of_join (h : ∀ p ∈ parts, Clean p) :
    parts_of ('/' :: ['/'].intercalate parts) = parts := by
  rw [parts_of, splitOn_cons_eq_if_modifyHead, if_pos (by decide), foldl_cons]
  have hempty : walk_part [] [] = [] := by simp [walk_part]
  rw [hempty]
  by_cases hparts : parts = []
  · subst hparts
    rw [intercalate_nil, splitOn_nil, foldl_cons, hempty]
    rfl
  · rw [splitOn_intercalate '/' (fun p hp => (h p hp).one_part) hparts,
      foldl_walk_of_clean [] h, nil_append]

theorem normalize_idempotent (path : Text) :
    normalize_lexically (normalize_lexically path) = normalize_lexically path := by
  by_cases h : path.head? = some '/'
  · rw [normalize_absolute h, normalize_absolute rfl, parts_of_join (parts_of_clean path)]
  · rw [normalize_relative h, normalize_relative h]

/-- An absolute path is in normal form when it is the root, or each of its parts names something. -/
theorem normalize_eq_iff (rest : Text) : normalize_lexically ('/' :: rest) = '/' :: rest ↔
    rest = [] ∨ ∀ part ∈ rest.splitOn '/', part ≠ [] ∧ part ≠ ['.'] ∧ part ≠ ['.', '.'] := by
  have hparts : parts_of ('/' :: rest) = (rest.splitOn '/').foldl walk_part [] := by
    rw [parts_of, splitOn_cons_eq_if_modifyHead, if_pos (by decide), foldl_cons]
    simp [walk_part]
  rw [normalize_absolute rfl, cons_inj_right]
  constructor
  · intro h
    by_cases hnone : parts_of ('/' :: rest) = []
    · rw [hnone, intercalate_nil] at h
      exact .inl h.symm
    · have hclean := parts_of_clean ('/' :: rest)
      have hsplit := splitOn_intercalate '/' (fun p hp => (hclean p hp).one_part) hnone
      rw [h] at hsplit
      rw [hsplit]
      exact .inr fun p hp => ⟨(hclean p hp).nonempty, (hclean p hp).not_here, (hclean p hp).not_up⟩
  · rintro (rfl | h)
    · rfl
    · have hclean : ∀ p ∈ rest.splitOn '/', Clean p := fun p hp =>
        ⟨(h p hp).1, (h p hp).2.1, (h p hp).2.2, one_part_of_split hp⟩
      rw [hparts, foldl_walk_of_clean [] hclean, nil_append]
      exact intercalate_splitOn '/'

/-! ## The same place -/

section

variable (P : Places)

theorem follow_walk (parts : List Text) (part : Text) (h : ∀ p ∈ parts, Clean p) :
    P.follow (parts.foldl P.child P.root) part = (walk_part parts part).foldl P.child P.root := by
  unfold Places.follow walk_part
  split
  · rfl
  · split
    · rcases eq_nil_or_concat parts with rfl | ⟨init, last, rfl⟩
      · exact P.parent_root
      · rw [concat_eq_append, foldl_append, dropLast_concat]
        exact P.parent_child _ _
    · rw [foldl_append]
      rfl

theorem locate_walk (segments parts : List Text) (h : ∀ p ∈ parts, Clean p)
    (hsegments : ∀ p ∈ segments, '/' ∉ p) :
    segments.foldl P.follow (parts.foldl P.child P.root) =
      (segments.foldl walk_part parts).foldl P.child P.root := by
  induction segments generalizing parts with
  | nil => rfl
  | cons segment segments ih =>
    rw [foldl_cons, foldl_cons, follow_walk P parts segment h]
    refine ih _ (walk_part_clean h (hsegments segment mem_cons_self)) ?_
    exact fun p hp => hsegments p (mem_cons_of_mem segment hp)

theorem locate_eq (path : Text) : P.locate path = (parts_of path).foldl P.child P.root :=
  locate_walk P (path.splitOn '/') [] (by simp) (fun _ hp => one_part_of_split hp)

theorem locate_normalize (path : Text) : P.locate (normalize_lexically path) = P.locate path := by
  by_cases h : path.head? = some '/'
  · rw [normalize_absolute h, locate_eq, locate_eq, parts_of_join (parts_of_clean path)]
  · rw [normalize_relative h]

end

/-! ## Plain paths -/

def is_repo_relative (path : Text) : Bool :=
  !path.isEmpty && path.head? != some '/' && path.head? != some '~' &&
    !(path.splitOn '/').any (· == ['.', '.'])

/-- Admission's forbidden fragments for any plain path (from the server's footprint schema), matched
case-insensitively. -/
def PLAIN_PATH_FORBIDDEN_FRAGMENTS : List String :=
  ["/users/", "\\users\\", "/home/", "\\home\\", "file://", "transcript_path",
    "workspace_path", "full_transcript_path", "authorization:", "bearer ", "otdev_", "otsi_",
    "otsr_", "otel_", "otrelay_"]

/-- `char::is_control`: the Unicode category `Cc`. -/
def is_control (c : Char) : Bool :=
  decide (c.toNat ≤ 0x1F) || (decide (0x7F ≤ c.toNat) && decide (c.toNat ≤ 0x9F))

/-- The tables of `str::to_lowercase`: each character's own lower case, and whether a capital sigma
between two texts ends a word. -/
structure Lowercase where
  lower : Char → Text
  final_sigma : Text → Text → Bool
  ascii : ∀ c, c.toNat < 128 → lower c = [c.toLower]

def Lowercase.to_lowercase (tables : Lowercase) (before : Text) : Text → Text
  | [] => []
  | c :: rest =>
    (if c = 'Σ' then [if tables.final_sigma before rest then 'ς' else 'σ'] else tables.lower c) ++
      tables.to_lowercase (before ++ [c]) rest

section

variable (tables : Lowercase)

/-- True when admission takes `path` as a plain `repo_path` unchanged. -/
def is_plain_path (path : Text) : Bool :=
  let lowered := tables.to_lowercase [] path
  is_repo_relative path &&
    decide (path.length ≤ MAX_PATH_BYTES) &&
    -- No backslash form and no drive or URL form.
    !path.contains '\\' &&
    !decide (":/".toList <:+: path) &&
    -- Admission collapses whitespace runs; only single inner spaces survive it.
    path.head? != some ' ' &&
    path.getLast? != some ' ' &&
    !decide ("  ".toList <:+: path) &&
    !path.any (fun c => c != ' ' && (json_fields.is_whitespace c || is_control c)) &&
    !PLAIN_PATH_FORBIDDEN_FRAGMENTS.any (fun fragment => decide (fragment.toList <:+: lowered))

/-- `strip_prefix`. -/
def strip_prefix_of (text start : Text) : Option Text :=
  if start.isPrefixOf text then some (text.drop start.length) else none

/-- `(key, plain path)`: the key is the repo-relative path when the file is inside the session's
working directory (a lexical prefix test), else the path as written. -/
def normalize_path (raw : Text) (cwd : Option Path) (trust_relative : Bool) :
    Option (Text × Option Text) :=
  let raw := strip_here (trim raw)
  if raw = [] ∨ MAX_PATH_BYTES < byte_len raw then none
  else if raw.head? = some '/' then
    let inside := (((cwd.bind Path.to_str).bind (fun cwd =>
      strip_prefix_of raw (trim_end_matches (· == '/') cwd))).bind (strip_prefix_of · ['/'])).filter
        is_repo_relative
    match inside with
    | some rest => some (rest, if is_plain_path tables rest then some rest else none)
    | none => some (raw, none)
  else
    let plain := trust_relative && cwd.isSome && is_plain_path tables raw
    some (raw, if plain then some raw else none)

/-- What a plain path is, whatever the tables of letters hold. -/
structure Plain (path : Text) : Prop where
  nonempty : path ≠ []
  relative : path.head? ≠ some '/'
  no_home : path.head? ≠ some '~'
  no_parent : ['.', '.'] ∉ path.splitOn '/'
  no_backslash : '\\' ∉ path
  no_drive_or_url : ¬ ":/".toList <:+: path
  no_edge_space : path.head? ≠ some ' ' ∧ path.getLast? ≠ some ' '
  single_spaces : ¬ "  ".toList <:+: path
  only_spaces : ∀ c ∈ path, json_fields.is_whitespace c = true ∨ is_control c = true → c = ' '
  /-- No part of the path is a forbidden fragment in some letter case. -/
  no_fragment : ∀ fragment ∈ PLAIN_PATH_FORBIDDEN_FRAGMENTS, ∀ part, part <:+: path →
    part.map Char.toLower ≠ fragment.toList

theorem to_lowercase_after (before s t : Text) :
    ∃ lowered, tables.to_lowercase before (s ++ t) =
      lowered ++ tables.to_lowercase (before ++ s) t := by
  induction s generalizing before with
  | nil => exact ⟨[], by simp⟩
  | cons c s ih =>
    obtain ⟨lowered, hlowered⟩ := ih (before ++ [c])
    rw [append_assoc, singleton_append] at hlowered
    rw [cons_append, Lowercase.to_lowercase, hlowered]
    exact ⟨_ ++ lowered, (append_assoc _ _ _).symm⟩

theorem to_lowercase_ascii (before s t : Text) (h : ∀ c ∈ s, c.toNat < 128) :
    tables.to_lowercase before (s ++ t) =
      s.map Char.toLower ++ tables.to_lowercase (before ++ s) t := by
  induction s generalizing before with
  | nil => simp
  | cons c s ih =>
    have hc : c.toNat < 128 := h c mem_cons_self
    have hsigma : c ≠ 'Σ' := by
      rintro rfl
      exact absurd hc (by decide)
    rw [cons_append, Lowercase.to_lowercase, if_neg hsigma, tables.ascii c hc,
      ih (before ++ [c]) (fun d hd => h d (mem_cons_of_mem c hd)), map_cons,
      append_assoc, singleton_append, singleton_append, cons_append]

theorem ascii_of_toLower {c : Char} (h : c.toLower.toNat < 128) : c.toNat < 128 := by
  unfold Char.toLower at h
  split at h
  · rename_i hupper
    have hle : c.toNat ≤ 90 := hupper.2
    omega
  · exact h

theorem fragments_ascii {fragment : String} (h : fragment ∈ PLAIN_PATH_FORBIDDEN_FRAGMENTS) :
    ∀ c ∈ fragment.toList, c.toNat < 128 := by
  have hall : PLAIN_PATH_FORBIDDEN_FRAGMENTS.all
      (fun fragment => fragment.toList.all (fun c => decide (c.toNat < 128))) = true := by decide
  intro c hc
  exact of_decide_eq_true (all_eq_true.mp (all_eq_true.mp hall fragment h) c hc)

variable {path : Text}

/-- A fragment in another letter case is found in the lower case of the whole path. -/
theorem fragment_in_lowercase {part : Text} {fragment : String} (hpart : part <:+: path)
    (hfragment : fragment ∈ PLAIN_PATH_FORBIDDEN_FRAGMENTS)
    (h : part.map Char.toLower = fragment.toList) :
    fragment.toList <:+: tables.to_lowercase [] path := by
  obtain ⟨s, t, rfl⟩ := hpart
  have hascii : ∀ c ∈ part, c.toNat < 128 := by
    intro c hc
    refine ascii_of_toLower (fragments_ascii hfragment _ ?_)
    rw [← h]
    exact mem_map_of_mem hc
  obtain ⟨lowered, hlowered⟩ := to_lowercase_after tables [] s (part ++ t)
  rw [append_assoc, hlowered, to_lowercase_ascii tables _ part t hascii, h]
  exact ⟨lowered, _, (append_assoc _ _ _)⟩

theorem plain_of_is_plain_path (h : is_plain_path tables path = true) :
    Plain path := by
  simp only [is_plain_path, is_repo_relative, Bool.and_eq_true, Bool.not_eq_true', bne_iff_ne,
    decide_eq_true_eq, decide_eq_false_iff_not, any_eq_false, beq_iff_eq, ne_eq] at h
  obtain ⟨⟨⟨⟨⟨⟨⟨⟨⟨⟨⟨hne, hslash⟩, hhome⟩, hup⟩, -⟩, hback⟩, hdrive⟩, hstart⟩, hend⟩, hdouble⟩,
    hspaces⟩, hfragments⟩ := h
  refine ⟨by simpa using hne, hslash, hhome, ?_, by simpa using hback, hdrive, ⟨hstart, hend⟩, hdouble,
    ?_, ?_⟩
  · intro hmem
    exact hup _ hmem rfl
  · intro c hc hother
    by_contra hne
    have := hspaces c hc
    simp only [hne, not_false_eq_true, true_and, Bool.or_eq_true] at this
    exact this hother
  · intro fragment hfragment part hpart heq
    exact hfragments fragment hfragment (fragment_in_lowercase tables hpart hfragment heq)

theorem strip_prefix_some {text start rest : Text} (h : strip_prefix_of text start = some rest) :
    text = start ++ rest := by
  unfold strip_prefix_of at h
  split at h
  · rename_i hinit
    obtain ⟨more, rfl⟩ := isPrefixOf_iff_prefix.mp hinit
    rw [drop_left, Option.some.injEq] at h
    rw [h]
  · cases h

/-- What makes a path plain: it lies under the session's folder, or it is relative to it. -/
theorem normalize_path_plain {raw : Text} {cwd : Option Path} {trust_relative : Bool} {key p : Text}
    (h : normalize_path tables raw cwd trust_relative = some (key, some p)) :
    key = p ∧ is_plain_path tables p = true ∧
      ((strip_here (trim raw)).head? = some '/' → ∃ dir, cwd = some (.unicode dir) ∧
        strip_here (trim raw) = trim_end_matches (· == '/') dir ++ '/' :: p) := by
  unfold normalize_path at h
  dsimp only at h
  split at h
  · cases h
  split at h
  · split at h
    · rename_i rest hinside
      simp only [Option.filter_eq_some_iff, Option.bind_eq_some_iff] at hinside
      obtain ⟨⟨after, ⟨dir, ⟨path, hcwd, hdir⟩, hafter⟩, hrest⟩, -⟩ := hinside
      obtain ⟨rfl, hplain⟩ := Prod.mk.inj (Option.some.inj h)
      split at hplain
      · rename_i hok
        cases hplain
        refine ⟨rfl, hok, fun _ => ⟨dir, ?_, ?_⟩⟩
        · cases path with
          | unicode text => rw [hcwd, ← Option.some.inj hdir]
          | other lossy => cases hdir
        · rw [strip_prefix_some hafter, strip_prefix_some hrest]
          rfl
      · cases hplain
    · cases h
  · rename_i hrelative
    obtain ⟨rfl, hplain⟩ := Prod.mk.inj (Option.some.inj h)
    split at hplain
    · rename_i hok
      cases hplain
      simp only [Bool.and_eq_true] at hok
      exact ⟨rfl, hok.2, fun hslash => absurd hslash hrelative⟩
    · cases hplain

theorem strip_here_absolute (h : path.head? = some '/') : strip_here path = path := by
  unfold strip_here
  split
  · simp at h
  · rfl

end

/-- A plain path is one that admission takes, is the key, and, when the path read is absolute, is what
follows the session's folder; and to resolve `.` and `..` in an absolute path leaves an absolute path
of named parts that leads to the same place. -/
theorem plain_path_stays_in_folder (tables : Lowercase) (raw : Text) (cwd : Option Path)
    (trust_relative : Bool) (path : Text) (habsolute : path.head? = some '/') :
    (∀ key p, normalize_path tables raw cwd trust_relative = some (key, some p) →
      is_plain_path tables p = true ∧ Plain p ∧ key = p ∧
        ((trim raw).head? = some '/' → ∃ dir, cwd = some (.unicode dir) ∧
          trim raw = trim_end_matches (· == '/') dir ++ '/' :: p)) ∧
    (∃ parts, normalize_lexically path = '/' :: ['/'].intercalate parts ∧
      ∀ part ∈ parts, Clean part) ∧
    normalize_lexically (normalize_lexically path) = normalize_lexically path ∧
    ∀ P : Places, P.locate (normalize_lexically path) = P.locate path := by
  refine ⟨?_, ⟨parts_of path, normalize_absolute habsolute, parts_of_clean path⟩,
    normalize_idempotent path, fun P => locate_normalize P path⟩
  intro key p h
  obtain ⟨rfl, hplain, hinside⟩ := normalize_path_plain tables h
  refine ⟨hplain, plain_of_is_plain_path tables hplain, rfl, fun hslash => ?_⟩
  rw [strip_here_absolute hslash] at hinside
  exact hinside hslash

/-- Tables for texts of ASCII letters. -/
def ascii_lowercase : Lowercase where
  lower c := [c.toLower]
  final_sigma _ _ := false
  ascii _ _ := rfl

theorem a_file_of_the_folder_is_plain :
    normalize_path ascii_lowercase "/w/repo/src/a.rs".toList (some (.unicode "/w/repo/".toList)) false =
      some ("src/a.rs".toList, some "src/a.rs".toList) ∧
    Plain "src/a.rs".toList ∧
    normalize_lexically "/w/./x/../repo".toList = "/w/repo".toList := by
  have hread : normalize_path ascii_lowercase "/w/repo/src/a.rs".toList
      (some (.unicode "/w/repo/".toList)) false =
        some ("src/a.rs".toList, some "src/a.rs".toList) := by decide
  obtain ⟨hplain, -⟩ := plain_path_stays_in_folder ascii_lowercase "/w/repo/src/a.rs".toList
    (some (.unicode "/w/repo/".toList)) false "/w/./x/../repo".toList (by decide)
  exact ⟨hread, (hplain _ _ hread).2.1, by decide⟩

end ottto_service.composition_kinds.shell
