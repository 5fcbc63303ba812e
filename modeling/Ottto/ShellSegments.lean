-- What holds of the segments of every shell command (composition_kinds/shell.rs): no text makes the
-- reader fail, a read names each file once, and a pipeline written to a file shows nothing.
import Ottto.ShellPaths
import Ottto.ShellTotal
import Ottto.ShellWords

open capped_feed text_slice

namespace ottto_service.composition_kinds.shell

open List

/-! ## Variables -/

/-- The name and its bytes are the start of what follows the `$`. -/
theorem variable_name_total (after : Text) : ∃ r, variable_name after = some r ∧
    ∀ name used, r = some (name, used) → ∃ pre post, after = pre ++ post ∧ used = byte_len pre := by
  unfold variable_name
  split
  · rename_i hbrace
    obtain ⟨inner, rfl⟩ : ∃ inner, after = '{' :: inner := by
      cases after with
      | nil => simp at hbrace
      | cons c inner => exact ⟨inner, by rw [Option.some.inj hbrace]⟩
    have hcut : from_byte ('{' :: inner) 1 = some inner := from_byte_append ['{'] inner
    rw [hcut]
    cases hfind : find (· == '}') inner with
    | none =>
      refine ⟨none, ?_, by simp⟩
      simp [hfind]
    | some stop =>
      obtain ⟨name, c, post, rfl, rfl, hc, -⟩ := find_some hfind
      have hc' : c = '}' := eq_of_beq hc
      subst hc'
      refine ⟨some (name, byte_len name + 2), ?_, ?_⟩
      · simp [hfind, to_byte_append]
      · intro name' used h
        cases h
        have hbytes : byte_len ('{' :: name ++ ['}']) = byte_len name + 2 := by
          have hopen : ('{' : Char).utf8Size = 1 := by decide
          have hclose : ('}' : Char).utf8Size = 1 := by decide
          simp only [cons_append, byte_len_cons, byte_len_append, byte_len_nil, hopen, hclose]
          omega
        exact ⟨'{' :: name ++ ['}'], post, by simp, hbytes.symm⟩
  · cases hfind : find (fun c => !is_name_char c) after with
    | none =>
      refine ⟨some (after, byte_len after), ?_, ?_⟩
      · have hall := to_byte_append after []
        rw [append_nil] at hall
        simp [hall]
      · intro name used h
        cases h
        exact ⟨after, [], by simp, rfl⟩
    | some stop =>
      obtain ⟨name, c, post, rfl, rfl, -, -⟩ := find_some hfind
      refine ⟨some (name, byte_len name), by simp [to_byte_append], ?_⟩
      intro name' used h
      cases h
      exact ⟨name, c :: post, rfl, rfl⟩

theorem resolve_turns_total (vars : List (Text × Text)) (fuel : Nat) (resolved rest : Text)
    (hfuel : rest.length < fuel) : ∃ r, resolve_turns vars fuel resolved rest = some r := by
  induction fuel generalizing resolved rest with
  | zero => omega
  | succ fuel ih =>
    rw [resolve_turns]
    cases hfind : find (· == '$') rest with
    | none => exact ⟨_, rfl⟩
    | some index =>
      obtain ⟨before, c, after, rfl, rfl, hc, -⟩ := find_some hfind
      have hsize : c.utf8Size = 1 := by
        rw [eq_of_beq hc]
        decide
      have hafter : from_byte (before ++ c :: after) (byte_len before + 1) = some after := by
        have h := from_byte_append (before ++ [c]) after
        rwa [byte_len_append, byte_len_cons, hsize, append_assoc] at h
      obtain ⟨r, hr, hspan⟩ := variable_name_total after
      simp only [to_byte_append, hafter, hr, Option.bind_eq_bind, Option.bind_some]
      cases r with
      | none => exact ⟨none, rfl⟩
      | some found =>
        obtain ⟨name, used⟩ := found
        obtain ⟨pre, post, rfl, rfl⟩ := hspan name used rfl
        dsimp only
        cases vars.reverse.find? (fun var => var.1 == name) with
        | none => exact ⟨none, rfl⟩
        | some var =>
          simp only [from_byte_append, Option.bind_some]
          refine ih _ post ?_
          simp only [length_append, length_cons] at hfuel
          omega

/-- Every word resolves, or says that it does not. -/
theorem resolve_run_total (word : Word) (state : EvalState) :
    ∃ r, resolve_run word state = some r := by
  rw [resolve_run]
  split
  · obtain ⟨r, hr⟩ := resolve_turns_total state.vars (word.text.length + 1) [] word.text
      (Nat.lt_succ_self _)
    rw [hr]
    exact ⟨_, rfl⟩
  · exact ⟨_, rfl⟩

/-! ## Pipelines -/

/-- The last stage with something to run writes its standard output to a file. -/
def WritesToFile (stages : List SimpleCommand) : Prop :=
  ∃ last, (stages.filter is_stage).getLast? = some last ∧ last.stdout_to_file = true

/-- Such a pipeline adds no segment, wherever in a run it stands. -/
theorem writes_to_file_shows_nothing {stages : List SimpleCommand} (h : WritesToFile stages)
    (nested : Text → EvalState → List ShellSegment) (depth : Nat) (state : EvalState)
    (out : List ShellSegment) : (eval_pipeline nested depth stages state out).2 = out := by
  obtain ⟨last, hlast, hfile⟩ := h
  have houtput : (pipeline_output nested depth stages state).1 = .Nothing := by
    simp only [pipeline_output, hlast, hfile]
    rcases eval_stages nested _ depth 0 _ state _ with ⟨tally | ⟨script, inner⟩, state'⟩
    · simp
    · simp
  rw [eval_pipeline]
  rcases hrun : pipeline_output nested depth stages state with ⟨output, state'⟩
  rw [hrun] at houtput
  cases houtput
  rfl

/-! ## Files that a read shows -/

/-- A path that names a file, with no `.` or `..` left in it when it is absolute. -/
structure WellNamed (path : Text) : Prop where
  named : path ≠ []
  normal : path.head? = some '/' → normalize_lexically path = path

/-- A path of which nothing is left, or an absolute one that still has something to resolve. -/
def Unresolved (path : Text) : Prop :=
  path = [] ∨ ∃ rest, path = '/' :: rest ∧ rest ≠ [] ∧
    ∃ part ∈ rest.splitOn '/', part = [] ∨ part = ['.'] ∨ part = ['.', '.']

/-- A word read as written, with its folder unknown, with such a path after its `./`. -/
def Stray (base : Option Text) (raw : Text) : Prop :=
  base = none ∧ ∃ rest, trim raw = '.' :: '/' :: rest ∧ Unresolved rest

theorem well_named_iff (path : Text) : WellNamed path ↔ ¬ Unresolved path := by
  constructor
  · rintro ⟨hnamed, hnormal⟩ (rfl | ⟨rest, rfl, hmore, part, hpart, hbad⟩)
    · exact hnamed rfl
    · rcases (normalize_eq_iff rest).mp (hnormal rfl) with hroot | hclean
      · exact hmore hroot
      · have := hclean part hpart
        tauto
  · intro h
    refine ⟨fun hnil => h (.inl hnil), fun hslash => ?_⟩
    obtain ⟨rest, rfl⟩ : ∃ rest, path = '/' :: rest := by
      cases path with
      | nil => simp at hslash
      | cons c rest => exact ⟨rest, by rw [Option.some.inj hslash]⟩
    refine (normalize_eq_iff rest).mpr (or_iff_not_imp_left.mpr fun hmore part hpart => ?_)
    by_contra hbad
    exact h (.inr ⟨rest, rfl, hmore, part, hpart, by tauto⟩)

theorem well_named_normalized {path : Text} (h : path ≠ []) : WellNamed (normalize_lexically path) := by
  refine ⟨?_, fun _ => normalize_idempotent path⟩
  unfold normalize_lexically
  split
  · exact h
  · simp

/-- The one branch of `join` that can name nothing. -/
theorem joined_well_named_iff {base : Option Text} {raw path : Text}
    (h : join base raw = some path) : WellNamed path ↔ ¬ Stray base raw := by
  unfold join at h
  dsimp only at h
  split at h
  · cases h
  rename_i hfits
  have hne : trim raw ≠ [] := fun h => hfits (.inl h)
  split at h
  · rename_i hslash
    cases h
    refine iff_of_true (well_named_normalized hne) ?_
    rintro ⟨-, rest, hraw, -⟩
    simp [hraw] at hslash
  rename_i hrelative
  split at h
  · rename_i hhome
    cases h
    refine iff_of_true ⟨hne, fun hslash => absurd hslash hrelative⟩ ?_
    rintro ⟨-, rest, hraw, -⟩
    simp [hraw] at hhome
  · cases base with
    | some base =>
      cases h
      refine iff_of_true (well_named_normalized (by simp)) ?_
      rintro ⟨hbase, -⟩
      cases hbase
    | none =>
      cases h
      by_cases hhere : ∃ rest, trim raw = '.' :: '/' :: rest
      · obtain ⟨rest, hrest⟩ := hhere
        have hstrip : strip_here (trim raw) = rest := by rw [hrest]; rfl
        rw [hstrip]
        rw [well_named_iff]
        constructor
        · rintro hgood ⟨-, rest', hrest', hbad⟩
          rw [hrest] at hrest'
          cases hrest'
          exact hgood hbad
        · exact fun hstray hbad => hstray ⟨rfl, rest, hrest, hbad⟩
      · have hstrip : strip_here (trim raw) = trim raw := by
          unfold strip_here
          split
          · rename_i rest heq
            exact absurd ⟨rest, heq⟩ hhere
          · rfl
        rw [hstrip]
        refine iff_of_true ⟨hne, fun hslash => absurd hslash hrelative⟩ ?_
        rintro ⟨-, rest, hraw, -⟩
        exact hhere ⟨rest, hraw⟩

theorem retain_new_spec (seen paths : List Text) :
    (retain_new seen paths).Nodup ∧ ∀ p ∈ retain_new seen paths, p ∉ seen := by
  induction paths generalizing seen with
  | nil => simp [retain_new]
  | cons p paths ih =>
    rw [retain_new]
    split
    · exact ih seen
    · rename_i hnew
      obtain ⟨hnodup, hout⟩ := ih (p :: seen)
      refine ⟨nodup_cons.mpr ⟨fun hmem => hout p hmem mem_cons_self, hnodup⟩, ?_⟩
      intro q hq
      rcases mem_cons.mp hq with rfl | hq
      · exact hnew
      · exact fun hmem => hout q hq (mem_cons_of_mem _ hmem)

/-- A segment's shape, apart from what its paths are. -/
structure Shaped (segment : ShellSegment) : Prop where
  few : segment.paths.length ≤ MAX_SHELL_PATH_TOKENS
  distinct : segment.paths.Nodup
  reads_only : segment.shell_class ≠ .Read → segment.paths = []

theorem segment_of_shaped (tally : Tally Text) : Shaped (segment_of tally) := by
  unfold segment_of
  rcases tally.result.getD (.Other, []) with ⟨shell_class, paths⟩
  dsimp only
  split
  · rename_i hread
    refine ⟨by simp, ?_, fun h => absurd hread h⟩
    exact (retain_new_spec [] _).1.sublist (take_sublist _ _)
  · exact ⟨by simp, by simp, fun _ => rfl⟩

/-! ## Every run -/

theorem segment_of_output {nested : Text → EvalState → List ShellSegment} {depth : Nat}
    {stages : List SimpleCommand} {state state' : EvalState} {segment : ShellSegment}
    (h : pipeline_output nested depth stages state = (.Segment segment, state')) :
    ∃ tally, segment = segment_of tally := by
  unfold pipeline_output at h
  dsimp only at h
  split at h
  · cases h
  · split at h
    · split at h
      · cases h
      · cases h
    · rename_i tally _ _
      split at h
      · cases h
        exact ⟨tally, rfl⟩
      · cases h

section

variable {nested : Text → EvalState → List ShellSegment}
  (hnested : ∀ script state, ∀ s ∈ nested script state, Shaped s) (depth : Nat)

include hnested

theorem pipeline_shaped (stages : List SimpleCommand) (state : EvalState) {out : List ShellSegment}
    (hout : ∀ s ∈ out, Shaped s) :
    ∀ s ∈ (eval_pipeline nested depth stages state out).2, Shaped s := by
  rw [eval_pipeline]
  rcases hrun : pipeline_output nested depth stages state with ⟨output, state'⟩
  intro s hs
  cases output with
  | Nothing => exact hout s hs
  | Segment segment =>
    obtain ⟨tally, rfl⟩ := segment_of_output hrun
    rcases mem_append.mp hs with hs | hs
    · exact hout s hs
    · rw [mem_singleton.mp hs]
      exact segment_of_shaped tally
  | Script script inner =>
    rcases mem_append.mp hs with hs | hs
    · exact hout s hs
    · exact hnested script inner s hs

theorem tokens_shaped (more : List Tok) (r : Reading Text) (hout : ∀ s ∈ r.out, Shaped s) :
    ∀ s ∈ (eval_tokens nested depth more r).out, Shaped s := by
  induction more generalizing r with
  | nil => exact hout
  | cons token more ih =>
    have hstep : ∀ s ∈ (eval_token nested depth r token).out, Shaped s := by
      unfold eval_token
      split
      · exact pipeline_shaped hnested depth r.pipeline.stages r.state hout
      · exact hout
    rw [eval_tokens]
    split
    · exact hstep
    · exact ih _ hstep

end

/-- At every level of nesting. -/
theorem script_shaped (left : Nat) (script : Text) (state : EvalState) :
    ∀ s ∈ eval_script left script state, Shaped s := by
  induction left generalizing script state with
  | zero => exact tokens_shaped (by simp) _ _ _ (by simp)
  | succ left ih => exact tokens_shaped ih _ _ _ (by simp)

/-- No text makes the reader fail, each segment is well formed, and a pipeline that writes to a file
shows nothing, exactly when no word of the outline that is kept is stray. -/
theorem segments_well_formed_iff (script : Text) (cwd : Option Path) :
    ((∀ text, ∃ tokens, tokens_run text = some tokens) ∧
      (∀ word state, ∃ r, resolve_run word state = some r) ∧
      (∀ stages, WritesToFile stages → ∀ nested depth state (out : List ShellSegment),
        (eval_pipeline nested depth stages state out).2 = out) ∧
      ∀ s ∈ classify_shell script cwd,
        (s.shell_class = .Read → s.paths.length ≤ MAX_SHELL_PATH_TOKENS ∧ s.paths.Nodup ∧
          ∀ path ∈ s.paths, WellNamed path) ∧
        (s.shell_class ≠ .Read → s.paths = [])) ↔
      ∀ s ∈ keep MAX_SEGMENTS [] (outline_words script cwd), ∀ word ∈ s.paths,
        ¬ Stray word.base word.raw := by
  rw [classify_shell_joined]
  constructor
  · rintro ⟨-, -, -, hsegments⟩ s hs word hword
    obtain ⟨hread, hother⟩ := hsegments s.joined (mem_map_of_mem hs)
    have hmem : word.path ∈ s.joined.paths := mem_map_of_mem hword
    have hclass : s.joined.shell_class = .Read := by
      by_contra hclass
      rw [hother hclass] at hmem
      exact not_mem_nil hmem
    exact (joined_well_named_iff word.join_eq).mp ((hread hclass).2.2 _ hmem)
  · intro hwords
    refine ⟨tokens_run_total, resolve_run_total,
      fun stages h nested depth state out => writes_to_file_shows_nothing h nested depth state out, ?_⟩
    rw [← classify_shell_joined]
    intro s hs
    have hshaped := script_shaped MAX_NESTING script (start_state cwd) s hs
    refine ⟨fun _ => ⟨hshaped.few, hshaped.distinct, fun path hpath => ?_⟩, hshaped.reads_only⟩
    rw [classify_shell_joined] at hs
    obtain ⟨segment, hsegment, rfl⟩ := mem_map.mp hs
    obtain ⟨word, hword, rfl⟩ := mem_map.mp hpath
    exact (joined_well_named_iff word.join_eq).mpr (hwords segment hsegment word hword)

/-- `cat ./` with no folder shows a file without a name. -/
theorem a_folder_alone_names_nothing :
    ¬ ∀ s ∈ classify_shell "cat ./".toList none, ∀ path ∈ s.paths, path ≠ [] := by
  decide +kernel

end ottto_service.composition_kinds.shell
