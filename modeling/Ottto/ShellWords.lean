-- The words behind the files that a shell command shows (composition_kinds/shell.rs): the outline of
-- a command in the words that its reads join. What `classify_shell` returns is this outline, cut, with
-- each word joined.
import Ottto.ShellOutline

open capped_feed

namespace ottto_service.composition_kinds.shell

open List Option

/-- A word that names a file, and the folder that it is joined to. -/
structure FileWord where
  base : Option Text
  raw : Text
  fits : (join base raw).isSome

def FileWord.path (word : FileWord) : Text := (join word.base word.raw).get word.fits

theorem FileWord.join_eq (word : FileWord) : join word.base word.raw = some word.path :=
  (some_get word.fits).symm

instance : ShownFile FileWord where
  shown base raw := if h : (join base raw).isSome then some ⟨base, raw, h⟩ else none
  path := FileWord.path
  path_shown base raw := by
    split
    · rename_i h
      exact some_get h
    · rename_i h
      exact (not_isSome_iff_eq_none.mp h).symm

/-- The outline of a command run in `cwd`, in words. -/
def outline_words (script : Text) (cwd : Option Path) : List (Feed (Segment FileWord)) :=
  outline MAX_NESTING script (start_state cwd)

/-! ## The same run with the paths alone -/

section

variable {F : Type} [ShownFile F]

def Segment.joined (segment : Segment F) : ShellSegment :=
  { shell_class := segment.shell_class, paths := segment.paths.map ShownFile.path }

def Stage.joined : Stage F → Stage Text
  | .Silent => .Silent
  | .Filter => .Filter
  | .Class shell_class paths => .Class shell_class (paths.map ShownFile.path)
  | .Nested script state => .Nested script state

def Tally.joined (tally : Tally F) : Tally Text :=
  { result := tally.result.map (Prod.map id (List.map ShownFile.path)),
    extra_reads := tally.extra_reads.map ShownFile.path,
    prints := tally.prints }

def Output.joined : Output F → Output Text
  | .Nothing => .Nothing
  | .Segment segment => .Segment segment.joined
  | .Script script state => .Script script state

def Reading.joined (r : Reading F) : Reading Text :=
  { pipeline := r.pipeline, state := r.state, out := r.out.map Segment.joined }

variable (F)

theorem shown_joined (base : Option Text) (raw : Text) :
    ShownFile.shown base raw = (ShownFile.shown base raw : Option F).map ShownFile.path :=
  (ShownFile.path_shown base raw).symm

theorem revision_path_joined (dir : Option Text) (text : Text) :
    revision_path dir text = (revision_path dir text : Option F).map ShownFile.path := by
  unfold revision_path
  split
  · rfl
  · split
    · rfl
    · split
      · exact shown_joined F dir _
      · exact shown_joined F none _

/-- The words that name files, and their paths. -/
theorem filterMap_joined {shownText : Text → Option Text} {shownFile : Text → Option F}
    (h : ∀ text, shownText text = (shownFile text).map ShownFile.path) (texts : List Text) :
    texts.filterMap shownText = (texts.filterMap shownFile).map ShownFile.path := by
  rw [map_filterMap]
  exact congrArg (List.filterMap · texts) (funext h)

theorem eval_git_joined (args : List Word) (state : EvalState) :
    eval_git args state = (eval_git args state : Stage F).joined := by
  unfold eval_git
  dsimp only
  split
  · rfl
  · split
    · rfl
    · split
      · rw [filterMap_joined F (revision_path_joined F _), ← map_take, isEmpty_map]
        split
        · rfl
        · rfl
      · rfl

theorem eval_reader_joined (program : Text) (args : List Word) (heredoc : Bool)
    (inputs : List Word) (index : Nat) (state : EvalState) :
    eval_reader program args heredoc inputs index state =
      (eval_reader program args heredoc inputs index state : Stage F).joined := by
  unfold eval_reader
  dsimp only
  split
  · rfl
  · split
    · rfl
    · split
      · split
        · rfl
        · rfl
      · rw [filterMap_joined F (shown_joined F state.base), ← map_take]
        rfl

theorem eval_program_joined (program : Text) (args : List Word) (heredoc : Bool)
    (inputs : List Word) (index depth : Nat) (state : EvalState) :
    eval_program program args heredoc inputs index depth state =
      (eval_program program args heredoc inputs index depth state : Stage F).joined := by
  simp only [eval_program, eval_git_joined F, eval_reader_joined F, apply_ite Stage.joined]
  split
  · split
    · rfl
    · split
      · rfl
      · split
        · rfl
        · rfl
  · rfl

theorem eval_words_joined (heredoc : Bool) (inputs : List Word) (index depth skip : Nat)
    (words : List Word) (state : EvalState) :
    eval_words heredoc inputs index depth skip words state =
      Prod.map Stage.joined id
        (eval_words heredoc inputs index depth skip words state : Stage F × EvalState) := by
  induction words generalizing skip state with
  | nil => cases skip <;> rfl
  | cons first args ih =>
    cases skip with
    | succ skip => exact ih skip state
    | zero =>
      simp only [eval_words, eval_program_joined F, ih, apply_ite (Prod.map Stage.joined id)]
      rfl

theorem eval_command_joined (command : SimpleCommand) (index : Nat) (state : EvalState)
    (depth : Nat) :
    eval_command command index state depth = Prod.map Stage.joined id
      (eval_command command index state depth : Stage F × EvalState) := by
  unfold eval_command
  dsimp only
  split
  · split
    · rfl
    · rfl
  · split
    · rfl
    · exact eval_words_joined F _ _ _ _ _ _ _

variable {F}

theorem count_class_joined (tally : Tally F) (shell_class : ShellClass) (paths : List F) :
    (count_class tally shell_class paths).joined =
      count_class tally.joined shell_class (paths.map ShownFile.path) := by
  rcases tally with ⟨_ | ⟨first, files⟩, extra_reads, prints⟩
  · rfl
  · simp only [count_class, Tally.joined, map_some, Prod.map_apply, id_eq]
    split
    · simp
    · rfl

theorem head_joined (segments : List (Segment F)) :
    (segments.map Segment.joined).head?.map (fun s => (s.shell_class, s.paths)) =
      (segments.head?.map (fun s => (s.shell_class, s.paths))).map
        (Prod.map id (List.map ShownFile.path)) := by
  cases segments with
  | nil => rfl
  | cons s segments => rfl

/-- A nested script of the run, with the paths alone. -/
abbrev joined_script (nested : Text → EvalState → List (Segment F)) (script : Text)
    (state : EvalState) : List ShellSegment :=
  (nested script state).map Segment.joined

variable (nested : Text → EvalState → List (Segment F))

theorem eval_stages_joined (single : Bool) (depth index : Nat) (stages : List SimpleCommand)
    (state : EvalState) (tally : Tally F) :
    eval_stages (joined_script nested) single depth index stages state tally.joined =
      Prod.map (Sum.map Tally.joined id) id
        (eval_stages nested single depth index stages state tally) := by
  induction stages generalizing index state tally with
  | nil => rfl
  | cons stage more ih =>
    rw [eval_stages, eval_stages, eval_command_joined F]
    rcases eval_command stage index state depth with ⟨first | first | ⟨shell_class, paths⟩ |
      ⟨script, inner⟩, state'⟩
    · exact ih _ _ _
    · exact ih _ _ { tally with prints := true }
    · have hcount := count_class_joined { tally with prints := true } shell_class paths
      have h := ih (index + 1) state' (count_class { tally with prints := true } shell_class paths)
      rw [hcount] at h
      exact h
    · cases single with
      | true => rfl
      | false =>
        let first := (nested script inner).head?.map (fun s => (s.shell_class, s.paths))
        have hfirst : ((joined_script nested script inner).head?.map
            (fun s => (s.shell_class, s.paths))) =
              first.map (Prod.map id (List.map ShownFile.path)) := head_joined _
        have h := ih (index + 1) state'
          { tally with result := tally.result.or first, prints := true }
        rw [Tally.joined, map_or, ← hfirst] at h
        exact h

theorem retain_new_joined (seen : List Text) (paths : List F) :
    retain_new seen (paths.map ShownFile.path) = (retain_new seen paths).map ShownFile.path := by
  induction paths generalizing seen with
  | nil => rfl
  | cons p paths ih =>
    rw [map_cons, retain_new, retain_new]
    by_cases hseen : ShownFile.path p ∈ seen
    · rw [if_pos hseen, if_pos (show ShownFile.path (ShownFile.path p) ∈ seen from hseen), ih]
    · rw [if_neg hseen, if_neg (show ShownFile.path (ShownFile.path p) ∉ seen from hseen),
        map_cons, ← ih]
      rfl

theorem segment_of_joined (tally : Tally F) :
    segment_of tally.joined = (segment_of tally).joined := by
  rcases tally with ⟨_ | ⟨shell_class, paths⟩, extra_reads, prints⟩
  · rfl
  · simp only [segment_of, Tally.joined, map_some, getD_some, Prod.map_apply, id_eq,
      ← map_append, retain_new_joined, ← map_take, apply_ite Segment.joined]
    rfl

theorem pipeline_output_joined (depth : Nat) (stages : List SimpleCommand) (state : EvalState) :
    pipeline_output (joined_script nested) depth stages state =
      Prod.map Output.joined id (pipeline_output nested depth stages state) := by
  unfold pipeline_output
  dsimp only
  split
  · rfl
  · have hstages := eval_stages_joined nested ((stages.filter is_stage).length == 1) depth 0
      (stages.filter is_stage) state ⟨none, [], false⟩
    rw [show Tally.joined ⟨none, [], false⟩ = (⟨none, [], false⟩ : Tally Text) from rfl] at hstages
    rw [hstages]
    rcases eval_stages nested _ depth 0 _ state _ with ⟨tally | ⟨script, inner⟩, state'⟩
    · simp only [Prod.map_apply, Sum.map_inl, id_eq, apply_ite Output.joined, segment_of_joined]
      rfl
    · simp only [Prod.map_apply, Sum.map_inr, id_eq, apply_ite Output.joined]
      rfl

theorem eval_pipeline_joined (depth : Nat) (stages : List SimpleCommand) (state : EvalState)
    (out : List (Segment F)) :
    eval_pipeline (joined_script nested) depth stages state (out.map Segment.joined) =
      Prod.map id (List.map Segment.joined) (eval_pipeline nested depth stages state out) := by
  rw [eval_pipeline, eval_pipeline, pipeline_output_joined]
  rcases pipeline_output nested depth stages state with ⟨_ | segment | ⟨script, inner⟩, state'⟩
  · rfl
  · simp [Output.joined]
  · simp [Output.joined]

theorem eval_token_joined (depth : Nat) (r : Reading F) (token : Tok) :
    eval_token (joined_script nested) depth r.joined token =
      (eval_token nested depth r token).joined := by
  unfold eval_token
  split
  · simp only [Reading.joined, eval_pipeline_joined]
    rfl
  · rfl

theorem eval_tokens_joined (depth : Nat) (more : List Tok) (r : Reading F) :
    eval_tokens (joined_script nested) depth more r.joined =
      (eval_tokens nested depth more r).joined := by
  induction more generalizing r with
  | nil => rfl
  | cons token more ih =>
    rw [eval_tokens, eval_tokens, eval_token_joined, ih]
    have hlength : (eval_token nested depth r token).joined.out.length =
        (eval_token nested depth r token).out.length := length_map _
    simp only [hlength, apply_ite Reading.joined]

end

theorem eval_script_joined (F : Type) [ShownFile F] (left : Nat) (script : Text) (state : EvalState) :
    eval_script left script state =
      (eval_script left script state : List (Segment F)).map Segment.joined := by
  induction left generalizing script state with
  | zero =>
    exact congrArg Reading.out (eval_tokens_joined (F := F) (fun _ _ => []) MAX_NESTING
      (tokens script ++ [.Separator]) ⟨Pipeline.empty, state, []⟩)
  | succ left ih =>
    have hnested : eval_script left = joined_script (eval_script left : Text → EvalState →
        List (Segment F)) := by
      funext script state
      exact ih script state
    rw [eval_script, eval_script, hnested]
    exact congrArg Reading.out (eval_tokens_joined _ _ _ ⟨Pipeline.empty, state, []⟩)

/-- What a command returns is its outline in words, cut, with each word joined. -/
theorem classify_shell_joined (script : Text) (cwd : Option Path) :
    classify_shell script cwd =
      (keep MAX_SEGMENTS [] (outline_words script cwd)).map Segment.joined := by
  rw [outline_words, ← eval_script_keeps]
  exact eval_script_joined FileWord MAX_NESTING script (start_state cwd)

end ottto_service.composition_kinds.shell
