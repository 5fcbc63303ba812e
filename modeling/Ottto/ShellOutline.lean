-- How many segments a shell command keeps (composition_kinds/shell.rs). The outline of a script is
-- its output-producing pipelines with no limit on their number: one segment each, or the outline of
-- a nested script that stands alone. What `classify_shell` returns is the outline, cut.
import Ottto.CappedFeed
import Ottto.ShellScript

open capped_feed

namespace ottto_service.composition_kinds.shell

/-- The pipelines of a script, in order: what stands between separators, and what follows the last
one. -/
def pipelines (p : Pipeline) : List Tok → List (List SimpleCommand)
  | [] => []
  | token :: more =>
    if token = .Separator then p.stages :: pipelines Pipeline.empty more
    else pipelines (p.add token) more

variable {F : Type} [ShownFile F]

/-- What a pipeline adds to the outline. -/
def outline_output (inner : Text → EvalState → List (Feed (Segment F))) :
    Output F → List (Feed (Segment F))
  | .Nothing => []
  | .Segment segment => [.item segment]
  | .Script script state => [.batch (inner script state)]

def outline_pipelines (inner : Text → EvalState → List (Feed (Segment F))) (depth : Nat) :
    List (List SimpleCommand) → EvalState → List (Feed (Segment F))
  | [], _ => []
  | stages :: more, state =>
    let (output, state) :=
      pipeline_output (fun script state => leaves (inner script state)) depth stages state
    outline_output inner output ++ outline_pipelines inner depth more state

def outline (left : Nat) (script : Text) (state : EvalState) : List (Feed (Segment F)) :=
  let inner := match left with
    | 0 => fun _ _ => []
    | left + 1 => outline left
  outline_pipelines inner (MAX_NESTING - left)
    (pipelines Pipeline.empty (tokens script ++ [.Separator])) state

/-! ## The segments kept -/

section

variable {nested nested' : Text → EvalState → List (Segment F)}

/-- A pipeline of several stages takes the first segment of a nested script alone. -/
theorem eval_stages_of_head (h : ∀ script state, (nested script state).head? =
    (nested' script state).head?) (single : Bool) (depth index : Nat)
    (stages : List SimpleCommand) (state : EvalState) (tally : Tally F) :
    eval_stages nested single depth index stages state tally =
      eval_stages nested' single depth index stages state tally := by
  induction stages generalizing index state tally with
  | nil => rfl
  | cons stage more ih =>
    simp only [eval_stages, h, ih]

theorem pipeline_output_of_head (h : ∀ script state, (nested script state).head? =
    (nested' script state).head?) (depth : Nat) (stages : List SimpleCommand) (state : EvalState) :
    pipeline_output nested depth stages state = pipeline_output nested' depth stages state := by
  simp only [pipeline_output, eval_stages_of_head h]

end

/-- The tokens are read until the segments are enough, and the outline is kept as far. -/
theorem eval_tokens_keeps (inner : Text → EvalState → List (Feed (Segment F))) (depth : Nat)
    (more : List Tok) (r : Reading F) (hroom : r.out.length < MAX_SEGMENTS) :
    (eval_tokens (fun script state => keep MAX_SEGMENTS [] (inner script state)) depth more r).out =
      keep MAX_SEGMENTS r.out
        (outline_pipelines inner depth (pipelines r.pipeline more) r.state) := by
  have hhead := pipeline_output_of_head
    (fun script state => keep_head (n := MAX_SEGMENTS) (by decide) (inner script state)) depth
  induction more generalizing r with
  | nil => simp [eval_tokens, pipelines, outline_pipelines, keep]
  | cons token more ih =>
    rw [eval_tokens, pipelines, eval_token]
    by_cases hsep : token = .Separator
    · rw [if_pos hsep, if_pos hsep, outline_pipelines, eval_pipeline, hhead]
      rcases pipeline_output _ depth r.pipeline.stages r.state with ⟨output, state⟩
      cases output with
      | Nothing =>
        simp only [outline_output, List.nil_append]
        rw [if_neg (Nat.not_le.mpr hroom)]
        exact ih ⟨Pipeline.empty, state, r.out⟩ hroom
      | Segment segment =>
        have hkept : Feed.kept MAX_SEGMENTS (.item segment) = [segment] := by rw [Feed.kept]
        simp only [outline_output, List.singleton_append]
        rw [← hkept]
        by_cases hfull : MAX_SEGMENTS ≤ (r.out ++ Feed.kept MAX_SEGMENTS (.item segment)).length
        · rw [if_pos hfull, keep_full hfull]
        · rw [if_neg hfull, keep_on hfull]
          exact ih ⟨Pipeline.empty, state, _⟩ (Nat.not_le.mp hfull)
      | Script script start =>
        have hkept : Feed.kept MAX_SEGMENTS (.batch (inner script start)) =
            keep MAX_SEGMENTS [] (inner script start) := by rw [Feed.kept]
        simp only [outline_output, List.singleton_append]
        rw [← hkept]
        by_cases hfull : MAX_SEGMENTS ≤
            (r.out ++ Feed.kept MAX_SEGMENTS (.batch (inner script start))).length
        · rw [if_pos hfull, keep_full hfull]
        · rw [if_neg hfull, keep_on hfull]
          exact ih ⟨Pipeline.empty, state, _⟩ (Nat.not_le.mp hfull)
    · rw [if_neg hsep, if_neg hsep, if_neg (Nat.not_le.mpr hroom)]
      exact ih { r with pipeline := r.pipeline.add token } hroom

/-- At every level of nesting a script keeps the start of its outline. -/
theorem eval_script_keeps (left : Nat) (script : Text) (state : EvalState) :
    (eval_script left script state : List (Segment F)) =
      keep MAX_SEGMENTS [] (outline left script state) := by
  induction left generalizing script state with
  | zero =>
    exact eval_tokens_keeps (F := F) (fun _ _ => []) MAX_NESTING (tokens script ++ [.Separator])
      ⟨Pipeline.empty, state, []⟩ (show 0 < MAX_SEGMENTS by decide)
  | succ left ih =>
    have hnested : (eval_script left : Text → EvalState → List (Segment F)) = fun script state =>
        keep MAX_SEGMENTS [] (outline left script state) := by
      funext script state
      exact ih script state
    rw [eval_script, outline, hnested]
    exact eval_tokens_keeps (outline left) _ _ ⟨Pipeline.empty, state, []⟩ (show 0 < MAX_SEGMENTS by decide)

/-- The outline of a command run in `cwd`. -/
def outline_shell (script : Text) (cwd : Option Path) : List (Feed ShellSegment) :=
  outline MAX_NESTING script (start_state cwd)

/-- A command keeps no more than its cap, with nothing left out when it keeps fewer, exactly when no
nested script that starts after some segment holds both the last segment within the cap and the one
after it: such a script is appended whole. -/
theorem segments_capped_iff (script : Text) (cwd : Option Path) :
    ((classify_shell script cwd).length ≤ MAX_SEGMENTS ∧
      ((classify_shell script cwd).length < MAX_SEGMENTS →
        classify_shell script cwd = leaves (outline_shell script cwd))) ↔
      ¬ Straddles MAX_SEGMENTS (outline_shell script cwd) := by
  rw [classify_shell, eval_script_keeps, ← keep_le_iff (by decide), ← outline_shell]
  exact and_iff_left (fun hless => keep_all hless)

/-- Sixty-three commands, and then a script of two. -/
def long_command : Text :=
  (List.replicate 63 "a;".toList).flatten ++ "sh -c 'a;a'".toList

theorem a_nested_script_passes_the_cap : ¬ (classify_shell long_command none).length ≤ MAX_SEGMENTS := by
  decide +kernel

end ottto_service.composition_kinds.shell
