-- The segments of a shell command (composition_kinds/shell.rs): its tokens in pipelines, and what
-- each pipeline adds until the segments kept are enough.
import Ottto.ShellEval

namespace ottto_service.composition_kinds.shell

/-- The tokens of a script. The default is never used: `tokens_run` always returns. -/
def tokens (script : Text) : List Tok := (tokens_run script).getD []

/-- The stages read so far. There is always a last one. -/
structure Pipeline where
  before : List SimpleCommand
  last : SimpleCommand

def Pipeline.empty : Pipeline := { before := [], last := SimpleCommand.default }

def Pipeline.stages (p : Pipeline) : List SimpleCommand := p.before ++ [p.last]

def redirect_command (command : SimpleCommand) (kind : Redir) (target : Option Word) :
    SimpleCommand :=
  match kind with
  | .StdoutToFile => { command with stdout_to_file := true }
  | .HereDoc => { command with heredoc := true }
  | .Input => { command with inputs := command.inputs ++ target.toList }
  | .Other => command

/-- One token into the pipeline. A separator ends it, and is read by `eval_token`. -/
def Pipeline.add (p : Pipeline) : Tok → Pipeline
  | .Word word => { p with last := { p.last with words := p.last.words ++ [word] } }
  | .Redirect kind target => { p with last := redirect_command p.last kind target }
  | .Pipe => { before := p.stages, last := SimpleCommand.default }
  | .Separator => p

/-- A stage with something to run. -/
def is_stage (stage : SimpleCommand) : Bool :=
  !stage.words.isEmpty || stage.heredoc || !stage.inputs.isEmpty

/-- What the stages of a pipeline have given so far. -/
structure Tally (F : Type) where
  result : Option (ShellClass × List F)
  extra_reads : List F
  prints : Bool

variable {F : Type}

/-- One stage's class. The first class of the pipeline counts, and later reads add to a read. -/
def count_class (tally : Tally F) (shell_class : ShellClass) (paths : List F) : Tally F :=
  match tally.result with
  | none => { tally with result := some (shell_class, paths) }
  | some (first, _) =>
    if first = .Read ∧ shell_class = .Read then
      { tally with extra_reads := tally.extra_reads ++ paths }
    else tally

variable [ShownFile F]

/-- The stages in order. A nested script that stands alone ends the loop: its segments are the
pipeline's. -/
def eval_stages (nested : Text → EvalState → List (Segment F)) (single : Bool) (depth : Nat) :
    Nat → List SimpleCommand → EvalState → Tally F → (Tally F ⊕ Text × EvalState) × EvalState
  | _, [], state, tally => (.inl tally, state)
  | index, stage :: more, state, tally =>
    match eval_command stage index state depth with
    | (.Silent, state) => eval_stages nested single depth (index + 1) more state tally
    | (.Filter, state) =>
      eval_stages nested single depth (index + 1) more state { tally with prints := true }
    | (.Class shell_class paths, state) =>
      eval_stages nested single depth (index + 1) more state
        (count_class { tally with prints := true } shell_class paths)
    | (.Nested script inner, state) =>
      if single then (.inr (script, inner), state)
      else
        let first := (nested script inner).head?.map (fun s => (s.shell_class, s.paths))
        eval_stages nested single depth (index + 1) more state
          { tally with result := tally.result.or first, prints := true }

/-- `paths.retain(|path| seen.insert(path.clone()))`. -/
def retain_new (seen : List Text) : List F → List F
  | [] => []
  | p :: paths =>
    if ShownFile.path p ∈ seen then retain_new seen paths
    else p :: retain_new (ShownFile.path p :: seen) paths

/-- The segment of a pipeline that prints. -/
def segment_of (tally : Tally F) : Segment F :=
  let (shell_class, paths) := tally.result.getD (.Other, [])
  if shell_class = .Read then
    { shell_class := shell_class,
      paths := (retain_new [] (paths ++ tally.extra_reads)).take MAX_SHELL_PATH_TOKENS }
  else { shell_class := shell_class, paths := [] }

/-- What a pipeline gives. -/
inductive Output (F : Type)
  | Nothing
  | Segment (segment : Segment F)
  /-- The segments of a nested script that stands alone. -/
  | Script (script : Text) (state : EvalState)

/-- The part of `eval_pipeline` before the segments are appended. -/
def pipeline_output (nested : Text → EvalState → List (Segment F)) (depth : Nat)
    (stages : List SimpleCommand) (state : EvalState) : Output F × EvalState :=
  let stages := stages.filter is_stage
  match stages.getLast? with
  | none => (.Nothing, state)
  | some last =>
    let reaches_model := !last.stdout_to_file
    match eval_stages nested (stages.length == 1) depth 0 stages state ⟨none, [], false⟩ with
    | (.inr (script, inner), state) =>
      (if reaches_model then .Script script inner else .Nothing, state)
    | (.inl tally, state) =>
      (if reaches_model && tally.prints then .Segment (segment_of tally) else .Nothing, state)

def eval_pipeline (nested : Text → EvalState → List (Segment F)) (depth : Nat)
    (stages : List SimpleCommand) (state : EvalState) (out : List (Segment F)) :
    EvalState × List (Segment F) :=
  match pipeline_output nested depth stages state with
  | (.Nothing, state) => (state, out)
  | (.Segment segment, state) => (state, out ++ [segment])
  | (.Script script inner, state) => (state, out ++ nested script inner)

/-- The locals of `eval_script`'s loop. -/
structure Reading (F : Type) where
  pipeline : Pipeline
  state : EvalState
  out : List (Segment F)

def eval_token (nested : Text → EvalState → List (Segment F)) (depth : Nat) (r : Reading F)
    (token : Tok) : Reading F :=
  if token = .Separator then
    let (state, out) := eval_pipeline nested depth r.pipeline.stages r.state r.out
    { pipeline := Pipeline.empty, state := state, out := out }
  else { r with pipeline := r.pipeline.add token }

def eval_tokens (nested : Text → EvalState → List (Segment F)) (depth : Nat) :
    List Tok → Reading F → Reading F
  | [], r => r
  | token :: more, r =>
    let r := eval_token nested depth r token
    if MAX_SEGMENTS ≤ r.out.length then r else eval_tokens nested depth more r

/-- The segments of a script at the depth that leaves `left` levels of nesting below it. At the last
level `eval_words` makes no nested script. -/
def eval_script (left : Nat) (script : Text) (state : EvalState) : List (Segment F) :=
  let nested := match left with
    | 0 => fun _ _ => []
    | left + 1 => eval_script left
  (eval_tokens nested (MAX_NESTING - left) (tokens script ++ [.Separator])
    ⟨Pipeline.empty, state, []⟩).out

def start_state (cwd : Option Path) : EvalState :=
  { base := cwd.map (fun cwd => normalize_lexically cwd.to_string_lossy), vars := [] }

/-- The output-producing pipelines of a shell command run in `cwd`, in order. A `cd` changes the
folder later relative paths join to. -/
def classify_shell (script : Text) (cwd : Option Path) : List ShellSegment :=
  eval_script MAX_NESTING script (start_state cwd)

end ottto_service.composition_kinds.shell
