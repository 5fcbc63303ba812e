-- What the pipelines of a shell command show the model (composition_kinds/shell.rs): their class and
-- the files that a read shows.
import Ottto.ShellLexer

open text_slice

namespace ottto_service.composition_kinds.shell

def MAX_SHELL_PATH_TOKENS : Nat := 16
def MAX_PATH_BYTES : Nat := 512
/-- Most output-producing pipelines kept for one command. -/
def MAX_SEGMENTS : Nat := 64
/-- Nesting of `bash -c '...'` scripts followed. -/
def MAX_NESTING : Nat := 3
/-- Most variables remembered from `NAME=value` within one command. -/
def MAX_VARS : Nat := 32

/-- What an output-producing pipeline shows the model. -/
inductive ShellClass
  | Read
  | Git
  | Search
  | TestsBuilds
  | Other
deriving DecidableEq

/-- One of the names. -/
def among (names : List String) (text : Text) : Bool := names.any (fun name => name.toList == text)

def starts_with (text start : Text) : Bool := start.isPrefixOf text

/-- `split_once`: the parts before and after the first `c`. -/
def split_once (c : Char) (text : Text) : Option (Text × Text) :=
  match text.dropWhile (· != c) with
  | [] => none
  | _ :: value => some (text.takeWhile (· != c), value)

/-! ## Paths -/

/-- A path of the system: Unicode text, or bytes that `to_string_lossy` mends. -/
inductive Path
  | unicode (text : Text)
  | other (lossy : Text)

def Path.to_str : Path → Option Text
  | .unicode text => some text
  | .other _ => none

def Path.to_string_lossy : Path → Text
  | .unicode text => text
  | .other lossy => lossy

/-- One part of a path: `..` leaves the folder, and the root has no parent. -/
def walk_part (parts : List Text) (part : Text) : List Text :=
  if part = [] ∨ part = ['.'] then parts
  else if part = ['.', '.'] then parts.dropLast
  else parts ++ [part]

/-- Resolve `.` and `..` in an absolute path without touching the disk. -/
def normalize_lexically (path : Text) : Text :=
  if path.head? ≠ some '/' then path
  else '/' :: ['/'].intercalate ((path.splitOn '/').foldl walk_part [])

/-- `strip_prefix("./").unwrap_or(path)`. -/
def strip_here (path : Text) : Text :=
  match path with
  | '.' :: '/' :: rest => rest
  | _ => path

/-- `raw` joined to `base` when relative and `base` is known, normalized lexically; `~` paths and
relative paths without a base stay as written. -/
def join (base : Option Text) (raw : Text) : Option Text :=
  let raw := trim raw
  if raw = [] ∨ MAX_PATH_BYTES < byte_len raw then none
  else if raw.head? = some '/' then some (normalize_lexically raw)
  else if raw.head? = some '~' then some raw
  else
    match base with
    | some base => some (normalize_lexically (trim_end_matches (· == '/') base ++ '/' :: raw))
    | none => some (strip_here raw)

/-- What stands for a file that a read shows: the path in a segment of `classify_shell`, or anything
that the path can be read from. -/
class ShownFile (F : Type) where
  shown : Option Text → Text → Option F
  path : F → Text
  path_shown : ∀ base raw, (shown base raw).map path = join base raw

open ShownFile (shown)

instance : ShownFile Text where
  shown := join
  path := id
  path_shown _ _ := Option.map_id'

/-- One output-producing pipeline of a shell command. -/
structure Segment (F : Type) where
  shell_class : ShellClass
  paths : List F

abbrev ShellSegment := Segment Text

/-! ## Variables -/

structure EvalState where
  /-- The folder relative paths join to; `none` when unknown. -/
  base : Option Text
  vars : List (Text × Text)

/-- The name after a `$`, and the bytes that it takes. The outer `none` is a cut off a character
boundary, the inner one a brace without its end. -/
def variable_name (after : Text) : Option (Option (Text × Nat)) :=
  if after.head? = some '{' then do
    let inner ← from_byte after 1
    match find (· == '}') inner with
    | none => return none
    | some end_ =>
      let name ← to_byte inner end_
      return some (name, end_ + 2)
  else do
    let end_ := (find (fun c => !is_name_char c) after).getD (byte_len after)
    let name ← to_byte after end_
    return some (name, end_)

def resolve_turns (vars : List (Text × Text)) : Nat → Text → Text → Option (Option Text)
  | 0, _, _ => none
  | fuel + 1, resolved, rest =>
    match find (· == '$') rest with
    | none => some (some (resolved ++ rest))
    | some index => do
      let before ← to_byte rest index
      let after ← from_byte rest (index + 1)
      match ← variable_name after with
      | none => return none
      | some (name, used) =>
        match vars.reverse.find? (fun var => var.1 == name) with
        | none => return none
        | some (_, value) =>
          let rest ← from_byte after used
          resolve_turns vars fuel (resolved ++ before ++ value) rest

/-- `resolve`, with a cut off a character boundary and a loop without end as `none`. -/
def resolve_run (word : Word) (state : EvalState) : Option (Option Text) :=
  if word.dynamic then do
    let resolved ← resolve_turns state.vars (word.text.length + 1) [] word.text
    return resolved.filter (fun text => !text.contains backtick)
  else some (some word.text)

/-- Replace `$NAME` and `${NAME}` from the command's own assignments; `none` when any other expansion
is left. The default is never used: `resolve_run` always returns. -/
def resolve (word : Word) (state : EvalState) : Option Text := (resolve_run word state).getD none

def is_assignment (text : Text) : Option (Text × Text) :=
  match split_once '=' text with
  | none => none
  | some (name, value) =>
    if name ≠ [] ∧ !name.head?.any is_ascii_digit ∧ name.all is_name_char then some (name, value)
    else none

def set_var (state : EvalState) (name : Text) (value : Option Text) : EvalState :=
  let vars := state.vars.filter (fun var => var.1 != name)
  match value with
  | none => { state with vars := vars }
  | some value =>
    { state with vars := if vars.length < MAX_VARS then vars ++ [(name, value)] else vars }

/-- The value of an assignment word, resolved. -/
def assigned (word : Word) (value : Text) (state : EvalState) : Option Text :=
  resolve { word with text := value } state

/-! ## Programs -/

/-- The basename of a program word (`/usr/bin/git` -> `git`). -/
def program_name (text : Text) : Text := (text.reverse.takeWhile (· != '/')).reverse

def SHELLS : List String := ["sh", "bash", "zsh", "dash", "ksh", "fish"]

/-- Commands that print nothing (tests and `read` only set a status or a variable). -/
def SILENT : List String :=
  ["cd", "pushd", "popd", "export", "set", "unset", "source", ".", "alias", "unalias", "true",
    "false", ":", "shopt", "trap", "wait", "sleep", "exit", "return", "umask", "ulimit", "mkdir",
    "touch", "rm", "rmdir", "mv", "cp", "ln", "chmod", "chown", "kill", "test", "[", "[[", "read"]

def SEARCH : List String :=
  ["grep", "egrep", "fgrep", "rg", "ag", "ack", "find", "fd", "fdfind", "locate", "mdfind", "ls",
    "tree", "exa", "eza", "lsd"]

def READERS : List String :=
  ["cat", "head", "tail", "nl", "bat", "batcat", "less", "more", "tac", "sed", "awk", "gawk", "jq",
    "yq", "cut", "sort", "uniq", "column", "xxd", "od", "hexdump", "strings"]

/-- Programs that only reshape standard input when given no file. -/
def FILTERS : List String := ["wc", "tr", "fold", "fmt", "rev", "paste"]

def BUILD_TOOLS : List String :=
  ["cargo", "rustc", "make", "gmake", "cmake", "ctest", "ninja", "meson", "bazel", "bazelisk",
    "buck", "buck2", "gradle", "gradlew", "mvn", "mvnw", "ant", "sbt", "xcodebuild", "pytest",
    "py.test", "tox", "nox", "jest", "vitest", "mocha", "ava", "tsc", "eslint", "prettier", "ruff",
    "mypy", "pyright", "black", "flake8", "pylint", "isort", "swiftlint", "swiftformat", "ktlint",
    "rubocop", "rspec", "phpunit", "clippy-driver"]

/-- Package runners whose subcommands build, test or install. -/
def PACKAGE_RUNNERS : List String := ["npm", "pnpm", "yarn", "bun", "deno"]

def PACKAGE_BUILD_SUBCOMMANDS : List String :=
  ["test", "t", "run", "run-script", "build", "lint", "typecheck", "check", "ci", "install", "i",
    "add", "compile", "fmt", "format"]

def PYTHON_BUILD_MODULES : List String :=
  ["pytest", "unittest", "mypy", "ruff", "black", "build", "pip", "tox", "nox", "compileall",
    "pyright", "flake8"]

def class_by_name (program : Text) : ShellClass :=
  if "test".toList <:+: program then .TestsBuilds else .Other

/-- The word after the first `-m`. -/
def module_argument : List Word → Option Text
  | flag :: value :: rest =>
    if flag.text = "-m".toList then some value.text else module_argument (value :: rest)
  | _ => none

def class_of_program (program : Text) (args : List Word) : ShellClass :=
  let sub := (args.find? (fun word => !starts_with word.text ['-'])).map Word.text
  let sub_among := fun names => sub.any (among names)
  if among BUILD_TOOLS program || starts_with program "cargo-".toList ||
      (among PACKAGE_RUNNERS program && sub_among PACKAGE_BUILD_SUBCOMMANDS) ||
      (among ["go", "swift", "dotnet"] program &&
        sub_among ["build", "test", "vet", "install", "generate", "package"]) ||
      (among ["pip", "pip3"] program && sub_among ["install"]) ||
      (among ["uv"] program && sub_among ["sync", "pip", "lock", "build"]) ||
      (among ["poetry"] program && sub_among ["install", "build", "lock"]) ||
      (starts_with program "python".toList &&
        (module_argument args).any (among PYTHON_BUILD_MODULES)) ||
      (among ["playwright"] program && sub_among ["test"]) then .TestsBuilds
  else class_by_name program

/-- A shell's "run this script" flag: `-c` alone or combined (`-lc`, `-ec`). The cut after the first
character is one byte long. -/
def is_script_flag (word : Text) : Bool :=
  match word with
  | '-' :: letters => !letters.isEmpty && letters.all is_ascii_alphabetic && word.contains 'c'
  | _ => false

/-! ## Commands -/

/-- How one stage of a pipeline counts. -/
inductive Stage (F : Type)
  /-- Produces nothing the model reads (`cd`, assignments, `mkdir`, writes). -/
  | Silent
  /-- Reshapes its input (`head`, `grep x`, `sort` with no file). -/
  | Filter
  | Class (shell_class : ShellClass) (paths : List F)
  /-- A nested `sh -c` script, with the state that it starts from. The source runs it where it makes
  the stage; the model runs it where the stage is counted. -/
  | Nested (script : Text) (state : EvalState)

variable {F : Type} [ShownFile F]

/-- The flags of `git` before the subcommand: the folder that `-C` moves to, and what is left. The
count is of the words that an earlier flag takes. -/
def git_flags (state : EvalState) : Nat → Option Text → List Word → Option Text × List Word
  | _, dir, [] => (dir, [])
  | taken + 1, dir, _ :: rest => git_flags state taken dir rest
  | 0, dir, word :: rest =>
    if word.text = "-C".toList then
      git_flags state 1 ((rest.head?.bind (resolve · state)).bind (join dir)) rest
    else if among ["-c", "--git-dir", "--work-tree", "--namespace"] word.text then
      git_flags state 1 dir rest
    else if starts_with word.text ['-'] then git_flags state 0 dir rest
    else (dir, word :: rest)

/-- The file of `rev:path`, which git reads from the checkout root; only `rev:./path` and
`rev:../path` are relative to the folder git runs in. -/
def revision_path (dir : Option Text) (text : Text) : Option F :=
  match split_once ':' text with
  | none => none
  | some (_, path) =>
    if path = [] ∨ path.head? = some '/' then none
    else if starts_with path "./".toList || starts_with path "../".toList then shown dir path
    else shown none path

/-- `git [-C dir] [global flags] <subcommand> ...`. -/
def eval_git (args : List Word) (state : EvalState) : Stage F :=
  let (dir, rest) := git_flags state 0 state.base args
  match rest with
  | [] => .Class .Git []
  | subcommand :: rest =>
    if among ["grep", "ls-files", "ls-tree"] subcommand.text then .Class .Search []
    else if among ["show", "cat-file"] subcommand.text then
      let texts := ((rest.filter (fun word => !starts_with word.text ['-'])).filterMap
        (resolve · state)).filter (fun text => !decide ("://".toList <:+: text))
      let paths : List F := (texts.filterMap (revision_path dir)).take MAX_SHELL_PATH_TOKENS
      if paths.isEmpty then .Class .Git [] else .Class .Read paths
    else .Class .Git []

/-- Flags of reader programs that take a separate value. -/
def reader_flag_takes_value (program flag : Text) : Bool :=
  if among ["head", "tail"] program then among ["-n", "-c", "--lines", "--bytes", "-s"] flag
  else if among ["sed"] program then among ["-e", "-f", "-l", "--expression", "--file"] flag
  else if among ["awk", "gawk"] program then
    among ["-f", "-F", "-v", "-i", "--file", "--assign"] flag
  else if among ["jq", "yq"] program then
    among ["--indent", "-L", "--tab", "-f", "--from-file"] flag
  else if among ["cut"] program then among ["-d", "-f", "-c", "-b"] flag
  else if among ["sort"] program then among ["-k", "-t", "-o", "-S", "-T", "--key"] flag
  else if among ["uniq"] program then among ["-f", "-s", "-w"] flag
  else if among ["column"] program then among ["-s", "-c", "-o"] flag
  else if among ["xxd", "od", "hexdump"] program then
    among ["-l", "-s", "-c", "-n", "-g", "-t", "-j", "-N"] flag
  else if among ["strings"] program then among ["-n", "-t"] flag
  else if among ["nl"] program then among ["-w", "-s", "-v", "-i", "-b", "-n"] flag
  else if among ["bat", "batcat"] program then
    among ["-l", "--language", "-r", "--line-range", "--style", "--theme", "-H",
      "--highlight-line"] flag
  else false

/-- The first operand of these is a script or filter, not a file. -/
def script_pending (program : Text) (args : List Word) : Bool :=
  if among ["sed"] program then
    !args.any (fun word => among ["-e", "-f", "--expression", "--file"] word.text ||
      starts_with word.text "--expression=".toList)
  else if among ["awk", "gawk"] program then !args.any (fun word => among ["-f", "--file"] word.text)
  else if among ["jq", "yq"] program then
    !args.any (fun word => among ["-f", "--from-file"] word.text)
  else false

/-- The words of a reader that name files. The count is of the words that an earlier flag takes. -/
def reader_operands (program : Text) : Bool → Nat → List Word → List Word
  | _, _, [] => []
  | pending, skip_next + 1, _ :: rest => reader_operands program pending skip_next rest
  | pending, 0, word :: rest =>
    let text := word.text
    let json := starts_with program "jq".toList || among ["yq"] program
    if json && among ["--arg", "--argjson", "--slurpfile", "--rawfile"] text then
      reader_operands program pending 2 rest
    else if json && among ["--args", "--jsonargs"] text then []
    else if text = "--".toList then reader_operands program pending 0 rest
    else if starts_with text ['-'] && decide (1 < byte_len text) then
      reader_operands program pending (if reader_flag_takes_value program text then 1 else 0) rest
    else if among ["head", "tail"] program && starts_with text ['+'] then
      reader_operands program pending 0 rest
    else if pending then reader_operands program false 0 rest
    else if among ["awk", "gawk"] program && (is_assignment text).isSome then
      reader_operands program pending 0 rest
    else word :: reader_operands program pending 0 rest

def eval_reader (program : Text) (args : List Word) (heredoc : Bool) (inputs : List Word)
    (index : Nat) (state : EvalState) : Stage F :=
  if among ["sed"] program && args.any (fun word => starts_with word.text "-i".toList ||
      decide (word.text = "--in-place".toList)) then
    -- In-place edit: a write.
    .Silent
  else if heredoc then
    -- `cat <<EOF` prints the heredoc, not a file.
    .Class .Other []
  else
    let operands := reader_operands program (script_pending program args) 0 args ++ inputs
    if operands.isEmpty then
      if 0 < index then .Filter else .Class .Other []
    else
      let texts := ((operands.filter (fun word => !word.glob)).filterMap (resolve · state)).filter
        -- An empty pair of braces is the placeholder of `xargs -I`, not a file.
        (fun text => text ≠ ['-'] && text ≠ ['\x7b', '\x7d'] && !decide ("://".toList <:+: text))
      .Class .Read ((texts.filterMap (shown state.base)).take MAX_SHELL_PATH_TOKENS)

/-- The wrapper's flags that take a separate value. -/
def wrapper_takes_value (program text : Text) : Bool :=
  (among ["sudo"] program && among ["-u", "-g", "-C", "-D", "-h", "-p"] text) ||
    (among ["nice"] program && among ["-n"] text) ||
    (among ["ionice"] program && among ["-c", "-n"] text) ||
    (among ["timeout", "gtimeout"] program &&
      among ["-s", "-k", "--signal", "--kill-after"] text) ||
    (among ["xargs"] program && among ["-n", "-I", "-P", "-L", "-d", "-s", "-E", "-a"] text) ||
    (among ["stdbuf"] program && among ["-i", "-o", "-e"] text) ||
    (among ["env"] program && among ["-u", "-S"] text) ||
    (among ["caffeinate"] program && among ["-t", "-w"] text)

/-- The words after a wrapper that are its own, and the folder that `env -C` moves to. The count is
of the words that an earlier flag takes; it may go past the last word. -/
def wrapper_skip (program : Text) : Nat → List Word → EvalState → Nat × EvalState
  | taken, [], state => (taken, state)
  | taken + 1, _ :: rest, state =>
    let (skip, state) := wrapper_skip program taken rest state
    (skip + 1, state)
  | 0, word :: rest, state =>
    let text := word.text
    if among ["env"] program && (is_assignment text).isSome then
      let (skip, state) := wrapper_skip program 0 rest state
      (skip + 1, state)
    else if among ["env"] program && among ["-C", "--chdir"] text then
      let dir := rest.head?.bind (resolve · state)
      let (skip, state) := wrapper_skip program 1 rest
        { state with base := dir.bind (join state.base) }
      (skip + 1, state)
    else if starts_with text ['-'] then
      let (skip, state) :=
        wrapper_skip program (if wrapper_takes_value program text then 1 else 0) rest state
      (skip + 1, state)
    else if among ["timeout", "gtimeout"] program && text.head?.any is_ascii_digit then (1, state)
    else (0, state)

/-- The words after `uv run` that are its own flags. -/
def runner_skip : Nat → List Word → Nat
  | taken, [] => taken
  | taken + 1, _ :: rest => runner_skip taken rest + 1
  | 0, word :: rest =>
    if !starts_with word.text ['-'] then 0
    else if among ["--with", "--project", "--directory", "--python", "-p", "--package", "--group",
        "--extra", "--env-file", "-e", "--index", "--from"] word.text then
      runner_skip 1 rest + 1
    else runner_skip 0 rest + 1

/-- `export NAME=value ..`. -/
def export_vars (args : List Word) (state : EvalState) : EvalState :=
  args.foldl (fun state word =>
    match is_assignment word.text with
    | none => state
    | some (name, value) => set_var state name (assigned word value state)) state

/-- The script of `sh -c`, from the words after the flag. A quoted script is one word; a command
array joined by spaces (`zsh -lc cat a.md`) leaves the script as the remaining words. -/
def script_text : List Word → Option Text
  | [] => none
  | [script] => some script.text
  | script :: more =>
    if script.text.contains ' ' then some script.text
    else some ([' '].intercalate ((script :: more).map Word.text))

def WRAPPERS : List String :=
  ["sudo", "doas", "nohup", "command", "builtin", "exec", "unbuffer", "caffeinate", "stdbuf", "nice",
    "ionice", "timeout", "gtimeout", "xargs", "env", "time"]

/-- The programs that no wrapper stands before. -/
def eval_program (program : Text) (args : List Word) (heredoc : Bool) (inputs : List Word)
    (index depth : Nat) (state : EvalState) : Stage F :=
  if among SHELLS program then
    match args.dropWhile (fun word => !is_script_flag word.text) with
    | [] => .Class (class_by_name program) []
    | _ :: script =>
      if MAX_NESTING ≤ depth then .Class .Other []
      else
        match script_text script with
        | none => .Class .Other []
        | some script => .Nested script state
  else if among SILENT program then .Silent
  else if among ["git"] program then eval_git args state
  else if among ["gh"] program then .Class .Git []
  else if among SEARCH program then
    -- `... | grep x` filters the stage before it.
    if 0 < index ∧ among ["grep", "egrep", "fgrep", "rg", "ag", "ack"] program then .Filter
    else .Class .Search []
  else if among ["tee"] program then .Class .Other []
  else if among READERS program then eval_reader program args heredoc inputs index state
  else if among FILTERS program then if 0 < index then .Filter else .Class .Other []
  else if among ["perl"] program && args.any (fun word =>
      starts_with word.text "-i".toList || starts_with word.text "-pi".toList) then .Silent
  else .Class (class_of_program program args) []

/-- The words after the first `skip`: `eval_words` of `rest_after(skip)` in the source. -/
def eval_words (heredoc : Bool) (inputs : List Word) (index depth : Nat) :
    Nat → List Word → EvalState → Stage F × EvalState
  | _, [], state => (.Silent, state)
  | skip + 1, _ :: rest, state => eval_words heredoc inputs index depth skip rest state
  | 0, first :: args, state =>
    let program := program_name first.text
    if among ["cd", "pushd"] program then
      let target := args.find? (fun word =>
        !starts_with word.text ['-'] || decide (word.text = ['-']))
      let base := match target.bind (resolve · state) with
        | none => none
        | some dir => if dir ≠ ['-'] ∧ dir.head? ≠ some '~' then join state.base dir else none
      (.Silent, { state with base := base })
    else if among ["popd"] program then (.Silent, { state with base := none })
    else if among ["export", "declare", "typeset", "local", "readonly"] program then
      (.Silent, export_vars args state)
    else if among WRAPPERS program then
      -- Wrappers: classify the command they run.
      let (skip, state) := wrapper_skip program 0 args state
      eval_words heredoc inputs index depth skip args state
    else if among ["uv", "poetry", "pipenv", "pdm", "rye", "hatch", "bundle", "pixi"] program &&
        args.head?.any (fun word => among ["run", "exec"] word.text) then
      let skip := 1 + runner_skip 0 args.tail
      if args.length ≤ skip then (.Class .TestsBuilds [], state)
      else eval_words heredoc inputs index depth skip args state
    else if among ["npx", "bunx", "pnpx"] program then
      let skip := (args.takeWhile (fun word => starts_with word.text ['-'])).length
      eval_words heredoc inputs index depth skip args state
    else if among ["pnpm", "yarn"] program &&
        args.head?.any (fun word => among ["exec", "dlx"] word.text) then
      eval_words heredoc inputs index depth 1 args state
    else (eval_program program args heredoc inputs index depth state, state)

/-- One simple command: its words and redirects. -/
structure SimpleCommand where
  words : List Word
  stdout_to_file : Bool
  heredoc : Bool
  inputs : List Word

def SimpleCommand.default : SimpleCommand :=
  { words := [], stdout_to_file := false, heredoc := false, inputs := [] }

/-- Leading assignments, keywords and grouping words, and what is left. -/
def leading (state : EvalState) : List Word → List (Text × Option Text) × List Word
  | [] => ([], [])
  | word :: rest =>
    match is_assignment word.text with
    | some (name, value) =>
      let (assignments, words) := leading state rest
      ((name, assigned word value state) :: assignments, words)
    | none =>
      if among ["\x7b", "\x7d", "!", "if", "then", "else", "elif", "do", "while", "until", "time"]
          word.text && !word.dynamic then
        leading state rest
      else ([], word :: rest)

def eval_command (command : SimpleCommand) (index : Nat) (state : EvalState) (depth : Nat) :
    Stage F × EvalState :=
  let (assignments, words) := leading state command.words
  match words with
  | [] =>
    -- An assignment-only command sets shell variables.
    (if command.heredoc then .Class .Other [] else .Silent,
      assignments.foldl (fun state var => set_var state var.1 var.2) state)
  | first :: _ =>
    if among ["fi", "done", "esac", "for", "case", "in"] first.text then (.Silent, state)
    else eval_words command.heredoc command.inputs index depth 0 words state

end ottto_service.composition_kinds.shell
