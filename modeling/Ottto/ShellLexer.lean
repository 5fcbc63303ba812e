-- The tokens of a shell command (composition_kinds/shell.rs), read at byte positions of its text.
-- A cut off a character boundary, a nesting depth below zero and a loop that never leaves all fail
-- the run.
import Ottto.Checked
import Ottto.Json
import Ottto.TextSlice

open checked text_slice

namespace ottto_service.composition_kinds.shell

abbrev Text : Type := List Char

/-- Most tokens read from one command (heredoc bodies are skipped, not counted). -/
def MAX_TOKENS : Nat := 8192

structure Word where
  text : Text
  /-- Holds an expansion (`$x`, `$(..)`, backticks) the lexer did not resolve. -/
  dynamic : Bool
  /-- Holds an unquoted glob character. -/
  glob : Bool
deriving DecidableEq

inductive Redir
  /-- `>`, `>>`, `>|` on standard output (fd 1 or none) or `&>`. -/
  | StdoutToFile
  /-- Any redirect of another descriptor, or `>&N` duplication. -/
  | Other
  /-- `< file`. -/
  | Input
  /-- `<<WORD` (body skipped) or `<<< word`. -/
  | HereDoc
deriving DecidableEq

inductive Tok
  | Word (word : Word)
  /-- Redirect plus its target word, when it takes one. -/
  | Redirect (kind : Redir) (target : Option Word)
  | Pipe
  /-- `&&`, `||`, `;`, `&`, newline, `(`, `)`. -/
  | Separator
deriving DecidableEq

/-! ## Reading of text -/

/-- The grave accent. -/
def backtick : Char := Char.ofNat 96

def is_ascii_digit (c : Char) : Bool := decide (48 ≤ c.toNat) && decide (c.toNat ≤ 57)

def is_ascii_alphabetic (c : Char) : Bool :=
  (decide (65 ≤ c.toNat) && decide (c.toNat ≤ 90)) ||
    (decide (97 ≤ c.toNat) && decide (c.toNat ≤ 122))

/-- A character of a shell variable's name. -/
def is_name_char (c : Char) : Bool := is_ascii_alphabetic c || is_ascii_digit c || c == '_'

def trim_start (s : Text) : Text := s.dropWhile json_fields.is_whitespace

def trim_end (s : Text) : Text := (s.reverse.dropWhile json_fields.is_whitespace).reverse

def trim (s : Text) : Text := trim_end (trim_start s)

/-- `trim_end_matches` of some characters. -/
def trim_end_matches (p : Char → Bool) (s : Text) : Text := (s.reverse.dropWhile p).reverse

/-- `parse::<u32>().is_ok()`: at most one `+`, then digits of a number below 2^32. -/
def parses_u32 (s : Text) : Bool :=
  let digits := if s.head? = some '+' then s.tail else s
  !digits.isEmpty && digits.all is_ascii_digit &&
    decide (digits.foldl (fun n c => 10 * n + (c.toNat - 48)) 0 < 2 ^ 32)

/-! ## The lexer -/

structure Lexer where
  src : Text
  pos : Nat
  pending_heredocs : List (Text × Bool)

abbrev Lex (α : Type) : Type := Run Lexer α

namespace Lexer

/-- `&self.src[self.pos..]`. -/
def rest : Lex Text := fun l => (from_byte l.src l.pos).map (·, l)

def peek : Lex (Option Char) := do return (← rest).head?

def peek_at (offset : Nat) : Lex (Option Char) := do return (← rest)[offset]?

/-- `self.pos += n`. -/
def advance (n : Nat) : Lex Unit := modify fun l => { l with pos := l.pos + n }

/-- `self.pos -= n`. -/
def retreat (n : Nat) : Lex Unit := fun l =>
  if n ≤ l.pos then some ((), { l with pos := l.pos - n }) else none

def bump : Lex (Option Char) := do
  match ← peek with
  | none => return none
  | some ch =>
    advance ch.utf8Size
    return some ch

/-- `if matches!(self.peek(), ..) { self.bump(); }`, and whether it did. -/
def eat (signs : List Char) : Lex Bool := do
  match ← peek with
  | none => return false
  | some ch =>
    if ch ∈ signs then
      let _ ← bump
      return true
    else return false

def starts_with (text : Text) : Lex Bool := do return text.isPrefixOf (← rest)

/-- `&self.src[start..self.pos]`. -/
def span_from (start : Nat) : Lex Text := fun l =>
  if start ≤ l.pos then
    ((from_byte l.src start).bind (fun s => to_byte s (l.pos - start))).map (·, l)
  else none

/-- Each turn of a loop reads a character, so one turn more than there are bytes is enough. -/
def turns (l : Lexer) : Nat := byte_len l.src + 1

def while_loop {α : Type} (body : α → Lex (Turn α)) (a : α) : Lex α := loop_within turns body a

/-- The bytes to the end of the line, its newline included. -/
def line_bytes (rest : Text) : Nat := ((find (· == '\n') rest).map (· + 1)).getD (byte_len rest)

/-- One line of a heredoc body. The value of the loop says that the source ended. -/
def heredoc_line (delimiter : Text) (strip_tabs : Bool) : Bool → Lex (Turn Bool) := fun _ => do
  let l ← get
  if byte_len l.src ≤ l.pos then return .done true
  let rest ← rest
  let line ← fun l => (to_byte rest (line_bytes rest)).map (·, l)
  let line := trim_end_matches (fun c => c == '\n' || c == '\r') line
  advance (line_bytes rest)
  let line := if strip_tabs then line.dropWhile (· == '\t') else line
  if trim_end line = delimiter then return .done false
  return .again false

def skip_bodies : List (Text × Bool) → Lex Unit
  | [] => return ()
  | (delimiter, strip_tabs) :: more => do
    if ← while_loop (heredoc_line delimiter strip_tabs) false then return ()
    skip_bodies more

/-- Skip heredoc bodies that start after the newline just read. -/
def skip_heredoc_bodies : Lex Unit := do
  let pending := (← get).pending_heredocs
  modify fun l => { l with pending_heredocs := [] }
  skip_bodies pending

end Lexer

namespace Word

def push (word : Word) (c : Char) : Word := { word with text := word.text ++ [c] }

def push_str (word : Word) (s : Text) : Word := { word with text := word.text ++ s }

end Word

namespace Lexer

/-- A span in backticks, to its end. -/
def backtick_turn : Unit → Lex (Turn Unit) := fun _ => do
  match ← bump with
  | none => return .done ()
  | some ch => return if ch = backtick then .done () else .again ()

/-- ANSI-C quoting: literal text with escapes. -/
def ansi_turn (word : Word) : Lex (Turn Word) := do
  match ← bump with
  | none => return .done word
  | some ch =>
    if ch = '\'' then return .done word
    else if ch = '\\' then
      let _ ← bump
      return .again word
    else return .again (word.push ch)

/-- The brackets of `$(..)` and `${..}`: `depth -= 1` fails at zero. -/
def bracket_turn (open_ch close_ch : Char) (depth : Nat) : Lex (Turn Nat) := do
  match ← bump with
  | none => return .done depth
  | some ch =>
    if ch = open_ch then return .again (depth + 1)
    else if ch = close_ch then
      match depth with
      | 0 => failure
      | depth + 1 => return if depth = 0 then .done depth else .again depth
    else return .again depth

def name_turn : Unit → Lex (Turn Unit) := fun _ => do
  match ← peek with
  | some ch =>
    if is_name_char ch then
      let _ ← bump
      return .again ()
    else return .done ()
  | none => return .done ()

/-- The end of `expansion`: the span read is kept as text. -/
def keep_span (start : Nat) (word : Word) : Lex Word := do
  let text ← span_from start
  return { word with dynamic := true }.push_str text

/-- `$name`, `${..}`, `$(..)`, `$'..'`, or a backtick span, kept as text. -/
def expansion (word : Word) : Lex Word := do
  let start := (← get).pos
  let first ← bump
  if first = some (backtick) then
    while_loop backtick_turn ()
    keep_span start word
  else
    match ← peek with
    | none => return word.push '$'
    | some ch =>
      if ch = '\'' then
        let _ ← bump
        while_loop ansi_turn word
      else if ch = '(' ∨ ch = '{' then
        let close_ch := if ch = '(' then ')' else '}'
        let _ ← while_loop (bracket_turn ch close_ch) 0
        keep_span start word
      else if is_name_char ch then
        while_loop name_turn ()
        keep_span start word
      else if ch ∈ "@*#?$!-".toList then
        let _ ← bump
        keep_span start word
      else
        -- A lone `$` is literal.
        return word.push '$'

def single_turn (word : Word) : Lex (Turn Word) := do
  match ← bump with
  | none => return .done word
  | some ch => return if ch = '\'' then .done word else .again (word.push ch)

def double_turn (word : Word) : Lex (Turn Word) := do
  match ← bump with
  | none => return .done word
  | some ch =>
    if ch = '"' then return .done word
    else if ch = '\\' then
      match ← bump with
      | none => return .again word
      | some next =>
        let word := if next ∈ ['"', '\\', '$', backtick, '\n'] then word else word.push '\\'
        return .again (if next = '\n' then word else word.push next)
    else if ch = '$' ∨ ch = backtick then
      -- Back over the one byte just read: `expansion` reads it again.
      retreat 1
      return .again (← expansion word)
    else return .again (word.push ch)

/-- The characters that end a word. -/
def is_break (ch : Char) : Bool :=
  ch ∈ [' ', '\t', '\n', '\r', ';', '&', '|', '(', ')', '<', '>']

/-- One piece of a word. The flag says that some piece was read. -/
def word_turn (at_word : Word × Bool) : Lex (Turn (Word × Bool)) := do
  let word := at_word.1
  match ← peek with
  | none => return .done at_word
  | some ch =>
    if is_break ch then return .done at_word
    else if ch = '\'' then
      let _ ← bump
      return .again (← while_loop single_turn word, true)
    else if ch = '"' then
      let _ ← bump
      return .again (← while_loop double_turn word, true)
    else if ch = '\\' then
      let _ ← bump
      match ← bump with
      | none => return .again (word, true)
      | some next => return .again (if next = '\n' then word else word.push next, true)
    else if ch = '$' ∨ ch = backtick then
      return .again (← expansion word, true)
    else if ch ∈ ['*', '?', '['] then
      let _ ← bump
      return .again ({ word with glob := true }.push ch, true)
    else
      let _ ← bump
      return .again (word.push ch, true)

/-- One word starting at the current position (quotes and expansions joined). `none` at an
operator or the end. -/
def word : Lex (Option Word) := do
  let (word, any) ← while_loop word_turn ({ text := [], dynamic := false, glob := false }, false)
  return if any then some word else none

def blank_turn : Unit → Lex (Turn Unit) := fun _ => do
  let ch ← peek
  if ch = some ' ' ∨ ch = some '\t' then
    let _ ← bump
    return .again ()
  else return .done ()

def redirect_target : Lex (Option Word) := do
  while_loop blank_turn ()
  word

/-- A single digit followed by `<` or `>` (`2>`, `1>>`, `0<`). -/
def fd_redirect_ahead : Lex Bool := do
  let next ← peek_at 1
  return next = some '<' ∨ next = some '>'

/-- `<<WORD`, after the two signs. -/
def heredoc_redirect : Lex Tok := do
  let strip_tabs ← eat ['-']
  match ← redirect_target with
  | none => return .Redirect .HereDoc none
  | some delimiter =>
    modify fun l =>
      { l with pending_heredocs := l.pending_heredocs ++ [(delimiter.text, strip_tabs)] }
    return .Redirect .HereDoc none

/-- `>&2`, `2>&1`, `<&0`: duplication; `>&file` is a file redirect. -/
def duplicates (target : Option Word) : Bool :=
  match target with
  | none => false
  | some word => word.text == ['-'] || parses_u32 word.text

def redirect (fd : Option Nat) : Lex Tok := do
  if ← starts_with "<<<".toList then
    advance 3
    let _ ← redirect_target
    return .Redirect .HereDoc none
  if ← starts_with "<<".toList then
    advance 2
    return ← heredoc_redirect
  let input ← starts_with "<".toList
  if (← starts_with "<>".toList) || (← starts_with "<&".toList) || (← starts_with ">&".toList) then
    advance 2
    let target ← redirect_target
    return .Redirect
      (if input ∨ duplicates target ∨ (fd ≠ none ∧ fd ≠ some 1) then .Other else .StdoutToFile)
      target
  if input then
    let _ ← bump
    let target ← redirect_target
    return .Redirect (if fd = none ∨ fd = some 0 then .Input else .Other) target
  -- `>`, `>>`, `>|`.
  let _ ← bump
  let _ ← eat ['>', '|']
  let target ← redirect_target
  return .Redirect (if fd = none ∨ fd = some 1 then .StdoutToFile else .Other) target

def comment_turn : Unit → Lex (Turn Unit) := fun _ => do
  match ← peek with
  | none => return .done ()
  | some ch =>
    if ch = '\n' then return .done ()
    else
      let _ ← bump
      return .again ()

/-- What an `&` starts. -/
def ampersand : Lex Tok := do
  if ← starts_with "&>".toList then
    advance 2
    let _ ← eat ['>']
    return .Redirect .StdoutToFile (← redirect_target)
  let _ ← bump
  let _ ← eat ['&']
  return .Separator

/-- What a `|` starts. -/
def bar : Lex Tok := do
  let _ ← bump
  if ← eat ['|'] then return .Separator
  let _ ← eat ['&']
  return .Pipe

/-- What the character at the position starts: a token, or nothing. -/
def token (ch : Char) : Lex (Option Tok) := do
  if ch ∈ [' ', '\t', '\r'] then
    let _ ← bump
    return none
  else if ch = '\n' then
    let _ ← bump
    skip_heredoc_bodies
    return some .Separator
  else if ch = '#' then
    while_loop comment_turn ()
    return none
  else if ch ∈ [';', '(', ')'] then
    let _ ← bump
    return some .Separator
  else if ch = '&' then
    return some (← ampersand)
  else if ch = '|' then
    return some (← bar)
  else if ch ∈ ['<', '>'] then
    return some (← redirect none)
  else if is_ascii_digit ch && (← fd_redirect_ahead) then
    let fd ← bump
    return some (← redirect (fd.map (fun ch => ch.toNat - 48)))
  else
    match ← word with
    | some word => return some (.Word word)
    | none =>
      let _ ← bump
      return none

def tokens_turn (tokens : List Tok) : Lex (Turn (List Tok)) := do
  if tokens.length < MAX_TOKENS then
    match ← peek with
    | none => return .done tokens
    | some ch =>
      match ← token ch with
      | none => return .again tokens
      | some tok => return .again (tokens ++ [tok])
  else return .done tokens

def tokens : Lex (List Tok) := while_loop tokens_turn []

/-- The lexer at the start of a script. -/
def start (script : Text) : Lexer := { src := script, pos := 0, pending_heredocs := [] }

end Lexer

/-- The tokens of a script. `none` is a panic or a loop without end, which no text causes. -/
def tokens_run (script : Text) : Option (List Tok) := (Lexer.tokens (Lexer.start script)).map Prod.fst

end ottto_service.composition_kinds.shell
