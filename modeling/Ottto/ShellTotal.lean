-- The lexer of a shell command ends on every text: no cut off a character boundary, no nesting depth
-- below zero, and no loop without end.
import Ottto.ShellLexer

open checked text_slice

namespace ottto_service.composition_kinds.shell

open Lexer List

/-- Byte `n` of `src` is where `rest` starts. -/
def Starts (src rest : Text) (n : Nat) : Prop := ∃ pre, src = pre ++ rest ∧ n = byte_len pre

/-- The lexer of `src` stands before `rest`. -/
structure At (src rest : Text) (l : Lexer) : Prop where
  source : l.src = src
  starts : Starts src rest l.pos

/-- From before `rest` the run ends, before a rest that meets `post` with its value. -/
def Goes {α : Type} (src : Text) (m : Lex α) (rest : Text) (post : α → Text → Prop) : Prop :=
  Ends (At src rest) m (fun a l => ∃ rest', At src rest' l ∧ post a rest')

theorem start_at (script : Text) : At script script (Lexer.start script) :=
  ⟨rfl, [], rfl, rfl⟩

variable {src : Text} {n : Nat}

theorem Starts.suffix {rest : Text} (h : Starts src rest n) : rest <:+ src := by
  obtain ⟨pre, hsrc, -⟩ := h
  exact ⟨pre, hsrc.symm⟩

theorem Starts.from_byte {rest : Text} (h : Starts src rest n) :
    from_byte src n = some rest := by
  obtain ⟨pre, rfl, rfl⟩ := h
  exact from_byte_append pre rest

theorem Starts.append {s rest : Text} (h : Starts src (s ++ rest) n) :
    Starts src rest (n + byte_len s) := by
  obtain ⟨pre, rfl, rfl⟩ := h
  exact ⟨pre ++ s, by simp, by simp⟩

section

variable {α β : Type} {src : Text}

/-! ## The rules of a run -/

variable {a : α}

theorem Goes.pure {rest : Text} {post : α → Text → Prop} (h : post a rest) :
    Goes src (Pure.pure a) rest post :=
  Ends.pure (fun _ hl => ⟨rest, hl, h⟩)

variable {post : β → Text → Prop} {m : Lex α}

theorem Goes.bind {f : α → Lex β} {rest : Text} {mid : α → Text → Prop} (hm : Goes src m rest mid)
    (hf : ∀ a rest', mid a rest' → Goes src (f a) rest' post) : Goes src (m >>= f) rest post := by
  refine Ends.bind hm ?_
  rintro a l ⟨rest', hl, hmid⟩
  exact hf a rest' hmid l hl

theorem Goes.weaken {rest : Text} {post post' : α → Text → Prop}
    (h : Goes src m rest post) (hpost : ∀ a rest', post a rest' → post' a rest') :
    Goes src m rest post' :=
  Ends.weaken h (fun a _ ⟨rest', hl, ha⟩ => ⟨rest', hl, hpost a rest' ha⟩)

/-- The rest is always the end of the source. -/
theorem Goes.of_suffix {rest : Text} {post : α → Text → Prop}
    (h : rest <:+ src → Goes src m rest post) : Goes src m rest post :=
  fun l hl => h hl.starts.suffix l hl

theorem Goes.get {f : Lexer → Lex β} {rest : Text} {post : β → Text → Prop}
    (h : ∀ l, At src rest l → Goes src (f l) rest post) :
    Goes src (MonadState.get >>= f) rest post := by
  intro l hl
  exact h l hl l hl

/-- A run with one value, at one rest. -/
theorem Goes.then {f : α → Lex β} {rest r : Text}
    (hm : Goes src m rest (fun b rest' => b = a ∧ rest' = r)) (hf : Goes src (f a) r post) :
    Goes src (m >>= f) rest post := by
  refine Goes.bind hm ?_
  rintro b rest' ⟨rfl, rfl⟩
  exact hf

theorem Goes.modify {g : Lexer → Lexer} {f : Unit → Lex β} {rest : Text}
    (hsrc : ∀ l, (g l).src = l.src) (hpos : ∀ l, (g l).pos = l.pos)
    (h : Goes src (f ()) rest post) : Goes src (modify g >>= f) rest post := by
  refine Goes.then (a := ()) (r := rest) (fun l hl => ⟨(), g l, rfl, rest, ?_, rfl, rfl⟩) h
  exact ⟨(hsrc l).trans hl.source, (hpos l).symm ▸ hl.starts⟩

theorem Goes.rest {f : Text → Lex β} {rest : Text}
    (h : Goes src (f rest) rest post) : Goes src (Lexer.rest >>= f) rest post := by
  refine Goes.then (a := rest) (r := rest) (fun l hl => ⟨rest, l, ?_, rest, hl, rfl, rfl⟩) h
  simp [Lexer.rest, hl.source, hl.starts.from_byte]

variable {f : Option Char → Lex β}

theorem Goes.peek {rest : Text}
    (h : Goes src (f rest.head?) rest post) : Goes src (Lexer.peek >>= f) rest post :=
  Goes.then (Goes.rest (Goes.pure ⟨rfl, rfl⟩)) h

variable {n : Nat}

theorem Goes.peek_at {rest : Text}
    (h : Goes src (f rest[n]?) rest post) : Goes src (peek_at n >>= f) rest post :=
  Goes.then (Goes.rest (Goes.pure ⟨rfl, rfl⟩)) h

theorem Goes.starts_with {text : Text} {f : Bool → Lex β} {rest : Text}
    (h : Goes src (f (text.isPrefixOf rest)) rest post) :
    Goes src (Lexer.starts_with text >>= f) rest post :=
  Goes.then (Goes.rest (Goes.pure ⟨rfl, rfl⟩)) h

theorem Goes.advance {s : Text} {f : Unit → Lex β} {rest : Text} (hn : n = byte_len s)
    (h : Goes src (f ()) rest post) :
    Goes src (Lexer.advance n >>= f) (s ++ rest) post := by
  refine Goes.then (fun l hl => ⟨(), { l with pos := l.pos + n }, rfl, rest, ?_, rfl, rfl⟩) h
  exact ⟨hl.source, hn ▸ hl.starts.append⟩

theorem Goes.bump_nil (h : Goes src (f none) [] post) : Goes src (Lexer.bump >>= f) [] post :=
  Goes.then (Goes.peek (Goes.pure ⟨rfl, rfl⟩)) h

variable {c : Char}

theorem Goes.bump_cons {rest : Text} (h : Goes src (f (some c)) rest post) :
    Goes src (Lexer.bump >>= f) (c :: rest) post := by
  refine Goes.then (a := some c) (Goes.peek ?_) h
  exact Goes.advance (s := [c]) (by simp) (Goes.pure ⟨rfl, rfl⟩)

/-- Back over a character of one byte. -/
theorem Goes.retreat {f : Unit → Lex β} {rest : Text}
    (hc : c.utf8Size = 1) (hsuffix : c :: rest <:+ src) (h : Goes src (f ()) (c :: rest) post) :
    Goes src (Lexer.retreat 1 >>= f) rest post := by
  refine Goes.then (a := ()) (r := c :: rest) ?_ h
  intro l hl
  obtain ⟨pre, hsrc⟩ := hsuffix
  obtain ⟨pre', hsrc', hpos⟩ := hl.starts
  have hpre : pre' = pre ++ [c] := by
    have heq : pre ++ [c] ++ rest = pre' ++ rest := by
      rw [append_assoc, singleton_append, hsrc, ← hsrc']
    exact (append_cancel_right heq).symm
  have hlen : l.pos = byte_len pre + 1 := by
    rw [hpos, hpre, byte_len_append, byte_len_cons, hc]
    rfl
  refine ⟨(), { l with pos := l.pos - 1 }, ?_, c :: rest, ⟨hl.source, pre, hsrc.symm, ?_⟩,
    rfl, rfl⟩
  · rw [Lexer.retreat, if_pos (by omega)]
  · simp only
    omega

/-- A loop ends when each turn that goes on keeps the invariant and reads a character. -/
theorem Goes.while_loop {I : α → Text → Prop} {body : α → Lex (Turn α)} {post : α → Text → Prop}
    (hbody : ∀ a rest, I a rest → Goes src (body a) rest (fun t rest' =>
      t.Meets (fun b => I b rest' ∧ rest'.length < rest.length)
    (fun b => post b rest'))) {rest : Text}
    (h : I a rest) : Goes src (while_loop body a) rest post := by
  let left : Lexer → Nat := fun l => ((from_byte l.src l.pos).getD []).length
  have hleft : ∀ {rest : Text} {l : Lexer}, At src rest l → left l = rest.length := by
    intro rest l hl
    simp [left, hl.source, hl.starts.from_byte]
  have hturn : ∀ a n, Ends (fun l => (∃ rest, At src rest l ∧ I a rest) ∧ left l = n) (body a)
      (fun t l => t.Meets (fun b => (∃ rest, At src rest l ∧ I b rest) ∧ left l < n)
        (fun b => ∃ rest', At src rest' l ∧ post b rest')) := by
    rintro a n l ⟨⟨rest, hl, hI⟩, rfl⟩
    obtain ⟨t, l', hrun, rest', hl', ht⟩ := hbody a rest hI l hl
    refine ⟨t, l', hrun, ?_⟩
    cases t with
    | again b => exact ⟨⟨rest', hl', ht.1⟩, by rw [hleft hl, hleft hl']; exact ht.2⟩
    | done b => exact ⟨rest', hl', ht⟩
  intro l hl
  refine Ends.loop _ left hturn (Lexer.turns l) a l ⟨⟨rest, hl, h⟩, ?_⟩
  have hshort := hl.starts.suffix.length_le
  have hbytes := length_le_byte_len src
  rw [hleft hl, Lexer.turns, hl.source]
  omega

/-! ## Runs that go on -/

/-- The run ends no further back than it started. -/
def Passes (src : Text) (m : Lex α) (rest : Text) : Prop :=
  Goes src m rest (fun _ rest' => rest' <:+ rest)

/-- A turn that goes on has read a character; one that leaves meets `out`. -/
def Onward (rest : Text) (out : α → Prop) (t : Turn α) (rest' : Text) : Prop :=
  rest' <:+ rest ∧ t.Meets (fun _ => rest'.length < rest.length) out

def Turns (src : Text) (body : α → Lex (Turn α)) : Prop :=
  ∀ a rest, Goes src (body a) rest (Onward rest (fun _ => True))

theorem Passes.pure (a : α) (rest : Text) : Passes src (Pure.pure a) rest :=
  Goes.pure (suffix_refl rest)

theorem Passes.bind {f : α → Lex β} {rest : Text} (hm : Passes src m rest)
    (hf : ∀ a rest', Passes src (f a) rest') : Passes src (m >>= f) rest :=
  Goes.bind hm (fun a rest' hrest =>
    Goes.weaken (hf a rest') (fun _ _ h => h.trans hrest))

theorem Passes.bump {rest : Text}
    (hf : ∀ a rest', Passes src (f a) rest') : Passes src (Lexer.bump >>= f) rest := by
  cases rest with
  | nil => exact Goes.bump_nil (hf none [])
  | cons c rest =>
    exact Goes.bump_cons (Goes.weaken (hf _ rest) (fun _ _ h => h.trans (suffix_cons c rest)))

theorem Passes.bump_one (rest : Text) : Passes src Lexer.bump rest := by
  have h : Passes src (Lexer.bump >>= Pure.pure) rest := Passes.bump (fun a r => Passes.pure a r)
  rwa [bind_pure] at h

theorem Passes.eat (signs : List Char) (rest : Text) : Passes src (Lexer.eat signs) rest := by
  refine Goes.peek ?_
  split
  · exact Passes.pure _ rest
  · split
    · exact Passes.bump (fun _ r => Passes.pure _ r)
    · exact Passes.pure _ rest

variable {out : α → Prop}

/-- A turn that starts with a character read may go on from anywhere after it. -/
theorem Goes.turn_out {f : Option Char → Lex (Turn α)} {rest : Text}
    (h : Goes src (f (some c)) rest (fun t rest' =>
      rest' <:+ rest ∧ t.Meets (fun _ => True) out)) :
    Goes src (Lexer.bump >>= f) (c :: rest) (Onward (c :: rest) out) := by
  refine Goes.bump_cons (Goes.weaken h ?_)
  rintro t rest' ⟨hrest, ht⟩
  refine ⟨hrest.trans (suffix_cons c rest), ?_⟩
  cases t with
  | again b => exact Nat.lt_succ_of_le hrest.length_le
  | done b => exact ht

theorem Goes.turn {f : Option Char → Lex (Turn α)} {rest : Text}
    (h : Passes src (f (some c)) rest) :
    Goes src (Lexer.bump >>= f) (c :: rest) (Onward (c :: rest) (fun _ => True)) := by
  refine Goes.turn_out (Goes.weaken h ?_)
  intro t rest' hrest
  exact ⟨hrest, by cases t <;> trivial⟩

/-- A turn that leaves where it stands. -/
theorem Goes.leave (rest : Text) (h : out a) :
    Goes src (Pure.pure (Turn.done a)) rest (Onward rest out) :=
  Goes.pure ⟨suffix_refl rest, h⟩

/-- A turn that goes on, after whatever it has read. -/
theorem Goes.on (a : α) (rest : Text) :
    Goes src (Pure.pure (Turn.again a)) rest (fun t rest' =>
      rest' <:+ rest ∧ t.Meets (fun _ => True) out) :=
  Goes.pure ⟨suffix_refl rest, trivial⟩

theorem Turns.passes {body : α → Lex (Turn α)} (h : Turns src body) (a : α) (rest : Text) :
    Passes src (while_loop body a) rest := by
  refine Goes.while_loop (I := fun _ r => r <:+ rest) ?_ (suffix_refl rest)
  intro b r hr
  refine Goes.weaken (h b r) ?_
  rintro t r' ⟨hr', ht⟩
  cases t with
  | again c => exact ⟨hr'.trans hr, ht⟩
  | done c => exact hr'.trans hr

/-! ## The parts of a word -/

theorem single_turn_turns : Turns src single_turn := by
  rintro word (_ | ⟨c, rest⟩)
  · exact Goes.bump_nil (Goes.leave [] trivial)
  · exact Goes.turn (Passes.pure _ rest)

theorem backtick_turn_turns : Turns src backtick_turn := by
  rintro ⟨⟩ (_ | ⟨c, rest⟩)
  · exact Goes.bump_nil (Goes.leave [] trivial)
  · exact Goes.turn (Passes.pure _ rest)

theorem ansi_turn_turns : Turns src ansi_turn := by
  rintro word (_ | ⟨c, rest⟩)
  · exact Goes.bump_nil (Goes.leave [] trivial)
  · refine Goes.turn ?_
    dsimp only
    split
    · exact Passes.pure _ rest
    · split
      · exact Passes.bump (fun _ rest' => Passes.pure _ rest')
      · exact Passes.pure _ rest

theorem name_turn_turns : Turns src name_turn := by
  rintro ⟨⟩ (_ | ⟨c, rest⟩)
  · exact Goes.peek (Goes.leave [] trivial)
  · refine Goes.peek ?_
    simp only [head?_cons]
    split
    · exact Goes.turn (Passes.pure _ rest)
    · exact Goes.leave (c :: rest) trivial

theorem blank_turn_turns : Turns src blank_turn := by
  rintro ⟨⟩ (_ | ⟨c, rest⟩)
  · exact Goes.peek (Goes.leave [] trivial)
  · refine Goes.peek ?_
    by_cases hblank : some c = some ' ' ∨ some c = some '\t'
    · rw [head?_cons, if_pos hblank]
      exact Goes.turn (Passes.pure _ rest)
    · rw [head?_cons, if_neg hblank]
      exact Goes.leave (c :: rest) trivial

theorem comment_turn_turns : Turns src comment_turn := by
  rintro ⟨⟩ (_ | ⟨c, rest⟩)
  · exact Goes.peek (Goes.leave [] trivial)
  · refine Goes.peek ?_
    simp only [head?_cons]
    split
    · exact Goes.leave (c :: rest) trivial
    · exact Goes.turn (Passes.pure _ rest)

/-- The first character that the loop reads is the opener, so no closer finds the depth at zero. -/
theorem brackets_pass (open_ch close_ch : Char) (rest : Text) :
    Passes src (while_loop (bracket_turn open_ch close_ch) 0) (open_ch :: rest) := by
  refine Goes.while_loop
    (I := fun depth r => r <:+ open_ch :: rest ∧ (0 < depth ∨ r.head? = some open_ch)) ?_
    ⟨suffix_refl _, .inr rfl⟩
  rintro depth (_ | ⟨c, r⟩) ⟨hr, hdepth⟩
  · exact Goes.bump_nil (Goes.pure hr)
  · have hrest : r <:+ open_ch :: rest := (suffix_cons c r).trans hr
    refine Goes.bump_cons ?_
    dsimp only
    split
    · exact Goes.pure ⟨⟨hrest, .inl (Nat.succ_pos depth)⟩, Nat.lt_succ_self _⟩
    · rename_i hopen
      have hpos : 0 < depth := by
        rcases hdepth with h | h
        · exact h
        · exact absurd (Option.some.inj h) hopen
      split
      · cases depth with
        | zero => omega
        | succ depth =>
          refine Goes.pure ?_
          split
          · exact hrest
          · exact ⟨⟨hrest, .inl (by omega)⟩, Nat.lt_succ_self _⟩
      · exact Goes.pure ⟨⟨hrest, .inl hpos⟩, Nat.lt_succ_self _⟩

/-- The span from an earlier position is cut at two starts of characters. -/
theorem keep_span_passes {first rest : Text} {start : Nat} (hstart : Starts src first start)
    (hrest : rest <:+ first) (word : Word) : Passes src (keep_span start word) rest := by
  obtain ⟨pre, hsrc, rfl⟩ := hstart
  obtain ⟨s, rfl⟩ := hrest
  refine Goes.then (a := s) (r := rest) ?_ (Passes.pure _ rest)
  intro l hl
  obtain ⟨pre', hsrc', hpos⟩ := hl.starts
  have hpre : pre' = pre ++ s := by
    have heq : pre' ++ rest = pre ++ s ++ rest := by rw [← hsrc', hsrc, append_assoc]
    exact append_cancel_right heq
  have hlen : l.pos = byte_len pre + byte_len s := by rw [hpos, hpre, byte_len_append]
  refine ⟨s, l, ?_, rest, hl, rfl, rfl⟩
  rw [span_from, if_pos (by omega), hl.source, hsrc, from_byte_append, hlen,
    Nat.add_sub_cancel_left, Option.bind_some, to_byte_append]
  rfl

/-- `expansion` reads at least the `$` or the backtick that it starts with. -/
theorem expansion_goes (word : Word) (c : Char) (rest : Text) :
    Goes src (Lexer.expansion word) (c :: rest) (fun _ rest' => rest' <:+ rest) := by
  refine Goes.get ?_
  intro l hl
  have hkeep : ∀ (word : Word) (rest' : Text), rest' <:+ rest →
      Passes src (keep_span l.pos word) rest' := fun word rest' h =>
    keep_span_passes hl.starts (h.trans (suffix_cons c rest)) word
  have hloop : ∀ {γ : Type} {m : Lex γ} (word : Word), Passes src m rest →
      Passes src (m >>= fun _ => keep_span l.pos word) rest := fun word hm =>
    Goes.bind hm (fun _ rest' h => Goes.weaken (hkeep word rest' h) (fun _ _ h' => h'.trans h))
  refine Goes.bump_cons ?_
  by_cases hback : some c = some backtick
  · rw [if_pos hback]
    exact hloop word (backtick_turn_turns.passes () rest)
  rw [if_neg hback]
  refine Goes.peek ?_
  cases rest with
  | nil => exact Passes.pure _ []
  | cons ch rest =>
    simp only [head?_cons]
    split
    · exact Passes.bump (fun _ rest' => ansi_turn_turns.passes word rest')
    · split
      · exact hloop word (brackets_pass ch _ rest)
      · split
        · exact hloop word (name_turn_turns.passes () (ch :: rest))
        · split
          · exact hloop word (Passes.bump_one (ch :: rest))
          · exact Passes.pure _ _

theorem double_turn_turns : Turns src double_turn := by
  rintro word (_ | ⟨c, rest⟩)
  · exact Goes.bump_nil (Goes.leave [] trivial)
  · refine Goes.of_suffix (fun hsuffix => Goes.turn ?_)
    dsimp only
    split
    · exact Passes.pure _ rest
    · split
      · refine Passes.bump ?_
        rintro (_ | next) rest'
        · exact Passes.pure _ rest'
        · exact Passes.pure _ rest'
      · split
        · rename_i hexpand
          -- Both characters that start an expansion take one byte.
          have hsize : c.utf8Size = 1 := by
            rcases hexpand with rfl | rfl <;> decide
          refine Goes.retreat hsize hsuffix ?_
          refine Goes.bind (expansion_goes word c rest) ?_
          exact fun w rest' h => Goes.pure h
        · exact Passes.pure _ rest

/-- A piece of a word reads at least the character that it starts with, and the word that a turn
leaves with is the word that it found. -/
theorem word_turn_goes (w : Word × Bool) (rest : Text) :
    Goes src (word_turn w) rest (Onward rest (fun b => b = w)) := by
  cases rest with
  | nil => exact Goes.peek (Goes.leave [] rfl)
  | cons c rest =>
    have hpiece : ∀ {m : Lex Word}, Passes src m rest →
        Goes src (m >>= fun word => Pure.pure (Turn.again (word, true))) rest
          (fun t rest' => rest' <:+ rest ∧ t.Meets (fun _ => True) (fun b => b = w)) := by
      intro m hm
      exact Goes.bind hm (fun word rest' h => Goes.pure ⟨h, trivial⟩)
    refine Goes.peek ?_
    simp only [head?_cons]
    split
    · exact Goes.leave (c :: rest) rfl
    · split
      · exact Goes.turn_out (hpiece (single_turn_turns.passes w.1 rest))
      · split
        · exact Goes.turn_out (hpiece (double_turn_turns.passes w.1 rest))
        · split
          · refine Goes.turn_out (Goes.bind (Passes.bump_one rest) ?_)
            rintro (_ | next) rest' h
            · exact Goes.pure ⟨h, trivial⟩
            · exact Goes.pure ⟨h, trivial⟩
          · split
            · refine Goes.bind (expansion_goes w.1 c rest) ?_
              intro word rest' h
              exact Goes.pure ⟨h.trans (suffix_cons c rest), Nat.lt_succ_of_le h.length_le⟩
            · split
              · exact Goes.turn_out (Goes.on _ rest)
              · exact Goes.turn_out (Goes.on _ rest)

/-- A word that is read takes a character. -/
theorem word_goes (rest : Text) :
    Goes src Lexer.word rest (fun w rest' => rest' <:+ rest ∧
      (w.isSome = true → rest'.length < rest.length)) := by
  let I : Word × Bool → Text → Prop := fun w r =>
    r <:+ rest ∧ (w.2 = true → r.length < rest.length)
  have hloop : Goes src (while_loop word_turn (⟨[], false, false⟩, false)) rest I := by
    refine Goes.while_loop (I := I) ?_ ⟨suffix_refl rest, by simp⟩
    rintro w r ⟨hr, hw⟩
    refine Goes.weaken (word_turn_goes w r) ?_
    rintro t r' ⟨hr', ht⟩
    cases t with
    | again b =>
      have hless : r'.length < r.length := ht
      have hle := hr.length_le
      exact ⟨⟨hr'.trans hr, fun _ => by omega⟩, hless⟩
    | done b =>
      have hb : b = w := ht
      have hle := hr'.length_le
      refine ⟨hr'.trans hr, fun h => ?_⟩
      have hless := hw (hb ▸ h)
      omega
  refine Goes.bind hloop ?_
  rintro ⟨w, any⟩ rest' ⟨hrest, hany⟩
  refine Goes.pure ⟨hrest, ?_⟩
  cases any with
  | true => exact fun _ => hany rfl
  | false => simp

theorem word_passes (rest : Text) : Passes src Lexer.word rest :=
  Goes.weaken (word_goes rest) (fun _ _ h => h.1)

/-! ## The redirects -/

theorem redirect_target_passes (rest : Text) : Passes src redirect_target rest :=
  Passes.bind (blank_turn_turns.passes () rest) (fun _ rest' => word_passes rest')

/-- The text that the position stands before is read whole. -/
theorem Goes.skip {text : Text} {f : Unit → Lex β} {rest : Text}
    (htext : text.isPrefixOf rest = true) (hn : n = byte_len text) (hpos : text ≠ [])
    (hf : ∀ rest', Passes src (f ()) rest') :
    Goes src (Lexer.advance n >>= f) rest (fun _ rest' => rest' <:+ rest.tail) := by
  obtain ⟨r, rfl⟩ := isPrefixOf_iff_prefix.mp htext
  refine Goes.advance hn (Goes.weaken (hf r) ?_)
  intro b rest' h
  rw [tail_append_of_ne_nil hpos]
  exact h.trans (suffix_append _ r)

theorem Goes.skip_bump (rest : Text) (hf : ∀ a rest', Passes src (f a) rest') :
    Goes src (Lexer.bump >>= f) rest (fun _ rest' => rest' <:+ rest.tail) := by
  cases rest with
  | nil => exact Goes.bump_nil (hf none [])
  | cons c rest => exact Goes.bump_cons (hf (some c) rest)

theorem heredoc_redirect_passes (rest : Text) : Passes src heredoc_redirect rest := by
  refine Passes.bind (Passes.eat ['-'] rest) (fun strip_tabs r => ?_)
  refine Passes.bind (redirect_target_passes r) ?_
  rintro (_ | delimiter) r'
  · exact Passes.pure _ r'
  · exact Goes.modify (fun _ => rfl) (fun _ => rfl) (Passes.pure _ r')

/-- The target of a redirect, and then the token. -/
theorem redirected_passes (tok : Option Word → Tok) (rest : Text) :
    Passes src (redirect_target >>= fun target => Pure.pure (tok target)) rest :=
  Passes.bind (redirect_target_passes rest) (fun target r => Passes.pure (tok target) r)

/-- A redirect reads the sign that it starts with. -/
theorem redirect_goes (fd : Option Nat) (rest : Text) :
    Goes src (Lexer.redirect fd) rest (fun _ rest' => rest' <:+ rest.tail) := by
  refine Goes.starts_with ?_
  split
  · rename_i htext
    exact Goes.skip htext rfl (by decide) (fun r => redirected_passes _ r)
  refine Goes.starts_with ?_
  split
  · rename_i htext
    exact Goes.skip htext rfl (by decide) (fun r => heredoc_redirect_passes r)
  refine Goes.starts_with (Goes.starts_with (Goes.starts_with (Goes.starts_with ?_)))
  split
  · rename_i htext
    simp only [Bool.or_eq_true] at htext
    rcases htext with (htext | htext) | htext
    · exact Goes.skip htext rfl (by decide) (fun r => redirected_passes _ r)
    · exact Goes.skip htext rfl (by decide) (fun r => redirected_passes _ r)
    · exact Goes.skip htext rfl (by decide) (fun r => redirected_passes _ r)
  split
  · exact Goes.skip_bump rest (fun _ r => redirected_passes _ r)
  · refine Goes.skip_bump rest (fun _ r => Passes.bind (Passes.eat _ r) (fun _ r' => ?_))
    exact redirected_passes _ r'

theorem ampersand_goes (rest : Text) :
    Goes src Lexer.ampersand rest (fun _ rest' => rest' <:+ rest.tail) := by
  refine Goes.starts_with ?_
  split
  · rename_i htext
    refine Goes.skip htext rfl (by decide) (fun r => Passes.bind (Passes.eat _ r) (fun _ r' => ?_))
    exact redirected_passes _ r'
  · refine Goes.skip_bump rest (fun _ r => Passes.bind (Passes.eat _ r) (fun _ r' => ?_))
    exact Passes.pure _ r'

theorem bar_goes (rest : Text) :
    Goes src Lexer.bar rest (fun _ rest' => rest' <:+ rest.tail) := by
  refine Goes.skip_bump rest (fun _ r => Passes.bind (Passes.eat _ r) (fun other r' => ?_))
  split
  · exact Passes.pure _ r'
  · exact Passes.bind (Passes.eat _ r') (fun _ r'' => Passes.pure _ r'')

/-! ## Heredoc bodies -/

/-- The end of a line is the end of the text, or right after its first newline. -/
theorem line_end {rest : Text} (h : rest ≠ []) :
    ∃ line r, rest = line ++ r ∧ line ≠ [] ∧ line_bytes rest = byte_len line := by
  rw [line_bytes]
  cases hfind : find (· == '\n') rest with
  | none => exact ⟨rest, [], by simp, h, rfl⟩
  | some index =>
    obtain ⟨pre, c, post, rfl, rfl, hc, -⟩ := find_some hfind
    have hc' : c = '\n' := eq_of_beq hc
    have hone : byte_len ['\n'] = 1 := by decide
    refine ⟨pre ++ [c], post, by simp, by simp, ?_⟩
    simp only [Option.map_some, Option.getD_some, byte_len_append, hc', hone]

theorem heredoc_line_turns (delimiter : Text) (strip_tabs : Bool) :
    Turns src (heredoc_line delimiter strip_tabs) := by
  intro b rest
  refine Goes.get (fun l hl => ?_)
  split
  · exact Goes.leave rest trivial
  · rename_i hpos
    have hne : rest ≠ [] := by
      rintro rfl
      obtain ⟨pre, hsrc, hbytes⟩ := hl.starts
      rw [hl.source, hsrc, hbytes, append_nil] at hpos
      exact hpos (Nat.le_refl _)
    obtain ⟨line, r, rfl, hline, hbytes⟩ := line_end hne
    refine Goes.rest ?_
    rw [hbytes]
    refine Goes.then (a := line) (r := line ++ r) (fun l hl => ⟨line, l, ?_, _, hl, rfl, rfl⟩) ?_
    · rw [to_byte_append]
      rfl
    refine Goes.advance rfl ?_
    have hless : r.length < (line ++ r).length := by
      have := length_pos_iff.mpr hline
      rw [length_append]
      omega
    have hturn : ∀ (p : Prop) [Decidable p],
        Goes src (if p then Pure.pure (Turn.done false) else Pure.pure (Turn.again false)) r
          (Onward (line ++ r) (fun _ => True)) := by
      intro p _
      split
      · exact Goes.pure ⟨suffix_append line r, trivial⟩
      · exact Goes.pure ⟨suffix_append line r, hless⟩
    exact hturn _

theorem skip_bodies_passes (bodies : List (Text × Bool)) (rest : Text) :
    Passes src (skip_bodies bodies) rest := by
  induction bodies generalizing rest with
  | nil => exact Passes.pure () rest
  | cons body more ih =>
    obtain ⟨delimiter, strip_tabs⟩ := body
    refine Passes.bind ((heredoc_line_turns delimiter strip_tabs).passes false rest) ?_
    intro ended r
    split
    · exact Passes.pure () r
    · exact ih r

theorem skip_heredoc_bodies_passes (rest : Text) :
    Passes src skip_heredoc_bodies rest :=
  Goes.get (fun l _ => Goes.modify (fun _ => rfl) (fun _ => rfl)
    (skip_bodies_passes l.pending_heredocs rest))

/-! ## The tokens -/

/-- A comment reads at least its `#`. -/
theorem comment_goes (rest : Text) :
    Goes src (while_loop comment_turn ()) ('#' :: rest)
      (fun _ rest' => rest' <:+ rest) := by
  refine Goes.while_loop (I := fun _ r => r = '#' :: rest ∨ r <:+ rest) ?_ (.inl rfl)
  rintro ⟨⟩ r (rfl | hr)
  · refine Goes.peek ?_
    refine Goes.bump_cons (Goes.pure ?_)
    exact ⟨.inr (suffix_refl rest), Nat.lt_succ_self _⟩
  · refine Goes.weaken (comment_turn_turns () r) ?_
    rintro t r' ⟨hr', ht⟩
    cases t with
    | again b => exact ⟨.inr (hr'.trans hr), ht⟩
    | done b => exact hr'.trans hr

/-- Whatever the next character starts, at least that character is read. -/
theorem token_goes (ch : Char) (rest : Text) :
    Goes src (Lexer.token ch) (ch :: rest) (fun _ rest' => rest' <:+ rest) := by
  have hsome : ∀ {m : Lex Tok}, Goes src m (ch :: rest) (fun _ r => r <:+ rest) →
      Goes src (m >>= fun tok => Pure.pure (some tok)) (ch :: rest) (fun _ r => r <:+ rest) :=
    fun hm => Goes.bind hm (fun tok r h => Goes.pure h)
  unfold Lexer.token
  split
  · exact Goes.bump_cons (Passes.pure _ rest)
  split
  · refine Goes.bump_cons (Passes.bind (skip_heredoc_bodies_passes rest) ?_)
    exact fun _ r => Passes.pure _ r
  split
  · rename_i hcomment
    subst hcomment
    exact Goes.bind (comment_goes rest) (fun _ r h => Goes.pure h)
  split
  · exact Goes.bump_cons (Passes.pure _ rest)
  split
  · exact hsome (ampersand_goes (ch :: rest))
  split
  · exact hsome (bar_goes (ch :: rest))
  split
  · exact hsome (redirect_goes none (ch :: rest))
  refine Goes.then (a := _) (r := ch :: rest) (Goes.peek_at (Goes.pure ⟨rfl, rfl⟩)) ?_
  split
  · refine Goes.bump_cons (Goes.bind (redirect_goes _ rest) ?_)
    exact fun tok r h => Goes.pure (h.trans (tail_suffix rest))
  · refine Goes.bind (word_goes (ch :: rest)) ?_
    rintro (_ | word) r ⟨hr, hword⟩
    · cases r with
      | nil => exact Goes.bump_nil (Goes.pure (nil_suffix))
      | cons c r =>
        refine Goes.bump_cons (Goes.pure ?_)
        rcases suffix_cons_iff.mp hr with heq | hr
        · rw [(List.cons.inj heq).2]
        · exact (suffix_cons c r).trans hr
    · refine Goes.pure ?_
      rcases suffix_cons_iff.mp hr with rfl | hr
      · exact absurd (hword rfl) (Nat.lt_irrefl _)
      · exact hr

theorem tokens_turn_turns : Turns src tokens_turn := by
  intro tokens rest
  unfold tokens_turn
  split
  · cases rest with
    | nil => exact Goes.peek (Goes.leave [] trivial)
    | cons ch rest =>
      refine Goes.peek ?_
      refine Goes.bind (token_goes ch rest) ?_
      intro tok r hr
      have hon : r <:+ ch :: rest ∧ r.length < (ch :: rest).length :=
        ⟨hr.trans (suffix_cons ch rest), Nat.lt_succ_of_le hr.length_le⟩
      cases tok with
      | none => exact Goes.pure hon
      | some tok => exact Goes.pure hon
  · exact Goes.leave rest trivial

end

/-- Every text has its tokens. -/
theorem tokens_run_total (script : Text) : ∃ tokens, tokens_run script = some tokens := by
  obtain ⟨tokens, l, hrun, -⟩ :=
    (show Turns script tokens_turn from tokens_turn_turns).passes [] script
      (Lexer.start script) (start_at script)
  exact ⟨tokens, by rw [tokens_run, Lexer.tokens, hrun]; rfl⟩

end ottto_service.composition_kinds.shell
