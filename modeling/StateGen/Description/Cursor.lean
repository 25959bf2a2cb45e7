import StateGen.Description
import StateGen.Diagnostic
import StateGen.Token

/-!
# Reading tokens one after the other

A cursor stands in front of the tokens that are still to be read. A reading function either
yields a value and the cursor behind it, or fails with a mistake and the cursor at which the
search for the next readable item starts. No reading function gives tokens back: `Keeps` and
`Consumes` state this, and every loop over tokens ends because of it.

Behind the last token the same end is read however often one asks. A list that lacks the end of
the text has its last token there, so that a single keyword can be read again and again;
`WordFirst` is what keeps such a keyword from being taken for an entry.
-/

namespace StateGen.Description

/-- What can be wrong with the order of tokens. -/
inductive Mistake where
  | expected (wanted got : Token.Kind)
  | expectedIdentifier (got : Token.Kind)
  | notAnIdentifier (name : String)
  | expectedOptionValue (got : Token.Kind)
  | expectedItem (got : Token.Kind)
  | expectedEventHook (got : Token.Kind)
  | unexpectedInState (got : Token.Kind)
deriving DecidableEq, Repr

namespace Mistake

/-- The text of a mistake. -/
def message : Mistake → String
  | .expected wanted got => "expected '" ++ wanted.display ++ "', got '" ++ got.display ++ "'"
  | .expectedIdentifier got => "expected identifier, got '" ++ got.display ++ "'"
  | .notAnIdentifier name => "'" ++ name ++ "' is not a valid identifier"
  | .expectedOptionValue got => "expected option value, got '" ++ got.display ++ "'"
  | .expectedItem got =>
    "expected 'state', 'event', 'initial-state' or 'option', got '" ++ got.display ++ "'"
  | .expectedEventHook got =>
    "expected 'precondition' or 'callback', got '" ++ got.display ++ "'"
  | .unexpectedInState got => "unexpected '" ++ got.display ++ "' in state block"

/-- The code of a mistake. -/
def code : Mistake → Diagnostic.Code
  | .notAnIdentifier _ => .invalidIdentifier
  | _ => .unexpectedToken

end Mistake

/-- A place between tokens. -/
structure Cursor where
  /-- Where the token in front of the cursor stands; the start of the text before any token. -/
  previous : Span
  /-- The tokens that follow. -/
  rest : List Token
  /-- What stands behind them; no reading steps over it. -/
  finish : Token

namespace Cursor

/-- The cursor in front of a token list. Only the tokens before the first `eof` count, and that
`eof` stands behind them; a list without one has its last token there, and the empty list the end
of the file. -/
def ofTokens (file : SourceFile) (tokens : List Token) : Cursor where
  previous := .point .start
  rest := tokens.takeWhile (·.kind != .eof)
  finish :=
    match tokens.find? (·.kind == .eof), tokens.getLast? with
    | some t, _ => t
    | none, some t => t
    | none, none => ⟨.eof, file.endSpan⟩

/-- The kind of the next token. -/
def peek (c : Cursor) : Token.Kind :=
  match c.rest with
  | [] => c.finish.kind
  | t :: _ => t.kind

/-- Where the next token stands. -/
def span (c : Cursor) : Span :=
  match c.rest with
  | [] => c.finish.span
  | t :: _ => t.span

/-- Step over the next token, unless every token was read. -/
def advance (c : Cursor) : Cursor :=
  match c.rest with
  | [] => c
  | t :: ts => { c with previous := t.span, rest := ts }

/-- Whether the end of the text is next. -/
def atEnd (c : Cursor) : Bool := c.peek == .eof

/-- Number of tokens that are still to be read. -/
def remaining (c : Cursor) : Nat := c.rest.length

/-- Stepping over a token never adds tokens. -/
theorem remaining_advance_le (c : Cursor) : c.advance.remaining ≤ c.remaining := by
  unfold advance remaining
  split <;> simp_all

/-- Stepping over a token leaves fewer of them. -/
theorem remaining_advance_lt {c : Cursor} (h : c.rest ≠ []) :
    c.advance.remaining < c.remaining := by
  unfold advance remaining
  split <;> simp_all

/-- With every token read there is nothing to step over. -/
theorem advance_of_rest_eq_nil {c : Cursor} (h : c.rest = []) : c.advance = c := by
  simp only [advance, h]

/-- A token of another kind behind the next one is a second token. -/
theorem rest_ne_nil {c : Cursor} (h : c.advance.peek ≠ c.peek) : c.rest ≠ [] := by
  intro hrest
  rw [advance_of_rest_eq_nil hrest] at h
  exact h rfl

end Cursor

/-- A mistake, where it is reported, and the cursor behind what was read of the broken part. -/
structure Failure where
  mistake : Mistake
  span : Span
  cursor : Cursor

/-- Report a failure. -/
def Failure.report (f : Failure) (file : SourceFile) (ds : Diagnostics) : Diagnostics :=
  ds.pushError (.located file f.mistake.code f.mistake.message f.span)

/-- A reading function. -/
abbrev Read (α : Type) := StateT Cursor (Except Failure) α

namespace Read

variable {α β : Type}

/-- A reading function that gives no token back. -/
structure Keeps (p : Read α) : Prop where
  ok : ∀ {c a c'}, p c = .ok (a, c') → c'.remaining ≤ c.remaining
  fail : ∀ {c f}, p c = .error f → f.cursor.remaining ≤ c.remaining

/-- A reading function that gives no token back and takes at least one when it succeeds. -/
structure Consumes (p : Read α) : Prop where
  ok : ∀ {c a c'}, p c = .ok (a, c') → c'.remaining < c.remaining
  fail : ∀ {c f}, p c = .error f → f.cursor.remaining ≤ c.remaining

/-- Taking a token is a way of giving none back. -/
theorem Consumes.keeps {p : Read α} (h : Consumes p) : Keeps p :=
  ⟨fun hp ↦ Nat.le_of_lt (h.ok hp), h.fail⟩

/-- A reading function that succeeds only in front of a word. -/
def WordFirst (p : Read α) : Prop :=
  ∀ {c a c'}, p c = .ok (a, c') → c.peek.isWord

/-- Reading nothing gives nothing back. -/
theorem keeps_pure (a : α) : Keeps (pure a : Read α) := by
  constructor
  · intro c b c' h
    cases h
    exact Nat.le_refl _
  · intro c f h
    cases h

/-- The equations of a sequence of two reading functions. -/
theorem bind_apply (p : Read α) (q : α → Read β) (c : Cursor) :
    (p >>= q) c =
      match p c with
      | .ok (a, c') => q a c'
      | .error f => .error f := by
  show StateT.bind p q c = _
  simp only [StateT.bind, bind, Except.bind]
  cases p c <;> rfl

/-- Two reading functions that give nothing back give nothing back one after the other. -/
theorem Keeps.bind {p : Read α} {q : α → Read β} (hp : Keeps p) (hq : ∀ a, Keeps (q a)) :
    Keeps (p >>= q) := by
  constructor
  · intro c b c'' h
    rw [bind_apply] at h
    split at h
    · next a c' hpc => exact Nat.le_trans ((hq a).ok h) (hp.ok hpc)
    · cases h
  · intro c f h
    rw [bind_apply] at h
    split at h
    · next a c' hpc => exact Nat.le_trans ((hq a).fail h) (hp.ok hpc)
    · next f' hpc =>
      cases h
      exact hp.fail hpc

/-- A sequence succeeds only in front of a word if its first part does. -/
theorem WordFirst.bind {p : Read α} (hp : WordFirst p) (q : α → Read β) :
    WordFirst (p >>= q) := by
  intro c b c'' h
  rw [bind_apply] at h
  split at h
  · next hpc => exact hp hpc
  · cases h

/-! ## Single tokens -/

/-- Where the token in front of the cursor stands. -/
def previous : Read Span := fun c ↦ .ok (c.previous, c)

/-- Step over a token of the given kind, if it is next, and tell whether it was. -/
def eat (kind : Token.Kind) : Read Bool := fun c ↦
  if c.peek = kind then .ok (true, c.advance) else .ok (false, c)

/-- Read a token of the given kind and tell where it stands. -/
def expect (kind : Token.Kind) : Read Span := fun c ↦
  if c.peek = kind then .ok (c.span, c.advance)
  else .error ⟨.expected kind c.peek, c.span, c⟩

/-- Read a word; it may hold hyphens. -/
def word : Read Ident := fun c ↦
  match c.peek with
  | .word name => .ok (⟨name, c.span⟩, c.advance)
  | got => .error ⟨.expectedIdentifier got, c.span, c⟩

/-- Read a word that is a C identifier. -/
def identifier : Read Ident := fun c ↦
  match word c with
  | .error f => .error f
  | .ok (ident, c') =>
    if Text.isIdentifier ident.name then .ok (ident, c')
    else .error ⟨.notAnIdentifier ident.name, ident.span, c'⟩

/-- Looking back moves nothing. -/
theorem keeps_previous : Keeps previous := by
  constructor <;> intro _ _ <;> simp [previous]

/-- An optional token gives nothing back. -/
theorem keeps_eat (kind : Token.Kind) : Keeps (eat kind) := by
  constructor
  · intro c a c' h
    unfold eat at h
    split at h <;> cases h
    · exact c.remaining_advance_le
    · exact Nat.le_refl _
  · intro c f h
    unfold eat at h
    split at h <;> cases h

/-- A token that has to be there gives nothing back. -/
theorem keeps_expect (kind : Token.Kind) : Keeps (expect kind) := by
  constructor
  · intro c a c' h
    unfold expect at h
    split at h <;> cases h
    exact c.remaining_advance_le
  · intro c f h
    unfold expect at h
    split at h <;> cases h
    exact Nat.le_refl _

/-- Behind a token that is no word, what starts with a word is more than that token. -/
theorem remaining_lt_of_wordFirst {p : Read α} (hp : Keeps p) (hw : WordFirst p) {c : Cursor}
    (hc : c.peek.isWord = false) {a : α} {c' : Cursor} (h : p c.advance = .ok (a, c')) :
    c'.remaining < c.remaining := by
  refine Nat.lt_of_le_of_lt (hp.ok h) (Cursor.remaining_advance_lt (Cursor.rest_ne_nil ?_))
  intro heq
  have hword := hw h
  rw [heq, hc] at hword
  cases hword

/-- A token that is no word and something that starts with a word are at least one token. -/
theorem consumes_expect_bind {kind : Token.Kind} (hk : kind.isWord = false) {p : Read α}
    (hp : Keeps p) (hw : WordFirst p) : Consumes (expect kind >>= fun _ ↦ p) := by
  constructor
  · intro c a c' h
    rw [bind_apply] at h
    unfold expect at h
    split at h
    · next s c₁ hexpect =>
      split at hexpect
      · next hpeek =>
        cases hexpect
        exact remaining_lt_of_wordFirst hp hw (hpeek ▸ hk) h
      · cases hexpect
    · cases h
  · exact ((keeps_expect kind).bind fun _ ↦ hp).fail

/-- A word gives nothing back. -/
theorem keeps_word : Keeps word := by
  constructor
  · intro c a c' h
    unfold word at h
    split at h <;> cases h
    exact c.remaining_advance_le
  · intro c f h
    unfold word at h
    split at h <;> cases h
    exact Nat.le_refl _

/-- A word is a word. -/
theorem wordFirst_word : WordFirst word := by
  intro c a c' h
  unfold word at h
  split at h
  · next hpeek => simp [hpeek, Token.Kind.isWord]
  · cases h

/-- An identifier gives nothing back. -/
theorem keeps_identifier : Keeps identifier := by
  constructor
  · intro c a c' h
    unfold identifier at h
    split at h
    · cases h
    · next hword =>
      split at h <;> cases h
      exact keeps_word.ok hword
  · intro c f h
    unfold identifier at h
    split at h
    · next hword =>
      cases h
      exact keeps_word.fail hword
    · next hword =>
      split at h <;> cases h
      exact keeps_word.ok hword

/-- An identifier is a word. -/
theorem wordFirst_identifier : WordFirst identifier := by
  intro c a c' h
  unfold identifier at h
  split at h
  · cases h
  · next hword => exact wordFirst_word hword

end Read

end StateGen.Description
