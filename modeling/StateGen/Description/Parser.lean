import StateGen.Description.Cursor

/-!
# From tokens to a description

The grammar, where `name` is any word and `ident` one that is a C identifier:

* `option name (string | name) ;`
* `initial-state idents ;`
* `event ident` with `;` or a block of `precondition idents ;` and `callback idents ;`
* `state ident [initial]` with `;` or a block of state entries
* a state entry is `entry-precondition`, `exit-precondition`, `on-enter` or `on-exit` with
  `idents ;`, or `next-state idents` or `on ident -> ident`, both followed by `;` or a block of
  `precondition idents ;`

A mistake inside a block is reported and the block goes on behind the next `;`. A mistake outside
of one gives the item up, and the reading goes on at the next word that starts an item. The
reading stops early once the store of diagnostics is full.
-/

namespace StateGen.Description

/-! ## Finding the next readable token -/

/-- The words that start an item. -/
def startsItem : Token.Kind → Bool
  | .keyword .option | .keyword .initialState | .keyword .event | .keyword .state => true
  | _ => false

namespace Cursor

/-- Step over tokens as long as their kind satisfies `p`. -/
def skipTokens (p : Token.Kind → Bool) (previous : Span) : List Token → Span × List Token
  | [] => (previous, [])
  | t :: ts => if p t.kind then skipTokens p t.span ts else (previous, t :: ts)

/-- Step over tokens as long as their kind satisfies `p`. -/
def skipWhile (p : Token.Kind → Bool) (c : Cursor) : Cursor :=
  let (previous, rest) := skipTokens p c.previous c.rest
  { c with previous, rest }

/-- Go behind the next `;`, or in front of the next closing brace, item or end of the text,
whichever is first. -/
def recover (c : Cursor) : Cursor :=
  let c := c.skipWhile fun k ↦ k != .eof && k != .semicolon && k != .rightBrace && !startsItem k
  if c.peek = .semicolon then c.advance else c

/-- Go in front of the next item, or of the end of the text. -/
def toNextItem (c : Cursor) : Cursor := c.skipWhile fun k ↦ k != .eof && !startsItem k

/-- Nothing is skipped if the next token is not to be. -/
theorem skipWhile_of_not {p : Token.Kind → Bool} {c : Cursor} (h : p c.peek = false) :
    c.skipWhile p = c := by
  obtain ⟨previous, rest, finish⟩ := c
  cases rest with
  | nil => rfl
  | cons t ts =>
    rw [peek] at h
    simp [skipWhile, skipTokens, h]

/-- Skipping steps over the next token if it is to be skipped. -/
theorem skipWhile_advance {p : Token.Kind → Bool} {c : Cursor} (h : p c.peek = true) :
    c.skipWhile p = c.advance.skipWhile p := by
  obtain ⟨previous, rest, finish⟩ := c
  cases rest with
  | nil => rfl
  | cons t ts =>
    rw [peek] at h
    simp [skipWhile, skipTokens, advance, h]

/-- What is left after skipping is no longer than the list. -/
theorem length_skipTokens_le (p : Token.Kind → Bool) (previous : Span) (ts : List Token) :
    (skipTokens p previous ts).2.length ≤ ts.length := by
  fun_induction skipTokens p previous ts with
  | case1 => simp
  | case2 => simp only [List.length_cons]; omega
  | case3 => simp

/-- Skipping never adds tokens. -/
theorem remaining_skipWhile_le (p : Token.Kind → Bool) (c : Cursor) :
    (c.skipWhile p).remaining ≤ c.remaining :=
  length_skipTokens_le p c.previous c.rest

/-- Going on behind a mistake never adds tokens. -/
theorem remaining_recover_le (c : Cursor) : c.recover.remaining ≤ c.remaining := by
  unfold recover
  dsimp only
  split
  · exact Nat.le_trans (remaining_advance_le _) (remaining_skipWhile_le ..)
  · exact remaining_skipWhile_le ..

/-- Going to the next item never adds tokens. -/
theorem remaining_toNextItem_le (c : Cursor) : c.toNextItem.remaining ≤ c.remaining :=
  remaining_skipWhile_le ..

end Cursor

/-! ## Lists and edges -/

namespace Read

variable {α β : Type}

/-- Read with `p` as long as the cursor satisfies `go`. -/
def repeatWhile (go : Cursor → Bool) (p : Read α) (hp : Consumes p) (c : Cursor) :
    Except Failure (List α × Cursor) :=
  if go c then
    match _h : p c with
    | .error f => .error f
    | .ok (a, c') =>
      match repeatWhile go p hp c' with
      | .error f => .error f
      | .ok (as, c'') => .ok (a :: as, c'')
  else .ok ([], c)
termination_by c.remaining
decreasing_by exact hp.ok _h

/-- Repeated reading gives nothing back. -/
theorem keeps_repeatWhile (go : Cursor → Bool) (p : Read α) (hp : Consumes p) :
    Keeps (repeatWhile go p hp) := by
  constructor
  · intro c as c' h
    fun_induction repeatWhile go p hp c generalizing as c' with
    | case1 => cases h
    | case2 => cases h
    | case3 c _ a c₁ hpc as' c₂ _ ih =>
      cases h
      exact Nat.le_trans (ih (by assumption)) (Nat.le_of_lt (hp.ok hpc))
    | case4 =>
      cases h
      exact Nat.le_refl _
  · intro c f h
    fun_induction repeatWhile go p hp c generalizing f with
    | case1 c _ f' hpc =>
      cases h
      exact hp.fail hpc
    | case2 c _ a c₁ hpc f' _ ih =>
      cases h
      exact Nat.le_trans (ih (by assumption)) (Nat.le_of_lt (hp.ok hpc))
    | case3 => cases h
    | case4 => cases h

/-- A comma and an identifier. -/
def commaIdentifier : Read Ident := do
  let _ ← expect .comma
  identifier

/-- A comma and an identifier are two tokens. -/
theorem consumes_commaIdentifier : Consumes commaIdentifier :=
  consumes_expect_bind rfl keeps_identifier wordFirst_identifier

/-- Identifiers with commas between them. -/
def identifiers : Read (List Ident) := do
  let first ← identifier
  let others ← repeatWhile (fun c ↦ c.peek == .comma) commaIdentifier consumes_commaIdentifier
  return first :: others

/-- Identifiers and a semicolon. -/
def hooks : Read (List Ident) := do
  let names ← identifiers
  let _ ← expect .semicolon
  return names

/-- A list of identifiers gives nothing back. -/
theorem keeps_identifiers : Keeps identifiers :=
  keeps_identifier.bind fun _ ↦ (keeps_repeatWhile ..).bind fun _ ↦ keeps_pure _

/-- A list of identifiers has at least one. -/
theorem wordFirst_identifiers : WordFirst identifiers := wordFirst_identifier.bind _

/-- A list of hooks gives nothing back. -/
theorem keeps_hooks : Keeps hooks :=
  keeps_identifiers.bind fun _ ↦ (keeps_expect _).bind fun _ ↦ keeps_pure _

/-- A list of hooks has at least one. -/
theorem wordFirst_hooks : WordFirst hooks := wordFirst_identifiers.bind _

/-- The guards of one line in the block of an edge. -/
def edgeGuards : Read (List Ident) := do
  let _ ← expect (.keyword .precondition)
  hooks

/-- A line of guards starts with its keyword. -/
theorem consumes_edgeGuards : Consumes edgeGuards :=
  consumes_expect_bind rfl keeps_hooks wordFirst_hooks

/-- Whether a block goes on: neither its closing brace nor the end of the text is next. -/
def inBlock (c : Cursor) : Bool := c.peek != .rightBrace && !c.atEnd

/-- What follows the targets of an edge: a semicolon, or a block with its guards. -/
def edgeEnd : Read (List Ident) := do
  if ← eat .semicolon then return []
  else
    let _ ← expect .leftBrace
    let guards ← repeatWhile inBlock edgeGuards consumes_edgeGuards
    let _ ← expect .rightBrace
    return guards.flatten

/-- What follows the targets of an edge gives nothing back. -/
theorem keeps_edgeEnd : Keeps edgeEnd := by
  refine (keeps_eat _).bind fun short ↦ ?_
  cases short
  · exact (keeps_expect _).bind fun _ ↦ (keeps_repeatWhile ..).bind fun _ ↦
      (keeps_expect _).bind fun _ ↦ keeps_pure _
  · exact keeps_pure _

/-- The targets of direct edges, behind the keyword that stood at `start`. -/
def nextState (start : Span) : Read StateEntry := do
  let targets ← identifiers
  let preconditions ← edgeEnd
  return .nextState { targets, preconditions, span := start.cover (← previous) }

/-- Event and target of an edge, behind the keyword that stood at `start`. -/
def onEvent (start : Span) : Read StateEntry := do
  let event ← identifier
  let _ ← expect .arrow
  let target ← identifier
  let preconditions ← edgeEnd
  return .onEvent event { targets := [target], preconditions, span := start.cover (← previous) }

/-- Direct edges give nothing back. -/
theorem keeps_nextState (start : Span) : Keeps (nextState start) :=
  keeps_identifiers.bind fun _ ↦ keeps_edgeEnd.bind fun _ ↦
    keeps_previous.bind fun _ ↦ keeps_pure _

/-- An edge of an event gives nothing back. -/
theorem keeps_onEvent (start : Span) : Keeps (onEvent start) :=
  keeps_identifier.bind fun _ ↦ (keeps_expect _).bind fun _ ↦
    keeps_identifier.bind fun _ ↦ keeps_edgeEnd.bind fun _ ↦
    keeps_previous.bind fun _ ↦ keeps_pure _

/-! ## Entries of a block -/

/-- Step over the next token, if `rest` knows how to go on behind a token of its kind. -/
def dispatch (rest : Token.Kind → Option (Span → Read α)) (otherwise : Token.Kind → Mistake) :
    Read α := fun c ↦
  match rest c.peek with
  | some p => p c.span c.advance
  | none => .error ⟨otherwise c.peek, c.span, c⟩

/-- How an entry can go on behind a token of each kind: behind a word not at all, and behind
anything else only with a word. -/
structure Continues (rest : Token.Kind → Option (Span → Read α)) : Prop where
  isWord : ∀ {kind p}, rest kind = some p → kind.isWord = false
  keeps : ∀ {kind p}, rest kind = some p → ∀ s, Keeps (p s)
  wordFirst : ∀ {kind p}, rest kind = some p → ∀ s, WordFirst (p s)

/-- An entry that is chosen by its keyword takes that keyword. -/
theorem consumes_dispatch {rest : Token.Kind → Option (Span → Read α)} (h : Continues rest)
    (otherwise : Token.Kind → Mistake) : Consumes (dispatch rest otherwise) := by
  constructor
  · intro c a c' hd
    unfold dispatch at hd
    split at hd
    · next p hp =>
      exact remaining_lt_of_wordFirst (h.keeps hp _) (h.wordFirst hp _) (h.isWord hp) hd
    · cases hd
  · intro c f hd
    unfold dispatch at hd
    split at hd
    · next p hp => exact Nat.le_trans ((h.keeps hp _).fail hd) c.remaining_advance_le
    · cases hd
      exact Nat.le_refl _

/-- How a state entry goes on behind its keyword. -/
def stateEntryRest : Token.Kind → Option (Span → Read StateEntry)
  | .keyword .entryPrecondition => some fun _ ↦ do return .entryPrecondition (← hooks)
  | .keyword .exitPrecondition => some fun _ ↦ do return .exitPrecondition (← hooks)
  | .keyword .onEnter => some fun _ ↦ do return .onEnter (← hooks)
  | .keyword .onExit => some fun _ ↦ do return .onExit (← hooks)
  | .keyword .nextState => some nextState
  | .keyword .on => some onEvent
  | _ => none

/-- An entry in the block of a state. -/
def stateEntry : Read StateEntry := dispatch stateEntryRest .unexpectedInState

/-- A state entry goes on with a word. -/
theorem continues_stateEntryRest : Continues stateEntryRest := by
  constructor
  · intro kind p hp
    unfold stateEntryRest at hp
    split at hp <;> first | rfl | cases hp
  · intro kind p hp s
    unfold stateEntryRest at hp
    split at hp <;> cases hp
    iterate 4 exact keeps_hooks.bind fun _ ↦ keeps_pure _
    · exact keeps_nextState s
    · exact keeps_onEvent s
  · intro kind p hp s
    unfold stateEntryRest at hp
    split at hp <;> cases hp
    iterate 4 exact wordFirst_hooks.bind _
    · exact wordFirst_identifiers.bind _
    · exact wordFirst_identifier.bind _

/-- A state entry takes its keyword. -/
theorem consumes_stateEntry : Consumes stateEntry :=
  consumes_dispatch continues_stateEntryRest _

/-- The hooks of one line in the block of an event. -/
inductive EventHooks where
  | preconditions (names : List Ident)
  | callbacks (names : List Ident)

/-- How a line in the block of an event goes on behind its keyword. -/
def eventHooksRest : Token.Kind → Option (Span → Read EventHooks)
  | .keyword .precondition => some fun _ ↦ do return .preconditions (← hooks)
  | .keyword .callback => some fun _ ↦ do return .callbacks (← hooks)
  | _ => none

/-- A line in the block of an event. -/
def eventHooks : Read EventHooks := dispatch eventHooksRest .expectedEventHook

/-- A line in the block of an event goes on with a word. -/
theorem continues_eventHooksRest : Continues eventHooksRest := by
  constructor
  · intro kind p hp
    unfold eventHooksRest at hp
    split at hp <;> first | rfl | cases hp
  · intro kind p hp s
    unfold eventHooksRest at hp
    split at hp <;> cases hp
    iterate 2 exact keeps_hooks.bind fun _ ↦ keeps_pure _
  · intro kind p hp s
    unfold eventHooksRest at hp
    split at hp <;> cases hp
    iterate 2 exact wordFirst_hooks.bind _

/-- A line in the block of an event takes its keyword. -/
theorem consumes_eventHooks : Consumes eventHooks :=
  consumes_dispatch continues_eventHooksRest _

/-! ## Items -/

/-- The value of an option: a string or a word. -/
def optionValue : Read String := fun c ↦
  match c.peek with
  | .string value => .ok (value, c.advance)
  | .word value => .ok (value, c.advance)
  | got => .error ⟨.expectedOptionValue got, c.span, c⟩

/-- The value of an option gives nothing back. -/
theorem keeps_optionValue : Keeps optionValue := by
  constructor
  · intro c a c' h
    unfold optionValue at h
    split at h <;> cases h
    · exact c.remaining_advance_le
    · exact c.remaining_advance_le
  · intro c f h
    unfold optionValue at h
    split at h <;> cases h
    exact Nat.le_refl _

/-- An option, behind the keyword that stood at `start`. -/
def optionItem (start : Span) : Read OptionItem := do
  let key ← word
  let value ← optionValue
  let _ ← expect .semicolon
  return { key, value, span := start.cover (← previous) }

/-- A list of initial states, behind the keyword that stood at `start`. -/
def initialItem (start : Span) : Read InitialItem := do
  let states ← identifiers
  let _ ← expect .semicolon
  return { states, span := start.cover (← previous) }

/-- An option gives nothing back. -/
theorem keeps_optionItem (start : Span) : Keeps (optionItem start) :=
  keeps_word.bind fun _ ↦ keeps_optionValue.bind fun _ ↦
    (keeps_expect _).bind fun _ ↦ keeps_previous.bind fun _ ↦ keeps_pure _

/-- A list of initial states gives nothing back. -/
theorem keeps_initialItem (start : Span) : Keeps (initialItem start) :=
  keeps_identifiers.bind fun _ ↦ (keeps_expect _).bind fun _ ↦
    keeps_previous.bind fun _ ↦ keeps_pure _

/-- Name of a state and whether it is marked as initial. -/
def stateHead : Read (Ident × Bool) := do
  let name ← identifier
  return (name, ← eat (.keyword .initial))

/-- The head of a state gives nothing back. -/
theorem keeps_stateHead : Keeps stateHead :=
  keeps_identifier.bind fun _ ↦ (keeps_eat _).bind fun _ ↦ keeps_pure _

/-- Whether a block follows: `;` says no, `{` says yes. -/
def opensBlock : Read Bool := do
  if ← eat .semicolon then return false
  else
    let _ ← expect .leftBrace
    return true

/-- Looking for a block gives nothing back. -/
theorem keeps_opensBlock : Keeps opensBlock := by
  refine (keeps_eat _).bind fun short ↦ ?_
  cases short
  · exact (keeps_expect _).bind fun _ ↦ keeps_pure _
  · exact keeps_pure _

end Read

/-! ## Blocks with recovery -/

/-- What became of an attempt to read something that can hold several mistakes. -/
structure Attempt (α : Type) where
  /-- Nothing if the whole was given up. -/
  value : Option α
  cursor : Cursor
  diagnostics : Diagnostics

namespace Attempt

variable {α β : Type}

/-- An attempt that ends at the first mistake. -/
def ofRead (file : SourceFile) (p : Read α) (c : Cursor) (ds : Diagnostics) : Attempt α :=
  match p c with
  | .ok (a, c') => ⟨some a, c', ds⟩
  | .error f => ⟨none, f.cursor, f.report file ds⟩

/-- Go on with a second attempt if the first one yields a value. -/
def andThen (x : Attempt α) (f : α → Cursor → Diagnostics → Attempt β) : Attempt β :=
  match x.value with
  | some a => f a x.cursor x.diagnostics
  | none => ⟨none, x.cursor, x.diagnostics⟩

/-- An attempt adds no tokens if its reading function gives none back. -/
theorem remaining_ofRead_le {file : SourceFile} {p : Read α} (hp : p.Keeps) (c : Cursor)
    (ds : Diagnostics) : (ofRead file p c ds).cursor.remaining ≤ c.remaining := by
  unfold ofRead
  split
  · next h => exact hp.ok h
  · next h => exact hp.fail h

/-- A second attempt that adds no tokens adds none to the first. -/
theorem remaining_andThen_le {x : Attempt α} {f : α → Cursor → Diagnostics → Attempt β}
    (hf : ∀ a c ds, (f a c ds).cursor.remaining ≤ c.remaining) :
    (x.andThen f).cursor.remaining ≤ x.cursor.remaining := by
  unfold andThen
  split
  · exact hf ..
  · exact Nat.le_refl _

/-- An attempt that started with the diagnostics `ds` and was given up at its first mistake. -/
structure FailsAtOnce (ds : Diagnostics) (x : Attempt α) : Prop where
  value : x.value = none
  totalErrors : x.diagnostics.totalErrors = ds.totalErrors + 1

/-- What starts with a word is given up at once in front of anything else. -/
theorem failsAtOnce_ofRead {file : SourceFile} {p : Read α} (hp : p.WordFirst) {c : Cursor}
    (hc : c.peek.isWord = false) (ds : Diagnostics) : FailsAtOnce ds (ofRead file p c ds) := by
  unfold ofRead
  split
  · next h => simp [hp h] at hc
  · exact ⟨rfl, rfl⟩

/-- Nothing is attempted after a first attempt that was given up. -/
theorem FailsAtOnce.andThen {ds : Diagnostics} {x : Attempt α} (hx : FailsAtOnce ds x)
    (f : α → Cursor → Diagnostics → Attempt β) : FailsAtOnce ds (x.andThen f) := by
  unfold Attempt.andThen
  rw [hx.value]
  exact ⟨rfl, hx.totalErrors⟩

end Attempt

/-- Reporting a failure counts one more error. -/
theorem totalErrors_report (f : Failure) (file : SourceFile) (ds : Diagnostics) :
    (f.report file ds).totalErrors = ds.totalErrors + 1 := rfl

/-- The entries of a block, up to its closing brace or the end of the text. A broken entry is
reported and skipped; with a full store of diagnostics the block is given up. Every round takes
a token or adds an error, and there is room for only so many errors. -/
def block {β : Type} (file : SourceFile) (p : Read β) (hp : p.Consumes) (c : Cursor)
    (ds : Diagnostics) : Attempt (List β) :=
  if !Read.inBlock c then ⟨some [], c, ds⟩
  else if _hfull : ds.isFull then ⟨none, c, ds⟩
  else
    match _h : p c with
    | .ok (b, c') =>
      let rest := block file p hp c' ds
      { rest with value := rest.value.map (b :: ·) }
    | .error f => block file p hp f.cursor.recover (f.report file ds)
termination_by (c.remaining, Diagnostics.capacity - ds.totalErrors)
decreasing_by
  · exact Prod.Lex.left _ _ (hp.ok _h)
  · have hle := Nat.le_trans f.cursor.remaining_recover_le (hp.fail _h)
    rcases Nat.lt_or_eq_of_le hle with hlt | heq
    · exact Prod.Lex.left _ _ hlt
    · rw [heq]
      refine Prod.Lex.right _ ?_
      have hroom : ds.totalErrors < Diagnostics.capacity := by
        simpa [Diagnostics.isFull] using _hfull
      rw [totalErrors_report]
      omega

/-- Reading a block never adds tokens. -/
theorem remaining_block_le {β : Type} (file : SourceFile) (p : Read β) (hp : p.Consumes)
    (c : Cursor) (ds : Diagnostics) : (block file p hp c ds).cursor.remaining ≤ c.remaining := by
  fun_induction block file p hp c ds with
  | case1 => exact Nat.le_refl _
  | case2 => exact Nat.le_refl _
  | case3 c ds _ _ b c' h _ ih => exact Nat.le_trans ih (Nat.le_of_lt (hp.ok h))
  | case4 c ds _ _ f h ih =>
    exact Nat.le_trans ih (Nat.le_trans f.cursor.remaining_recover_le (hp.fail h))

/-- A semicolon, or a block between braces. -/
def body {β : Type} (file : SourceFile) (p : Read β) (hp : p.Consumes) (c : Cursor)
    (ds : Diagnostics) : Attempt (List β) :=
  (Attempt.ofRead file Read.opensBlock c ds).andThen fun opens c ds ↦
    if opens then
      (block file p hp c ds).andThen fun entries c ds ↦
        (Attempt.ofRead file (Read.expect .rightBrace) c ds).andThen fun _ c ds ↦
          ⟨some entries, c, ds⟩
    else ⟨some [], c, ds⟩

/-- Reading a body never adds tokens. -/
theorem remaining_body_le {β : Type} (file : SourceFile) (p : Read β) (hp : p.Consumes)
    (c : Cursor) (ds : Diagnostics) : (body file p hp c ds).cursor.remaining ≤ c.remaining := by
  refine Nat.le_trans (Attempt.remaining_andThen_le fun opens c ds ↦ ?_)
    (Attempt.remaining_ofRead_le Read.keeps_opensBlock c ds)
  split
  · refine Nat.le_trans (Attempt.remaining_andThen_le fun _ c ds ↦ ?_)
      (remaining_block_le file p hp c ds)
    refine Nat.le_trans (Attempt.remaining_andThen_le fun _ c ds ↦ Nat.le_refl _)
      (Attempt.remaining_ofRead_le (Read.keeps_expect _) c ds)
  · exact Nat.le_refl _

/-- The guards among the hooks of an event block. -/
def eventPreconditions (lines : List Read.EventHooks) : List Ident :=
  lines.flatMap fun
    | .preconditions names => names
    | .callbacks _ => []

/-- The callbacks among the hooks of an event block. -/
def eventCallbacks (lines : List Read.EventHooks) : List Ident :=
  lines.flatMap fun
    | .preconditions _ => []
    | .callbacks names => names

/-- An event, behind the keyword that stood at `start`. -/
def eventItem (file : SourceFile) (start : Span) (c : Cursor) (ds : Diagnostics) :
    Attempt EventItem :=
  (Attempt.ofRead file Read.identifier c ds).andThen fun name c ds ↦
    (body file Read.eventHooks Read.consumes_eventHooks c ds).andThen fun lines c ds ↦
      ⟨some
        { name
          preconditions := eventPreconditions lines
          callbacks := eventCallbacks lines
          span := start.cover c.previous }, c, ds⟩

/-- A state, behind the keyword that stood at `start`. -/
def stateItem (file : SourceFile) (start : Span) (c : Cursor) (ds : Diagnostics) :
    Attempt StateItem :=
  (Attempt.ofRead file Read.stateHead c ds).andThen fun (name, initial) c ds ↦
    (body file Read.stateEntry Read.consumes_stateEntry c ds).andThen fun entries c ds ↦
      ⟨some { name, initial, body := entries, span := start.cover c.previous }, c, ds⟩

/-- Reading an event never adds tokens. -/
theorem remaining_eventItem_le (file : SourceFile) (start : Span) (c : Cursor)
    (ds : Diagnostics) : (eventItem file start c ds).cursor.remaining ≤ c.remaining := by
  refine Nat.le_trans (Attempt.remaining_andThen_le fun _ c ds ↦ ?_)
    (Attempt.remaining_ofRead_le Read.keeps_identifier c ds)
  exact Nat.le_trans (Attempt.remaining_andThen_le fun _ c ds ↦ Nat.le_refl _)
    (remaining_body_le ..)

/-- Reading a state never adds tokens. -/
theorem remaining_stateItem_le (file : SourceFile) (start : Span) (c : Cursor)
    (ds : Diagnostics) : (stateItem file start c ds).cursor.remaining ≤ c.remaining := by
  refine Nat.le_trans (Attempt.remaining_andThen_le fun _ c ds ↦ ?_)
    (Attempt.remaining_ofRead_le Read.keeps_stateHead c ds)
  exact Nat.le_trans (Attempt.remaining_andThen_le fun _ c ds ↦ Nat.le_refl _)
    (remaining_body_le ..)

/-! ## The whole description -/

/-- Behind the first token of an item, which stood at `start` and has the given kind. -/
def itemRest (file : SourceFile) (kind : Token.Kind) (start : Span) (c : Cursor)
    (ds : Diagnostics) : Attempt Item :=
  match kind with
  | .keyword .option =>
    (Attempt.ofRead file (Read.optionItem start) c ds).andThen fun i c ds ↦
      ⟨some (.option i), c, ds⟩
  | .keyword .initialState =>
    (Attempt.ofRead file (Read.initialItem start) c ds).andThen fun i c ds ↦
      ⟨some (.initial i), c, ds⟩
  | .keyword .event => (eventItem file start c ds).andThen fun i c ds ↦ ⟨some (.event i), c, ds⟩
  | .keyword .state => (stateItem file start c ds).andThen fun i c ds ↦ ⟨some (.state i), c, ds⟩
  | got => ⟨none, c, (Failure.mk (.expectedItem got) start c).report file ds⟩

/-- Reading the rest of an item never adds tokens. -/
theorem remaining_itemRest_le (file : SourceFile) (kind : Token.Kind) (start : Span) (c : Cursor)
    (ds : Diagnostics) : (itemRest file kind start c ds).cursor.remaining ≤ c.remaining := by
  unfold itemRest
  split
  · exact Nat.le_trans (Attempt.remaining_andThen_le fun _ c ds ↦ Nat.le_refl _)
      (Attempt.remaining_ofRead_le (Read.keeps_optionItem start) c ds)
  · exact Nat.le_trans (Attempt.remaining_andThen_le fun _ c ds ↦ Nat.le_refl _)
      (Attempt.remaining_ofRead_le (Read.keeps_initialItem start) c ds)
  · exact Nat.le_trans (Attempt.remaining_andThen_le fun _ c ds ↦ Nat.le_refl _)
      (remaining_eventItem_le ..)
  · exact Nat.le_trans (Attempt.remaining_andThen_le fun _ c ds ↦ Nat.le_refl _)
      (remaining_stateItem_le ..)
  · exact Nat.le_refl _

/-- An item is given up at once if no word follows its first token. -/
theorem failsAtOnce_itemRest (file : SourceFile) {kind : Token.Kind} (start : Span) {c : Cursor}
    (hc : kind.isWord = false → c.peek.isWord = false) (ds : Diagnostics) :
    (itemRest file kind start c ds).FailsAtOnce ds := by
  unfold itemRest
  split
  · exact (Attempt.failsAtOnce_ofRead (Read.wordFirst_word.bind _) (hc rfl) ds).andThen _
  · exact (Attempt.failsAtOnce_ofRead (Read.wordFirst_identifiers.bind _) (hc rfl) ds).andThen _
  · exact ((Attempt.failsAtOnce_ofRead Read.wordFirst_identifier (hc rfl) ds).andThen _).andThen _
  · exact ((Attempt.failsAtOnce_ofRead (Read.wordFirst_identifier.bind _) (hc rfl) ds).andThen
      _).andThen _
  · exact ⟨rfl, rfl⟩

/-- Every item takes a token, or adds an error where all tokens were read. -/
theorem remaining_itemRest_lt_or (file : SourceFile) (c : Cursor) (ds : Diagnostics) :
    (itemRest file c.peek c.span c.advance ds).cursor.remaining < c.remaining ∨
      (itemRest file c.peek c.span c.advance ds).cursor.remaining ≤ c.remaining ∧
        (itemRest file c.peek c.span c.advance ds).FailsAtOnce ds := by
  have hle := remaining_itemRest_le file c.peek c.span c.advance ds
  by_cases h : c.rest = []
  · rw [Cursor.advance_of_rest_eq_nil h] at hle ⊢
    exact .inr ⟨hle, failsAtOnce_itemRest file c.span id ds⟩
  · exact .inl (Nat.lt_of_le_of_lt hle (Cursor.remaining_advance_lt h))

/-- The items from a cursor on; a broken item is left out. Every round takes a token or adds an
error, and there is room for only so many errors. -/
def itemsFrom (file : SourceFile) (c : Cursor) (ds : Diagnostics) :
    List Item × Cursor × Diagnostics :=
  if _h : c.atEnd || ds.isFull then ([], c, ds)
  else
    let x := itemRest file c.peek c.span c.advance ds
    match _hx : x.value with
    | some item =>
      let (items, c, ds) := itemsFrom file x.cursor x.diagnostics
      (item :: items, c, ds)
    | none => itemsFrom file x.cursor.toNextItem x.diagnostics
termination_by (c.remaining, Diagnostics.capacity - ds.totalErrors)
decreasing_by
  · rcases remaining_itemRest_lt_or file c ds with hlt | ⟨-, hfail⟩
    · exact Prod.Lex.left _ _ hlt
    · cases hfail.value.symm.trans _hx
  · have hskip := x.cursor.remaining_toNextItem_le
    rcases remaining_itemRest_lt_or file c ds with hlt | ⟨hle, hfail⟩
    · exact Prod.Lex.left _ _ (Nat.lt_of_le_of_lt hskip hlt)
    · rcases Nat.lt_or_eq_of_le (Nat.le_trans hskip hle) with hlt | heq
      · exact Prod.Lex.left _ _ hlt
      · rw [heq]
        refine Prod.Lex.right _ ?_
        have hroom : ds.totalErrors < Diagnostics.capacity := by
          simp only [Diagnostics.isFull, Bool.or_eq_true, decide_eq_true_eq, not_or] at _h
          omega
        rw [hfail.totalErrors]
        omega

/-- The description that tokens spell, with everything that is readable in spite of mistakes, and
the mistakes. -/
def ofTokens (file : SourceFile) (tokens : List Token) : Description × Diagnostics :=
  let start := Cursor.ofTokens file tokens
  let (items, c, ds) := itemsFrom file start .empty
  (⟨items, start.span.cover c.previous⟩, ds)

end StateGen.Description
