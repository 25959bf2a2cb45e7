import StateGen.Template.Node

/-!
# Rendering

A renderer writes to a sink while it walks the tree. It keeps the variables of the open loops on a
stack: a name is looked up there, innermost first, and then in the namespace. The sink may accept
only so many bytes; a write that does not fit fails after filling it.
-/

namespace StateGen.Template

/-- Where output goes. -/
structure Sink where
  /-- The bytes that were accepted. -/
  written : Array UInt8 := #[]
  /-- How many bytes are accepted in total; no bound if absent. -/
  capacity : Option Nat := none

namespace Sink

/-- Write bytes: the new contents and whether all of them were accepted. -/
def write (s : Sink) (bytes : List UInt8) : Sink × Bool :=
  match s.capacity with
  | none => ({ s with written := s.written ++ bytes }, true)
  | some n =>
    let room := n - s.written.size
    ({ s with written := s.written ++ bytes.take room }, bytes.length ≤ room)

/-- The text that was written. -/
def text (s : Sink) : String := Utf8.decodeLossy s.written.toList

end Sink

/-- The state of a renderer. -/
structure Renderer where
  /-- The variables of the open loops, innermost first. -/
  scopes : List (String × Value) := []
  sink : Sink
  /-- The records written so far. -/
  records : Array Log.Record := #[]

/-- A step of a renderer. -/
abbrev Render := EStateM Error Renderer

namespace Renderer

/-- The name of the mapping that describes the current round of a loop. -/
def loopVariable : String := "loop"

/-- The value of a name: the innermost variable, else the entry of the namespace. -/
def lookup (root : Value) (scopes : List (String × Value)) (name : String) : Option Value :=
  match scopes.lookup name with
  | some v => some v
  | none => root.get? name

/-- The value of a path. -/
def resolve (root : Value) (p : Path) : Render (Option Value) := do
  return p.resolve (lookup root (← get).scopes)

/-- The value of a path that has to have one. -/
def require (root : Value) (p : Path) (span : Span) : Render Value := do
  match ← resolve root p with
  | some v => return v
  | none => throw (.unresolvedReference p.display span)

/-- Write a text. -/
def emit (s : String) : Render Unit := do
  let r ← get
  let (sink, complete) := r.sink.write (Utf8.encode s)
  set { r with sink }
  if !complete then throw (.writeFailed "sink full")

/-- Write the string or integer at a path. -/
def substitute (root : Value) (p : Path) (span : Span) : Render Unit := do
  match ← require root p span with
  | .str s => emit s
  | .int n => emit (toString n)
  | v => throw (.notScalar p.display v.kind span)

/-- Whether a condition holds; a path without a value counts as false. -/
def holds (root : Value) (c : Condition) : Render Bool := do
  let truth := ((← resolve root c.path).map Value.isTruthy).getD false
  return truth != c.negated

/-- The keys and values of a container; the keys of a sequence are its indices. -/
def entries? : Value → Option (List (Value × Value))
  | .seq items => some (items.zipIdx.map fun (item, i) ↦ (.int i, item))
  | .map fields => some (fields.entries.map fun (key, item) ↦ (.str key, item))
  | _ => none

/-- What a loop body can read about its round. -/
def loopInfo (index length : Nat) : Value :=
  .map ⟨[("index", .int index), ("first", .ofBool (index == 0)),
    ("last", .ofBool (index + 1 == length)), ("length", .int length)]⟩

/-- The variables of one round, innermost first. -/
def roundScopes (key : Option String) (value : String) (index length : Nat)
    (entry : Value × Value) : List (String × Value) :=
  (value, entry.2)
    :: (key.toList.map fun name ↦ (name, entry.1)) ++ [(loopVariable, loopInfo index length)]

/-- Keep only the outermost scopes. -/
def truncate (depth : Nat) (r : Renderer) : Renderer :=
  { r with scopes := r.scopes.drop (r.scopes.length - depth) }

/-- Run a step with more scopes on the stack, and take them off again whether it fails or not. -/
def withScopes (scopes : List (String × Value)) (body : Render Unit) : Render Unit := fun r ↦
  let depth := r.scopes.length
  match body { r with scopes := scopes ++ r.scopes } with
  | .ok _ r' => .ok () (r'.truncate depth)
  | .error e r' => .error e (r'.truncate depth)

/-- Run the body of a loop for each of the entries, the first of which has the given index. -/
def iterate (key : Option String) (value : String) (length : Nat) (body : Render Unit) :
    Nat → List (Value × Value) → Render Unit
  | _, [] => return ()
  | index, entry :: entries => do
    withScopes (roundScopes key value index length entry) body
    iterate key value length body (index + 1) entries

/-- The entries of the container that a loop runs over. -/
def container (root : Value) (p : Path) (span : Span) : Render (List (Value × Value)) := do
  let v ← require root p span
  match entries? v with
  | none => throw (.notIterable p.display v.kind span)
  | some entries =>
    modify fun r ↦
      { r with
        records := r.records.push (.mk .trace .renderer
          ("for " ++ p.display ++ ": " ++ toString entries.length ++ " iterations")) }
    return entries

mutual

/-- Render a node. -/
def renderNode (root : Value) : Node → Render Unit
  | .text s => emit s
  | .subst path span => substitute root path span
  | .loop key value path body span => do
    let entries ← container root path span
    iterate key value entries.length (renderNodes root body) 0 entries
  | .choice branches otherwise => do
    let taken ← renderFirst root branches
    if !taken then renderNodes root otherwise

/-- Render nodes one after the other. -/
def renderNodes (root : Value) : List Node → Render Unit
  | [] => return ()
  | n :: ns => do
    renderNode root n
    renderNodes root ns

/-- Render the first branch whose condition holds, and tell whether there is one. -/
def renderFirst (root : Value) : List (Condition × List Node) → Render Bool
  | [] => return false
  | (condition, body) :: branches => do
    if ← holds root condition then
      renderNodes root body
      return true
    else renderFirst root branches

end

end Renderer

/-- What became of a rendering. -/
structure Rendering where
  /-- The bytes that were written, also before a failure. -/
  output : List UInt8
  /-- The failure, if there was one. -/
  failure : Option Error
  records : List Log.Record

/-- Render a template against a namespace into a sink. -/
def render (t : Template) (root : Value) (sink : Sink) : Rendering :=
  match Renderer.renderNodes root t.nodes { sink } with
  | .ok _ r => ⟨r.sink.written.toList, none, r.records.toList⟩
  | .error e r => ⟨r.sink.written.toList, some e, r.records.toList⟩

/-- Read a text that has no name of its own and render it, with room for all of its output. The
record of the reading comes first. -/
def renderText (text : String) (root : Value) : Rendering :=
  match parse "<inline>" text with
  | .error e => ⟨[], some e, []⟩
  | .ok t =>
    let r := t.render root {}
    { r with records := t.parsedRecord :: r.records }

/-- The output of a template, if rendering succeeds. -/
def Rendering.result (r : Rendering) : Except Error (List UInt8) :=
  match r.failure with
  | none => .ok r.output
  | some e => .error e

end StateGen.Template
