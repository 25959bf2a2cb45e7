import StateGen.Log
import StateGen.Template.Segment

/-!
# Directives and the tree of a template

Tags are read as directives one after the other, and directives build the tree: a stack holds the
blocks that are open, and the nodes of the innermost one are collected. The first fault in the
order of the text is the one that is reported.
-/

namespace StateGen.Template

/-- The truth of a path, or its negation. -/
structure Condition where
  negated : Bool
  path : Path

/-- A node of a template. -/
inductive Node where
  /-- Text that is copied. -/
  | text (s : String)
  /-- The string or integer at a path. -/
  | subst (path : Path) (span : Span)
  /-- The body, once for every entry of a container. -/
  | loop (key : Option String) (value : String) (path : Path) (body : List Node) (span : Span)
  /-- The first branch whose condition holds, or the last part if there is none. -/
  | choice (branches : List (Condition × List Node)) (otherwise : List Node)

/-! ## Directives -/

/-- What a tag says. -/
inductive Directive where
  | comment
  | subst (path : Path)
  | loop (key : Option String) (value : String) (path : Path)
  | endfor
  | branch (condition : Condition)
  | elif (condition : Condition)
  | otherwise
  | endif

namespace Directive

/-- Read the path of a directive. -/
def readPath (text : List Char) (span : Span) : Except Error Path :=
  match Path.parse (String.ofList text) with
  | .ok p => .ok p
  | .error fault => .error (.invalidPath (String.ofList text) fault span)

/-- Read a condition: a path, or `!` and a path. -/
def readCondition (text : List Char) (span : Span) : Except Error Condition :=
  match Text.trimBlank text with
  | [] => .error (.malformed .missingCondition span)
  | '!' :: rest => do return ⟨true, ← readPath (rest.dropWhile Text.isBlank) span⟩
  | text => do return ⟨false, ← readPath text span⟩

/-- A loop variable: a name as in paths. -/
def isLoopName (name : List Char) : Bool := !name.isEmpty && name.all Text.isWordChar

/-- Set every comma apart. -/
def spaceCommas (cs : List Char) : List Char :=
  cs.flatMap fun c ↦ if c = ',' then [' ', ',', ' '] else [c]

/-- Check the variables of a loop and read its path. -/
def makeLoop (key : Option (List Char)) (value path : List Char) (span : Span) :
    Except Error Directive :=
  match (key.toList ++ [value]).find? (!isLoopName ·) with
  | some name => .error (.malformed (.loopVariable (String.ofList name)) span)
  | none => do return .loop (key.map String.ofList) (String.ofList value) (← readPath path span)

/-- Read what follows `for`: `value in path` or `key, value in path`. -/
def readLoop (text : List Char) (span : Span) : Except Error Directive :=
  match Text.words (spaceCommas text) with
  | [value, ['i', 'n'], path] => makeLoop none value path span
  | [key, [','], value, ['i', 'n'], path] => makeLoop (some key) value path span
  | _ => .error (.malformed (.forLoop (String.ofList text)) span)

/-- A directive that takes no arguments. -/
def bare (d : Directive) (word : String) (arguments : List Char) (span : Span) :
    Except Error Directive :=
  if arguments.isEmpty then .ok d else .error (.malformed (.takesNoArguments word) span)

/-- Read a tag. -/
def ofTag (tag : Tag) : Except Error Directive :=
  match tag.body.toList with
  | [] => .error (.malformed .emptyDirective tag.span)
  | '#' :: _ => .ok .comment
  | body =>
    let word := String.ofList (body.takeWhile (!Text.isBlank ·))
    let arguments := (body.dropWhile (!Text.isBlank ·)).dropWhile Text.isBlank
    match word with
    | "for" => readLoop arguments tag.span
    | "endfor" => bare .endfor word arguments tag.span
    | "if" => do return .branch (← readCondition arguments tag.span)
    | "elif" => do return .elif (← readCondition arguments tag.span)
    | "else" => bare .otherwise word arguments tag.span
    | "endif" => bare .endif word arguments tag.span
    | _ => do return .subst (← readPath body tag.span)

end Directive

/-! ## Blocks -/

/-- An open block, with the nodes that precede it in the block around it. -/
inductive Frame where
  | loop (before : List Node) (key : Option String) (value : String) (path : Path) (span : Span)
  /-- The branches that are complete and the condition of the open one. -/
  | branch (before : List Node) (done : List (Condition × List Node)) (condition : Condition)
    (span : Span)
  /-- All branches, while the last part is open. -/
  | otherwise (before : List Node) (branches : List (Condition × List Node)) (span : Span)

/-- The kind of an open block. -/
def Frame.block : Frame → Block
  | .loop .. => .loop
  | .branch .. => .branch
  | .otherwise .. => .otherwise

/-- Where an open block was opened. -/
def Frame.span : Frame → Span
  | .loop _ _ _ _ span | .branch _ _ _ span | .otherwise _ _ span => span

/-- A template that is partly read. -/
structure Partial where
  /-- The open blocks, innermost first. -/
  frames : List Frame := []
  /-- The nodes of the innermost block. -/
  nodes : List Node := []

namespace Partial

/-- Append a node to the innermost block. -/
def push (t : Partial) (n : Node) : Partial := { t with nodes := t.nodes ++ [n] }

/-- The failure at a tag that cannot end the innermost block. -/
def refuse (t : Partial) (found : Closer) (span : Span) : Error :=
  match t.frames with
  | [] => .malformed (.unopened found) span
  | frame :: _ => .malformed (.unclosed frame.block frame.span found) span

/-- Read one directive, which stands at `span`. -/
def step (t : Partial) (d : Directive) (span : Span) : Except Error Partial :=
  match d, t.frames with
  | .comment, _ => .ok t
  | .subst path, _ => .ok (t.push (.subst path span))
  | .loop key value path, frames => .ok ⟨.loop t.nodes key value path span :: frames, []⟩
  | .branch condition, frames => .ok ⟨.branch t.nodes [] condition span :: frames, []⟩
  | .endfor, .loop before key value path opened :: frames =>
    .ok ⟨frames, before ++ [.loop key value path t.nodes opened]⟩
  | .elif next, .branch before done condition opened :: frames =>
    .ok ⟨.branch before (done ++ [(condition, t.nodes)]) next opened :: frames, []⟩
  | .otherwise, .branch before done condition opened :: frames =>
    .ok ⟨.otherwise before (done ++ [(condition, t.nodes)]) opened :: frames, []⟩
  | .endif, .branch before done condition _ :: frames =>
    .ok ⟨frames, before ++ [.choice (done ++ [(condition, t.nodes)]) []]⟩
  | .endif, .otherwise before branches _ :: frames =>
    .ok ⟨frames, before ++ [.choice branches t.nodes]⟩
  | .endfor, _ => .error (t.refuse .endfor span)
  | .elif _, _ => .error (t.refuse .elif span)
  | .otherwise, _ => .error (t.refuse .otherwise span)
  | .endif, _ => .error (t.refuse .endif span)

/-- The nodes of a template that was read to its end. -/
def finish (t : Partial) : Except Error (List Node) :=
  match t.frames with
  | [] => .ok t.nodes
  | frame :: _ =>
    .error (.malformed (.unclosed frame.block frame.span .endOfTemplate) frame.span)

/-- Read segments. -/
def readAll (t : Partial) : List Segment → Except Error (List Node)
  | [] => t.finish
  | .text s :: rest => readAll (t.push (.text s)) rest
  | .tag tag :: rest => do
    let d ← Directive.ofTag tag
    let t ← t.step d tag.span
    readAll t rest

end Partial

end StateGen.Template

namespace StateGen

/-- A template that was read; the name appears in the log only. -/
structure Template where
  name : String
  nodes : List Template.Node

namespace Template

/-- The tree of a template. -/
def parseNodes (text : String) : Except Error (List Node) := do
  Partial.readAll {} (← scan text)

/-- Read a template. -/
def parse (name text : String) : Except Error Template := do
  return ⟨name, ← parseNodes text⟩

/-- The record of a template that was read. -/
def parsedRecord (t : Template) : Log.Record :=
  .mk .debug .template ("parsed template '" ++ t.name ++ "': " ++ toString t.nodes.length
    ++ " top-level nodes")

end Template

end StateGen
