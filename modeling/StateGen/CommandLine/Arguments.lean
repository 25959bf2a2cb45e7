import StateGen.Generation.Options
import StateGen.Log

/-!
# Arguments of the command line

One-letter flags can be joined, as in `-dv`, and the last of them may take a value, which is the
rest of the argument or the next one. `--` ends the options, and `-` alone is an input. Arguments
are read from left to right, and the first thing that cannot be read decides.
-/

namespace StateGen.CommandLine

/-- Flags without a value. -/
inductive Flag where
  | withHeader
  | headerOnly
  | graphviz
  | dumpNamespace
  | json
deriving DecidableEq, Repr

/-- Options with a value. -/
inductive Setting where
  | manual
  | output
  | templateDirectory
deriving DecidableEq, Repr

/-- What the arguments say. -/
structure Arguments where
  /-- The description; `-` stands for standard input. -/
  input : String
  flags : List Flag
  settings : List (Setting × String)
  /-- How often more log output is asked for. -/
  verbosity : Nat
deriving DecidableEq, Repr

namespace Arguments

/-- Whether a flag is given. -/
def has (a : Arguments) (f : Flag) : Bool := a.flags.contains f

/-- The value of an option. -/
def setting? (a : Arguments) (s : Setting) : Option String := a.settings.lookup s

/-- What to generate. -/
def outputs (a : Arguments) : Generation.Outputs :=
  match a.setting? .manual with
  | some template => .manual template
  | none =>
    if a.has .graphviz then .graphviz
    else if a.has .headerOnly then .header
    else if a.has .withHeader then .sourceAndHeader
    else .source

/-- The choices of the run. -/
def options (a : Arguments) : Generation.Options where
  outputs := a.outputs
  output := a.setting? .output
  templates :=
    match a.setting? .templateDirectory with
    | some path => .directory path
    | none => .builtin

/-- The least important records that are shown. -/
def logLevel (a : Arguments) : Log.Level :=
  match a.verbosity with
  | 0 => .warn
  | 1 => .info
  | 2 => .debug
  | _ => .trace

end Arguments

/-- What the program is asked to do. -/
inductive Order where
  | run (arguments : Arguments)
  | version
  | help
  /-- The arguments cannot be understood. -/
  | misuse
deriving DecidableEq, Repr

/-- Arguments that were read so far. -/
structure Partial where
  input : Option String := none
  flags : List Flag := []
  settings : List (Setting × String) := []
  verbosity : Nat := 0

/-- A reason to stop reading arguments. -/
inductive Stop where
  | version
  | help
  | misuse

/-- The order that a stop amounts to. -/
def Stop.order : Stop → Order
  | .version => .version
  | .help => .help
  | .misuse => .misuse

namespace Partial

/-- Give a flag, which must not be given already. -/
def addFlag (p : Partial) (f : Flag) : Except Stop Partial :=
  if p.flags.contains f then .error .misuse else .ok { p with flags := p.flags ++ [f] }

/-- Set an option, which must not be set already. Paths must not be empty. -/
def set (p : Partial) (s : Setting) (value : String) : Except Stop Partial :=
  if (p.settings.lookup s).isSome || (s ≠ .output && value.isEmpty) then .error .misuse
  else .ok { p with settings := p.settings ++ [(s, value)] }

/-- Give the input, of which there is only one. -/
def addInput (p : Partial) (input : String) : Except Stop Partial :=
  if p.input.isSome then .error .misuse else .ok { p with input := some input }

/-- Ask for more log output. -/
def moreVerbose (p : Partial) : Partial := { p with verbosity := p.verbosity + 1 }

/-- Two flags or options that exclude each other. -/
def hasConflict (p : Partial) : Bool :=
  let header := p.flags.contains .withHeader || p.flags.contains .headerOnly
  let graphviz := p.flags.contains .graphviz
  let manual := (p.settings.lookup .manual).isSome
  (header && (graphviz || manual)) || (graphviz && manual)

/-- A template of the caller without an output path. -/
def lacksOutput (p : Partial) : Bool :=
  (p.settings.lookup .manual).isSome && (p.settings.lookup .output).isNone

/-- The order that complete arguments amount to. -/
def finish (p : Partial) : Order :=
  match p.input with
  | none => .misuse
  | some input =>
    if p.hasConflict || p.lacksOutput then .misuse
    else .run { input, flags := p.flags, settings := p.settings, verbosity := p.verbosity }

end Partial

/-- The flag of a letter. -/
def flagOfLetter? : Char → Option Flag
  | 'd' => some .withHeader
  | 'D' => some .headerOnly
  | 'g' => some .graphviz
  | _ => none

/-- The option of a letter. -/
def settingOfLetter? : Char → Option Setting
  | 'm' => some .manual
  | 'o' => some .output
  | 't' => some .templateDirectory
  | _ => none

/-- The value in the rest of an argument; an equals sign before it does not belong to it. -/
def attachedValue? : List Char → Option String
  | [] => none
  | '=' :: value => some (String.ofList value)
  | value => some (String.ofList value)

/-- Read joined letters. If the last one takes a value that is not attached, tell which. -/
def readLetters : List Char → Partial → Except Stop (Partial × Option Setting)
  | [], p => .ok (p, none)
  | c :: cs, p =>
    match flagOfLetter? c, settingOfLetter? c with
    | some f, _ =>
      match p.addFlag f with
      | .ok p => readLetters cs p
      | .error s => .error s
    | none, some s =>
      match attachedValue? cs with
      | some value => (p.set s value).map fun p ↦ (p, none)
      | none => .ok (p, some s)
    | none, none =>
      if c = 'v' then readLetters cs p.moreVerbose
      else if c = 'V' then .error .version
      else if c = 'h' then .error .help
      else .error .misuse

/-- Whether an argument can be the value of the option before it. -/
def isValue (argument : String) : Bool :=
  argument = "-" || argument.toList.head? ≠ some '-'

/-- Read a long flag without its hyphens. -/
def readLong (name : String) (p : Partial) : Except Stop Partial :=
  match name with
  | "dump-namespace" => p.addFlag .dumpNamespace
  | "json" => p.addFlag .json
  | "version" => .error .version
  | "help" => .error .help
  | _ => .error .misuse

/-- Read arguments; `pending` is the option that still needs its value. -/
def readAll : List String → Option Setting → Partial → Except Stop Partial
  | [], none, p => .ok p
  | [], some _, _ => .error .misuse
  | argument :: rest, some s, p =>
    if isValue argument then
      match p.set s argument with
      | .ok p => readAll rest none p
      | .error e => .error e
    else .error .misuse
  | argument :: rest, none, p =>
    match argument.toList with
    | ['-', '-'] => rest.foldlM Partial.addInput p
    | '-' :: '-' :: name =>
      match readLong (String.ofList name) p with
      | .ok p => readAll rest none p
      | .error e => .error e
    | '-' :: c :: cs =>
      match readLetters (c :: cs) p with
      | .ok (p, pending) => readAll rest pending p
      | .error e => .error e
    | _ =>
      match p.addInput argument with
      | .ok p => readAll rest none p
      | .error e => .error e

/-- What the arguments ask for. -/
def Order.ofArguments (arguments : List String) : Order :=
  match readAll arguments none {} with
  | .ok p => p.finish
  | .error s => s.order

end StateGen.CommandLine
