import Confine.Text.Numeral

/-!
The command line. Options may stand in any order behind the name of the command; two of them may
also stand before it. Each option but those that collect stands at most once at its level.
-/

namespace Confine.Command

/-- Which tracers a command asks for. -/
structure TraceFlags where
  lineTrace : Bool
  methodTrace : Bool
  runLineLimit : Option Nat
  deriving DecidableEq, Repr, Inhabited

/-- How a program is run. -/
structure RunOptions where
  entry : String
  timeoutMillis : Option Nat
  threads : Nat
  allowWrite : List String
  allowEnv : List String
  allowProperty : List String
  trace : TraceFlags
  json : Bool
  deriving DecidableEq, Repr, Inhabited

/-- A command. -/
inductive Action where
  | assemble (input : String) (output : Option String)
  | disassemble (input : String) (instrumented : Bool) (trace : TraceFlags)
  | run (input : String) (options : RunOptions)
  deriving DecidableEq, Repr, Inhabited

/-- What a command line says. -/
inductive Request where
  | act (config : Option String) (action : Action)
  | version
  | help
  /-- nothing that makes sense -/
  | misuse
  deriving DecidableEq, Repr, Inhabited

/-! ### Options -/

/-- An option. -/
structure OptionSpec where
  long : String
  short : Option Char
  takesValue : Bool
  /-- it may stand more than once -/
  collects : Bool
  valid : String → Bool

/-- An option without value. -/
def flag (long : String) (short : Option Char) : OptionSpec :=
  ⟨long, short, false, false, fun _ => true⟩

/-- A path is never empty. -/
def isPath (s : String) : Bool := !s.isEmpty

/-- A number of 64 bits. -/
def isNumber (s : String) : Bool := (Text.uint64? s).isSome

/-- The options of all commands. -/
def globalOptions : List OptionSpec :=
  [flag "verbose" (some 'v'), ⟨"config", some 'c', true, false, isPath⟩, flag "help" (some 'h')]

/-- The options before the name of the command. -/
def topOptions : List OptionSpec := flag "version" (some 'V') :: globalOptions

/-- The options that ask for tracers. -/
def traceOptions : List OptionSpec :=
  [flag "line-trace" none, flag "method-trace" none,
    ⟨"run-line-limit", none, true, false, isNumber⟩]

/-- The options of a command. -/
def optionsOf (name : String) : List OptionSpec :=
  globalOptions ++ match name with
    | "assemble" => [⟨"output", some 'o', true, false, isPath⟩]
    | "disassemble" => flag "instrumented" none :: traceOptions
    | "run" =>
      [⟨"entry", none, true, false, fun _ => true⟩, ⟨"timeout", some 't', true, false, isNumber⟩,
        ⟨"threads", none, true, false, isNumber⟩, ⟨"allow-write", none, true, true, isPath⟩,
        ⟨"allow-env", none, true, true, fun _ => true⟩,
        ⟨"allow-property", none, true, true, fun _ => true⟩, flag "json" none] ++ traceOptions
    | _ => []

/-! ### Reading -/

/-- What has been read at one level: the options with their values, and the other words, both
latest first. -/
structure Given where
  options : List (String × String)
  words : List String
  deriving DecidableEq, Repr, Inhabited

/-- How reading a level ends. -/
inductive Level where
  | complete (g : Given)
  /-- a word that is the name of a command, if one is looked for, and what stands behind it -/
  | command (g : Given) (name : String) (rest : List String)
  | version
  | help
  | misuse
  deriving DecidableEq, Repr, Inhabited

/-- An option is given: it must not stand there already, and its value must be valid. Two options
answer at once. -/
def Given.add (g : Given) (spec : OptionSpec) (value : String) : Except Level Given :=
  if spec.long = "help" then .error .help
  else if spec.long = "version" then .error .version
  else if !spec.collects && g.options.any (·.1 == spec.long) then .error .misuse
  else if spec.takesValue && !spec.valid value then .error .misuse
  else .ok { g with options := (spec.long, value) :: g.options }

/-- A word that may be the value of the option before it. -/
def isValue (word : String) : Bool :=
  match word.toList with
  | '-' :: _ :: _ => false
  | _ => true

/-- Takes short options, one after the other; the value of one may follow in the same word, behind
an equals sign or not, or be the next word. Gives the words that are left. -/
def addShort (specs : List OptionSpec) (g : Given) (rest : List String) :
    List Char → Except Level (Given × List String)
  | [] => .ok (g, rest)
  | c :: cs =>
    match specs.find? (·.short == some c) with
    | none => .error .misuse
    | some spec =>
      if !spec.takesValue then
        match g.add spec "" with
        | .ok g => addShort specs g rest cs
        | .error e => .error e
      else
        match cs, rest with
        | '=' :: value, _ => (g.add spec (String.ofList value)).map fun g => (g, rest)
        | c :: cs, _ => (g.add spec (String.ofList (c :: cs))).map fun g => (g, rest)
        | [], value :: rest =>
          if isValue value then (g.add spec value).map fun g => (g, rest) else .error .misuse
        | [], [] => .error .misuse

/-- Takes a long option; its value stands behind an equals sign or is the next word. -/
def addLong (specs : List OptionSpec) (g : Given) (rest : List String) (word : List Char) :
    Except Level (Given × List String) :=
  let name := word.takeWhile (· ≠ '=')
  let attached := match word.drop name.length with
    | _ :: value => some (String.ofList value)
    | [] => none
  match specs.find? (·.long == String.ofList name) with
  | none => .error .misuse
  | some spec =>
    match spec.takesValue, attached, rest with
    | false, none, _ => (g.add spec "").map fun g => (g, rest)
    | false, some _, _ => .error .misuse
    | true, some value, _ => (g.add spec value).map fun g => (g, rest)
    | true, none, value :: rest =>
      if isValue value then (g.add spec value).map fun g => (g, rest) else .error .misuse
    | true, none, [] => .error .misuse

/-- Reads a level; `n` bounds how many words it has. At the top the first bare word is the name of
the command, and below it is the input, of which there is one. -/
def readLevel (specs : List OptionSpec) (top : Bool) (g : Given) : Nat → List String → Level
  | _, [] => .complete g
  | 0, _ => .misuse
  | n + 1, word :: rest =>
    match word.toList with
    | ['-', '-'] => .complete { g with words := rest.reverse ++ g.words }
    | '-' :: '-' :: long =>
      match addLong specs g rest long with
      | .ok (g, rest) => readLevel specs top g n rest
      | .error level => level
    | '-' :: c :: short =>
      match addShort specs g rest (c :: short) with
      | .ok (g, rest) => readLevel specs top g n rest
      | .error level => level
    | _ =>
      if top then .command g word rest
      else if g.words.isEmpty && isPath word then
        readLevel specs top { g with words := [word] } n rest
      else .misuse

/-! ### Commands -/

namespace Given

/-- The value of an option. -/
def value? (g : Given) (name : String) : Option String := g.options.lookup name

/-- The option stands there. -/
def has (g : Given) (name : String) : Bool := (g.value? name).isSome

/-- The values of an option that collects, in order. -/
def values (g : Given) (name : String) : List String :=
  (g.options.filterMap fun o => if o.1 == name then some o.2 else none).reverse

/-- The value of an option as a number. -/
def number? (g : Given) (name : String) : Option Nat := (g.value? name).bind Text.uint64?

def traceFlags (g : Given) : TraceFlags :=
  ⟨g.has "line-trace", g.has "method-trace", g.number? "run-line-limit"⟩

/-- The command of a name with its options and its input. -/
def action? (g : Given) (name input : String) : Option Action :=
  match name with
  | "assemble" => some (.assemble input (g.value? "output"))
  | "disassemble" => some (.disassemble input (g.has "instrumented") g.traceFlags)
  | "run" => some (.run input {
      entry := (g.value? "entry").getD "Main.main"
      timeoutMillis := g.number? "timeout"
      threads := (g.number? "threads").getD 0
      allowWrite := g.values "allow-write"
      allowEnv := g.values "allow-env"
      allowProperty := g.values "allow-property"
      trace := g.traceFlags
      json := g.has "json" })
  | _ => none

end Given

/-- The names of the commands. -/
def commandNames : List String := ["assemble", "disassemble", "run"]

/-- Reads what stands behind the name of a command. The inner of two configurations counts. -/
def readCommand (outer : Given) (name : String) (words : List String) : Request :=
  if !commandNames.contains name then .misuse
  else match readLevel (optionsOf name) false ⟨[], []⟩ words.length words with
    | .complete g =>
      match g.words with
      | [input] =>
        if isPath input then
          match g.action? name input with
          | some a => .act ((g.value? "config").or (outer.value? "config")) a
          | none => .misuse
        else .misuse
      | _ => .misuse
    | .help => .help
    | _ => .misuse

/-- Reads a command line. -/
def readRequest (words : List String) : Request :=
  match readLevel topOptions true ⟨[], []⟩ words.length words with
  | .command g name rest =>
    if name = "help" then
      match rest with
      | [] => .help
      | [topic] => if (("help" :: commandNames).contains topic) then .help else .misuse
      | _ => .misuse
    else readCommand g name rest
  | .version => .version
  | .help => .help
  | _ => .misuse

end Confine.Command
