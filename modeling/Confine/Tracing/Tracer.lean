import Confine.Tracing.LineTrace.Recording
import Confine.Tracing.MethodTrace.Recording
import Confine.Tracing.Probe

/-!
All tracers. A tracer with its arguments joins the roster of a loading unit; bound to the unit it
instruments the classes; in a task it records what its calls report.
-/

namespace Confine

open Json (Doc)

/-- A tracer with its arguments. -/
inductive Tracer where
  | lineTrace (a : LineTrace.Arguments)
  | methodTrace (a : MethodTrace.Arguments)
  | probe (a : Probe.Arguments)
  deriving DecidableEq, Repr, Inhabited

namespace Tracer

def id : Tracer → String
  | lineTrace _ => LineTrace.id
  | methodTrace _ => MethodTrace.id
  | probe _ => Probe.id

def runsAfter : Tracer → List String
  | methodTrace _ => MethodTrace.runsAfter
  | _ => []

instance : Member Tracer := ⟨id, runsAfter⟩

/-- The tracer of a name, with arguments or with its defaults. -/
def ofName? (name : String) (arguments : Option Doc) : Option Tracer :=
  let withArguments {α : Type} (default : α) (read : Doc → Option α) : Option α :=
    match arguments with
    | none => some default
    | some d => read d
  if name = LineTrace.id then
    (withArguments .default LineTrace.Arguments.ofDoc?).map lineTrace
  else if name = MethodTrace.id then
    (withArguments .default MethodTrace.Arguments.ofDoc?).map methodTrace
  else if name = Probe.id then (withArguments .default Probe.Arguments.ofDoc?).map probe
  else none

end Tracer

/-! ### Instrumentation -/

/-- A tracer that is bound to a loading unit. -/
inductive Instrumentation where
  | lineTrace (i : LineTrace.Instrumentation)
  | methodTrace (i : MethodTrace.Instrumentation)
  /-- with the names of all tracers of the unit -/
  | probe (a : Probe.Arguments) (active : List String)
  deriving DecidableEq, Repr, Inhabited

namespace Instrumentation

/-- Binds a tracer to a unit with the tracers of the names `active`. -/
def start (active : List String) : Tracer → Instrumentation
  | .lineTrace a => lineTrace (.start a)
  | .methodTrace a => methodTrace (.start a active)
  | .probe a => probe a active

/-- Binds all tracers of a roster to a unit. -/
def ofRoster (r : Roster Tracer) : List Instrumentation := r.members.map (start r.ids)

def id : Instrumentation → String
  | lineTrace _ => LineTrace.id
  | methodTrace _ => MethodTrace.id
  | probe _ _ => Probe.id

/-- Instruments a class. -/
def instrument (origin : Origin) (c : ClassFile) :
    Instrumentation → Except TracerFault (ClassFile × Instrumentation)
  | lineTrace i =>
    let (c, i) := i.instrument origin c
    .ok (c, lineTrace i)
  | methodTrace i =>
    let (c, i) := i.instrument origin c
    .ok (c, methodTrace i)
  | probe a active => (Probe.instrument a origin c).map fun c => (c, probe a active)

/-- Instruments a class with one tracer after the other. -/
def instrumentAll (origin : Origin) (c : ClassFile) :
    List Instrumentation → Except TracerFault (ClassFile × List Instrumentation)
  | [] => .ok (c, [])
  | i :: rest => do
    let (c, i) ← i.instrument origin c
    let (c, rest) ← instrumentAll origin c rest
    .ok (c, i :: rest)

end Instrumentation

/-! ### Recording -/

/-- A tracer in a task. -/
inductive Recording where
  | lineTrace (r : LineTrace.Recording)
  | methodTrace (r : MethodTrace.Recording)
  | probe (r : Probe.Recording)
  deriving Repr, Inhabited

/-- What a call into a tracer comes to: an interruption, or a line that its subscribers are told
about. -/
structure Reaction where
  signal : Option HookSignal
  line : Option LineEvent
  subscribers : List LineTrace.Subscriber
  deriving DecidableEq, Repr, Inhabited

namespace Reaction

/-- The program goes on. -/
def goOn : Reaction := ⟨none, none, []⟩

/-- The program is interrupted, perhaps. -/
def ofSignal (s : Option HookSignal) : Reaction := ⟨s, none, []⟩

end Reaction

namespace Recording

def id : Recording → String
  | lineTrace _ => LineTrace.id
  | methodTrace _ => MethodTrace.id
  | probe _ => Probe.id

/-- Starts a tracer in a task with so many extra threads. -/
def start (extraThreads : Nat) (i : Instrumentation) : Except TracerFault Recording :=
  let refused {α : Type} (r : Except String α) : Except TracerFault α :=
    r.mapError (.refused i.id)
  match i with
  | .lineTrace i => .ok (lineTrace (.start i.arguments))
  | .methodTrace i => (refused (MethodTrace.Recording.start i extraThreads)).map methodTrace
  | .probe a active => (refused (Probe.Recording.start a active)).map probe

/-- A line that a thread reaches. -/
def onLine (r : LineTrace.Recording) (line : LineTrace.LastLine) (e : LineEvent) :
    Reaction × LineTrace.Recording :=
  let (reached, r) := r.onLine line e
  match reached with
  | .coalesced => (.goOn, r)
  | .counted => (⟨none, some e, r.subscribers⟩, r)
  | .beyond limit => (.ofSignal (some (LineTrace.Recording.limitSignal r.arguments limit)), r)

/-- A call from instrumented code. -/
def onHook (call : HookCall) (thread : Nat) : Recording → Reaction × Recording
  | lineTrace r =>
    match LineTrace.Recording.line? call thread with
    | some (line, e) =>
      let (reaction, r) := onLine r line e
      (reaction, lineTrace r)
    | none => (.goOn, lineTrace r)
  | methodTrace r => (.goOn, methodTrace (r.onHook call))
  | probe r =>
    let (signal, r) := r.onHook call thread
    (.ofSignal signal, probe r)

/-- The result of a tracer. -/
def report : Recording → Json
  | lineTrace r => r.report.toJson
  | methodTrace r => r.report.toJson
  | probe r => r.report

/-- The tracer wants to be told about lines. -/
def wantsLines : Recording → Bool
  | methodTrace r => r.instrumentation.withLines
  | _ => false

/-- A subscriber of lines more, if this is the line trace. -/
def subscribe (s : LineTrace.Subscriber) : Recording → Recording
  | lineTrace r => lineTrace (r.subscribe s)
  | r => r

/-- The method trace is told about a line. -/
def tellLine (e : LineEvent) : Recording → Recording
  | methodTrace r => methodTrace (r.onLine e)
  | r => r

end Recording

/-- All tracers of a task, and the lines that collectors have got, latest first. -/
structure Recordings where
  entries : List Recording
  collected : List (String × LineEvent)
  deriving Repr, Inhabited

namespace Recordings

def none : Recordings := ⟨[], []⟩

/-- Some tracer of the task has the name. -/
def has (rs : Recordings) (id : String) : Bool := rs.entries.any (·.id == id)

/-- Somebody wants to be told about lines. -/
def subscribe (rs : Recordings) (s : LineTrace.Subscriber) : Recordings :=
  { rs with entries := rs.entries.map (·.subscribe s) }

/-- Starts the tracers one by one, until one refuses. Those that want lines subscribe. -/
def start (extraThreads : Nat) (is : List Instrumentation) : Except TracerFault Recordings := do
  let entries ← is.mapM (Recording.start extraThreads)
  let rs : Recordings := ⟨entries, []⟩
  .ok (if entries.any (·.wantsLines) then rs.subscribe .methodTrace else rs)

/-- A subscriber is told about a line. -/
def tell (e : LineEvent) (rs : Recordings) : LineTrace.Subscriber → Recordings
  | .methodTrace => { rs with entries := rs.entries.map (·.tellLine e) }
  | .collector name => { rs with collected := (name, e) :: rs.collected }

/-- A call into the first tracer of a name, behind the tracers `before` (latest first). There is
no reaction if no tracer has the name. -/
def callFirst (id : String) (call : HookCall) (thread : Nat) (before : List Recording) :
    List Recording → Option Reaction × List Recording
  | [] => (Option.none, before.reverse)
  | r :: rest =>
    if r.id == id then
      let (reaction, r) := r.onHook call thread
      (some reaction, before.reverseAux (r :: rest))
    else callFirst id call thread (r :: before) rest

/-- A call from instrumented code. A call to a tracer that the task does not have comes to
nothing. -/
def onHook (rs : Recordings) (id : String) (call : HookCall) (thread : Nat) :
    Option HookSignal × Recordings :=
  let ⟨entries, collected⟩ := rs
  let (reaction?, entries) := callFirst id call thread [] entries
  let reaction := reaction?.getD .goOn
  let rs : Recordings := ⟨entries, collected⟩
  match reaction.line with
  | some e => (reaction.signal, reaction.subscribers.foldl (tell e) rs)
  | Option.none => (reaction.signal, rs)

/-- The lines that collectors have got, in order; they are taken out. -/
def takeCollected (rs : Recordings) : List (String × LineEvent) × Recordings :=
  (rs.collected.reverse, { rs with collected := [] })

/-- The recording of the line trace. -/
def lineTrace? (rs : Recordings) : Option LineTrace.Recording :=
  rs.entries.findSome? fun
    | .lineTrace r => some r
    | _ => Option.none

/-- The recording of the probe. -/
def probe? (rs : Recordings) : Option Probe.Recording :=
  rs.entries.findSome? fun
    | .probe r => some r
    | _ => Option.none

/-- The counts of lines start again from zero. -/
def resetLines (rs : Recordings) : Recordings :=
  { rs with entries := rs.entries.map fun
    | .lineTrace r => .lineTrace r.reset
    | r => r }

/-- The results of all tracers, in the order of their names. -/
def results (rs : Recordings) : List (String × Json) :=
  rs.entries.foldl (fun l r => Json.insertField r.id r.report l) []

end Recordings

end Confine
