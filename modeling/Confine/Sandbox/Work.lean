import Confine.Machine.Activation
import Confine.Sandbox.Arguments

/-!
Trusted work on the main thread of a task: a list of steps, most of which are calls into the
confined program. The work goes on behind a call that failed, unless the step says otherwise.
-/

namespace Confine

/-- A value in the words of trusted work. -/
inductive Operand where
  | null
  | bool (b : Bool)
  | int (n : Int64)
  | text (s : String)
  /-- a fresh object -/
  | object (className : String)
  | exception (kind message : String)
  /-- the value that the step of a number has kept -/
  | ref (n : Nat)
  deriving DecidableEq, Repr, Inhabited

namespace Operand

/-- The value of an operand; `kept` has what the steps before have kept, latest first. -/
def value (kept : List (Option Value)) (h : Heap) : Operand → Value × Heap
  | null => (.null, h)
  | bool b => (.bool b, h)
  | int n => (.int n, h)
  | text s => (.text s, h)
  | object c => h.newObject c
  | exception kind message => h.newException (.of kind message)
  | ref n => ((kept.reverse[n]?.join).getD .null, h)

/-- The values of operands, in order. -/
def values (kept : List (Option Value)) (h : Heap) : List Operand → List Value × Heap
  | [] => ([], h)
  | o :: rest =>
    let (v, h) := o.value kept h
    let (vs, h) := values kept h rest
    (v :: vs, h)

end Operand

/-- A step of trusted work. -/
inductive WorkStep where
  /-- calls a method; a failure may end the work -/
  | invoke (className methodName : String) (arguments : List Operand) (propagate : Bool)
  | value (v : Operand)
  /-- the lines so far -/
  | report
  /-- the counts of lines start again -/
  | reset
  /-- collects lines under a name -/
  | callback (name : String)
  /-- the lines that have been collected since the last time -/
  | events
  | threadIndex
  | cancelled
  | classes
  /-- how often this thread has called the probe -/
  | probeCalls
  | ret (v : Operand)
  | panic (message : String)
  | throw (kind message : String)
  | security (p : Permission)
  | threadLimit (limit : Nat)
  deriving DecidableEq, Repr, Inhabited

/-- The answer of a step that has finished. -/
inductive WorkAnswer where
  | value (v : Value)
  | fault (fault : Fault)
  | report (r : Option LineTrace.Result)
  | flag (b : Bool)
  | events (l : List (String × LineEvent))
  | index (n : Nat)
  | classes (defined : List String) (sets : LoadingUnit.ClassSets)
  | count (n : Option Nat)
  deriving DecidableEq, Repr, Inhabited

/-- How trusted work ends. -/
inductive WorkEnd where
  | finished (result : Except Fault Value)
  | panicked (message : String)
  deriving Inhabited

/-- What steps have answered and kept, latest first. -/
structure Progressed where
  answers : List WorkAnswer
  kept : List (Option Value)
  deriving Inhabited

namespace Progressed

def none : Progressed := ⟨[], []⟩

/-- One answer more. A value is kept. -/
def answer (w : Progressed) (a : WorkAnswer) : Progressed :=
  let keep := match a with
    | .value v => some v
    | _ => Option.none
  ⟨a :: w.answers, keep :: w.kept⟩

/-- The answer of a call that has ended. -/
def answerCall (w : Progressed) : Except Fault Value → Progressed
  | .ok v => w.answer (.value v)
  | .error e => w.answer (.fault e)

end Progressed

/-- What a step comes to. -/
inductive WorkMove where
  | answered (s : TaskState) (w : Progressed)
  /-- the frame of a call, and whether its failure ends the work -/
  | call (s : TaskState) (w : Progressed) (f : Frame) (propagate : Bool)
  | ended (s : TaskState) (w : Progressed) (e : WorkEnd)
  deriving Inhabited

namespace WorkMove

/-- A call has ended. -/
def ofResult (s : TaskState) (w : Progressed) (propagate : Bool) (r : Except Fault Value) :
    WorkMove :=
  match propagate, r with
  | true, .error e => .ended s w (.finished (.error e))
  | _, r => .answered s (w.answerCall r)

end WorkMove

namespace WorkStep

/-- Does one step. -/
def perform (t : Task) (s : TaskState) (w : Progressed) : WorkStep → WorkMove
  | invoke c m arguments propagate =>
    let (arguments, heap) := Operand.values w.kept s.heap arguments
    let (frame, s) := Activation.start t { s with heap := heap } c m arguments
    match frame with
    | .ok f => .call s w f propagate
    | .error e => .ofResult s w propagate (.error e)
  | value v =>
    let (v, heap) := v.value w.kept s.heap
    .answered { s with heap := heap } (w.answer (.value v))
  | report => .answered s (w.answer (.report (s.recordings.lineTrace?.map (·.report))))
  | reset =>
    .answered { s with recordings := s.recordings.resetLines }
      (w.answer (.flag s.recordings.lineTrace?.isSome))
  | callback name =>
    .answered { s with recordings := s.recordings.subscribe (.collector name) }
      (w.answer (.flag s.recordings.lineTrace?.isSome))
  | events =>
    let (l, recordings) := s.recordings.takeCollected
    .answered { s with recordings := recordings } (w.answer (.events l))
  | threadIndex => .answered s (w.answer (.index 0))
  | cancelled => .answered s (w.answer (.flag s.cancelled))
  | classes =>
    .answered s (w.answer (.classes t.unit.own.definedClasses (s.classSets.headD .empty)))
  | probeCalls => .answered s (w.answer (.count (s.recordings.probe?.bind (·.count? 0))))
  | ret v =>
    let (v, heap) := v.value w.kept s.heap
    .ended { s with heap := heap } w (.finished (.ok v))
  | panic message => .ended s w (.panicked message)
  | throw kind message => .ended s w (.finished (.error (.threw (.of kind message))))
  | security p => .ended s w (.finished (.error (.security p)))
  | threadLimit n => .ended s w (.finished (.error (.confinement (.threadLimit n))))

end WorkStep

/-- What steps come to that are done up to the next call: the call with the steps behind it, or the
end of the work. Without another result the work returns null. -/
inductive WorkRest where
  | call (s : TaskState) (w : Progressed) (f : Frame) (propagate : Bool) (rest : List WorkStep)
  | ended (s : TaskState) (w : Progressed) (e : WorkEnd)
  deriving Inhabited

namespace WorkRest

/-- Does steps up to the next call. -/
def resume (t : Task) (s : TaskState) (w : Progressed) : List WorkStep → WorkRest
  | [] => .ended s w (.finished (.ok .null))
  | step :: rest =>
    match step.perform t s w with
    | .answered s w => resume t s w rest
    | .call s w f propagate => .call s w f propagate rest
    | .ended s w e => .ended s w e

/-- Does all steps in a task that has been cancelled: no call gets beyond its start. -/
def windDown (t : Task) (s : TaskState) (w : Progressed) :
    List WorkStep → TaskState × Progressed
  | [] => (s, w)
  | step :: rest =>
    match step.perform t s w with
    | .answered s w => windDown t s w rest
    | .call s w _ propagate =>
      match WorkMove.ofResult s w propagate (.error .cancelled) with
      | .answered s w => windDown t s w rest
      | .call s w _ _ | .ended s w _ => (s, w)
    | .ended s w _ => (s, w)

end WorkRest

/-- The work that runs the entry point of a program. -/
def EntryPoint.work (e : EntryPoint) : List WorkStep :=
  [.invoke e.className e.methodName [] true, .ret (.ref 0)]

end Confine
