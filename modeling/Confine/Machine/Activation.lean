import Confine.Machine.Step

/-!
The frames of one thread: calls and returns, and how an exception finds its handler. Whether the
task has been cancelled is seen before every instruction.
-/

namespace Confine

/-- What a step of a thread comes to. Its frames come innermost first. -/
inductive Progress where
  | running (s : TaskState) (frames : List Frame)
  | waiting (s : TaskState) (frames : List Frame) (w : Wait)
  | ended (s : TaskState) (result : Except Fault Value)
  deriving Inhabited

namespace Activation

/-- No handler of the program takes the exception. -/
def isFatal (t : Task) (e : Exception) : Bool :=
  e.uncatchable || t.unit.own.policy.isFatal e.kind

/-- The exception as a value. -/
def raisedValue (s : TaskState) : Raised → Value × TaskState
  | .value id e => (.exception id e, s)
  | .fresh e =>
    let (v, heap) := s.heap.newException e
    (v, { s with heap := heap })

/-- The innermost frame with a handler for an exception of a kind, the handler, and the frames
outside. -/
def findHandler? (kind : String) : List Frame → Option (Frame × LinkedHandler × List Frame)
  | [] => none
  | f :: outer =>
    match f.handler? kind with
    | some h => some (f, h, outer)
    | none => findHandler? kind outer

/-- An exception goes to the innermost frame that has a handler for it; without one the thread
ends with it. -/
def unwind (t : Task) (s : TaskState) (frames : List Frame) (r : Raised) : Progress :=
  let e := r.exception
  if isFatal t e then .ended s (.error (.threw e))
  else match findHandler? e.kind frames with
    | some (f, h, outer) =>
      let (v, s) := raisedValue s r
      .running s (f.enter h v :: outer)
    | none => .ended s (.error (.threw e))

/-- A method is called: there is a limit for the frames of a thread. -/
def enter (t : Task) (s : TaskState) (callee : Frame) (frames : List Frame) : Progress :=
  if Frame.maxDepth ≤ frames.length then
    unwind t s frames (.fresh (.of "StackOverflowError" ""))
  else .running s (callee :: frames)

/-- A method has returned to the frames outside: its value goes onto the innermost stack. -/
def leave (s : TaskState) (v : Option Value) : List Frame → Progress
  | [] => .ended s (.ok (v.getD .null))
  | f :: outer =>
    match v with
    | some v => .running s (f.withStack (f.stack.add v) :: outer)
    | none => .running s (f :: outer)

/-- What an instruction of the innermost frame comes to for the thread. -/
def finish (t : Task) (outer : List Frame) : Outcome → Progress
  | .next s f => .running s (f :: outer)
  | .call s f callee => enter t s callee (f :: outer)
  | .ret s v => leave s v outer
  | .raise s f r => unwind t s (f :: outer) r
  | .fault s e => .ended s (.error e)
  | .wait s f w => .waiting s (f :: outer) w

/-- A step of a thread. -/
def step (t : Task) (thread : Nat) (s : TaskState) (frames : List Frame) :
    Query Progress :=
  if s.cancelled then .done (.ended s (.error .cancelled))
  else match frames with
    | [] => .done (.ended s (.ok .null))
    | f :: outer => (Step.frame t thread s f).map (finish t outer)

/-- Starts a call from outside: the frame of the method, or how that fails. -/
def start (t : Task) (s : TaskState) (className methodName : String) (arguments : List Value) :
    Except Fault Frame × TaskState :=
  let (loaded, s) := s.load t className
  (do
    let c ← loaded.mapError .threw
    (Frame.forCall c methodName arguments none).mapError .threw, s)

end Activation

end Confine
