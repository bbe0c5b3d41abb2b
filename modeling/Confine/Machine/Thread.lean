import Confine.Machine.Activation

/-!
Threads, turn by turn. A turn is one instruction, or a look at what the thread waits for.
-/

namespace Confine

/-- What a thread is about. Its frames come innermost first. -/
inductive Activity where
  /-- it has not begun -/
  | starting (className methodName : String)
  | running (frames : List Frame)
  /-- it sleeps until a point of the clock that counts nanoseconds -/
  | sleeping (frames : List Frame) (wake : Nat)
  /-- it waits for the end of another thread -/
  | joining (frames : List Frame) (index : Nat)
  deriving Inhabited

/-- What a turn of a thread comes to. -/
inductive Turn where
  | moved (s : TaskState) (a : Activity)
  /-- it goes on waiting, perhaps until a known time -/
  | blocked (s : TaskState) (a : Activity) (wake : Option Nat)
  | ended (s : TaskState) (result : Except Fault Value)
  deriving Inhabited

namespace Turn

/-- The turn of a step that was made at the time `now`. -/
def ofProgress (now : Nat) : Progress → Turn
  | .running s frames => moved s (.running frames)
  | .waiting s frames (.sleep millis) => moved s (.sleeping frames (now + millis * 1000000))
  | .waiting s frames (.join index) => moved s (.joining frames index)
  | .ended s result => ended s result

end Turn

namespace Activity

/-- A turn of a thread at the time `now`. -/
def turn (t : Task) (thread now : Nat) (s : TaskState) : Activity → Query Turn
  | starting c m =>
    let (frame, s) := Activation.start t s c m []
    match frame with
    | .ok f => .done (.moved s (running [f]))
    | .error e => .done (.ended s (.error e))
  | running frames => (Activation.step t thread s frames).map (.ofProgress now)
  | sleeping frames wake =>
    if s.cancelled then .done (.ended s (.error .cancelled))
    else if wake ≤ now then .done (.moved s (running frames))
    else .done (.blocked s (sleeping frames wake) (some wake))
  | joining frames index =>
    if s.hasFinished index then .done (.moved s (running frames))
    else if s.cancelled then .done (.ended s (.error .cancelled))
    else .done (.blocked s (joining frames index) none)

end Activity

/-- An extra thread. -/
structure ExtraThread where
  index : Nat
  activity : Activity
  deriving Inhabited

/-- What is written when an extra thread ends: an exception that it has not caught. -/
def ExtraThread.obituary? (index : Nat) : Except Fault Value → Option String
  | .error (.threw e) =>
    some ("Exception in thread " ++ toString index ++ ": " ++ e.text ++ "\n")
  | _ => none

namespace TaskState

/-- The threads that wait to be started, in order; they are taken out. -/
def takeStarting (s : TaskState) : List ExtraThread × TaskState :=
  match s.starting with
  | [] => ([], s)
  | l => (l.reverse.map fun b => ⟨b.index, .starting b.className b.methodName⟩,
      { s with starting := [] })

end TaskState

end Confine
