import Confine.Loading.Unit
import Confine.Machine.Heap
import Confine.Output.Capture

/-!
Tasks: what the threads of one run share. The part that never changes is kept apart from the state.
-/

namespace Confine

/-- Why running code ended otherwise than by returning. -/
inductive Fault where
  /-- an exception that nothing has caught -/
  | threw (e : Exception)
  /-- a permission was denied -/
  | security (p : Permission)
  /-- the task has been cancelled -/
  | cancelled
  | confinement (fault : ConfinementFault)
  deriving DecidableEq, Repr, Inhabited

/-- What a task is about. -/
structure Task where
  unit : LoadingUnit
  capability : Capability
  maxExtraThreads : Nat
  deriving Inhabited

/-- A thread that waits to be started. -/
structure ThreadStart where
  index : Nat
  className : String
  methodName : String
  deriving DecidableEq, Repr, Inhabited

/-- The state that the threads of a task share. -/
structure TaskState where
  heap : Heap
  confinements : Confinements
  classSets : List LoadingUnit.ClassSets
  sink : OutputSink
  recordings : Recordings
  cancelled : Bool
  /-- why the task was killed: the first reason that was given -/
  killReason : Option String
  /-- the index of the next thread that starts; the main thread has the index 0 -/
  nextThread : Nat
  /-- the extra threads that have ended -/
  finished : List Nat
  /-- the extra threads that have been registered and not yet started, latest first -/
  starting : List ThreadStart
  deriving Inhabited

namespace TaskState

/-- The task stops at the next instruction of each thread. -/
def cancel (s : TaskState) : TaskState := { s with cancelled := true }

/-- The task is killed. The first reason counts. -/
def kill (s : TaskState) (reason : String) : TaskState :=
  { s with cancelled := true, killReason := some (s.killReason.getD reason) }

/-- Logs a decision. -/
def record (s : TaskState) (t : Task) (p : Permission) (granted : Bool) : TaskState :=
  { s with confinements := s.confinements.record t.capability p granted }

/-- Decides about a permission, and logs the decision. -/
def check (s : TaskState) (t : Task) (p : Permission) : Bool × TaskState :=
  let (granted, confinements) := s.confinements.check t.capability p
  (granted, { s with confinements := confinements })

/-- Loads a class for the program. -/
def load (s : TaskState) (t : Task) (name : String) : Except Exception LinkedClass × TaskState :=
  let (loaded, confinements) :=
    t.unit.loadClass s.classSets name (some t.capability) s.confinements
  match loaded with
  | .ok (c, sets) => (.ok c, { s with classSets := sets, confinements := confinements })
  | .error _ =>
    (.error (.of "ClassNotFoundException" name), { s with confinements := confinements })

/-- Writes to a stream of the task. -/
def write (s : TaskState) (c : Console) (text : String) (thread : Nat) (now : Time.Timestamp) :
    TaskState :=
  { s with sink := s.sink.write c text ⟨now, thread⟩ }

/-! ### Threads -/

/-- How many extra threads have been registered and have not ended. -/
def liveThreads (s : TaskState) : Nat := s.nextThread - 1 - s.finished.length

/-- Registers an extra thread; gives its index. Indexes are never used again. The decision is
logged. The system is taken to have room for a thread that is granted, so it always starts. -/
def spawn (s : TaskState) (t : Task) (className methodName : String) :
    Except Fault Nat × TaskState :=
  if s.cancelled then (.error .cancelled, s)
  else
    let granted := s.liveThreads < t.maxExtraThreads
    let s := s.record t .createThread granted
    if granted then
      (.ok s.nextThread, { s with
        nextThread := s.nextThread + 1
        starting := ⟨s.nextThread, className, methodName⟩ :: s.starting })
    else (.error (.security .createThread), s)

/-- The index is one of an extra thread that has been registered. -/
def joinable (s : TaskState) (index : Nat) : Bool := index != 0 && decide (index < s.nextThread)

/-- The thread has ended. -/
def hasFinished (s : TaskState) (index : Nat) : Bool := s.finished.contains index

/-- An extra thread ends. -/
def finish (s : TaskState) (index : Nat) : TaskState := { s with finished := index :: s.finished }

end TaskState

end Confine
