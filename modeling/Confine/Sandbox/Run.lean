import Confine.Host.Basic
import Confine.Machine.Thread
import Confine.Sandbox.Work

/-!
Runs: the threads of a task take turns until the work of the main thread ends or the time is up.
-/

namespace Confine

/-- The main thread in a call, with the work behind it. -/
structure MainThread where
  activity : Activity
  progressed : Progressed
  /-- a failure of the call ends the work -/
  propagate : Bool
  rest : List WorkStep
  deriving Inhabited

/-- The state of a run. -/
structure RunState where
  shared : TaskState
  main : MainThread
  extras : List ExtraThread
  deriving Inhabited

/-- How a run ends: the state, what the work has answered, and its end unless the time was up. -/
structure RunEnd where
  shared : TaskState
  progressed : Progressed
  outcome : Option WorkEnd
  deriving Inhabited

namespace RunState

variable {m : Type → Type} [Monad m]

/-- The earlier of two times, where there may be none. -/
def earlier : Option Nat → Option Nat → Option Nat
  | some a, some b => some (min a b)
  | none, w => w
  | w, none => w

/-- What a round of turns has come to: the state, whether some thread has moved, and when the first
of those that wait goes on. -/
structure Round where
  shared : TaskState
  /-- the extra threads that have had their turn, latest first -/
  extras : List ExtraThread
  moved : Bool
  wake : Option Nat
  deriving Inhabited

/-- The end of an extra thread. -/
def bury (host : Host m) (s : TaskState) (index : Nat) (result : Except Fault Value) :
    m TaskState :=
  match ExtraThread.obituary? index result with
  | some text => do
    let now ← host.answer .clock
    pure ((s.write .stderr text index now).finish index)
  | none => pure (s.finish index)

/-- Each extra thread has a turn. -/
def extraTurns (host : Host m) (t : Task) (now : Nat) (r : Round) :
    List ExtraThread → m Round
  | [] => pure r
  | x :: rest => do
    match ← (x.activity.turn t x.index now r.shared).answered host.answer with
    | .moved s a =>
      extraTurns host t now { r with
        shared := s, extras := { x with activity := a } :: r.extras, moved := true } rest
    | .blocked s a wake =>
      extraTurns host t now { r with
        shared := s, extras := { x with activity := a } :: r.extras,
        wake := earlier r.wake wake } rest
    | .ended s result => do
      let s ← bury host s x.index result
      extraTurns host t now { r with shared := s, moved := true } rest

/-- Each extra thread has a turn behind the main thread; threads that were started come behind
the others. If nobody has moved, the host waits. -/
def completeRound (host : Host m) (t : Task) (now deadline : Nat) (s : TaskState)
    (main : MainThread) (extras : List ExtraThread) (moved : Bool) (wake : Option Nat) :
    m RunState :=
  match extras, s.starting, moved with
  | [], [], true => pure ⟨s, main, []⟩
  | _, _, _ => do
    let (started, s) := s.takeStarting
    let r ← extraTurns host t now ⟨s, [], moved, wake⟩ (extras ++ started)
    let (started, s) := r.shared.takeStarting
    if !r.moved && started.isEmpty then
      host.idleUntil (min deadline (r.wake.getD deadline))
    pure ⟨s, main, r.extras.reverse ++ started⟩

/-- The time is up, or the work has ended: nobody moves any more. Work that has not ended finds its
calls cancelled. -/
def expire (t : Task) (st : RunState) : RunEnd :=
  let s := st.shared.cancel
  match WorkMove.ofResult s st.main.progressed st.main.propagate (.error .cancelled) with
  | .answered s w =>
    let (s, w) := WorkRest.windDown t s w st.main.rest
    ⟨s, w, none⟩
  | .call s w _ _ | .ended s w _ => ⟨s, w, none⟩

/-- The work goes on behind a call that has ended. -/
def continueWork (t : Task) (s : TaskState) (main : MainThread) (result : Except Fault Value) :
    WorkRest :=
  match WorkMove.ofResult s main.progressed main.propagate result with
  | .answered s w => WorkRest.resume t s w main.rest
  | .call s w f propagate => .call s w f propagate main.rest
  | .ended s w e => .ended s w e

/-- Rounds of turns, at most `fuel`, until the work ends or the clock reaches `deadline`. -/
@[specialize] def rounds (host : Host m) (t : Task) (deadline : Nat) :
    Nat → RunState → m RunEnd
  | 0, st => pure (expire t st)
  | fuel + 1, st => do
    let now ← host.elapsed
    if deadline ≤ now then pure (expire t st)
    else
      let ⟨s, main, extras⟩ := st
      let ⟨activity, progressed, propagate, rest⟩ := main
      match ← (activity.turn t 0 now s).answered host.answer with
      | .moved s a =>
        let st ←
          completeRound host t now deadline s ⟨a, progressed, propagate, rest⟩ extras true none
        rounds host t deadline fuel st
      | .blocked s a wake =>
        let st ←
          completeRound host t now deadline s ⟨a, progressed, propagate, rest⟩ extras false wake
        rounds host t deadline fuel st
      | .ended s result =>
        match continueWork t s ⟨.running [], progressed, propagate, rest⟩ result with
        | .call s w f propagate rest =>
          let main : MainThread := ⟨.running [f], w, propagate, rest⟩
          let st ← completeRound host t now deadline s main extras true none
          rounds host t deadline fuel st
        | .ended s w e => pure ⟨s, w, some e⟩

/-- Runs work in a task for `limit` nanoseconds. -/
def run (host : Host m) (t : Task) (s : TaskState) (work : List WorkStep) (limit : Nat) :
    m RunEnd := do
  let now ← host.elapsed
  match WorkRest.resume t s .none work with
  | .ended s w e => pure ⟨s, w, some e⟩
  | .call s w f propagate rest =>
    rounds host t (now + limit) (limit + 1) ⟨s, ⟨.running [f], w, propagate, rest⟩, []⟩

end RunState

end Confine
