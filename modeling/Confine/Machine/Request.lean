import Confine.Time.Timestamp

/-!
What a running program asks of the host. A computation that asks stops with its question, and goes
on with the answer.
-/

namespace Confine

/-- A question to the host. -/
inductive HostRequest where
  | clock
  /-- the value of an environment variable -/
  | getEnv (name : String)
  /-- writes a file -/
  | writeFile (path contents : String)
  | workingDirectory
  deriving DecidableEq, Repr, Inhabited

/-- What the host answers: a point in time, a text that may be missing, or that a file has been
written, or why not. -/
def HostRequest.Answer : HostRequest → Type
  | clock => Time.Timestamp
  | getEnv _ => Option String
  | writeFile _ _ => Except String Unit
  | workingDirectory => Option String

/-- A computation that may ask the host before it is done. -/
inductive Query (α : Type) where
  | done (a : α)
  | ask (r : HostRequest) (resume : r.Answer → Query α)

namespace Query

variable {α β : Type}

instance [Inhabited α] : Inhabited (Query α) := ⟨done default⟩

/-- The computation, with a function applied to what it comes to. -/
def map (f : α → β) : Query α → Query β
  | done a => done (f a)
  | ask r resume => ask r fun a => map f (resume a)

/-- The computation, with its questions answered by actions of a monad. -/
def answered {m : Type → Type} [Monad m] (answer : (r : HostRequest) → m r.Answer) :
    Query α → m α
  | done a => pure a
  | ask r resume => do
    let a ← answer r
    answered answer (resume a)

end Query

end Confine
