import Confine.Machine.Request

/-!
Hosts. A host answers the questions of programs, and has a clock that only goes forward, by which
time limits are measured.
-/

namespace Confine

/-- A host whose actions are those of `m`. -/
structure Host (m : Type → Type) where
  /-- nanoseconds since some point in the past -/
  elapsed : m Nat
  /-- waits until the clock has reached a point; it may return before -/
  idleUntil : Nat → m Unit
  answer : (r : HostRequest) → m r.Answer
  /-- the text of a file, or why it cannot be read -/
  readFile : String → m (Except String String)
  /-- the date and the time -/
  today : m Time.Timestamp
  randomBytes : m (List UInt8)

namespace Host

variable {m : Type → Type}

/-- The value of an environment variable. -/
def getEnv (h : Host m) (name : String) : m (Option String) := h.answer (.getEnv name)

/-- Writes a file, or says why it cannot be written. -/
def writeFile (h : Host m) (path contents : String) : m (Except String Unit) :=
  h.answer (.writeFile path contents)

end Host

end Confine
