import Confine.Machine.Value

/-!
What passes between running programs and tracers.
-/

namespace Confine

/-- Where the class that is instrumented comes from. -/
inductive Origin where
  | untrusted
  /-- library code -/
  | trusted
  deriving DecidableEq, Repr, Inhabited

/-- A call from instrumented code into a tracer. -/
structure HookCall where
  name : String
  operands : List Value
  deriving DecidableEq, Repr, Inhabited

/-- How a tracer interrupts the program. -/
inductive HookSignal where
  | throw (e : Exception)
  /-- stops the whole task -/
  | kill (reason : String)
  deriving DecidableEq, Repr, Inhabited

/-- A line that a thread has reached. -/
structure LineEvent where
  source : String
  line : UInt32
  thread : Nat
  deriving DecidableEq, Repr, Inhabited

end Confine
