import Confine.Loading.Linked
import Confine.Machine.OperandStack

/-!
Frames: one for each method that has been called and has not returned.
-/

namespace Confine

/-- A method that is running. -/
structure Frame where
  className : String
  method : LinkedMethod
  /-- the place of the next instruction -/
  next : Nat
  locals : Array Value
  stack : OperandStack
  deriving DecidableEq, Repr, Inhabited

namespace Frame

/-- How many frames a thread may have. -/
def maxDepth : Nat := 512

/-- There is no such method. -/
def noSuchMethod (what : String) : Exception := .of "NoSuchMethodError" what

/-- The locals of a method that is called: its arguments, then nulls. -/
def localsFor (m : Method) (arguments : List Value) : Array Value :=
  let n := m.maxLocals.toNat
  ((arguments ++ List.replicate (n - arguments.length) Value.null).take n).toArray

/-- The frame for a call of a method of a class. The call may ask for a static method or for one
with a receiver, which then is the first argument. -/
def forCall (c : LinkedClass) (name : String) (arguments : List Value)
    (wantStatic : Option Bool) : Except Exception Frame :=
  match c.method? name with
  | none => .error (noSuchMethod (c.name ++ "." ++ name))
  | some m =>
    let wrongKind := match wantStatic with
      | some b => b != m.method.isStatic
      | none => false
    if wrongKind || arguments.length != m.method.requiredSlots then
      .error (noSuchMethod (m.method.descriptor c.name))
    else .ok ⟨c.name, m, 0, localsFor m.method arguments, .empty⟩

/-- The place of the instruction that is running. -/
def place (f : Frame) : Nat := f.next - 1

/-- The frame with another stack. -/
def withStack (f : Frame) (s : OperandStack) : Frame := { f with stack := s }

/-- Control goes to a label. -/
def jump (f : Frame) (l : Label) : Except Exception Frame :=
  match f.method.place? l with
  | some place => .ok { f with next := place }
  | none => .error (.verifyError ("unknown label " ++ l.name))

/-- A local is out of range. -/
def badLocal (i : UInt16) : Exception :=
  .verifyError ("local " ++ toString i.toNat ++ " out of range")

/-- The value of a local. -/
def load (f : Frame) (i : UInt16) : Except Exception Value :=
  match f.locals[i.toNat]? with
  | some v => .ok v
  | none => .error (badLocal i)

/-- A local takes a value. -/
def store (f : Frame) (i : UInt16) (v : Value) : Except Exception Frame :=
  if i.toNat < f.locals.size then .ok { f with locals := f.locals.setIfInBounds i.toNat v }
  else .error (badLocal i)

/-- The value of an operand of a hook. -/
def operand (f : Frame) : HookOperand → Value
  | .constant c => .ofConstant c
  | .slot i => f.locals[i.toNat]?.getD .null

/-- The handler that the frame has for an exception of a kind. -/
def handler? (f : Frame) (kind : String) : Option LinkedHandler :=
  f.method.handler? f.place kind

/-- The handler takes the exception: it is all that the stack holds. -/
def enter (f : Frame) (h : LinkedHandler) (v : Value) : Frame :=
  { f with next := h.target, stack := .single v }

end Frame

end Confine
