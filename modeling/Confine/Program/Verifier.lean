import Confine.Program.ClassFile

/-!
Structural checks on a class. They run on every class before it can be loaded, and again after it
has been instrumented. How deep the operand stack is at a frame is checked when the frame executes.
-/

namespace Confine

/-- What is wrong with a method. -/
inductive MethodFault where
  | tooFewLocals (maxLocals : UInt16) (required : Nat)
  | duplicateLabel (l : Label)
  | undefinedLabel (l : Label)
  /-- the frame at the index stands behind a real instruction or at the start -/
  | frameWithoutLabel (index : Nat)
  | missingFrame (l : Label)
  | localOutOfRange (slot maxLocals : UInt16)
  | hookInSubmittedCode
  deriving DecidableEq, Repr, Inhabited

/-- Why a class is not accepted. -/
inductive VerifyFault where
  | duplicateMethod (className methodName : String)
  | method (className methodName : String) (fault : MethodFault)
  deriving DecidableEq, Repr, Inhabited

namespace MethodFault

/-- The fault in words. -/
def message : MethodFault → String
  | tooFewLocals n required =>
    toString n.toNat ++ " locals cannot hold " ++ toString required ++ " parameter slots"
  | duplicateLabel l => "label " ++ l.name ++ " defined more than once"
  | undefinedLabel l => "label " ++ l.name ++ " is referenced but never defined"
  | frameWithoutLabel i =>
    "frame at instruction " ++ toString i ++ " does not follow a label"
  | missingFrame l => "branch target " ++ l.name ++ " has no frame"
  | localOutOfRange i n =>
    "local " ++ toString i.toNat ++ " out of range (max_locals " ++ toString n.toNat ++ ")"
  | hookInSubmittedCode => "hook instructions are not allowed in untrusted code"

end MethodFault

/-- The fault in words. -/
def VerifyFault.message : VerifyFault → String
  | duplicateMethod c m => c ++ ": duplicate method " ++ m
  | method c m fault => c ++ "." ++ m ++ ": " ++ fault.message

namespace Verifier

/-- Which code is checked. -/
inductive Mode where
  /-- code as somebody handed it in, without calls into tracers -/
  | submitted
  /-- code that has been instrumented -/
  | instrumented
  deriving DecidableEq, Repr, Inhabited

/-! ### Labels -/

/-- The first member of a list that stands in it before. -/
def firstRepeated? (seen : List Label) : List Label → Option Label
  | [] => none
  | l :: rest => if seen.contains l then some l else firstRepeated? (l :: seen) rest

/-- The labels that an instruction names. -/
def mentions : Instruction → List Label
  | .jump l | .jumpIf l | .jumpIfNot l => [l]
  | .lineNumber _ start => [start]
  | _ => []

/-- The labels that a method names without defining them there: those of its code, then those of
its handlers. -/
def referenced (m : Method) : List Label :=
  m.code.flatMap mentions ++ m.handlers.flatMap fun h => [h.start, h.stop, h.target]

/-- The labels that control may come to: targets of jumps and of handlers. -/
def targets (m : Method) : List Label := m.jumpTargets ++ m.handlers.map (·.target)

/-! ### Frames -/

/-- A label behind which no real instruction has come yet, and whether a frame has. -/
structure Pending where
  label : Label
  framed : Bool
  deriving DecidableEq, Repr

/-- The least of some labels. -/
def least? : List Label → Option Label
  | [] => none
  | l :: rest => some (rest.foldl (fun a b => if b.index < a.index then b else a) l)

/-- The least target among the pending labels that has no frame. -/
def unframed? (targets : List Label) (pending : List Pending) : Option Label :=
  least? ((pending.filter fun p => !p.framed && targets.contains p.label).map (·.label))

/-- A real instruction may come, or the code end: every pending target has its frame. -/
def checkFramed (targets : List Label) (pending : List Pending) : Except MethodFault Unit :=
  match unframed? targets pending with
  | some l => .error (.missingFrame l)
  | none => .ok ()

/-- Frames stand only behind labels, and every target has one before the next real instruction.
The code starts at `index`, with `pending` labels in front of it. -/
def checkFrames (targets : List Label) (pending : List Pending) (index : Nat) :
    List Instruction → Except MethodFault Unit
  | [] => checkFramed targets pending
  | .label l :: rest => checkFrames targets (⟨l, false⟩ :: pending) (index + 1) rest
  | .lineNumber _ _ :: rest => checkFrames targets pending (index + 1) rest
  | .frame _ :: rest =>
    if pending.isEmpty then .error (.frameWithoutLabel index)
    else checkFrames targets (pending.map fun p => { p with framed := true }) (index + 1) rest
  | _ :: rest =>
    match checkFramed targets pending with
    | .error fault => .error fault
    | .ok () => checkFrames targets [] (index + 1) rest

/-! ### Locals and hooks -/

/-- The slots that an operand of a hook reads. -/
def hookSlots (operands : List HookOperand) : List UInt16 :=
  operands.filterMap fun
    | .slot i => some i
    | .constant _ => none

/-- Every slot is below `maxLocals`. -/
def checkSlots (maxLocals : UInt16) (slots : List UInt16) : Except MethodFault Unit :=
  match slots.find? (maxLocals ≤ ·) with
  | some i => .error (.localOutOfRange i maxLocals)
  | none => .ok ()

/-- The slots of one instruction are in range, and it is no hook in submitted code. -/
def checkOperands (mode : Mode) (maxLocals : UInt16) : Instruction → Except MethodFault Unit
  | .load i | .store i => checkSlots maxLocals [i]
  | .hook _ _ operands =>
    if mode = .submitted then .error .hookInSubmittedCode
    else checkSlots maxLocals (hookSlots operands)
  | _ => .ok ()

/-- The first fault that a check finds in a list. -/
def checkAll {α ε : Type} (check : α → Except ε Unit) : List α → Except ε Unit
  | [] => .ok ()
  | a :: rest =>
    match check a with
    | .error fault => .error fault
    | .ok () => checkAll check rest

/-! ### Methods and classes -/

/-- Locals hold the parameters. -/
def checkLocals (m : Method) : Except MethodFault Unit :=
  if m.maxLocals.toNat < m.requiredSlots then
    .error (.tooFewLocals m.maxLocals m.requiredSlots)
  else .ok ()

/-- Each label is defined at most once, and if it is named, once. -/
def checkLabels (m : Method) : Except MethodFault Unit :=
  match firstRepeated? [] m.labels with
  | some l => .error (.duplicateLabel l)
  | none =>
    let defined := m.labels
    match (referenced m).find? (!defined.contains ·) with
    | some l => .error (.undefinedLabel l)
    | none => .ok ()

/-- Checks a method: locals, labels, frames, operands, in this order. -/
def checkMethod (mode : Mode) (m : Method) : Except MethodFault Unit := do
  checkLocals m
  checkLabels m
  checkFrames (targets m) [] 0 m.code
  checkAll (checkOperands mode m.maxLocals) m.code

/-- Checks the methods of a class that come behind those named in `seen`. -/
def checkMethods (mode : Mode) (className : String) (seen : List String) :
    List Method → Except VerifyFault Unit
  | [] => .ok ()
  | m :: rest =>
    if seen.contains m.name then .error (.duplicateMethod className m.name)
    else match checkMethod mode m with
      | .error fault => .error (.method className m.name fault)
      | .ok () => checkMethods mode className (m.name :: seen) rest

/-- Checks a class. -/
def check (mode : Mode) (c : ClassFile) : Except VerifyFault Unit :=
  checkMethods mode c.name [] c.methods

end Verifier

end Confine
