import Confine.Program.Instruction

/-!
Methods and class files.
-/

namespace Confine

/-- An exception handler for the instructions from `start` up to `stop`. -/
structure Handler where
  start : Label
  stop : Label
  target : Label
  /-- the kind it catches; without one it catches every kind -/
  kind : Option String
  deriving DecidableEq, Repr, Inhabited

/-- A method. -/
structure Method where
  name : String
  isStatic : Bool
  /-- the names of the parameters, in the order of their slots -/
  params : List String
  maxLocals : UInt16
  code : List Instruction
  handlers : List Handler
  deriving DecidableEq, Repr, Inhabited

namespace Method

/-- The slot of the first parameter: the receiver of an instance method has slot 0. -/
def firstParamSlot (m : Method) : Nat := if m.isStatic then 0 else 1

/-- The slots that receiver and parameters need. -/
def requiredSlots (m : Method) : Nat := m.params.length + m.firstParamSlot

/-- Some instruction of the method is real. -/
def hasRealCode (m : Method) : Bool := m.code.any (!·.isMark)

/-- The method as messages and traces name it. -/
def descriptor (m : Method) (className : String) : String :=
  (if m.isStatic then "static " else "") ++ className ++ "." ++ m.name ++ "(" ++
    String.intercalate ", " m.params ++ ")"

/-- The labels that stand in the code, in order. -/
def labels (m : Method) : List Label := m.code.filterMap Instruction.label?

/-- The labels that the code may jump to, in order. -/
def jumpTargets (m : Method) : List Label := m.code.filterMap Instruction.jumpTarget?

end Method

/-- A class. -/
structure ClassFile where
  name : String
  sourceFile : Option String
  methods : List Method
  deriving DecidableEq, Repr, Inhabited

namespace ClassFile

/-- The first method of a name. -/
def method? (c : ClassFile) (name : String) : Option Method := c.methods.find? (·.name == name)

/-- The place of the first method of a name. -/
def methodIndex? (c : ClassFile) (name : String) : Option Nat :=
  c.methods.findIdx? (·.name == name)

end ClassFile

end Confine
