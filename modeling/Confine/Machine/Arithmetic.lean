import Confine.Machine.Value

/-!
The operations on two operands. Integers have 64 bits and wrap; a quotient goes toward zero.
-/

namespace Confine

namespace Exception

def typeError (message : String) : Exception := of "TypeError" message

/-- An operand has the wrong type. -/
def expected (wanted : String) (v : Value) : Exception :=
  typeError ("expected " ++ wanted ++ ", found " ++ v.typeName)

def outOfMemory (message : String) : Exception := of "OutOfMemoryError" message

/-- The code breaks a rule that no handler may hide. -/
def verifyError (message : String) : Exception := ⟨"VerifyError", message, true⟩

end Exception

namespace BinaryOp

/-- The longest text that an operation makes, in bytes. -/
def maxTextBytes : Nat := 1048576

/-- The quotient or remainder of integers; there is none by zero. -/
def divided (f : Int64 → Int64 → Int64) (a b : Int64) : Except Exception Value :=
  if b = 0 then .error (.of "ArithmeticException" "/ by zero") else .ok (.int (f a b))

/-- The texts of two values, one behind the other. -/
def joined (left right : Value) : Except Exception Value :=
  let s := left.shown ++ right.shown
  if maxTextBytes < s.utf8ByteSize then .error (.outOfMemory "string too long")
  else .ok (.text s)

/-- An operation on integers. -/
def onInts (op : BinaryOp) (a b : Int64) : Except Exception Value :=
  match op with
  | add => .ok (.int (a + b))
  | sub => .ok (.int (a - b))
  | mul => .ok (.int (a * b))
  | div => divided (· / ·) a b
  | rem => divided (· % ·) a b
  | lt => .ok (.bool (a < b))
  | le => .ok (.bool (a ≤ b))
  | gt => .ok (.bool (b < a))
  | ge => .ok (.bool (b ≤ a))
  | eq => .ok (.bool (a == b))
  | ne => .ok (.bool (a != b))
  | concat => joined (.int a) (.int b)

/-- An operation on two values. -/
def apply (op : BinaryOp) (left right : Value) : Except Exception Value :=
  match op with
  | concat => joined left right
  | eq => .ok (.bool (left.same right))
  | ne => .ok (.bool (!left.same right))
  | _ =>
    match left, right with
    | .int a, .int b => onInts op a b
    | _, _ =>
      .error (.typeError ("cannot " ++ op.mnemonic ++ " " ++ left.typeName ++ " and " ++
        right.typeName))

/-! ### With integers and without -/

/-- Two integers are handed to the operation on integers, whatever the operation. -/
theorem apply_int (op : BinaryOp) (a b : Int64) : op.apply (.int a) (.int b) = op.onInts a b := by
  cases op <;> rfl

/-- Without two integers, an operation that needs them has an error of types. -/
theorem apply_of_not_int {op : BinaryOp} {v w : Value} (hop : op ≠ .eq ∧ op ≠ .ne ∧ op ≠ .concat)
    (hvw : ∀ a b : Int64, ¬ (v = .int a ∧ w = .int b)) :
    op.apply v w = .error (.typeError ("cannot " ++ op.mnemonic ++ " " ++ v.typeName ++ " and " ++
      w.typeName)) := by
  cases op with
  | eq => exact absurd rfl hop.1
  | ne => exact absurd rfl hop.2.1
  | concat => exact absurd rfl hop.2.2
  | _ =>
    simp only [apply]
    split
    · next a b => exact absurd ⟨rfl, rfl⟩ (hvw a b)
    · rfl

end BinaryOp

end Confine
