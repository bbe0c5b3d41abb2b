import Confine.Proofs.Machine.Depths
import Confine.Proofs.Text.Numeral
import Mathlib.Order.RelIso.Basic

/-!
# What instructions make of integers

An operation on integers is exact modulo `2 ^ 64`, and only a divisor of zero is refused.  A quotient goes toward zero;
the lowest integer divided by `-1` is itself again, with no remainder.

* `Task.Computes t thread s i operands r` — in the state `s`, whatever the frame, the instruction `i` makes `r` of the
  operands on top of the stack: a value takes their place, and an exception is raised;
* `Computation.Lawful` — the laws of the operations: what is exact and what wraps, what is ordered, what is the same,
  and what is refused;
* `Task.Reaches.hasRoom` — there is room for the value if fewer calls stand in front of the instruction than it has
  operands;
* `Task.computes_lawful` — **the laws hold of the instructions of every program**, and the value takes the place of the
  operands where there is room.

The value of a call goes onto a stack that is full.  Behind such calls even the negative of an integer may find no room
(`not_negation_total`).
-/

namespace Confine

/-! ### Operations on two integers -/

namespace BinaryOp

theorem divided_of_ne {b : Int64} (hb : b ≠ 0) (f : Int64 → Int64 → Int64) (a : Int64) :
    divided f a b = .ok (.int (f a b)) := if_neg hb

theorem divided_eq_error_iff {f : Int64 → Int64 → Int64} {a b : Int64} {e : Exception} :
    divided f a b = .error e ↔ b = 0 ∧ e = .of "ArithmeticException" "/ by zero" := by
  by_cases hb : b = 0
  · simp [divided, hb, eq_comm]
  · simp [divided_of_ne hb, hb]

theorem joined_int (a b : Int64) :
    joined (.int a) (.int b) = .ok (.text (toString a.toInt ++ toString b.toInt)) := by
  have ha := Text.utf8ByteSize_toString_int64_le a
  have hb := Text.utf8ByteSize_toString_int64_le b
  have hsize : ¬ maxTextBytes < (toString a.toInt ++ toString b.toInt).utf8ByteSize := by
    rw [String.utf8ByteSize_append, maxTextBytes]
    omega
  exact if_neg hsize

/-- **An operation on integers fails for a divisor of zero**, and never otherwise. -/
theorem onInts_eq_error_iff {op : BinaryOp} {a b : Int64} {e : Exception} :
    op.onInts a b = .error e ↔
      (op = .div ∨ op = .rem) ∧ b = 0 ∧ e = .of "ArithmeticException" "/ by zero" := by
  cases op <;> simp [onInts, divided_eq_error_iff, joined_int]

/-- **Quotient and remainder give the dividend back**, also where the quotient has wrapped. -/
theorem quotient_mul_add_remainder (a b : Int64) : a / b * b + a % b = a := by
  apply Int64.toInt_inj.1
  calc (a / b * b + a % b).toInt
      = (((a.toInt.tdiv b.toInt).bmod (2 ^ 64) * b.toInt).bmod (2 ^ 64) +
          a.toInt.tmod b.toInt).bmod (2 ^ 64) := by
        rw [Int64.toInt_add, Int64.toInt_mul, Int64.toInt_div, Int64.toInt_mod]
    _ = (a.toInt.tdiv b.toInt * b.toInt + a.toInt.tmod b.toInt).bmod (2 ^ 64) := by
        rw [Int.bmod_mul_bmod, Int.bmod_add_bmod]
    _ = a.toInt := by
        rw [Int.tdiv_mul_add_tmod]
        exact Int64.toInt_bmod a

theorem natAbs_remainder_lt {b : Int64} (hb : b ≠ 0) (a : Int64) :
    (a % b).toInt.natAbs < b.toInt.natAbs := by
  have hb' : b.toInt ≠ 0 := fun h => hb (Int64.toInt_inj.1 h)
  rw [Int64.toInt_mod, Int.natAbs_tmod]
  exact Nat.mod_lt _ (Int.natAbs_pos.2 hb')

theorem sign_remainder (a b : Int64) :
    (a % b).toInt = 0 ∨ (a % b).toInt.sign = a.toInt.sign := by
  rw [Int64.toInt_mod]
  by_cases h : b.toInt ∣ a.toInt
  · exact .inl (Int.tmod_eq_zero_of_dvd h)
  · exact .inr (by rw [Int.sign_tmod, if_neg h])

end BinaryOp

section Line

variable {r : Int64 → Int64 → Prop}

theorem isStrictTotalOrder_of_toInt (h : ∀ a b, r a b ↔ a.toInt < b.toInt) :
    IsStrictTotalOrder Int64 r :=
  (⟨⟨Int64.toInt, fun _ _ => Int64.toInt_inj.1⟩, (h _ _).symm⟩ :
    r ↪r ((· < ·) : Int → Int → Prop)).isStrictTotalOrder

theorem isLinearOrder_of_toInt (h : ∀ a b, r a b ↔ a.toInt ≤ b.toInt) : IsLinearOrder Int64 r :=
  (⟨⟨Int64.toInt, fun _ _ => Int64.toInt_inj.1⟩, (h _ _).symm⟩ :
    r ↪r ((· ≤ ·) : Int → Int → Prop)).isLinearOrder

end Line

/-! ### Values that are the same -/

namespace Value

/-- A value with nothing but what tells it from others: objects and exceptions have their numbers. -/
def identity : Value → Value
  | object id _ => object id ""
  | exception id _ => exception id default
  | v => v

theorem same_eq_true_iff {v w : Value} : v.same w = true ↔ v.identity = w.identity := by
  cases v <;> cases w <;> simp [same, identity]

end Value

/-! ### The laws -/

/-- What instructions make of their operands. -/
abbrev Computation := Instruction → List Value → Except Exception Value → Prop

namespace Computation

variable (computes : Computation)

/-- The instruction makes an integer of its operands: the exact one, modulo `2 ^ 64`. -/
def Wraps (i : Instruction) (operands : List Value) (exact : Int) : Prop :=
  ∃ r : Int64, computes i operands (.ok (.int r)) ∧ r.toInt = exact.bmod (2 ^ 64)

/-- Sums, differences, products and negatives wrap. -/
structure RingLaws : Prop where
  add (a b : Int64) : computes.Wraps (.binary .add) [.int a, .int b] (a.toInt + b.toInt)
  sub (a b : Int64) : computes.Wraps (.binary .sub) [.int a, .int b] (a.toInt - b.toInt)
  mul (a b : Int64) : computes.Wraps (.binary .mul) [.int a, .int b] (a.toInt * b.toInt)
  neg (a : Int64) : computes.Wraps .neg [.int a] (-a.toInt)

/-- Integers are divided by all but zero, toward zero. -/
structure DivisionLaws : Prop where
  quotient (a : Int64) {b : Int64} (hb : b ≠ 0) :
    computes.Wraps (.binary .div) [.int a, .int b] (a.toInt.tdiv b.toInt)
  /-- the remainder never wraps -/
  remainder (a : Int64) {b : Int64} (hb : b ≠ 0) :
    ∃ r : Int64, computes (.binary .rem) [.int a, .int b] (.ok (.int r)) ∧
      r.toInt = a.toInt.tmod b.toInt ∧ r.toInt.natAbs < b.toInt.natAbs ∧
      (r.toInt = 0 ∨ r.toInt.sign = a.toInt.sign)
  /-- the dividend comes back, in the instructions of the machine -/
  restores (a : Int64) {b : Int64} (hb : b ≠ 0) : ∃ q p r : Value,
    computes (.binary .div) [.int a, .int b] (.ok q) ∧ computes (.binary .mul) [q, .int b] (.ok p) ∧
      computes (.binary .rem) [.int a, .int b] (.ok r) ∧ computes (.binary .add) [p, r] (.ok (.int a))
  /-- a divisor of zero is refused, and no other operation on integers ever is -/
  fails (op : BinaryOp) (a b : Int64) (e : Exception) :
    computes (.binary op) [.int a, .int b] (.error e) ↔
      (op = .div ∨ op = .rem) ∧ b = 0 ∧ e = .of "ArithmeticException" "/ by zero"

/-- Integers are compared as they stand in line; "at most" is "not greater". -/
structure OrderLaws : Prop where
  lt (a b : Int64) :
    computes (.binary .lt) [.int a, .int b] (.ok (.bool (decide (a.toInt < b.toInt))))
  le (a b : Int64) :
    computes (.binary .le) [.int a, .int b] (.ok (.bool (decide (a.toInt ≤ b.toInt))))
  gt (a b : Int64) :
    computes (.binary .gt) [.int a, .int b] (.ok (.bool (decide (b.toInt < a.toInt))))
  ge (a b : Int64) :
    computes (.binary .ge) [.int a, .int b] (.ok (.bool (decide (b.toInt ≤ a.toInt))))
  le_iff_not_gt (a b : Int64) (c : Bool) :
    computes (.binary .le) [.int a, .int b] (.ok (.bool c)) ↔
      computes (.binary .gt) [.int a, .int b] (.ok (.bool !c))
  strict : IsStrictTotalOrder Int64 fun a b =>
    computes (.binary .lt) [.int a, .int b] (.ok (.bool true))
  total : IsLinearOrder Int64 fun a b =>
    computes (.binary .le) [.int a, .int b] (.ok (.bool true))

/-- Any two values are the same or not. -/
structure IdentityLaws : Prop where
  eq_ne (v w : Value) : ∃ c : Bool, computes (.binary .eq) [v, w] (.ok (.bool c)) ∧
    computes (.binary .ne) [v, w] (.ok (.bool !c))
  equivalence : Equivalence fun v w => computes (.binary .eq) [v, w] (.ok (.bool true))
  identity (v w : Value) :
    computes (.binary .eq) [v, w] (.ok (.bool true)) ↔ v.identity = w.identity

/-- **The laws of the operations.** -/
structure Lawful : Prop where
  /-- the operands decide what becomes of an instruction -/
  functional {i : Instruction} {operands : List Value} {r r' : Except Exception Value} :
    computes i operands r → computes i operands r' → r = r'
  ring : computes.RingLaws
  division : computes.DivisionLaws
  order : computes.OrderLaws
  identity : computes.IdentityLaws
  /-- the other operations need two integers -/
  mixed {op : BinaryOp} {v w : Value} (hop : op ≠ .eq ∧ op ≠ .ne ∧ op ≠ .concat)
    (hvw : ∀ a b : Int64, ¬ (v = .int a ∧ w = .int b)) :
    computes (.binary op) [v, w] (.error (.typeError ("cannot " ++ op.mnemonic ++ " " ++
      v.typeName ++ " and " ++ w.typeName)))
  mixed_neg {v : Value} (hv : ∀ a : Int64, v ≠ .int a) :
    computes .neg [v] (.error (.expected "int" v))

end Computation

/-! ### Instructions with their operands -/

/-- The negative of an integer; nothing else has one. -/
def Value.negated : Value → Except Exception Value
  | .int n => .ok (.int (-n))
  | v => .error (.expected "int" v)

/-- The instruction is the next of the frame, and its operands are on top of the stack, the last of them topmost. -/
structure Frame.Presents (f : Frame) (i : Instruction) (operands : List Value)
    (base : OperandStack) : Prop where
  instruction : f.method.code[f.next]? = some i
  stack : f.stack = operands.foldl .add base

/-- What becomes of a frame whose operands, on top of `base`, have come to something: a value takes their place if there
is room for one, and an exception is raised. -/
def Step.settled (s : TaskState) (f : Frame) (base : OperandStack) :
    Except Exception Value → Query Outcome
  | .ok v =>
    if base.size < OperandStack.maxDepth then
      next s { f with next := f.next + 1, stack := base.add v }
    else raise s { f with next := f.next + 1 } (.fresh (.outOfMemory "operand stack exhausted"))
  | .error e => raise s { f with next := f.next + 1 } (.fresh e)

/-- In a state of a task, the instruction makes `r` of the operands on a thread, whatever the frame. -/
def Task.Computes (t : Task) (thread : Nat) (s : TaskState) : Computation := fun i operands r =>
  ∀ (f : Frame) (base : OperandStack), f.Presents i operands base →
    Step.frame t thread s f = Step.settled s f base r

namespace Step

theorem attempt_push (s : TaskState) (f : Frame) (base : OperandStack)
    (r : Except Exception Value) :
    attempt s { f with next := f.next + 1 } r (push s { f with next := f.next + 1 } base) =
      settled s f base r := by
  cases r with
  | error e => rfl
  | ok v =>
    by_cases hroom : base.size < OperandStack.maxDepth
    · simp only [attempt, push, OperandStack.push_of_lt v hroom, settled, if_pos hroom]
      rfl
    · simp only [attempt, push, OperandStack.push, if_pos (Nat.le_of_not_lt hroom), settled,
        if_neg hroom]

/-- Where there is room, what the operands have come to can be told from what becomes of the frame. -/
theorem settled_injective {s : TaskState} {f : Frame} {base : OperandStack}
    (hroom : base.size < OperandStack.maxDepth) {r r' : Except Exception Value}
    (h : settled s f base r = settled s f base r') : r = r' := by
  cases r <;> cases r' <;> simp_all [settled, next, raise, OperandStack.add]

/-- A value takes the place of its operands if and only if there is room for it. -/
theorem settled_eq_next_iff {s : TaskState} {f : Frame} {base : OperandStack} {v : Value} :
    settled s f base (.ok v) = next s { f with next := f.next + 1, stack := base.add v } ↔
      base.size < OperandStack.maxDepth := by
  by_cases hroom : base.size < OperandStack.maxDepth
  · simp [settled, hroom]
  · simp [settled, hroom, next, raise]

end Step

def Frame.presenting (i : Instruction) (operands : List Value) : Frame :=
  ⟨"", .ofMethod ⟨"", true, [], 0, [i], []⟩, 0, #[], operands.foldl .add .empty⟩

namespace Task

variable {t : Task} {thread : Nat} {s : TaskState}

theorem computes_binary (op : BinaryOp) (v w : Value) :
    t.Computes thread s (.binary op) [v, w] (op.apply v w) := by
  intro f base h
  have hstack : f.stack = (base.add v).add w := h.stack
  rw [← Step.attempt_push]
  simp only [Step.frame, h.instruction, Step.instruction, hstack, OperandStack.pop_add]
  rfl

theorem computes_neg (v : Value) : t.Computes thread s .neg [v] v.negated := by
  intro f base h
  have hstack : f.stack = base.add v := h.stack
  rw [← Step.attempt_push]
  simp only [Step.frame, h.instruction, Step.instruction, hstack, OperandStack.popInt,
    OperandStack.pop_add]
  cases v <;> rfl

/-- **The operands decide what becomes of an instruction.** -/
theorem Computes.unique {i : Instruction} {operands : List Value} {r r' : Except Exception Value}
    (h : t.Computes thread s i operands r) (h' : t.Computes thread s i operands r') : r = r' := by
  have hp : (Frame.presenting i operands).Presents i operands .empty := ⟨rfl, rfl⟩
  have hsettled := (h _ _ hp).symm.trans (h' _ _ hp)
  exact Step.settled_injective (by decide) hsettled

theorem computes_binary_iff {op : BinaryOp} {v w : Value} {r : Except Exception Value} :
    t.Computes thread s (.binary op) [v, w] r ↔ op.apply v w = r :=
  ⟨fun h => (computes_binary op v w).unique h, fun h => h ▸ computes_binary op v w⟩

theorem computes_ints_iff {op : BinaryOp} {a b : Int64} {r : Except Exception Value} :
    t.Computes thread s (.binary op) [.int a, .int b] r ↔ op.onInts a b = r := by
  rw [computes_binary_iff, BinaryOp.apply_int]

/-! ### The laws of the machine -/

theorem computes_ringLaws : Computation.RingLaws (t.Computes thread s) where
  add a b := ⟨a + b, computes_ints_iff.2 rfl, Int64.toInt_add a b⟩
  sub a b := ⟨a - b, computes_ints_iff.2 rfl, Int64.toInt_sub a b⟩
  mul a b := ⟨a * b, computes_ints_iff.2 rfl, Int64.toInt_mul a b⟩
  neg a := ⟨-a, computes_neg (.int a), Int64.toInt_neg a⟩

theorem computes_divisionLaws : Computation.DivisionLaws (t.Computes thread s) where
  quotient a b hb :=
    ⟨a / b, computes_ints_iff.2 (BinaryOp.divided_of_ne hb _ a), Int64.toInt_div a b⟩
  remainder a b hb :=
    ⟨a % b, computes_ints_iff.2 (BinaryOp.divided_of_ne hb _ a), Int64.toInt_mod a b,
      BinaryOp.natAbs_remainder_lt hb a, BinaryOp.sign_remainder a b⟩
  restores a b hb := by
    refine ⟨.int (a / b), .int (a / b * b), .int (a % b), ?_, ?_, ?_, ?_⟩
    · exact computes_ints_iff.2 (BinaryOp.divided_of_ne hb _ a)
    · exact computes_ints_iff.2 rfl
    · exact computes_ints_iff.2 (BinaryOp.divided_of_ne hb _ a)
    · rw [computes_ints_iff, BinaryOp.onInts, BinaryOp.quotient_mul_add_remainder]
  fails op a b e := computes_ints_iff.trans BinaryOp.onInts_eq_error_iff

theorem computes_lt_iff {a b : Int64} :
    t.Computes thread s (.binary .lt) [.int a, .int b] (.ok (.bool true)) ↔ a.toInt < b.toInt := by
  simp [computes_ints_iff, BinaryOp.onInts, Int64.lt_iff_toInt_lt]

theorem computes_le_iff {a b : Int64} :
    t.Computes thread s (.binary .le) [.int a, .int b] (.ok (.bool true)) ↔ a.toInt ≤ b.toInt := by
  simp [computes_ints_iff, BinaryOp.onInts, Int64.le_iff_toInt_le]

theorem computes_orderLaws : Computation.OrderLaws (t.Computes thread s) where
  lt a b := computes_ints_iff.2 (by simp [BinaryOp.onInts, Int64.lt_iff_toInt_lt])
  le a b := computes_ints_iff.2 (by simp [BinaryOp.onInts, Int64.le_iff_toInt_le])
  gt a b := computes_ints_iff.2 (by simp [BinaryOp.onInts, Int64.lt_iff_toInt_lt])
  ge a b := computes_ints_iff.2 (by simp [BinaryOp.onInts, Int64.le_iff_toInt_le])
  le_iff_not_gt a b c := by
    have hnot : decide (a ≤ b) = !decide (b < a) := by
      rw [← decide_not, decide_eq_decide, Int64.le_iff_toInt_le, Int64.lt_iff_toInt_lt]
      exact Int.not_lt.symm
    rw [computes_ints_iff, computes_ints_iff, BinaryOp.onInts, BinaryOp.onInts, hnot]
    cases c <;> simp
  strict := isStrictTotalOrder_of_toInt fun a b => computes_lt_iff
  total := isLinearOrder_of_toInt fun a b => computes_le_iff

theorem computes_eq_iff {v w : Value} :
    t.Computes thread s (.binary .eq) [v, w] (.ok (.bool true)) ↔ v.identity = w.identity := by
  rw [computes_binary_iff, ← Value.same_eq_true_iff]
  simp [BinaryOp.apply]

theorem computes_identityLaws : Computation.IdentityLaws (t.Computes thread s) where
  eq_ne v w := ⟨v.same w, computes_binary .eq v w, computes_binary .ne v w⟩
  equivalence := {
    refl := fun _ => computes_eq_iff.2 rfl
    symm := fun h => computes_eq_iff.2 (computes_eq_iff.1 h).symm
    trans := fun h h' => computes_eq_iff.2 ((computes_eq_iff.1 h).trans (computes_eq_iff.1 h')) }
  identity _ _ := computes_eq_iff

theorem computes_neg_of_not_int {v : Value} (hv : ∀ a : Int64, v ≠ .int a) :
    t.Computes thread s .neg [v] (.error (.expected "int" v)) := by
  have hnegated : v.negated = .error (.expected "int" v) := by
    cases v with
    | int a => exact absurd rfl (hv a)
    | _ => rfl
  rw [← hnegated]
  exact computes_neg v

theorem computes_laws : Computation.Lawful (t.Computes thread s) where
  functional := Computes.unique
  ring := computes_ringLaws
  division := computes_divisionLaws
  order := computes_orderLaws
  identity := computes_identityLaws
  mixed hop hvw := computes_binary_iff.2 (BinaryOp.apply_of_not_int hop hvw)
  mixed_neg := computes_neg_of_not_int

end Task

/-! ### Room for the value -/

theorem OperandStack.size_foldl_add (operands : List Value) (base : OperandStack) :
    (operands.foldl .add base).size = base.size + operands.length := by
  induction operands generalizing base with
  | nil => rfl
  | cons v operands ih =>
    rw [List.foldl_cons, ih, OperandStack.size_add, List.length_cons]
    omega

/-- **There is room for the value** of an instruction with more operands than calls in front of it. -/
theorem Task.Reaches.hasRoom {t : Task} (hu : t.unit.Built) {f : Frame} {outer : List Frame}
    (h : t.Reaches (.running (f :: outer))) {i : Instruction} (hi : i.isMark = false)
    {operands : List Value} {base : OperandStack} (hp : f.Presents i operands base)
    (hcalls : f.callsBehind < operands.length) : base.size < OperandStack.maxDepth := by
  obtain ⟨-, hfits, -⟩ := h.framesFit hu
  have hsize := hfits.size_le_of_real hp.instruction hi
  rw [hp.stack, OperandStack.size_foldl_add] at hsize
  omega

/-- **Instructions on integers are exact modulo `2 ^ 64`**, and fail for a divisor of zero only: so it is in every state
of every task.  The value takes the place of the operands if and only if there is room for it; and there is, wherever a
program may come to an instruction with fewer calls in front of it than it has operands. -/
theorem Task.computes_lawful (t : Task) (thread : Nat) (s : TaskState) :
    Computation.Lawful (t.Computes thread s) ∧
    (∀ {f : Frame} {i : Instruction} {operands : List Value} {base : OperandStack} {v : Value},
      t.Computes thread s i operands (.ok v) → f.Presents i operands base →
      (Step.frame t thread s f =
          Step.next s { f with next := f.next + 1, stack := base.add v } ↔
        base.size < OperandStack.maxDepth)) ∧
    (∀ {f : Frame} {outer : List Frame} {i : Instruction} {operands : List Value}
      {base : OperandStack}, t.unit.Built → t.Reaches (.running (f :: outer)) → i.isMark = false →
      f.Presents i operands base → f.callsBehind < operands.length →
      base.size < OperandStack.maxDepth) := by
  refine ⟨computes_laws, ?_, fun hu h hi hp hcalls => h.hasRoom hu hi hp hcalls⟩
  intro f i operands base v hv hp
  rw [hv f base hp]
  exact Step.settled_eq_next_iff

/-! ### An integer without a negative -/

namespace Overfull

open LoadingUnit Verifier Crowded

/-- A method that pushes `n` values, calls another, and negates the integer that this returns. -/
def main (n : Nat) : Method :=
  ⟨"main", true, [], 0, List.replicate n (.push .null) ++
    [.invokeStatic "Main" "one", .neg, .host .println, .ret], []⟩

def one : Method := ⟨"one", true, [], 0, [.push (.int 1), .neg, .retValue], []⟩

def classFile (n : Nat) : ClassFile := ⟨"Main", none, [main n, one]⟩

def task (n : Nat) : Task := ⟨.ofClass (classFile n), ⟨0⟩, 0⟩

theorem built_unit (n : Nat) : (task n).unit.Built := by
  refine built_ofClass fun mode => check_eq_ok_iff.2 ⟨by simp [classFile, main, one], ?_⟩
  have hone : Verified mode one := checkMethod_eq_ok_iff.1 (by cases mode <;> rfl)
  refine List.forall_mem_cons.2 ⟨?_, by simpa using hone⟩
  refine verified_of_unlabelled (Nat.le_refl 0) rfl fun i hi => ?_
  rcases List.mem_append.1 hi with hi | hi
  · rw [List.eq_of_mem_replicate hi]
    exact ⟨rfl, rfl, rfl⟩
  · obtain rfl | rfl | rfl | rfl : i = .invokeStatic "Main" "one" ∨ i = .neg ∨
        i = .host .println ∨ i = .ret := by simpa using hi
    all_goals exact ⟨rfl, rfl, rfl⟩

def frame (n next : Nat) (stack : OperandStack) : Frame :=
  ⟨"Main", .ofMethod (main n), next, #[], stack⟩

def callee (next : Nat) (stack : OperandStack) : Frame := ⟨"Main", .ofMethod one, next, #[], stack⟩

theorem reaches_callee {n : Nat} (hn : n ≤ OperandStack.maxDepth) :
    (task n).Reaches (.running [callee 1 (.single (.int 1)), frame n (n + 1) (nulls n)]) := by
  have hpushed : (task n).Reaches (.running [frame n n (nulls n)]) := by
    have hstart : (Activation.start (task n) default "Main" "main" []).1 =
        .ok (frame n 0 .empty) := rfl
    refine reaches_nulls hn (fun k hk => ?_) (.called hstart) n (Nat.le_refl n)
    show (main n).code.toArray[k]? = _
    simp [main, List.getElem?_append, hk]
  have hcall : (frame n n (nulls n)).method.code[(frame n n (nulls n)).next]? =
      some (.invokeStatic "Main" "one") := by
    show (main n).code.toArray[n]? = _
    simp [main]
  have hcalled : (task n).Reaches (.running [callee 0 .empty, frame n (n + 1) (nulls n)]) :=
    hpushed.step (s := default) rfl hcall rfl
  exact hcalled.step (s := default) (i := .push (.int 1)) rfl rfl rfl

/-- The integer is on top of the stack, full or not. -/
theorem reaches_returned {n : Nat} (hn : n ≤ OperandStack.maxDepth) :
    (task n).Reaches (.running [frame n (n + 1) ((nulls n).add (.int (-1)))]) := by
  have hnegated : (task n).Reaches
      (.running [callee 2 (.single (.int (-1))), frame n (n + 1) (nulls n)]) :=
    (reaches_callee hn).step (s := default) (i := .neg) rfl rfl rfl
  exact hnegated.step (s := default) (i := .retValue) rfl rfl rfl

theorem presents_callee : (callee 1 (.single (.int 1))).Presents .neg [.int 1] .empty := ⟨rfl, rfl⟩

theorem presents_frame (n : Nat) :
    (frame n (n + 1) ((nulls n).add (.int (-1)))).Presents .neg [.int (-1)] (nulls n) := by
  refine ⟨?_, rfl⟩
  show (main n).code.toArray[n + 1]? = _
  simp [main]

end Overfull

/-- The lowest integer divided by `-1` is itself, with no remainder.  A method in front of its first call negates an
integer. -/
theorem Task.computes_lawful_lowest :
    ∃ (t : Task) (f : Frame) (outer : List Frame), t.unit.Built ∧ t.Reaches (.running (f :: outer)) ∧
      f.Presents .neg [.int 1] .empty ∧ f.callsBehind < 1 ∧
      Step.frame t 0 default f =
        Step.next default { f with next := f.next + 1, stack := .single (.int (-1)) } ∧
      t.Computes 0 default (.binary .div) [.int Int64.minValue, .int (-1)] (.ok (.int Int64.minValue)) ∧
      t.Computes 0 default (.binary .rem) [.int Int64.minValue, .int (-1)] (.ok (.int 0)) := by
  obtain ⟨hlaws, hgoes, hroom⟩ :=
    Task.computes_lawful (Overfull.task OperandStack.maxDepth) 0 default
  have hne : (-1 : Int64) ≠ 0 := by decide
  obtain ⟨q, hq, hquotient⟩ := hlaws.division.quotient Int64.minValue hne
  obtain ⟨r, hr, hremainder, -⟩ := hlaws.division.remainder Int64.minValue hne
  obtain ⟨n, hn, hnegative⟩ := hlaws.ring.neg 1
  obtain rfl : q = Int64.minValue := Int64.toInt_inj.1 (hquotient.trans (by decide))
  obtain rfl : r = 0 := Int64.toInt_inj.1 (hremainder.trans (by decide))
  obtain rfl : n = -1 := Int64.toInt_inj.1 (hnegative.trans (by decide))
  have hbuilt := Overfull.built_unit OperandStack.maxDepth
  have hreaches := Overfull.reaches_callee (Nat.le_refl OperandStack.maxDepth)
  have hp := Overfull.presents_callee
  have hcalls : (Overfull.callee 1 (.single (.int 1))).callsBehind < 1 := by decide
  exact ⟨_, _, _, hbuilt, hreaches, hp, hcalls, (hgoes hn hp).2 (hroom hbuilt hreaches rfl hp hcalls),
    hq, hr⟩

/-- Not every integer has a negative in every state that a program may come to: behind a call whose value lies on a full
stack there is no room for it. -/
theorem not_negation_total :
    ¬ ∀ (t : Task) (thread : Nat) (s : TaskState) (f : Frame) (outer : List Frame) (n : Int64)
      (base : OperandStack), t.unit.Built → t.Reaches (.running (f :: outer)) →
      f.Presents .neg [.int n] base →
      Step.frame t thread s f =
        Step.next s { f with next := f.next + 1, stack := base.add (.int (-n)) } := by
  intro hall
  have hp := Overfull.presents_frame OperandStack.maxDepth
  have hnext := hall (Overfull.task OperandStack.maxDepth) 0 default _ _ _ _
    (Overfull.built_unit OperandStack.maxDepth)
    (Overfull.reaches_returned (Nat.le_refl OperandStack.maxDepth)) hp
  rw [Task.computes_neg _ _ _ hp] at hnext
  have hroom := Step.settled_eq_next_iff.1 hnext
  rw [Crowded.size_nulls] at hroom
  exact Nat.lt_irrefl _ hroom

end Confine
