import Confine.Machine.Arithmetic

/-!
Operand stacks. A stack knows how many values it holds, and takes no more than a limit when an
instruction pushes. Popping undoes pushing (`pop_eq_ok_iff` and its like).
-/

namespace Confine

/-- A stack of operands, the top first. -/
structure OperandStack where
  values : List Value
  size : Nat
  length_eq : values.length = size
  deriving DecidableEq, Repr

namespace OperandStack

/-- How many values instructions may push. -/
def maxDepth : Nat := 65536

def empty : OperandStack := ⟨[], 0, rfl⟩

instance : Inhabited OperandStack := ⟨empty⟩

/-- The stack of one value. -/
def single (v : Value) : OperandStack := ⟨[v], 1, rfl⟩

/-- One value more, whatever the limit. -/
def add (s : OperandStack) (v : Value) : OperandStack :=
  ⟨v :: s.values, s.size + 1, by simp [s.length_eq]⟩

/-- Pushes a value. -/
def push (s : OperandStack) (v : Value) : Except Exception OperandStack :=
  if maxDepth ≤ s.size then .error (.outOfMemory "operand stack exhausted") else .ok (s.add v)

/-- There is no operand where one is needed. -/
def underflow : Exception := .verifyError "operand stack underflow"

/-- Pops a value. -/
def pop (s : OperandStack) : Except Exception (Value × OperandStack) :=
  match s with
  | ⟨[], _, _⟩ => .error underflow
  | ⟨v :: rest, size, h⟩ => .ok (v, ⟨rest, size - 1, by simp at h; omega⟩)

/-- Pops `n` values; gives them in the order in which they were pushed. -/
def popMany (s : OperandStack) (n : Nat) : Except Exception (List Value × OperandStack) :=
  if s.size < n then .error underflow
  else .ok ((s.values.take n).reverse,
    ⟨s.values.drop n, s.size - n, by simp [s.length_eq]⟩)

/-- Pops a text. -/
def popText (s : OperandStack) : Except Exception (String × OperandStack) := do
  match ← s.pop with
  | (.text t, s) => .ok (t, s)
  | (v, _) => .error (.expected "string" v)

/-- Pops an integer. -/
def popInt (s : OperandStack) : Except Exception (Int64 × OperandStack) := do
  match ← s.pop with
  | (.int n, s) => .ok (n, s)
  | (v, _) => .error (.expected "int" v)

/-- Pops a truth value. -/
def popBool (s : OperandStack) : Except Exception (Bool × OperandStack) := do
  match ← s.pop with
  | (.bool b, s) => .ok (b, s)
  | (v, _) => .error (.expected "bool" v)

/-- Pops an object; gives its number and its class. -/
def popObject (s : OperandStack) : Except Exception ((Nat × String) × OperandStack) := do
  match ← s.pop with
  | (.object id c, s) => .ok ((id, c), s)
  | (.null, _) => .error (.of "NullPointerException" "")
  | (v, _) => .error (.expected "object" v)

/-! ### What one operation does -/

@[simp] theorem values_add (s : OperandStack) (v : Value) : (s.add v).values = v :: s.values := rfl

@[simp] theorem size_add (s : OperandStack) (v : Value) : (s.add v).size = s.size + 1 := rfl

theorem push_of_lt {s : OperandStack} (v : Value) (h : s.size < maxDepth) :
    s.push v = .ok (s.add v) := by
  simp [push, Nat.not_le.2 h]

@[simp] theorem pop_add (s : OperandStack) (v : Value) : (s.add v).pop = .ok (v, s) := by
  simp [add, pop]

theorem pop_eq_ok_iff {s t : OperandStack} {v : Value} : s.pop = .ok (v, t) ↔ s = t.add v := by
  constructor
  · intro h
    obtain ⟨_ | ⟨w, rest⟩, n, hn⟩ := s
    · simp [pop] at h
    · simp only [pop, Except.ok.injEq, Prod.mk.injEq] at h
      obtain ⟨rfl, rfl⟩ := h
      simp only [List.length_cons] at hn
      simp [add, ← hn]
  · rintro rfl
    simp

theorem popText_eq_ok_iff {s t : OperandStack} {x : String} :
    s.popText = .ok (x, t) ↔ s = t.add (.text x) := by
  rw [← pop_eq_ok_iff]
  unfold popText
  cases hp : s.pop with
  | error e => simp [bind, Except.bind]
  | ok p =>
    obtain ⟨v, r⟩ := p
    cases v <;> simp [bind, Except.bind]

theorem popInt_eq_ok_iff {s t : OperandStack} {n : Int64} :
    s.popInt = .ok (n, t) ↔ s = t.add (.int n) := by
  rw [← pop_eq_ok_iff]
  unfold popInt
  cases hp : s.pop with
  | error e => simp [bind, Except.bind]
  | ok p =>
    obtain ⟨v, r⟩ := p
    cases v <;> simp [bind, Except.bind]

theorem popBool_eq_ok_iff {s t : OperandStack} {b : Bool} :
    s.popBool = .ok (b, t) ↔ s = t.add (.bool b) := by
  rw [← pop_eq_ok_iff]
  unfold popBool
  cases hp : s.pop with
  | error e => simp [bind, Except.bind]
  | ok p =>
    obtain ⟨v, r⟩ := p
    cases v <;> simp [bind, Except.bind]

theorem popObject_eq_ok_iff {s t : OperandStack} {id : Nat} {c : String} :
    s.popObject = .ok ((id, c), t) ↔ s = t.add (.object id c) := by
  rw [← pop_eq_ok_iff]
  unfold popObject
  cases hp : s.pop with
  | error e => simp [bind, Except.bind]
  | ok p =>
    obtain ⟨v, r⟩ := p
    cases v <;> simp [bind, Except.bind]

theorem length_of_popMany {s t : OperandStack} {n : Nat} {vs : List Value}
    (h : s.popMany n = .ok (vs, t)) : vs.length = n ∧ s.size = t.size + n := by
  unfold popMany at h
  split at h
  · simp at h
  · simp only [Except.ok.injEq, Prod.mk.injEq] at h
    obtain ⟨rfl, rfl⟩ := h
    simp [s.length_eq]
    omega

end OperandStack

end Confine
