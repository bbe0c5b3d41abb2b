import Confine.Machine.Value

/-!
The objects of running programs. Objects and exceptions are numbered in the order in which they
are made, whichever task makes them.
-/

namespace Confine

/-- All objects there are, with their fields, and how many exceptions have been made. -/
structure Heap where
  objects : Array (List (String × Value))
  exceptions : Nat
  deriving DecidableEq, Repr, Inhabited

namespace Heap

def empty : Heap := ⟨#[], 0⟩

/-- Makes an object without fields. The first object has the number 1. -/
def newObject (h : Heap) (className : String) : Value × Heap :=
  let objects := h.objects.push []
  (.object objects.size className, ⟨objects, h.exceptions⟩)

/-- Makes an exception a value. -/
def newException (h : Heap) (e : Exception) : Value × Heap :=
  (.exception h.exceptions e, ⟨h.objects, h.exceptions + 1⟩)

/-- The field of an object; a field that nobody has set is null. -/
def get (h : Heap) (id : Nat) (field : String) : Value :=
  ((h.objects[id - 1]?.getD []).lookup field).getD .null

/-- A field takes a value. -/
def setField (field : String) (v : Value) : List (String × Value) → List (String × Value)
  | [] => [(field, v)]
  | f :: rest => if f.1 == field then (field, v) :: rest else f :: setField field v rest

/-- Sets the field of an object. -/
def set (h : Heap) (id : Nat) (field : String) (v : Value) : Heap :=
  ⟨h.objects.modify (id - 1) (setField field v), h.exceptions⟩

theorem lookup_setField (field name : String) (v : Value) (fields : List (String × Value)) :
    (setField field v fields).lookup name =
      if name = field then some v else fields.lookup name := by
  induction fields with
  | nil =>
    by_cases h : name = field
    · simp [setField, h]
    · simp [setField, List.lookup_cons, beq_eq_false_iff_ne.2 h, h]
  | cons f rest ih =>
    obtain ⟨key, w⟩ := f
    by_cases hf : key = field
    · subst hf
      by_cases hn : name = key
      · simp [setField, hn]
      · simp [setField, List.lookup_cons, beq_eq_false_iff_ne.2 hn, hn]
    · by_cases hn : name = key
      · subst hn
        simp [setField, hf]
      · simp [setField, hf, List.lookup_cons, beq_eq_false_iff_ne.2 hn, ih]

/-- A field that has been set has its value; no other field of any object changes. -/
theorem get_set {h : Heap} {id : Nat} (hid : id - 1 < h.objects.size) (field : String) (v : Value)
    (id' : Nat) (name : String) :
    (h.set id field v).get id' name =
      if id' - 1 = id - 1 ∧ name = field then v else h.get id' name := by
  by_cases hi : id' - 1 = id - 1
  · by_cases hn : name = field <;>
      simp [get, set, hi, hid, Array.getElem_modify, lookup_setField, hn]
  · simp [get, set, Array.getElem?_modify, hi, Ne.symm hi]

end Heap

end Confine
