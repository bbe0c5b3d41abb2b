import Confine.Proofs.Machine.Footprint
import Confine.Proofs.Tracing.Reported

/-!
# Values and heaps of two runs

Objects and exceptions are numbered in the order in which they are made, from where the earlier tasks have left off.  A
`Rerun` is a pair of tasks of the same unit, each with what there was when it began; `Value.Match` relates the values
that are the same but for where the counting began.  An object that is turned into text shows its number, so
the texts are the same if both runs count from the same number, or if there is no object (`Rerun.CanShow`).

* `Value.Match.shown`, `Value.Match.same`, `BinaryOp.apply_match` — what can be seen of values;
* `Heap.Match.get`, `Heap.Match.set`, `Heap.Match.newObject` — heaps that hold the same.
-/

namespace Confine

/-- Two tasks, and how many objects and exceptions there were, and which confinements, when each began. -/
structure Rerun where
  task : Task
  task' : Task
  objects : Nat
  objects' : Nat
  exceptions : Nat
  exceptions' : Nat
  confinements : Confinements
  confinements' : Confinements

/-- Both tasks are about the same unit, with the same permissions. -/
structure Rerun.Fair (z : Rerun) : Prop where
  unit : z.task'.unit = z.task.unit
  maxExtraThreads : z.task'.maxExtraThreads = z.task.maxExtraThreads
  allows : ∀ p, z.confinements'.allows z.task'.capability p =
    z.confinements.allows z.task.capability p

/-! ### Agreement -/

section Agreement

variable {ε α β γ δ : Type} {R : α → β → Prop} {S : γ → δ → Prop}

theorem Agree.bind {x : Except ε α} {y : Except ε β} {k : α → Except ε γ} {l : β → Except ε δ}
    (h : Agree R x y) (hk : ∀ a b, R a b → Agree S (k a) (l b)) : Agree S (x >>= k) (y >>= l) := by
  cases h with
  | ok h => exact hk _ _ h
  | error e => exact .error e

theorem Agree.self {R : α → α → Prop} {x : Except ε α} (h : ∀ a, x = .ok a → R a a) :
    Agree R x x := by
  cases x with
  | ok a => exact .ok (h a rfl)
  | error e => exact .error e

theorem Agree.guarded (c : Prop) [Decidable c] {e : ε} {a : α} {b : β} (h : R a b) :
    Agree R (if c then .error e else .ok a) (if c then .error e else .ok b) := by
  split
  · exact .error e
  · exact .ok h

end Agreement

/-! ### Values -/

def Value.isObject : Value → Bool
  | object _ _ => true
  | _ => false

/-- The values are the same, counted from where each run began. -/
inductive Value.Match (z : Rerun) : Value → Value → Prop where
  | null : Match z .null .null
  | bool (b : Bool) : Match z (.bool b) (.bool b)
  | int (n : Int64) : Match z (.int n) (.int n)
  | text (s : String) : Match z (.text s) (.text s)
  | object (i : Nat) (c : String) :
      Match z (.object (z.objects + i + 1) c) (.object (z.objects' + i + 1) c)
  | exception (i : Nat) (e : Exception) :
      Match z (.exception (z.exceptions + i) e) (.exception (z.exceptions' + i) e)

/-- The value does not show where its run began to count. -/
def Rerun.CanShow (z : Rerun) (v : Value) : Prop := z.objects' = z.objects ∨ v.isObject = false

variable {z : Rerun}

namespace Value.Match

variable {v v' w w' : Value}

theorem similar (h : v.Match z v') (hv : z.CanShow v) : v.Similar v' := by
  cases h with
  | object i c =>
    rcases hv with hv | hv
    · rw [hv]
      exact .refl _
    · cases hv
  | exception i e => exact .exception _ _ e
  | _ => exact .refl _

theorem shown (h : v.Match z v') (hv : z.CanShow v) : v'.shown = v.shown := by
  cases h.similar hv <;> rfl

theorem same (h : v.Match z v') (hw : w.Match z w') : v'.same w' = v.same w := by
  cases h <;> cases hw <;> simp [Value.same]

theorem ofConstant (c : Constant) : (Value.ofConstant c).Match z (.ofConstant c) := by
  cases c with
  | null => exact .null
  | bool b => exact .bool b
  | int n => exact .int n
  | text s => exact .text s

theorem eq_null_iff (h : v.Match z v') : v' = .null ↔ v = .null := by cases h <;> simp

end Value.Match

/-! ### Operations on two values -/

namespace BinaryOp

variable {left left' right right' : Value}

theorem joined_match (hl : left.Match z left') (hr : right.Match z right') (hsl : z.CanShow left)
    (hsr : z.CanShow right) : Agree (Value.Match z) (joined left right) (joined left' right') := by
  unfold joined
  rw [hl.shown hsl, hr.shown hsr]
  refine Agree.self fun v hv => ?_
  dsimp only at hv
  split at hv <;> cases hv
  exact .text _

theorem onInts_match (op : BinaryOp) (a b : Int64) :
    Agree (Value.Match z) (onInts op a b) (onInts op a b) := by
  have hdivided : ∀ f, Agree (Value.Match z) (divided f a b) (divided f a b) := by
    intro f
    refine Agree.self fun v hv => ?_
    unfold divided at hv
    split at hv <;> cases hv
    exact .int _
  cases op with
  | div => exact hdivided _
  | rem => exact hdivided _
  | concat => exact joined_match (.int a) (.int b) (.inr rfl) (.inr rfl)
  | add => exact .ok (.int _)
  | sub => exact .ok (.int _)
  | mul => exact .ok (.int _)
  | lt => exact .ok (.bool _)
  | le => exact .ok (.bool _)
  | gt => exact .ok (.bool _)
  | ge => exact .ok (.bool _)
  | eq => exact .ok (.bool _)
  | ne => exact .ok (.bool _)

theorem apply_arith_match {op : BinaryOp} (hop : op ≠ eq ∧ op ≠ ne ∧ op ≠ concat)
    (hl : left.Match z left') (hr : right.Match z right') :
    Agree (Value.Match z) (op.apply left right) (op.apply left' right') := by
  by_cases hints : ∃ a b, left = .int a ∧ right = .int b
  · obtain ⟨a, b, rfl, rfl⟩ := hints
    cases hl
    cases hr
    rw [apply_int]
    exact onInts_match op a b
  · have hints' : ¬ ∃ a b, left' = .int a ∧ right' = .int b := by
      rintro ⟨a, b, rfl, rfl⟩
      cases hl
      cases hr
      exact hints ⟨a, b, rfl, rfl⟩
    have htypes : left'.typeName = left.typeName ∧ right'.typeName = right.typeName :=
      ⟨by cases hl <;> rfl, by cases hr <;> rfl⟩
    rw [apply_of_not_int hop fun a b h => hints ⟨a, b, h⟩,
      apply_of_not_int hop fun a b h => hints' ⟨a, b, h⟩, htypes.1, htypes.2]
    exact .error _

theorem apply_match (op : BinaryOp) (hl : left.Match z left') (hr : right.Match z right')
    (hs : op = concat → z.CanShow left ∧ z.CanShow right) :
    Agree (Value.Match z) (op.apply left right) (op.apply left' right') := by
  by_cases hc : op = concat
  · subst hc
    exact joined_match hl hr (hs rfl).1 (hs rfl).2
  by_cases he : op = eq
  · subst he
    simp only [apply, hl.same hr]
    exact .ok (.bool _)
  by_cases hn : op = ne
  · subst hn
    simp only [apply, hl.same hr]
    exact .ok (.bool _)
  exact apply_arith_match ⟨he, hn, hc⟩ hl hr

end BinaryOp

/-! ### Stacks -/

def OperandStack.Match (z : Rerun) (s s' : OperandStack) : Prop :=
  List.Forall₂ (Value.Match z) s.values s'.values

namespace OperandStack.Match

variable {s s' : OperandStack} {v v' : Value}

theorem size (h : s.Match z s') : s'.size = s.size := by
  rw [← s.length_eq, ← s'.length_eq]
  exact (List.Forall₂.length_eq h).symm

theorem add (h : s.Match z s') (hv : v.Match z v') : (s.add v).Match z (s'.add v') := .cons hv h

theorem push (h : s.Match z s') (hv : v.Match z v') :
    Agree (OperandStack.Match z) (s.push v) (s'.push v') := by
  unfold OperandStack.push
  rw [h.size]
  split
  · exact .error _
  · exact .ok (h.add hv)

theorem pop (h : s.Match z s') :
    Agree (fun p p' => p.1.Match z p'.1 ∧ p.2.Match z p'.2) s.pop s'.pop := by
  obtain ⟨values, n, hn⟩ := s
  obtain ⟨values', n', hn'⟩ := s'
  cases h with
  | nil => exact .error _
  | cons hv h => exact .ok ⟨hv, h⟩

theorem popMany (h : s.Match z s') (n : Nat) :
    Agree (fun p p' => List.Forall₂ (Value.Match z) p.1 p'.1 ∧ p.2.Match z p'.2) (s.popMany n)
      (s'.popMany n) := by
  have hsize := h.size
  unfold OperandStack.popMany
  by_cases hn : s.size < n
  · rw [if_pos hn, if_pos (by omega)]
    exact .error _
  · rw [if_neg hn, if_neg (by omega)]
    exact .ok ⟨List.rel_reverse (List.forall₂_take n h), List.forall₂_drop n h⟩

theorem popText (h : s.Match z s') :
    Agree (fun p p' => p'.1 = p.1 ∧ p.2.Match z p'.2) s.popText s'.popText := by
  refine h.pop.bind ?_
  rintro ⟨v, s⟩ ⟨v', s'⟩ ⟨hv, hs⟩
  cases hv with
  | text x => exact .ok ⟨rfl, hs⟩
  | _ => exact .error _

theorem popInt (h : s.Match z s') :
    Agree (fun p p' => p'.1 = p.1 ∧ p.2.Match z p'.2) s.popInt s'.popInt := by
  refine h.pop.bind ?_
  rintro ⟨v, s⟩ ⟨v', s'⟩ ⟨hv, hs⟩
  cases hv with
  | int n => exact .ok ⟨rfl, hs⟩
  | _ => exact .error _

theorem popBool (h : s.Match z s') :
    Agree (fun p p' => p'.1 = p.1 ∧ p.2.Match z p'.2) s.popBool s'.popBool := by
  refine h.pop.bind ?_
  rintro ⟨v, s⟩ ⟨v', s'⟩ ⟨hv, hs⟩
  cases hv with
  | bool b => exact .ok ⟨rfl, hs⟩
  | _ => exact .error _

theorem popObject (h : s.Match z s') :
    Agree (fun p p' => (∃ i, p.1.1 = z.objects + i + 1 ∧ p'.1.1 = z.objects' + i + 1) ∧
      p'.1.2 = p.1.2 ∧ p.2.Match z p'.2) s.popObject s'.popObject := by
  refine h.pop.bind ?_
  rintro ⟨v, s⟩ ⟨v', s'⟩ ⟨hv, hs⟩
  cases hv with
  | object i c => exact .ok ⟨⟨i, rfl, rfl⟩, rfl, hs⟩
  | _ => exact .error _

end OperandStack.Match

/-! ### Heaps -/

structure Heap.Match (z : Rerun) (h h' : Heap) : Prop where
  objects : ∃ n, h.objects.size = z.objects + n ∧ h'.objects.size = z.objects' + n
  exceptions : ∃ n, h.exceptions = z.exceptions + n ∧ h'.exceptions = z.exceptions' + n
  get : ∀ i field, (h.get (z.objects + i + 1) field).Match z (h'.get (z.objects' + i + 1) field)

namespace Heap

theorem get_newObject (h : Heap) (c : String) (id : Nat) (field : String) :
    (h.newObject c).2.get id field = h.get id field := by
  unfold get newObject
  dsimp only
  rw [Array.getElem?_push]
  split
  · next hid =>
    have hnone : h.objects[id - 1]? = none := Array.getElem?_eq_none (by omega)
    rw [hnone]
    rfl
  · rfl

theorem get_of_size_le {h : Heap} {id : Nat} (hid : h.objects.size ≤ id - 1) (field : String) :
    h.get id field = .null := by
  unfold get
  rw [Array.getElem?_eq_none hid]
  rfl

theorem set_of_le {h : Heap} {id : Nat} (hid : h.objects.size ≤ id - 1) (field : String)
    (v : Value) : h.set id field v = h := by
  unfold set
  have hmodify : h.objects.modify (id - 1) (setField field v) = h.objects := by
    apply Array.ext_getElem?
    intro k
    rw [Array.getElem?_modify]
    split
    · next hk =>
      rw [Array.getElem?_eq_none (by omega)]
      rfl
    · rfl
  rw [hmodify]

namespace Match

variable {h h' : Heap}

theorem newObject (hh : h.Match z h') (c : String) :
    (h.newObject c).1.Match z (h'.newObject c).1 ∧ (h.newObject c).2.Match z (h'.newObject c).2 := by
  obtain ⟨n, hn, hn'⟩ := hh.objects
  refine ⟨?_, ⟨n + 1, ?_, ?_⟩, hh.exceptions, fun i field => ?_⟩
  · simp only [Heap.newObject, Array.size_push, hn, hn']
    exact .object n c
  · simp only [Heap.newObject, Array.size_push, hn]
    omega
  · simp only [Heap.newObject, Array.size_push, hn']
    omega
  · rw [get_newObject, get_newObject]
    exact hh.get i field

theorem newException (hh : h.Match z h') (e : Exception) :
    (h.newException e).1.Match z (h'.newException e).1 ∧
      (h.newException e).2.Match z (h'.newException e).2 := by
  obtain ⟨n, hn, hn'⟩ := hh.exceptions
  refine ⟨?_, hh.objects, ⟨n + 1, ?_, ?_⟩, hh.get⟩
  · simp only [Heap.newException, hn, hn']
    exact .exception n e
  · simp only [Heap.newException, hn]
    omega
  · simp only [Heap.newException, hn']
    omega

theorem set (hh : h.Match z h') (i : Nat) (field : String) {v v' : Value} (hv : v.Match z v') :
    (h.set (z.objects + i + 1) field v).Match z (h'.set (z.objects' + i + 1) field v') := by
  obtain ⟨n, hn, hn'⟩ := hh.objects
  by_cases hi : i < n
  · have hid : z.objects + i + 1 - 1 < h.objects.size := by omega
    have hid' : z.objects' + i + 1 - 1 < h'.objects.size := by omega
    refine ⟨⟨n, ?_, ?_⟩, hh.exceptions, fun j name => ?_⟩
    · simpa [Heap.set] using hn
    · simpa [Heap.set] using hn'
    · rw [get_set hid, get_set hid']
      have hsame : (z.objects' + j + 1 - 1 = z.objects' + i + 1 - 1) ↔
          (z.objects + j + 1 - 1 = z.objects + i + 1 - 1) := by omega
      rw [if_congr (and_congr_left' hsame) rfl rfl]
      split
      · exact hv
      · exact hh.get j name
  · rw [set_of_le (by omega), set_of_le (by omega)]
    exact hh

end Match

end Heap

end Confine
