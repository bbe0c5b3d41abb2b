import Confine.Machine.Frame
import Confine.Proofs.Tracing.Woven

/-!
# Places in woven code

Code with hooks runs like the code without them, at other places.

* `LinkedMethod.Alignment m m'` — which places of `m'` have extra hooks, and which place of `m` each place of `m'`
  stands for; labels and handlers of the two methods are at places that stand for each other;
* `LinkedMethod.Alignment.ofWeaves` — verified methods, one woven from the other, are aligned;
* `Frame.Shadow f f'` — `f'` holds what `f` holds, and is at a place that stands for the place of `f`.
-/

namespace Confine

/-! ### Counting past hooks -/

def hookAt (code : List Instruction) (k : Nat) : Bool := code[k]?.any Instruction.isHook

/-- How many of the first `k` instructions are no hooks. Behind the code all places count. -/
def keptBefore : List Instruction → Nat → Nat
  | _, 0 => 0
  | [], k + 1 => k + 1
  | i :: rest, k + 1 => keptBefore rest k + if i.isHook then 0 else 1

theorem keptBefore_nil (k : Nat) : keptBefore [] k = k := by cases k <;> rfl

theorem keptBefore_zero (code : List Instruction) : keptBefore code 0 = 0 := by
  cases code <;> rfl

theorem keptBefore_succ (code : List Instruction) (k : Nat) :
    keptBefore code (k + 1) = keptBefore code k + if hookAt code k then 0 else 1 := by
  induction code generalizing k with
  | nil =>
    rw [keptBefore_nil, keptBefore_nil]
    rfl
  | cons i rest ih =>
    cases k with
    | zero =>
      show keptBefore rest 0 + _ = keptBefore (i :: rest) 0 + _
      rw [keptBefore_zero, keptBefore_zero]
      rfl
    | succ k =>
      rw [keptBefore, ih, keptBefore, Nat.add_right_comm]
      rfl

theorem getElem?_keptBefore {code : List Instruction} {k : Nat} (h : hookAt code k = false) :
    (withoutHooks code)[keptBefore code k]? = code[k]? := by
  induction code generalizing k with
  | nil =>
    rw [keptBefore_nil]
    rfl
  | cons i rest ih =>
    cases k with
    | zero =>
      have hi : i.isHook = false := h
      rw [keptBefore_zero, withoutHooks, List.filter_cons_of_pos (by simp [hi])]
      rfl
    | succ k =>
      have hrest := ih (k := k) h
      cases hi : i.isHook with
      | true =>
        rw [keptBefore, hi, withoutHooks, List.filter_cons_of_neg (by simp [hi])]
        exact hrest
      | false =>
        rw [keptBefore, hi, withoutHooks, List.filter_cons_of_pos (by simp [hi])]
        exact hrest

/-! ### Aligned methods -/

namespace LinkedMethod

/-- **One method is another with more hooks.** -/
structure Alignment (m m' : LinkedMethod) where
  /-- a hook of `m'` that `m` does not have stands at the place -/
  extra : Nat → Bool
  /-- the place of `m` that a place of `m'` stands for -/
  back : Nat → Nat
  back_zero : back 0 = 0
  back_succ : ∀ k, back (k + 1) = back k + if extra k then 0 else 1
  hook_of_extra : ∀ k, extra k = true →
    ∃ tracer name operands, m'.code[k]? = some (.hook tracer name operands)
  fetch : ∀ k, extra k = false → m.code[back k]? = m'.code[k]?
  place? : ∀ l, m.place? l = (m'.place? l).map back
  handlers : List.Forall₂ (fun h h' => back h'.start = h.start ∧ back h'.stop = h.stop ∧
    back h'.target = h.target ∧ h'.kind = h.kind) m.handlers m'.handlers
  method : m'.method = { m.method with code := m'.method.code }

namespace Alignment

/-- A method is aligned with itself. -/
def refl (m : LinkedMethod) : Alignment m m where
  extra _ := false
  back k := k
  back_zero := rfl
  back_succ _ := rfl
  hook_of_extra _ h := by cases h
  fetch _ _ := rfl
  place? l := by simp
  handlers := List.forall₂_same.2 fun _ _ => ⟨rfl, rfl, rfl, rfl⟩
  method := rfl

variable {m m' : LinkedMethod} (A : Alignment m m')

theorem back_le {j k : Nat} (h : j ≤ k) : A.back j ≤ A.back k := by
  induction h with
  | refl => exact Nat.le_refl _
  | step _ ih => exact Nat.le_trans ih (A.back_succ _ ▸ Nat.le_add_right _ _)

theorem back_lt {j k : Nat} (h : j < k) (hj : A.extra j = false) : A.back j < A.back k := by
  have hsucc : A.back (j + 1) = A.back j + 1 := by rw [A.back_succ, hj]; rfl
  have hle : A.back (j + 1) ≤ A.back k := A.back_le h
  omega

/-- A place that is not extra is in a range exactly if the place that it stands for is. -/
theorem le_iff {j k : Nat} (hk : A.extra k = false) : j ≤ k ↔ A.back j ≤ A.back k := by
  refine ⟨A.back_le, fun h => ?_⟩
  by_contra hlt
  have := A.back_lt (Nat.lt_of_not_le hlt) hk
  omega

/-- Exceptions find the handlers that stand for each other. -/
theorem handler?_rel {k : Nat} (hk : A.extra k = false) (kind : String) :
    Option.Rel (fun h h' => A.back h'.target = h.target) (m.handler? (A.back k) kind)
      (m'.handler? k kind) := by
  have hs := A.handlers
  unfold handler?
  generalize m.handlers = l at hs
  generalize m'.handlers = l' at hs
  induction hs with
  | nil => exact .none
  | @cons h h' hs hs' hh _ ih =>
    obtain ⟨hstart, hstop, htarget, hkind⟩ := hh
    have hle : h.start ≤ A.back k ↔ h'.start ≤ k := by rw [A.le_iff hk, hstart]
    have hlt : A.back k < h.stop ↔ k < h'.stop := by
      rw [← Nat.not_le, ← Nat.not_le, A.le_iff hk, hstop]
    rw [List.find?_cons, List.find?_cons]
    simp only [hkind, hle, hlt]
    split
    · exact .some htarget
    · exact ih

/-- A verified method is aligned with what is woven from it. -/
def ofWeaves {m m' : Method} (hm : Verifier.Verified .submitted m) (hw : m.Weaves m') :
    Alignment (ofMethod m) (ofMethod m') :=
  have plain : withoutHooks m'.code = m.code := by
    rw [hw.code]
    exact List.filter_eq_self.2 fun i hi => by simp [hm.not_isHook hi]
  have fetch : ∀ k, hookAt m'.code k = false → m.code[keptBefore m'.code k]? = m'.code[k]? :=
    fun k hk => plain ▸ getElem?_keptBefore hk
  have nodup' : m'.labels.Nodup := hw.labels ▸ hm.nodup
  have place : ∀ l, (ofMethod m).place? l = ((ofMethod m').place? l).map (keptBefore m'.code) := by
    intro l
    cases hl : (ofMethod m').place? l with
    | some n =>
      have hn := (place?_ofMethod nodup').1 hl
      refine (place?_ofMethod hm.nodup).2 ?_
      rw [fetch n (by simp [hookAt, hn, Instruction.isHook]), hn]
    | none =>
      cases hl' : (ofMethod m).place? l with
      | none => rfl
      | some n =>
        have hmem : l ∈ m'.labels :=
          hw.labels ▸ mem_labels_iff.2 ⟨n, (place?_ofMethod hm.nodup).1 hl'⟩
        obtain ⟨k, hk⟩ := mem_labels_iff.1 hmem
        rw [(place?_ofMethod nodup').2 hk] at hl
        cases hl
  { extra := hookAt m'.code
    back := keptBefore m'.code
    back_zero := keptBefore_zero _
    back_succ := keptBefore_succ _
    hook_of_extra := fun k hk => by
      obtain ⟨i, hi, hh⟩ := (Option.any_eq_true _ _).1 hk
      cases i <;> simp [Instruction.isHook] at hh
      exact ⟨_, _, _, by simpa [ofMethod] using hi⟩
    fetch := fun k hk => by simpa [ofMethod] using fetch k hk
    place? := place
    handlers := by
      -- a label that stands nowhere counts as the start, for both
      have start : ∀ l, keptBefore m'.code (((ofMethod m').place? l).getD 0) =
          ((ofMethod m).place? l).getD 0 := by
        intro l
        rw [place]
        cases (ofMethod m').place? l with
        | none => exact keptBefore_zero _
        | some n => rfl
      simp only [ofMethod, hw.handlers]
      exact List.forall₂_map_left_iff.2 (List.forall₂_map_right_iff.2
        (List.forall₂_same.2 fun h _ => ⟨start _, start _, start _, rfl⟩))
    method := hw.same }

end Alignment

end LinkedMethod

/-! ### Frames of aligned methods -/

namespace Frame

/-- Two frames hold the same values. -/
structure SameValues (f f' : Frame) : Prop where
  className : f'.className = f.className
  locals : f'.locals = f.locals
  stack : f'.stack = f.stack

/-- **One frame shadows another.** It holds the same, at a place that stands for that of the other;
there may be hooks in front of it. -/
structure Shadow (f f' : Frame) : Prop extends SameValues f f' where
  place : ∃ A : f.method.Alignment f'.method, f.next = A.back f'.next

/-- Both frames are right behind an instruction that they share. -/
structure Behind (f f' : Frame) : Prop extends SameValues f f' where
  place : ∃ (A : f.method.Alignment f'.method) (k : Nat), A.extra k = false ∧
    f'.next = k + 1 ∧ f.next = A.back k + 1

variable {f f' : Frame}

theorem SameValues.withStack (h : f.SameValues f') (s : OperandStack) :
    (f.withStack s).SameValues (f'.withStack s) := ⟨h.className, h.locals, rfl⟩

namespace Behind

theorem shadow (h : f.Behind f') : f.Shadow f' := by
  obtain ⟨A, k, hk, hn', hn⟩ := h.place
  refine ⟨h.toSameValues, A, ?_⟩
  rw [hn, hn', A.back_succ, hk]
  rfl

theorem withStack (h : f.Behind f') (s : OperandStack) :
    (f.withStack s).Behind (f'.withStack s) := ⟨h.toSameValues.withStack s, h.place⟩

theorem load (h : f.Behind f') (i : UInt16) : f'.load i = f.load i := by
  rw [Frame.load, Frame.load, h.locals]

/-- The same handler takes an exception, and control goes to the same place. -/
theorem handler?_rel (h : f.Behind f') (kind : String) :
    Option.Rel (fun r r' => ∀ v, (f.enter r v).Shadow (f'.enter r' v)) (f.handler? kind)
      (f'.handler? kind) := by
  obtain ⟨A, k, hk, hn', hn⟩ := h.place
  have hrel := A.handler?_rel hk kind
  have hp : f.place = A.back k := by simp [Frame.place, hn]
  have hp' : f'.place = k := by simp [Frame.place, hn']
  rw [← hp, ← hp'] at hrel
  show Option.Rel _ (f.method.handler? f.place kind) (f'.method.handler? f'.place kind)
  generalize f.method.handler? f.place kind = o at hrel ⊢
  generalize f'.method.handler? f'.place kind = o' at hrel ⊢
  cases hrel with
  | none => exact .none
  | some ht => exact .some fun v => ⟨⟨h.className, h.locals, rfl⟩, A, ht.symm⟩

end Behind

end Frame

end Confine
