import Confine.Program.Verifier
import Confine.Loading.Linked
import Mathlib.Data.List.Nodup

/-!
# What the verifier promises

* `Verifier.checkMethod_eq_ok_iff`, `Verifier.check_eq_ok_iff` — the checks pass exactly if the locals hold the
  parameters, no label is defined twice, every label that is named is defined, the frames stand right, and the
  operands are in range (`Verifier.Verified`);
* `Verifier.checkFrames_eq_ok_iff` — the check of frames, without the index that only its fault reports;
* `LinkedMethod.place?_ofMethod` — in a method without repeated labels, the place of a label is the place where it
  stands in the code;
* `Verifier.Verified.exists_place` — so each label that a verified method names stands in one place, which is the
  place that jumps and handlers go to.
-/

namespace Confine

namespace Verifier

/-! ### Each check for itself -/

theorem firstRepeated?_eq_none_iff {seen l : List Label} :
    firstRepeated? seen l = none ↔ l.Nodup ∧ ∀ x ∈ l, x ∉ seen := by
  induction l generalizing seen with
  | nil => simp [firstRepeated?]
  | cons a l ih =>
    unfold firstRepeated?
    by_cases ha : a ∈ seen
    · simp [ha]
    · simp only [List.contains_eq_mem, ha, decide_false, Bool.false_eq_true, if_false, ih,
        List.nodup_cons, List.mem_cons, not_or]
      constructor
      · rintro ⟨hl, hs⟩
        refine ⟨⟨fun hal => (hs a hal).1 rfl, hl⟩, fun x hx => ?_⟩
        rcases hx with rfl | hx
        · exact ha
        · exact (hs x hx).2
      · rintro ⟨⟨hal, hl⟩, hs⟩
        exact ⟨hl, fun x hx => ⟨fun h => hal (h ▸ hx), hs x (.inr hx)⟩⟩

theorem checkAll_eq_ok_iff {α ε : Type} {check : α → Except ε Unit} {l : List α} :
    checkAll check l = .ok () ↔ ∀ a ∈ l, check a = .ok () := by
  induction l with
  | nil => simp [checkAll]
  | cons a l ih =>
    unfold checkAll
    cases h : check a <;> simp [h, ih]

theorem checkSlots_eq_ok_iff {maxLocals : UInt16} {slots : List UInt16} :
    checkSlots maxLocals slots = .ok () ↔ ∀ i ∈ slots, i.toNat < maxLocals.toNat := by
  unfold checkSlots
  cases h : slots.find? (maxLocals ≤ ·) with
  | some i =>
    have hi := List.find?_some h
    have hm := List.mem_of_find?_eq_some h
    simp only [decide_eq_true_eq, UInt16.le_iff_toNat_le] at hi
    simp only [reduceCtorEq, false_iff, not_forall]
    exact ⟨i, hm, by omega⟩
  | none =>
    simp only [List.find?_eq_none, decide_eq_true_eq, UInt16.le_iff_toNat_le] at h
    simp only [true_iff]
    exact fun i hi => Nat.lt_of_not_le (h i hi)

theorem checkLocals_eq_ok_iff {m : Method} :
    checkLocals m = .ok () ↔ m.requiredSlots ≤ m.maxLocals.toNat := by
  unfold checkLocals
  split
  · next h => simp [Nat.not_le.2 h]
  · next h => simpa using h

theorem checkLabels_eq_ok_iff {m : Method} :
    checkLabels m = .ok () ↔ m.labels.Nodup ∧ ∀ l ∈ referenced m, l ∈ m.labels := by
  unfold checkLabels
  cases h : firstRepeated? [] m.labels with
  | some l =>
    have hn : ¬ m.labels.Nodup := fun hn => by
      rw [firstRepeated?_eq_none_iff.2 ⟨hn, fun _ _ => List.not_mem_nil⟩] at h
      cases h
    simp [hn]
  | none =>
    have hn : m.labels.Nodup := (firstRepeated?_eq_none_iff.1 h).1
    cases hf : (referenced m).find? (!m.labels.contains ·) with
    | some l =>
      have hl := List.find?_some hf
      have hm := List.mem_of_find?_eq_some hf
      simp only [List.contains_eq_mem, Bool.not_eq_true', decide_eq_false_iff_not] at hl
      simp only [hf, reduceCtorEq, hn, true_and, false_iff, not_forall]
      exact ⟨l, hm, hl⟩
    | none =>
      simp only [hf, hn, true_and, true_iff]
      simpa using hf

/-! ### Frames that stand right -/

/-- Every pending target has its frame. -/
def Settled (targets : List Label) (pending : List Pending) : Prop :=
  ∀ p ∈ pending, p.framed = false → p.label ∉ targets

/-- The frames of code stand right behind `pending` labels. -/
def FramesOk (targets : List Label) (pending : List Pending) : List Instruction → Prop
  | [] => Settled targets pending
  | .label l :: rest => FramesOk targets (⟨l, false⟩ :: pending) rest
  | .lineNumber _ _ :: rest => FramesOk targets pending rest
  | .frame _ :: rest =>
    pending ≠ [] ∧ FramesOk targets (pending.map fun p => { p with framed := true }) rest
  | _ :: rest => Settled targets pending ∧ FramesOk targets [] rest

section Frames

variable {targets : List Label} {pending : List Pending}

theorem Settled.subset {pending' : List Pending} (h : Settled targets pending)
    (hs : pending' ⊆ pending) : Settled targets pending' := fun p hp => h p (hs hp)

theorem settled_framed (targets : List Label) (pending : List Pending) :
    Settled targets (pending.map fun p => { p with framed := true }) := by
  intro p hp hf
  obtain ⟨q, -, rfl⟩ := List.mem_map.1 hp
  cases hf

theorem settled_nil : Settled targets [] := fun _ hp => absurd hp List.not_mem_nil

theorem checkFramed_eq_ok_iff :
    checkFramed targets pending = .ok () ↔ Settled targets pending := by
  have hnone : unframed? targets pending = none ↔ Settled targets pending := by
    have hl : ∀ l, least? l = none ↔ l = [] := fun l => by cases l <;> simp [least?]
    rw [unframed?, hl, List.map_eq_nil_iff, List.filter_eq_nil_iff]
    refine forall₂_congr fun p _ => ?_
    cases p.framed <;> simp
  rw [← hnone]
  unfold checkFramed
  split <;> simp_all

theorem checkFrames_eq_ok_iff {index : Nat} {code : List Instruction} :
    checkFrames targets pending index code = .ok () ↔ FramesOk targets pending code := by
  induction code generalizing pending index with
  | nil => exact checkFramed_eq_ok_iff
  | cons i rest ih =>
    cases i with
    | label l => exact ih
    | lineNumber n l => exact ih
    | frame n =>
      unfold checkFrames FramesOk
      cases pending with
      | nil => simp
      | cons p pending => simpa using ih
    | _ =>
      simp only [checkFrames, FramesOk, ← checkFramed_eq_ok_iff]
      cases checkFramed targets pending with
      | error fault => simp
      | ok u => simpa using ih

end Frames

/-! ### Methods and classes -/

/-- **The rules for a method.** -/
structure Verified (mode : Mode) (m : Method) : Prop where
  locals : m.requiredSlots ≤ m.maxLocals.toNat
  nodup : m.labels.Nodup
  defined : ∀ l ∈ referenced m, l ∈ m.labels
  frames : checkFrames (targets m) [] 0 m.code = .ok ()
  operands : ∀ i ∈ m.code, checkOperands mode m.maxLocals i = .ok ()

theorem checkMethod_eq_ok_iff {mode : Mode} {m : Method} :
    checkMethod mode m = .ok () ↔ Verified mode m := by
  have seq : ∀ {x y : Except MethodFault Unit},
      (x >>= fun _ => y) = .ok () ↔ x = .ok () ∧ y = .ok () := by
    intro x y
    cases x <;> simp [bind, Except.bind]
  unfold checkMethod
  rw [seq, seq, seq, checkLocals_eq_ok_iff, checkLabels_eq_ok_iff, checkAll_eq_ok_iff]
  exact ⟨fun ⟨h1, ⟨h2, h3⟩, h4, h5⟩ => ⟨h1, h2, h3, h4, h5⟩,
    fun h => ⟨h.locals, ⟨h.nodup, h.defined⟩, h.frames, h.operands⟩⟩

theorem checkMethods_eq_ok_iff {mode : Mode} {className : String} {seen : List String}
    {ms : List Method} :
    checkMethods mode className seen ms = .ok () ↔
      ((ms.map (·.name)).Nodup ∧ ∀ m ∈ ms, m.name ∉ seen) ∧ ∀ m ∈ ms, Verified mode m := by
  induction ms generalizing seen with
  | nil => simp [checkMethods]
  | cons m ms ih =>
    unfold checkMethods
    by_cases hs : m.name ∈ seen
    · simp [hs]
    · simp only [List.contains_eq_mem, hs, decide_false, Bool.false_eq_true, if_false]
      cases hm : checkMethod mode m with
      | error e =>
        have hv : ¬ Verified mode m := fun hv => by simp [checkMethod_eq_ok_iff.2 hv] at hm
        simp [hv]
      | ok u =>
        have hv : Verified mode m := checkMethod_eq_ok_iff.1 hm
        simp only [ih, List.map_cons, List.nodup_cons, List.mem_map, List.mem_cons,
          forall_eq_or_imp, hs, hv, not_or, not_false_eq_true, true_and, not_exists, not_and]
        constructor
        · rintro ⟨⟨hn, hms⟩, hvs⟩
          exact ⟨⟨⟨fun x hx => (hms x hx).1, hn⟩, fun x hx => (hms x hx).2⟩, hvs⟩
        · rintro ⟨⟨⟨hx, hn⟩, hms⟩, hvs⟩
          exact ⟨⟨hn, fun x hx' => ⟨hx x hx', hms x hx'⟩⟩, hvs⟩

theorem check_eq_ok_iff {mode : Mode} {c : ClassFile} :
    check mode c = .ok () ↔ (c.methods.map (·.name)).Nodup ∧ ∀ m ∈ c.methods, Verified mode m := by
  unfold check
  rw [checkMethods_eq_ok_iff]
  simp

end Verifier

/-! ### The places of labels -/

theorem label?_eq_some_iff {i : Instruction} {l : Label} :
    i.label? = some l ↔ i = .label l := by
  cases i <;> simp [Instruction.label?]

theorem mem_labels_iff {code : List Instruction} {l : Label} :
    l ∈ code.filterMap Instruction.label? ↔ ∃ n : Nat, code[n]? = some (Instruction.label l) := by
  rw [List.mem_filterMap]
  constructor
  · rintro ⟨i, hi, hl⟩
    obtain ⟨n, hn⟩ := List.getElem?_of_mem hi
    exact ⟨n, label?_eq_some_iff.1 hl ▸ hn⟩
  · rintro ⟨n, hn⟩
    exact ⟨_, List.mem_of_getElem? hn, label?_eq_some_iff.2 rfl⟩

namespace LinkedMethod

theorem placesFrom_cons (found : List (Label × Nat)) (place : Nat) (i : Instruction)
    (rest : List Instruction) : placesFrom found place (i :: rest) =
      placesFrom ((i.label?.map fun l => (l, place)).toList ++ found) (place + 1) rest := by
  cases i <;> rfl

theorem lookup_placesFrom_of_notMem {l : Label} {code : List Instruction}
    (h : l ∉ code.filterMap Instruction.label?) (found : List (Label × Nat)) (place : Nat) :
    (placesFrom found place code).lookup l = found.lookup l := by
  induction code generalizing found place with
  | nil => rfl
  | cons i rest ih =>
    rw [placesFrom_cons]
    cases hi : i.label? with
    | none =>
      rw [List.filterMap_cons_none hi] at h
      exact ih h _ _
    | some l' =>
      rw [List.filterMap_cons_some hi, List.mem_cons, not_or] at h
      rw [ih h.2]
      simp [List.lookup_cons, beq_eq_false_iff_ne.2 h.1]

theorem lookup_placesFrom {l : Label} {code : List Instruction} {n : Nat}
    (hn : (code.filterMap Instruction.label?).Nodup) (hl : code[n]? = some (.label l))
    (found : List (Label × Nat)) (place : Nat) :
    (placesFrom found place code).lookup l = some (place + n) := by
  induction code generalizing found place n with
  | nil => simp at hl
  | cons i rest ih =>
    rw [placesFrom_cons]
    cases n with
    | zero =>
      simp only [List.getElem?_cons_zero, Option.some.injEq] at hl
      subst hl
      rw [List.filterMap_cons_some (label?_eq_some_iff.2 rfl), List.nodup_cons] at hn
      rw [lookup_placesFrom_of_notMem hn.1]
      simp [Instruction.label?]
    | succ n =>
      rw [List.getElem?_cons_succ] at hl
      have hrest : (rest.filterMap Instruction.label?).Nodup := by
        cases hi : i.label? with
        | none => rwa [List.filterMap_cons_none hi] at hn
        | some l' =>
          rw [List.filterMap_cons_some hi, List.nodup_cons] at hn
          exact hn.2
      rw [ih hrest hl, Nat.add_assoc, Nat.add_comm 1]

/-- **The place of a label** in a method without repeated labels is where it stands. -/
theorem place?_ofMethod {m : Method} (h : m.labels.Nodup) {l : Label} {n : Nat} :
    (ofMethod m).place? l = some n ↔ m.code[n]? = some (.label l) := by
  have stands : ∀ k, m.code[k]? = some (.label l) → (ofMethod m).place? l = some k := by
    intro k hk
    have := lookup_placesFrom h hk [] 0
    rwa [Nat.zero_add] at this
  refine ⟨fun hn => ?_, stands n⟩
  by_cases hl : l ∈ m.labels
  · obtain ⟨k, hk⟩ := mem_labels_iff.1 hl
    rw [stands k hk, Option.some.injEq] at hn
    exact hn ▸ hk
  · have hnone : (ofMethod m).place? l = none := lookup_placesFrom_of_notMem hl [] 0
    rw [hnone] at hn
    cases hn

end LinkedMethod

namespace Verifier

variable {mode : Mode} {m : Method}

theorem jumpTarget_mem_referenced {i : Instruction} {l : Label} (hi : i ∈ m.code)
    (hl : i.jumpTarget? = some l) : l ∈ referenced m := by
  refine List.mem_append_left _ (List.mem_flatMap.2 ⟨i, hi, ?_⟩)
  cases i <;> simp_all [Instruction.jumpTarget?, mentions]

theorem handler_mem_referenced {e : Handler} (he : e ∈ m.handlers) {l : Label}
    (hl : l = e.start ∨ l = e.stop ∨ l = e.target) : l ∈ referenced m := by
  refine List.mem_append_right _ (List.mem_flatMap.2 ⟨e, he, ?_⟩)
  simpa using hl

namespace Verified

theorem exists_place (h : Verified mode m) {l : Label} (hl : l ∈ referenced m) :
    ∃ n, (LinkedMethod.ofMethod m).place? l = some n ∧ m.code[n]? = some (.label l) ∧
      ∀ k, m.code[k]? = some (.label l) → k = n := by
  obtain ⟨n, hn⟩ := mem_labels_iff.1 (h.defined l hl)
  have place := (LinkedMethod.place?_ofMethod h.nodup).2 hn
  refine ⟨n, place, hn, fun k hk => ?_⟩
  have := (LinkedMethod.place?_ofMethod h.nodup).2 hk
  rw [place, Option.some.injEq] at this
  exact this.symm

theorem slot_lt (h : Verified mode m) {i : Instruction} (hi : i ∈ m.code) {n : UInt16}
    (hn : i = .load n ∨ i = .store n ∨ ∃ tracer name operands, i = .hook tracer name operands ∧
      HookOperand.slot n ∈ operands) : n.toNat < m.maxLocals.toNat := by
  have hop := h.operands i hi
  rcases hn with rfl | rfl | ⟨tracer, name, operands, rfl, hn⟩
  · exact checkSlots_eq_ok_iff.1 hop n (by simp)
  · exact checkSlots_eq_ok_iff.1 hop n (by simp)
  · simp only [checkOperands] at hop
    split at hop
    · cases hop
    · exact checkSlots_eq_ok_iff.1 hop n (List.mem_filterMap.2 ⟨_, hn, rfl⟩)

end Verified

end Verifier

end Confine
