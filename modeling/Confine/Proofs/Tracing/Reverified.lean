import Confine.Proofs.Loading.Built
import Confine.Proofs.Tracing.Woven
import Mathlib.Data.List.Infix

/-!
# When traced classes pass the checks again

A class that was accepted as it was handed in is checked again with its hooks.  Hooks are real instructions, and
the line trace puts the hook of a label behind the first frame that follows; so a second frame behind the first,
without a label in between, then follows no label any more.

* `Verifier.framesOk_hooks` — frames stand right behind hooks if every target in front of them has its frame;
* `LineTrace.Hooked.framesOk_iff` — code with the hooks of its lines passes it exactly if no traced label is
  framed twice (`reframed`);
* `reverified_iff` — the same for classes and for units, for all rosters of the two tracers.
-/

namespace Confine

namespace Verifier

/-! ### Hooks are real -/

variable {targets : List Label} {pending : List Pending}

theorem framesOk_hook {i : Instruction} (hi : i.isHook = true) {rest : List Instruction} :
    FramesOk targets pending (i :: rest) ↔ Settled targets pending ∧ FramesOk targets [] rest := by
  cases i <;> simp [Instruction.isHook] at hi
  rfl

theorem framesOk_hooks {hooks : List Instruction} (hh : ∀ i ∈ hooks, i.isHook = true)
    (hne : hooks ≠ []) {rest : List Instruction} :
    FramesOk targets pending (hooks ++ rest) ↔
      Settled targets pending ∧ FramesOk targets [] rest := by
  induction hooks generalizing pending with
  | nil => exact absurd rfl hne
  | cons i hooks ih =>
    rw [List.cons_append, framesOk_hook (hh i (by simp))]
    refine and_congr_right fun _ => ?_
    cases hooks with
    | nil => rfl
    | cons j hooks =>
      rw [ih (fun k hk => hh k (by simp [hk])) (by simp)]
      exact and_iff_right settled_nil

end Verifier

namespace LineTrace

open Verifier

/-! ### Labels that are framed twice -/

/-- A frame comes next, but for line numbers. -/
def frameNext : List Instruction → Bool
  | .lineNumber _ _ :: rest => frameNext rest
  | .frame _ :: _ => true
  | _ => false

/-- The first frame that follows before the next real instruction is itself followed by a frame,
without a label in between. -/
def reframed : List Instruction → Bool
  | .label _ :: rest | .lineNumber _ _ :: rest => reframed rest
  | .frame _ :: rest => frameNext rest
  | _ => false

attribute [local simp] frameNext reframed

theorem frameFollows_of_frameNext {code : List Instruction} (h : frameNext code = true) :
    frameFollows code = true := by
  induction code with
  | nil => cases h
  | cons i rest ih =>
    cases i with
    | lineNumber n l => exact ih h
    | frame n => rfl
    | _ => cases h

theorem frameFollows_of_reframed {code : List Instruction} (h : reframed code = true) :
    frameFollows code = true := by
  induction code with
  | nil => cases h
  | cons i rest ih =>
    cases i with
    | label l => exact ih h
    | lineNumber n l => exact ih h
    | frame n => rfl
    | _ => cases h

/-- Some label of the code that has a hook is framed twice. -/
def HooksReframed (hook? : Label → Option Instruction) (code : List Instruction) : Prop :=
  ∃ l rest, .label l :: rest <:+ code ∧ (hook? l).isSome = true ∧ reframed rest = true

variable {hook? : Label → Option Instruction}

theorem hooksReframed_cons {i : Instruction} {rest : List Instruction} :
    HooksReframed hook? (i :: rest) ↔
      (∃ l, i = .label l ∧ (hook? l).isSome = true ∧ reframed rest = true) ∨
        HooksReframed hook? rest := by
  simp only [HooksReframed, List.suffix_cons_iff, List.cons.injEq]
  constructor
  · rintro ⟨l, r, ⟨rfl, rfl⟩ | hs, hl, hr⟩
    · exact .inl ⟨l, rfl, hl, hr⟩
    · exact .inr ⟨l, r, hs, hl, hr⟩
  · rintro (⟨l, rfl, hl, hr⟩ | ⟨l, r, hs, hl, hr⟩)
    · exact ⟨l, rest, .inl ⟨rfl, rfl⟩, hl, hr⟩
    · exact ⟨l, r, .inr hs, hl, hr⟩

theorem hooksReframed_cons_of_none {i : Instruction} (hi : ∀ l, i = .label l → hook? l = none)
    {rest : List Instruction} :
    HooksReframed hook? (i :: rest) ↔ HooksReframed hook? rest := by
  rw [hooksReframed_cons]
  refine or_iff_right ?_
  rintro ⟨l, rfl, hl, -⟩
  rw [hi l rfl] at hl
  cases hl

/-! ### Frames behind hooks -/

theorem settled_of_no_frame {targets : List Label} {pending : List Pending}
    {code : List Instruction} (h : FramesOk targets pending code)
    (hf : frameFollows code = false) : Settled targets pending := by
  induction code generalizing pending with
  | nil => exact h
  | cons i rest ih =>
    cases i with
    | label l => exact (ih h hf).subset (List.subset_cons_self _ _)
    | lineNumber n l => exact ih h hf
    | frame n => cases hf
    | _ => exact h.1

/-- No hook gets between two frames: none that was deferred, none that has taken away the pending labels,
of which `pending'` are left, and none of a label to come. -/
def Fits (hook? : Label → Option Instruction) (pending pending' : List Pending)
    (deferred code : List Instruction) : Prop :=
  ¬ (deferred ≠ [] ∧ reframed code = true) ∧
    ¬ (pending' = [] ∧ pending ≠ [] ∧ frameNext code = true) ∧ ¬ HooksReframed hook? code

section Fits

variable {pending pending' : List Pending} {deferred rest : List Instruction} {l : Label}

theorem fits_label_of_none (hl : hook? l = none) :
    Fits hook? (⟨l, false⟩ :: pending) (⟨l, false⟩ :: pending') deferred rest ↔
      Fits hook? pending pending' deferred (.label l :: rest) := by
  have hreframed : HooksReframed hook? (.label l :: rest) ↔ HooksReframed hook? rest := by
    refine hooksReframed_cons_of_none fun l' h => ?_
    rw [Instruction.label.injEq] at h
    exact h ▸ hl
  simp [Fits, hreframed]

/-- A hook that is deferred fits if the label is not framed twice. -/
theorem fits_label_of_some {k : Instruction} (hl : hook? l = some k) :
    Fits hook? (⟨l, false⟩ :: pending) (⟨l, false⟩ :: pending') (k :: deferred) rest ↔
      Fits hook? pending pending' deferred (.label l :: rest) := by
  simp [Fits, hooksReframed_cons, hl]
  tauto

/-- A hook that is not deferred fits, since no frame comes. -/
theorem fits_label_of_no_frame (hf : frameFollows rest = false) :
    Fits hook? (⟨l, false⟩ :: pending) [] [] rest ↔
      Fits hook? pending pending' [] (.label l :: rest) := by
  have hnr : ¬ reframed rest = true := fun h => by
    rw [frameFollows_of_reframed h] at hf
    cases hf
  have hnn : ¬ frameNext rest = true := fun h => by
    rw [frameFollows_of_frameNext h] at hf
    cases hf
  simp [Fits, hooksReframed_cons, hnr, hnn]

theorem fits_lineNumber (n : UInt32) :
    Fits hook? pending pending' deferred rest ↔
      Fits hook? pending pending' deferred (.lineNumber n l :: rest) := by
  simp [Fits, hooksReframed_cons]

theorem fits_frame (n : UInt16) {framed framed' : List Pending} (hp : pending' ≠ [])
    (hp' : framed' ≠ []) :
    Fits hook? framed framed' [] rest ↔ Fits hook? pending pending' [] (.frame n :: rest) := by
  simp [Fits, hooksReframed_cons, hp, hp']

/-- Hooks that were deferred to a frame fit if no other frame comes next. -/
theorem fits_frame_of_deferred (n : UInt16) {framed : List Pending} (hp : pending' ≠ [])
    (hf : framed ≠ []) (hd : deferred ≠ []) :
    Fits hook? framed [] [] rest ↔ Fits hook? pending pending' deferred (.frame n :: rest) := by
  simp [Fits, hooksReframed_cons, hp, hf, hd]

end Fits

/-- **Frames stand right behind hooks**, if they did before, exactly if no hook gets between two frames. -/
theorem Hooked.framesOk_iff {deferred code out : List Instruction}
    (h : Hooked hook? deferred code out) (hh : ∀ l i, hook? l = some i → i.isHook = true)
    {targets : List Label} {pending pending' : List Pending} (hok : FramesOk targets pending code)
    (hsub : pending' ⊆ pending) (hd : ∀ i ∈ deferred, i.isHook = true)
    (hdf : deferred ≠ [] → frameFollows code = true) :
    FramesOk targets pending' out ↔ Fits hook? pending pending' deferred code := by
  induction h generalizing pending pending' with
  | nil deferred =>
    have hd0 : deferred = [] := by
      by_contra hne
      cases hdf hne
    have hs : Settled targets pending' := Settled.subset hok hsub
    simpa [FramesOk, Fits, hd0, HooksReframed] using hs
  | untraced hl _ ih =>
    exact (ih hok (List.cons_subset_cons _ hsub) hd hdf).trans (fits_label_of_none hl)
  | @later l k deferred rest out hl hf _ ih =>
    have hd' : ∀ i ∈ k :: deferred, i.isHook = true := List.forall_mem_cons.2 ⟨hh l k hl, hd⟩
    exact (ih hok (List.cons_subset_cons _ hsub) hd' fun _ => hf).trans (fits_label_of_some hl)
  | @atOnce l k deferred rest out hl hf _ ih =>
    -- without a frame ahead nothing has been deferred
    have hd0 : deferred = [] := by
      by_contra hne
      have hrest : frameFollows rest = true := hdf hne
      rw [hf] at hrest
      cases hrest
    have hok' : FramesOk targets (⟨l, false⟩ :: pending) rest := hok
    have hset : Settled targets (⟨l, false⟩ :: pending') :=
      (settled_of_no_frame hok' hf).subset (List.cons_subset_cons _ hsub)
    subst hd0
    refine (framesOk_hook (hh l k hl)).trans ((and_iff_right hset).trans ?_)
    exact (ih hok' (List.nil_subset _) (by simp) (by simp)).trans (fits_label_of_no_frame hf)
  | frame n deferred _ ih =>
    obtain ⟨hne, hok⟩ := hok
    have hne' : pending.map (fun p => { p with framed := true }) ≠ [] := by simpa using hne
    have hsub' := List.map_subset (fun p : Pending => { p with framed := true }) hsub
    by_cases hp : pending' = []
    · -- a hook has taken the pending labels away
      simp [FramesOk, Fits, hp, hne]
    · refine (and_iff_right hp).trans ?_
      -- the frame is the first behind the labels, or hooks stand behind it
      by_cases hd0 : deferred = []
      · subst hd0
        have hp' : pending'.map (fun p => { p with framed := true }) ≠ [] := by simpa using hp
        exact (ih hok hsub' (by simp) (by simp)).trans (fits_frame n hp hp')
      · have hr : ∀ i ∈ deferred.reverse, i.isHook = true := fun i hi =>
          hd i (List.mem_reverse.1 hi)
        rw [framesOk_hooks hr (by simpa using hd0)]
        refine (and_iff_right (settled_framed _ _)).trans ?_
        exact (ih hok (List.nil_subset _) (by simp) (by simp)).trans
          (fits_frame_of_deferred n hp hne' hd0)
  | @other i deferred rest out hl hf _ ih =>
    cases i with
    | label l => cases hl
    | frame n => exact absurd rfl (hf n)
    | lineNumber n l => exact (ih hok hsub hd hdf).trans (fits_lineNumber n)
    | _ =>
      have hd0 : deferred = [] := by
        by_contra hne
        cases hdf hne
      subst hd0
      refine (and_iff_right (hok.1.subset hsub)).trans ?_
      refine (ih hok.2 (List.nil_subset _) (by simp) (by simp)).trans ?_
      simp [Fits, hooksReframed_cons]

end LineTrace

/-! ### Methods -/

/-- **A label of the method that some line starts at is framed twice.** -/
def Method.Reframed (m : Method) : Prop :=
  ∃ l rest, .label l :: rest <:+ m.code ∧ (∃ n, Instruction.lineNumber n l ∈ m.code) ∧
    LineTrace.reframed rest = true

theorem LineTrace.hooksReframed_iff (source : String) (number : Nat) (m : Method) :
    HooksReframed (hookOf? source number m) m.code ↔ m.Reframed := by
  refine exists_congr fun l => exists_congr fun rest => and_congr_right fun hs => ?_
  rw [isSome_hookOf]
  exact List.mem_filterMap.2 ⟨.label l, hs.subset (by simp), rfl⟩

theorem Method.reframed_iff (m : Method) :
    m.Reframed ↔ ∃ code ∈ m.code.tails, ∃ l ∈ code.head?.bind Instruction.label?,
      ((LineTrace.lineStarts m).lookup l).isSome = true ∧
        LineTrace.reframed code.tail = true := by
  simp only [List.mem_tails, LineTrace.isSome_lookup_lineStarts]
  constructor
  · rintro ⟨l, rest, hs, hl, hr⟩
    exact ⟨.label l :: rest, hs, l, rfl, hl, hr⟩
  · rintro ⟨code, hs, l, hl, hn, hr⟩
    obtain ⟨i, hi, hl⟩ := Option.bind_eq_some_iff.1 hl
    obtain rfl := label?_eq_some_iff.1 hl
    exact ⟨l, code.tail, (List.cons_head?_tail hi).symm ▸ hs, hn, hr⟩

instance (m : Method) : Decidable m.Reframed := decidable_of_iff _ m.reframed_iff.symm

namespace Verifier

theorem checkOperands_of_not_isHook {i : Instruction} (hi : i.isHook = false) (mode mode' : Mode)
    (maxLocals : UInt16) : checkOperands mode maxLocals i = checkOperands mode' maxLocals i := by
  cases i <;> simp_all [checkOperands, Instruction.isHook]

/-- With hooks in it, a method passes the checks if its frames stand right and its hooks read locals. -/
theorem verified_weaves_iff {m m' : Method} (hm : Verified .submitted m) (hw : m.Weaves m') :
    Verified .instrumented m' ↔ FramesOk (targets m) [] m'.code ∧
      ∀ i ∈ m'.code, i.isHook = true → checkOperands .instrumented m.maxLocals i = .ok () := by
  constructor
  · rintro ⟨-, -, -, hf, ho⟩
    rw [hw.targets] at hf
    rw [hw.maxLocals] at ho
    exact ⟨checkFrames_eq_ok_iff.1 hf, fun i hi _ => ho i hi⟩
  · rintro ⟨hf, ho⟩
    refine ⟨?_, hw.labels ▸ hm.nodup, fun l hl => ?_, ?_, fun i hi => ?_⟩
    · rw [hw.requiredSlots, hw.maxLocals]
      exact hm.locals
    · rw [hw.labels]
      exact hm.defined l (hw.mem_referenced.1 hl)
    · rw [hw.targets]
      exact checkFrames_eq_ok_iff.2 hf
    · rw [hw.maxLocals]
      cases hh : i.isHook with
      | true => exact ho i hi hh
      | false =>
        rw [checkOperands_of_not_isHook hh .instrumented .submitted]
        exact hm.operands i ((hw.mem_code hh).1 hi)

theorem checkOperands_enterHook {m : Method} (hm : m.requiredSlots ≤ m.maxLocals.toNat)
    (site : Nat) : checkOperands .instrumented m.maxLocals (MethodTrace.enterHook site m) =
      .ok () := by
  have hlt := m.maxLocals.toNat_lt
  refine checkSlots_eq_ok_iff.2 fun i hi => ?_
  simp only [hookSlots, List.filterMap_cons, List.filterMap_append, List.mem_append,
    List.mem_filterMap, List.mem_map, List.mem_range, Method.requiredSlots] at hi hm
  rcases hi with ⟨o, ho, hi⟩ | ⟨o, ⟨k, hk, rfl⟩, hi⟩
  · -- the receiver
    cases hs : m.isStatic with
    | true => simp [hs] at ho
    | false =>
      simp only [hs, Bool.false_eq_true, if_false, List.mem_singleton] at ho
      subst ho
      obtain rfl : 0 = i := by simpa using hi
      simp only [Method.firstParamSlot, hs, Bool.false_eq_true, if_false] at hm
      show 0 < _
      omega
  · simp only [Option.some.injEq] at hi
    have hk' : k < m.params.length := Nat.lt_of_lt_of_le hk (Nat.mod_le _ _)
    rw [← hi, UInt16.toNat_ofNat']
    have := Nat.mod_le (m.firstParamSlot + k) (2 ^ 16)
    omega

theorem checkOperands_hookOf {source : String} {number : Nat} {m : Method} {l : Label}
    {i : Instruction} (h : LineTrace.hookOf? source number m l = some i) (maxLocals : UInt16) :
    checkOperands .instrumented maxLocals i = .ok () := by
  obtain ⟨t, -, rfl⟩ := Option.map_eq_some_iff.1 h
  rfl

end Verifier

namespace Method

variable {source : Option String} {m m' : Method}

/-- The hooks of a traced method read locals only. -/
theorem Traced.checkOperands (h : m.Traced source m') (hm : Verifier.Verified .submitted m) :
    ∀ i ∈ m'.code, i.isHook = true →
      Verifier.checkOperands .instrumented m.maxLocals i = .ok () := by
  obtain ⟨m₁, h₁, h'⟩ := h
  have lined : ∀ i ∈ m₁.code, i.isHook = true →
      Verifier.checkOperands .instrumented m.maxLocals i = .ok () := by
    intro i hi hh
    have hnot : i ∉ m.code := fun hi => by simp [hm.not_isHook hi] at hh
    cases source with
    | none =>
      obtain rfl : m₁ = m := h₁
      exact absurd hi hnot
    | some s =>
      obtain ⟨n, rfl⟩ := h₁
      rcases (LineTrace.hooked_insertHooks _ _ _).mem hi with hi | hi | ⟨l, hl⟩
      · exact absurd hi hnot
      · cases hi
      · exact Verifier.checkOperands_hookOf hl _
  have hw : m.Weaves m₁ := Traced.weaves ⟨m₁, h₁, .inl rfl⟩
  rcases h' with rfl | ⟨n, rfl⟩
  · exact lined
  · intro i hi hh
    rcases List.mem_cons.1 hi with rfl | hi
    · rw [← hw.maxLocals]
      refine Verifier.checkOperands_enterHook ?_ n
      rw [hw.requiredSlots, hw.maxLocals]
      exact hm.locals
    · exact lined i hi hh

/-- The frames of a traced method stand right exactly if no label is framed twice. -/
theorem Traced.framesOk_iff (h : m.Traced source m') (hm : Verifier.Verified .submitted m) :
    Verifier.FramesOk (Verifier.targets m) [] m'.code ↔ (source.isSome = true → ¬ m.Reframed) := by
  obtain ⟨m₁, h₁, h'⟩ := h
  have hok := Verifier.checkFrames_eq_ok_iff.1 hm.frames
  have lined : Verifier.FramesOk (Verifier.targets m) [] m₁.code ↔
      (source.isSome = true → ¬ m.Reframed) := by
    cases source with
    | none =>
      obtain rfl : m₁ = m := h₁
      simpa using hok
    | some s =>
      obtain ⟨n, rfl⟩ := h₁
      refine ((LineTrace.hooked_insertHooks _ [] m.code).framesOk_iff
        (fun _ _ => LineTrace.isHook_of_hookOf) hok (List.Subset.refl _) (by simp) (by simp)).trans ?_
      simp [LineTrace.Fits, LineTrace.hooksReframed_iff]
  rw [← lined]
  rcases h' with rfl | ⟨n, rfl⟩
  · rfl
  · exact and_iff_right Verifier.settled_nil

theorem Traced.verified_iff (h : m.Traced source m') (hm : Verifier.Verified .submitted m) :
    Verifier.Verified .instrumented m' ↔ (source.isSome = true → ¬ m.Reframed) := by
  rw [Verifier.verified_weaves_iff hm h.weaves, h.framesOk_iff hm]
  exact and_iff_left (h.checkOperands hm)

end Method

/-! ### Classes -/

theorem forall_mem_iff_of_forall₂ {α β : Type} {R : α → β → Prop} {P : α → Prop} {Q : β → Prop}
    {l : List α} {l' : List β} (h : List.Forall₂ R l l')
    (hPQ : ∀ a ∈ l, ∀ b, R a b → (P a ↔ Q b)) : (∀ a ∈ l, P a) ↔ ∀ b ∈ l', Q b := by
  induction h with
  | nil => simp
  | cons hab _ ih =>
    rw [List.forall_mem_cons, List.forall_mem_cons, hPQ _ (by simp) _ hab,
      ih fun a ha b => hPQ a (by simp [ha]) b]

/-- **When a traced class passes the checks again.** -/
theorem ClassFile.check_traced_iff {source : Option String} {c c' : ClassFile}
    (h : c.Changed (Method.Traced source) c') (hc : Verifier.check .submitted c = .ok ()) :
    Verifier.check .instrumented c' = .ok () ↔
      (source.isSome = true → ∀ m ∈ c.methods, ¬ m.Reframed) := by
  obtain ⟨hn, hv⟩ := Verifier.check_eq_ok_iff.1 hc
  have names : c.methods.map (·.name) = c'.methods.map (·.name) := by
    rw [← List.forall₂_eq_eq_eq, List.forall₂_map_left_iff, List.forall₂_map_right_iff]
    exact h.methods.imp fun m m' hm => hm.weaves.name.symm
  rw [Verifier.check_eq_ok_iff, ← names, and_iff_right hn,
    ← forall_mem_iff_of_forall₂ h.methods fun m hm m' ht => (ht.verified_iff (hv m hm)).symm]
  exact ⟨fun h hs m hm => h m hm hs, fun h m hm hs => h hs m hm⟩

namespace LoadingUnit

/-! ### Units -/

/-- The class is handed in with a source file, its lines are traced, and a label of one of its
methods is framed twice. -/
def Refused (origin : Origin) (line : Bool) (c : ClassFile) : Prop :=
  origin = .untrusted ∧ line = true ∧ c.sourceFile.isSome = true ∧ ∃ m ∈ c.methods, m.Reframed

instance (origin : Origin) (line : Bool) (c : ClassFile) : Decidable (Refused origin line c) :=
  inferInstanceAs (Decidable (_ ∧ _ ∧ _ ∧ _))

theorem not_refused_iff {origin : Origin} {line : Option LineTrace.Instrumentation}
    {c : ClassFile} :
    ¬ Refused origin line.isSome c ↔
      ((Instrumentation.lineSource? origin line c).isSome = true →
        ∀ m ∈ c.methods, ¬ m.Reframed) := by
  cases origin <;> cases line <;> simp [Refused, Instrumentation.lineSource?]

/-- A class that can be defined without tracers can be defined with them, unless it is refused. -/
theorem define_traces {origin : Origin} {name : String} {bytes : ByteArray} {d : DefinedClass}
    {is : List Instrumentation} (h : define origin [] name bytes = .ok (d, is))
    (line : Option LineTrace.Instrumentation) (method : Option MethodTrace.Instrumentation) :
    is = [] ∧ ∃ c d' line' method', ClassFile.decodeBytes? bytes = some c ∧
      line'.isSome = line.isSome ∧
      ∀ q, define origin (Instrumentation.traces line method) name bytes = .ok q ↔
        ¬ Refused origin line.isSome c ∧ q = (d', Instrumentation.traces line' method') := by
  obtain ⟨c, c₁, hd, rfl⟩ := define_eq_ok_iff.1 h
  have hinst := hd.instrumented
  simp only [Instrumentation.instrumentAll, Except.ok.injEq, Prod.mk.injEq] at hinst
  obtain ⟨c', line', method', hc', ha, ht⟩ :=
    Instrumentation.instrumentAll_traces origin c line method
  have hl : line'.isSome = line.isSome := by simpa using congrArg Option.isSome ha
  have hcheck := ClassFile.check_traced_iff ht hd.submitted
  rw [← not_refused_iff] at hcheck
  refine ⟨hinst.2.symm, c, definedClass c', line', method', hd.decoded, hl, fun q => ?_⟩
  obtain ⟨d', is'⟩ := q
  rw [define_eq_ok_iff]
  constructor
  · rintro ⟨c₂, c₂', h₂, rfl⟩
    obtain rfl : c = c₂ := Option.some.inj (hd.decoded.symm.trans h₂.decoded)
    have heq := hc'.symm.trans h₂.instrumented
    simp only [Except.ok.injEq, Prod.mk.injEq] at heq
    obtain ⟨rfl, rfl⟩ := heq
    exact ⟨hcheck.1 h₂.checked, rfl⟩
  · rintro ⟨hr, heq⟩
    simp only [Prod.mk.injEq] at heq
    obtain ⟨rfl, rfl⟩ := heq
    exact ⟨c, c', ⟨hd.decoded, hd.name_eq, hd.submitted, hc', hcheck.2 hr⟩, rfl⟩

/-- So can classes one by one. -/
theorem exists_defineAll_traces_iff {origin : Origin} {l : List (String × ByteArray)}
    {done classes : List (String × DefinedClass)} {is : List Instrumentation}
    (h : defineAll origin [] done l = .ok (classes, is))
    (line : Option LineTrace.Instrumentation) (method : Option MethodTrace.Instrumentation)
    (done' : List (String × DefinedClass)) :
    (∃ q, defineAll origin (Instrumentation.traces line method) done' l = .ok q) ↔
      ∀ e ∈ l, ∀ c, ClassFile.decodeBytes? e.2 = some c → ¬ Refused origin line.isSome c := by
  induction l generalizing done line method done' with
  | nil => simp [defineAll]
  | cons e rest ih =>
    obtain ⟨d, is₁, he, hrest⟩ := defineAll_cons_eq_ok_iff.1 h
    obtain ⟨rfl, c, d', line', method', hc, hl, hdef⟩ := define_traces he line method
    rw [List.forall_mem_cons, ← hl, ← ih hrest line' method' ((e.1, d') :: done'), hl]
    constructor
    · rintro ⟨⟨classes', is'⟩, hq⟩
      obtain ⟨d₂, is₂, h₂, hrest'⟩ := defineAll_cons_eq_ok_iff.1 hq
      obtain ⟨hr, heq⟩ := (hdef _).1 h₂
      simp only [Prod.mk.injEq] at heq
      obtain ⟨rfl, rfl⟩ := heq
      exact ⟨fun c₂ hc₂ => Option.some.inj (hc.symm.trans hc₂) ▸ hr, _, hrest'⟩
    · rintro ⟨hr, ⟨classes', is'⟩, hq⟩
      exact ⟨_, defineAll_cons_eq_ok_iff.2 ⟨d', _, (hdef _).2 ⟨hr c hc, rfl⟩, hq⟩⟩

/-- **When a unit can be built with tracers**, if it can be built without. -/
theorem exists_build_traces_iff {p : Plan} {id : UnitId} {u : LoadingUnit}
    (h : build { p with tracers := .empty } id = .ok u) (line : Option LineTrace.Arguments)
    (method : Option MethodTrace.Arguments) :
    (∃ v, build { p with tracers := .traces line method } id = .ok v) ↔
      ∀ e ∈ p.program.classes, ∀ c, ClassFile.decodeBytes? e.2 = some c →
        ¬ Refused p.origin line.isSome c := by
  obtain ⟨hv, classes, is, hc, -⟩ := build_eq_ok_iff.1 h
  obtain ⟨line', method', hr, ha⟩ := Instrumentation.ofRoster_traces line method
  have hl : line'.isSome = line.isSome := by simpa using congrArg Option.isSome ha
  rw [← hl, ← exists_defineAll_traces_iff hc line' method' []]
  constructor
  · rintro ⟨v, hv⟩
    obtain ⟨-, classes', is', hc', -⟩ := build_eq_ok_iff.1 hv
    exact ⟨_, hr ▸ hc'⟩
  · rintro ⟨⟨classes', is'⟩, hc'⟩
    exact ⟨_, build_eq_ok_iff.2 ⟨hv, classes', is', hr ▸ hc', rfl⟩⟩

end LoadingUnit

/-! ### All rosters -/

/-- **When traced code passes the checks again.** Let a roster be legal, with the line trace, the
method trace or both. A class that was accepted is accepted with its hooks, at whatever point of
building a unit, and a unit that can be built without tracers can be built with them, except where
the lines of a method are traced one of whose labels is framed twice. -/
theorem reverified_iff {tracers : List Tracer} (hp : ∀ t ∈ tracers, ∀ a, t ≠ .probe a)
    {r : Roster Tracer} (hr : Roster.empty.addAll tracers = .ok r) :
    (∀ c is, Verifier.check .submitted c = .ok () → is.map Instrumentation.id = r.ids →
      ∃ c' is', Instrumentation.instrumentAll .untrusted c is = .ok (c', is') ∧
        (Verifier.check .instrumented c' = .ok () ↔
          ¬ LoadingUnit.Refused .untrusted (r.contains LineTrace.id) c)) ∧
    ∀ (p : LoadingUnit.Plan) (id : UnitId) (u : LoadingUnit),
      LoadingUnit.build { p with tracers := .empty } id = .ok u →
      ((∃ v, LoadingUnit.build { p with tracers := r } id = .ok v) ↔
        ∀ e ∈ p.program.classes, ∀ c, ClassFile.decodeBytes? e.2 = some c →
          ¬ LoadingUnit.Refused p.origin (r.contains LineTrace.id) c) := by
  obtain ⟨line, method, rfl, -⟩ := (Roster.addAll_eq_ok_iff hp).1 hr
  rw [Roster.contains_lineTrace]
  refine ⟨fun c is hc his => ?_, fun p id u hu =>
    LoadingUnit.exists_build_traces_iff hu line method⟩
  obtain ⟨line', method', rfl, hl⟩ := Instrumentation.eq_traces_of_ids his
  obtain ⟨c', line'', method'', hc', -, ht⟩ :=
    Instrumentation.instrumentAll_traces .untrusted c line' method'
  refine ⟨c', _, hc', ?_⟩
  rw [ClassFile.check_traced_iff ht hc, ← LoadingUnit.not_refused_iff, hl]

/-- With both tracers, the class of the sample passes the checks again, and its unit is built. -/
theorem reverified_sample :
    (∃ c' is', Instrumentation.instrumentAll .untrusted Sample.main
        (Instrumentation.ofRoster (.traces (some .default) (some .default))) = .ok (c', is') ∧
      Verifier.check .instrumented c' = .ok ()) ∧
    ∃ v, LoadingUnit.build { Sample.plan with
      tracers := .traces (some .default) (some .default) } ⟨1⟩ = .ok v := by
  have hmain : ¬ LoadingUnit.Refused .untrusted true Sample.main := by decide
  obtain ⟨hclass, hunit⟩ := @reverified_iff [.lineTrace .default, .methodTrace .default]
    (by simp) (.traces (some .default) (some .default)) rfl
  refine ⟨?_, (hunit Sample.plan ⟨1⟩ Sample.unit Sample.build_plan).2 fun e he c hc => ?_⟩
  · obtain ⟨c', is', hi, hc'⟩ := hclass Sample.main
      (Instrumentation.ofRoster (.traces (some .default) (some .default))) rfl rfl
    exact ⟨c', is', hi, hc'.2 hmain⟩
  · obtain rfl := List.mem_singleton.1 he
    exact Option.some.inj (Sample.decodeBytes?_bytes.symm.trans hc) ▸ hmain

/-- A class of one method, whose first label is framed twice. -/
def framedTwice : ClassFile :=
  ⟨"Main", some "Main.java", [⟨"main", true, [], 0,
    [.label ⟨0⟩, .lineNumber 1 ⟨0⟩, .frame 0, .frame 0, .ret], []⟩]⟩

/-- **Tracing lines may spoil a class.** It is accepted, and not again with its hooks. -/
theorem not_reverified_framedTwice :
    ¬ ∀ c, Verifier.check .submitted c = .ok () → ∀ c' is',
      Instrumentation.instrumentAll .untrusted c
          (Instrumentation.ofRoster (.traces (some .default) none)) = .ok (c', is') →
        Verifier.check .instrumented c' = .ok () := by
  intro h
  have hfault := h framedTwice rfl _ _ rfl
  revert hfault
  decide

end Confine
