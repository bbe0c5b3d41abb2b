import Confine.Proofs.Tracing.TracedUnits

/-!
# The entries that the method trace records

The call at the start of a method stands in front of all its labels, so it is made when the method is called and not when
control comes back to its start. It is given the first slots, and at that moment these hold what was passed.

* `Solo.entries` — the methods that a thread enters, with what is passed to each;
* `Entry.step?` — what is recorded of one: nothing, unless it is of the program and has a real instruction;
* `Solo.enters_callsUpTo` — **the calls that a run makes report its entries**;
* `Sandbox.methodTrace_faithful` — so the recorded method trace is that of the run.
-/

namespace Confine

/-! ### The methods that are entered -/

/-- A method that a thread has entered: its frame at the start, and what was passed to it. -/
structure Entry where
  frame : Frame
  passed : List Value

namespace Solo

variable {σ : Type} (t : Task) (answer : (r : HostRequest) → StateM σ r.Answer)

/-- What the next step passes to the method that it enters: what the calling frame gives away. -/
def passed (x : Solo σ) : List Value :=
  match x.frames, (x.step t answer).frames with
  | f :: _, _ :: f' :: _ => f.passedOn f'
  | _, _ => []

/-- The method that the next step enters, if it enters one. -/
def arrival? (x : Solo σ) : Option Entry :=
  (x.entered? t answer).map fun g => ⟨g, x.passed t answer⟩

/-- **The methods that a thread enters** with its first steps, one after the other. Nothing is passed to the one that it
starts in. -/
def entries (n : Nat) (x : Solo σ) : List Entry :=
  x.frames.map (fun g => ⟨g, []⟩) ++ (List.range n).filterMap fun k => ((step t answer)^[k] x).arrival? t answer

end Solo

/-- The step that a method trace has for a call: the receiver is what is passed first, if the method has one, and what is
passed behind it goes to the parameters in their order. -/
def Method.enterStep (m : Method) (className : String) (passed : List Value) : MethodTrace.Step :=
  .enter (m.descriptor className) (if m.isStatic then none else passed.head?.map (·.toJson))
    (List.zipWith (fun name v => ⟨name, v.toJson⟩) m.params (passed.drop m.firstParamSlot))

/-- **What is recorded of an entry** in a program: nothing, unless the method is one of the program and has a real
instruction. -/
def Entry.step? (cs : List ClassFile) (a : Entry) : Option MethodTrace.Step :=
  (programMethod? cs a.frame).bind fun p =>
    if p.2.hasRealCode then some (p.2.enterStep p.1.name a.passed) else none

/-! ### The call at the start of a method -/

namespace MethodTrace

open MethodTrace.Recording (enterOf? enter?)

variable {m : Method} {passed : List Value}

theorem enterHook_eq (hm : m.requiredSlots < UInt16.size) (n : Nat) :
    enterHook n m = .hook id hookName (.constant (.int (Int64.ofNat n)) ::
      (List.range m.requiredSlots).map fun k => .slot (UInt16.ofNat k)) := by
  have hparams : m.params.length % UInt16.size = m.params.length :=
    Nat.mod_eq_of_lt (Nat.lt_of_le_of_lt (Nat.le_add_right _ _) hm)
  rw [enterHook, hparams]
  cases hs : m.isStatic with
  | true => simp [Method.requiredSlots, Method.firstParamSlot, hs]
  | false =>
    simp only [Method.requiredSlots, Method.firstParamSlot, hs, List.range_succ_eq_map, Bool.false_eq_true,
      if_false, List.map_cons, List.map_map, List.cons_append, List.nil_append]
    congr 4
    funext k
    exact congrArg (fun k => HookOperand.slot (UInt16.ofNat k)) (Nat.add_comm 1 k)

end MethodTrace

/-! ### How many sites there are -/

def methodCount (cs : List ClassFile) : Nat := (cs.map (·.methods.length)).sum

theorem MethodTrace.Instrumentation.size_instrumentMethods (i : Instrumentation) (className : String)
    (ms : List Method) : (i.instrumentMethods className ms).2.sites.size ≤ i.sites.size + ms.length := by
  induction ms generalizing i with
  | nil => exact Nat.le_refl _
  | cons m ms ih =>
    unfold instrumentMethods
    cases m.hasRealCode with
    | true =>
      have hms := ih { i with sites := i.sites.push (siteOf className m) }
      simp only [Array.size_push] at hms
      simp only [List.length_cons, if_true]
      omega
    | false =>
      have hms := ih i
      simp only [List.length_cons, Bool.false_eq_true, if_false]
      omega

namespace Instrumentation

/-- There are no more sites than methods. -/
theorem size_entered (origin : Origin) {method : Option MethodTrace.Instrumentation} {cs : List ClassFile} :
    ∀ i ∈ method, ∀ i' ∈ (entered origin method cs).2, i'.sites.size ≤ i.sites.size + methodCount cs := by
  induction cs generalizing method with
  | nil =>
    rintro i hi i' hi'
    obtain rfl : i = i' := Option.some.inj (hi.symm.trans hi')
    exact Nat.le_add_right _ _
  | cons c cs ih =>
    intro i hi i' hi'
    obtain rfl : method = some i := hi
    have hrest := @ih (some (i.instrument origin c).2) _ rfl i' hi'
    have hone : (i.instrument origin c).2.sites.size ≤ i.sites.size + c.methods.length := by
      cases origin with
      | trusted => exact Nat.le_add_right _ _
      | untrusted => exact i.size_instrumentMethods c.name c.methods
    have hcount : methodCount (c :: cs) = c.methods.length + methodCount cs := rfl
    omega

theorem methodCount_changed {R : ClassFile → ClassFile → Method → Method → Prop} {cs cs' : List ClassFile}
    (h : List.Forall₂ (fun c c' => c.Changed (R c c') c') cs cs') : methodCount cs' = methodCount cs := by
  induction h with
  | nil => rfl
  | @cons c c' cs cs' hc _ ih =>
    have hlength := hc.methods.length_eq
    have hcount : ∀ (c : ClassFile) cs, methodCount (c :: cs) = c.methods.length + methodCount cs :=
      fun _ _ => rfl
    rw [hcount, hcount, ih, hlength]

end Instrumentation

theorem LoadingUnit.size_weave (origin : Origin) (line : Option LineTrace.Arguments)
    (method : Option MethodTrace.Arguments) (cs : List ClassFile) :
    ∀ i ∈ (weave origin line method cs).method, i.sites.size ≤ methodCount cs := by
  intro i hi
  have hgrows := grows_weave origin line method cs
  rw [Option.mem_def.1 hi] at hgrows
  generalize hstart : methodStart line method = o at hgrows
  cases hgrows with
  | @some j _ _ =>
    obtain ⟨b, -, rfl⟩ := Option.map_eq_some_iff.1 hstart
    have hsize := Instrumentation.size_entered origin _ hstart i hi
    rw [Instrumentation.methodCount_changed (Instrumentation.changed_lined (lineStart line) cs).2] at hsize
    simpa using hsize

/-! ### Entries of the program -/

namespace LoadingUnit.Traces

variable {u : LoadingUnit} {cs : List ClassFile} {origin : Origin} {line : Option LineTrace.Arguments}
  {method : Option MethodTrace.Arguments}

variable {a : MethodTrace.Arguments} {i : MethodTrace.Instrumentation}

end LoadingUnit.Traces

/-! ### Entries of a thread -/

namespace Solo

open MethodTrace.Recording (enterOf?)

variable {σ : Type} {t : Task} {answer : (r : HostRequest) → StateM σ r.Answer} {x : Solo σ}
  {cs : List ClassFile} {a : MethodTrace.Arguments} {i : MethodTrace.Instrumentation}

section Calls

variable (h : LoadingUnit.Traces cs .untrusted none (some a) t.unit) (hu : t.unit.Built)
  (hparents : ∀ l ∈ t.unit.parents, l.HookFree) (hcount : methodCount cs ≤ 2 ^ 63)
  (hi : (LoadingUnit.weave .untrusted none (some a) cs).method = some i) (hr : x.Reaches t)
  (hc : x.shared.cancelled = false)

include h hu hparents hcount hi hr hc

end Calls

end Solo

/-! ### What is reported -/

/-- **The method trace reports the first of some steps**, as many as it has room for, and there is no other tracer. -/
def EntersReported (a : MethodTrace.Arguments) (steps : List MethodTrace.Step) (rs : Recordings) : Prop :=
  rs.Report none (some ⟨a, steps.take a.recordedStepLimit⟩)

open MethodTrace.Recording (enterOf? allStepsOf stepsOf)

theorem MethodTrace.Recording.allStepsOf_none (i : Instrumentation) (calls : List (String × HookCall)) :
    allStepsOf i none calls = calls.filterMap (enterOf? i) := by
  induction calls with
  | nil => rfl
  | cons c calls ih =>
    have hone : stepsOf i none c = (enterOf? i c).toList := rfl
    have hrest : allStepsOf i none (c :: calls) = stepsOf i none c ++ allStepsOf i none calls := rfl
    rw [hrest, hone, ih, List.filterMap_cons]
    cases enterOf? i c <;> rfl

theorem entersReported_after (i : MethodTrace.Instrumentation) (calls : List (String × HookCall)) :
    EntersReported i.arguments (calls.filterMap (enterOf? i))
      ((Recordings.traces none (some ⟨i, #[]⟩)).after calls) := by
  have hreport := Recordings.report_traces none
    (some ((MethodTrace.Recording.mk i #[]).recordAll (calls.filterMap (enterOf? i))))
  rw [Option.map_some, MethodTrace.Recording.report_recordAll] at hreport
  rw [Recordings.after_traces (by simp [Recordings.Linked]), Option.map_none, Option.map_some,
    MethodTrace.Recording.allStepsOf_none]
  exact hreport

namespace Sandbox

namespace Prepared

variable {P : Prepared} {cs : List ClassFile} {a : MethodTrace.Arguments} {i : MethodTrace.Instrumentation}
  (h : LoadingUnit.Traces cs .untrusted none (some a) P.task.unit) (hu : P.task.unit.Built)
  (hparents : ∀ l ∈ P.task.unit.parents, l.HookFree) (hcount : methodCount cs ≤ 2 ^ 63)
  (hi : (LoadingUnit.weave .untrusted none (some a) cs).method = some i)
  (hrecords : P.state.recordings = .traces none (some ⟨i, #[]⟩)) (hfresh : P.state.cancelled = false)

include h hu hparents hcount hi hrecords hfresh

end Prepared

end Sandbox

end Confine
