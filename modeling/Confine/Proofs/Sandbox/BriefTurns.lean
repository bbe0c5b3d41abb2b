import Confine.Proofs.Machine.Brief
import Confine.Proofs.Machine.Depths
import Confine.Proofs.Sandbox.Mediated

/-!
# How long texts get in one turn

* `Query.Yields` — what a computation comes to if the texts that the host answers keep to a limit;
* `Step.instruction_brief` — **an instruction keeps to the limits**, or to `Limits.after` if it makes an object or an
  exception: the message of an exception that is made from another one is longer than that one's;
* `Activity.turn_brief` — so does a turn of a thread.
-/

namespace Confine

/-! ### What the host answers -/

/-- The texts of an answer keep to the limit. -/
def HostRequest.Brief (limit : Nat) : (r : HostRequest) → r.Answer → Prop
  | .clock, _ => True
  | .getEnv _, (text : Option String) => ∀ x ∈ text, x.utf8ByteSize ≤ limit
  | .workingDirectory, (dir : Option String) => ∀ x ∈ dir, x.utf8ByteSize ≤ limit
  | .writeFile _ _, (written : Except String Unit) =>
    ∀ message, written = .error message → message.utf8ByteSize ≤ limit

def Exchange.Brief (limit : Nat) (x : Exchange) : Prop := x.request.Brief limit x.answer

namespace Query

variable {α β : Type} {limit : Nat} {P : α → Prop} {q : Query α}

/-- If the texts that the host answers keep to the limit, the computation comes to something of `P`. -/
def Yields (limit : Nat) (P : α → Prop) (q : Query α) : Prop :=
  q.Ends fun asked a => (∀ x ∈ asked, x.Brief limit) → P a

theorem yields_done {a : α} (h : P a) : (done a).Yields limit P := ends_done fun _ => h

theorem yields_ask {r : HostRequest} {resume : r.Answer → Query α}
    (h : ∀ a, r.Brief limit a → (resume a).Yields limit P) : (ask r resume).Yields limit P :=
  ends_ask fun a asked b hb hasked =>
    h a (hasked _ List.mem_cons_self) asked b hb fun x hx => hasked x (List.mem_cons_of_mem _ hx)

theorem Yields.mono {Q : α → Prop} (h : q.Yields limit P) (hPQ : ∀ a, P a → Q a) :
    q.Yields limit Q := Ends.mono h fun _ a ha hasked => hPQ a (ha hasked)

theorem Yields.map {Q : β → Prop} {f : α → β} (h : q.Yields limit P) (hPQ : ∀ a, P a → Q (f a)) :
    (q.map f).Yields limit Q := Ends.map h fun _ a ha hasked => hPQ a (ha hasked)

end Query

/-! ### Instructions -/

def Outcome.Brief (b : Limits) : Outcome → Prop
  | .next s f => s.Brief b ∧ f.Brief b
  | .call s f callee => s.Brief b ∧ f.Brief b ∧ callee.Brief b
  | .ret s v => s.Brief b ∧ ∀ w ∈ v, w.Brief b
  | .raise s f r => s.Brief b ∧ f.Brief b ∧ r.exception.Fair b
  | .fault s _ => s.Brief b
  | .wait s f _ => s.Brief b ∧ f.Brief b

theorem Outcome.Brief.mono {b b' : Limits} {o : Outcome} (h : o.Brief b) (hb : b ≤ b') : o.Brief b' := by
  cases o with
  | next s f => exact ⟨h.1.mono hb, h.2.mono hb⟩
  | call s f callee => exact ⟨h.1.mono hb, h.2.1.mono hb, h.2.2.mono hb⟩
  | ret s v => exact ⟨h.1.mono hb, fun w hw => (h.2 w hw).mono hb⟩
  | raise s f r => exact ⟨h.1.mono hb, h.2.1.mono hb, fun hr => (h.2.2 hr).mono hb⟩
  | fault s e => exact TaskState.Brief.mono h hb
  | wait s f w => exact ⟨h.1.mono hb, h.2.mono hb⟩

namespace Step

variable {α : Type} {t : Task} {b : Limits} {s : TaskState} {f : Frame}

def Brief (b : Limits) (q : Query Outcome) : Prop := q.Yields b.text (Outcome.Brief b)

theorem brief_next (hs : s.Brief b) (hf : f.Brief b) : Brief b (next s f) :=
  Query.yields_done ⟨hs, hf⟩

theorem brief_raise (hs : s.Brief b) (hf : f.Brief b) {r : Raised} (hr : r.exception.Fair b) :
    Brief b (raise s f r) := Query.yields_done ⟨hs, hf, hr⟩

theorem brief_fault (hs : s.Brief b) (e : Fault) : Brief b (fault s e) := Query.yields_done hs

theorem brief_wait (hs : s.Brief b) (hf : f.Brief b) (w : Wait) : Brief b (wait s f w) :=
  Query.yields_done ⟨hs, hf⟩

theorem brief_ret (hs : s.Brief b) (v : Option Value) (hv : ∀ w ∈ v, w.Brief b) :
    Brief b (ret s v) := Query.yields_done ⟨hs, hv⟩

theorem brief_attempt (hs : s.Brief b) (hf : f.Brief b) {P : α → Prop} {r : Except Exception α}
    (hr : b.Allow P r) {k : α → Query Outcome} (hk : ∀ a, P a → Brief b (k a)) :
    Brief b (attempt s f r k) := by
  cases r with
  | ok a => exact hk a hr
  | error e => exact brief_raise hs hf hr

theorem brief_push (hb : b.Ample) (hs : s.Brief b) (hf : f.Brief b) {stack : OperandStack}
    (hstack : stack.Brief b) {v : Value} (hv : v.Brief b) : Brief b (push s f stack v) :=
  brief_attempt hs hf (OperandStack.push_brief hb hstack hv) fun _ h =>
    brief_next hs (hf.withStack h)

theorem brief_require (hs : s.Brief b) {p : Permission} {k : TaskState → Query Outcome}
    (hk : ∀ s' : TaskState, s'.Brief b → Brief b (k s')) : Brief b (require t s p k) := by
  have hs' := TaskState.Brief.check (t := t) hs p
  unfold require
  dsimp only
  split
  · exact hk _ hs'
  · exact brief_fault hs' _

theorem brief_withClass (hb : b.Ample) (ht : ∀ x ∈ t.unit.texts, x.utf8ByteSize ≤ b.text)
    (hs : s.Brief b) (hf : f.Brief b) {name : String} (hname : name.utf8ByteSize ≤ b.text)
    {k : TaskState → LinkedClass → Query Outcome}
    (hk : ∀ (s' : TaskState) c, s'.Brief b → (∀ x ∈ c.texts, x.utf8ByteSize ≤ b.text) →
      Brief b (k s' c)) : Brief b (withClass t s f name k) := by
  have hs' := TaskState.Brief.load (t := t) hs name
  exact brief_attempt hs' hf (TaskState.load_brief hb ht hname) fun c hc => hk _ c hs' hc

/-! #### Host calls -/

theorem writeText_brief (hs : s.Brief b) (hf : f.Brief b) (thread : Nat) (c : Console)
    (newline : Bool) : Brief b (writeText s f thread c newline) :=
  brief_attempt hs hf (OperandStack.pop_brief hf.stack) fun _ hp =>
    Query.yields_ask fun _ _ => brief_next (hs.of_eq rfl rfl) (hf.withStack hp.2)

theorem readFile_brief (hb : b.Ample) (ht : ∀ x ∈ t.unit.texts, x.utf8ByteSize ≤ b.text)
    (hs : s.Brief b) (hf : f.Brief b) : Brief b (readFile t s f) := by
  refine brief_attempt hs hf (OperandStack.popText_brief hb hf.stack) fun p hp => ?_
  dsimp only
  split
  · next text htext =>
    exact brief_push hb (hs.record _ _) hf hp.2 (LoadingUnit.classFile?_brief ht htext)
  · exact brief_fault (hs.record _ _) _

theorem writeFile_brief (hb : b.Ample) (hs : s.Brief b) (hf : f.Brief b) :
    Brief b (writeFile t s f) := by
  refine brief_attempt hs hf (OperandStack.pop_brief hf.stack) fun p hp => ?_
  refine brief_attempt hs hf (OperandStack.popText_brief hb hp.2) fun q hq => ?_
  refine brief_require hs fun s' hs' => Query.yields_ask fun written hwritten => ?_
  match written, hwritten with
  | .ok (), _ => exact brief_next hs' (hf.withStack hq.2)
  | .error message, hwritten =>
    have hmessage : message.utf8ByteSize ≤ b.text := hwritten message rfl
    have hroom : message.utf8ByteSize ≤ 2 * b.text + 8 := by omega
    exact brief_raise hs' hf
      (Exception.brief_of_names hb (by decide : "IOException".utf8ByteSize ≤ 64) hroom).fair

theorem pushText_brief (hb : b.Ample) (hs : s.Brief b) (hf : f.Brief b) {stack : OperandStack}
    (hstack : stack.Brief b) {text : Option String} (htext : ∀ x ∈ text, x.utf8ByteSize ≤ b.text) :
    Brief b (pushText s f stack text) := by
  cases text with
  | none => exact brief_push hb hs hf hstack trivial
  | some x => exact brief_push hb hs hf hstack (htext x rfl)

theorem getEnv_brief (hb : b.Ample) (hs : s.Brief b) (hf : f.Brief b) : Brief b (getEnv t s f) := by
  refine brief_attempt hs hf (OperandStack.popText_brief hb hf.stack) fun p hp => ?_
  exact brief_require hs fun s' hs' => Query.yields_ask fun text htext =>
    pushText_brief hb hs' hf hp.2 htext

theorem fixedProperty?_le (hb : b.Ample) (name : String) :
    ∀ x ∈ fixedProperty? name, x.utf8ByteSize ≤ b.text := by
  have htext := hb.text
  have hshort : ∀ x ∈ ["linux", "x86_64", "\n", "/", "0.1.0"], x.utf8ByteSize ≤ 64 := by decide
  rw [BinaryOp.maxTextBytes] at htext
  intro x hx
  have hmem : x ∈ ["linux", "x86_64", "\n", "/", "0.1.0"] := by
    unfold fixedProperty? at hx
    split at hx <;> simp_all
  have hx := hshort x hmem
  omega

theorem getProperty_brief (hb : b.Ample) (hs : s.Brief b) (hf : f.Brief b) :
    Brief b (getProperty t s f) := by
  refine brief_attempt hs hf (OperandStack.popText_brief hb hf.stack) fun p hp => ?_
  refine brief_require hs fun s' hs' => ?_
  split
  · exact Query.yields_ask fun dir hdir => pushText_brief hb hs' hf hp.2 hdir
  · exact pushText_brief hb hs' hf hp.2 (fixedProperty?_le hb p.1)

theorem exit_brief (hb : b.Ample) (hs : s.Brief b) (hf : f.Brief b) : Brief b (exit t s f) :=
  brief_attempt hs hf (OperandStack.popInt_brief hb hf.stack) fun _ hp =>
    brief_require hs fun _ hs' => brief_next hs' (hf.withStack hp)

theorem spawn_brief (hb : b.Ample) (hs : s.Brief b) (hf : f.Brief b) (className methodName : String) :
    Brief b (spawn t s f className methodName) := by
  have hs' := TaskState.Brief.spawn (t := t) hs className methodName
  unfold spawn
  dsimp only
  split
  · exact brief_push hb hs' hf hf.stack trivial
  · exact brief_fault hs' _

theorem join_brief (hb : b.Ample) (hs : s.Brief b) (hf : f.Brief b) : Brief b (join s f) := by
  refine brief_attempt hs hf (OperandStack.popInt_brief hb hf.stack) fun p hp => ?_
  dsimp only
  split
  · exact brief_raise hs hf (Exception.fair_of_short hb (by decide) (by decide))
  · next index hindex =>
    split
    · exact brief_wait hs (hf.withStack hp) _
    · have hhi := p.1.toInt_lt
      rw [hindex, Int.ofNat_eq_natCast] at hhi
      have hlt : index < 10 ^ 20 := by omega
      have hdigits := Text.utf8ByteSize_toString_le (by decide) hlt
      have hno : "no joinable thread ".utf8ByteSize = 19 := by decide
      refine brief_raise hs hf (Exception.fair_of_short hb
        (by decide : "IllegalArgumentException".utf8ByteSize ≤ 64) ?_)
      show ("no joinable thread " ++ toString index).utf8ByteSize ≤ 64
      rw [String.utf8ByteSize_append]
      omega

theorem sleep_brief (hb : b.Ample) (hs : s.Brief b) (hf : f.Brief b) : Brief b (sleep s f) := by
  refine brief_attempt hs hf (OperandStack.popInt_brief hb hf.stack) fun p hp => ?_
  dsimp only
  split
  · exact brief_raise hs hf (Exception.fair_of_short hb (by decide) (by decide))
  · exact brief_wait hs (hf.withStack hp) _

theorem loadClass_brief (hb : b.Ample) (ht : ∀ x ∈ t.unit.texts, x.utf8ByteSize ≤ b.text)
    (hs : s.Brief b) (hf : f.Brief b) : Brief b (loadClass t s f) := by
  refine brief_attempt hs hf (OperandStack.popText_brief hb hf.stack) fun p hp => ?_
  exact brief_withClass hb ht hs hf hp.1 fun s' c hs' hc =>
    brief_push hb hs' hf hp.2 (hc _ List.mem_cons_self)

theorem host_brief (hb : b.Ample) (ht : ∀ x ∈ t.unit.texts, x.utf8ByteSize ≤ b.text)
    (hs : s.Brief b) (hf : f.Brief b) (thread : Nat) (c : HostCall) :
    Brief b (host t thread s f c) := by
  cases c with
  | print => exact writeText_brief hs hf thread _ _
  | println => exact writeText_brief hs hf thread _ _
  | eprint => exact writeText_brief hs hf thread _ _
  | eprintln => exact writeText_brief hs hf thread _ _
  | readFile => exact readFile_brief hb ht hs hf
  | writeFile => exact writeFile_brief hb hs hf
  | getEnv => exact getEnv_brief hb hs hf
  | getProperty => exact getProperty_brief hb hs hf
  | exit => exact exit_brief hb hs hf
  | setStreams => exact brief_require hs fun s' hs' => brief_next hs' hf
  | spawn c m => exact spawn_brief hb hs hf c m
  | join => exact join_brief hb hs hf
  | sleep => exact sleep_brief hb hs hf
  | time => exact Query.yields_ask fun now _ => brief_push hb hs hf hf.stack trivial
  | loadClass => exact loadClass_brief hb ht hs hf

/-! #### Other instructions -/

theorem hook_brief (hb : b.Ample) (hs : s.Brief b) (hf : f.Brief b) (thread : Nat)
    (tracer name : String) (operands : List HookOperand) :
    Brief b (hook thread s f tracer name operands) := by
  obtain ⟨hthrow, hrecordings⟩ :=
    hs.recordings.onHook hb tracer ⟨name, operands.map f.operand⟩ thread
  have hs' : TaskState.Brief b { s with recordings := (s.recordings.onHook tracer
      ⟨name, operands.map f.operand⟩ thread).2 } := ⟨hs.heap, hrecordings⟩
  unfold hook
  dsimp only
  split
  · exact brief_next hs' hf
  · next e he => exact brief_raise hs' hf (hthrow e he)
  · next reason _ => exact brief_fault (hs'.kill reason) _

theorem invokeStatic_brief (hb : b.Ample) (ht : ∀ x ∈ t.unit.texts, x.utf8ByteSize ≤ b.text)
    (hs : s.Brief b) (hf : f.Brief b) {className name : String}
    (hclass : className.utf8ByteSize ≤ b.text) (hname : name.utf8ByteSize ≤ b.text) :
    Brief b (invokeStatic t s f className name) := by
  refine brief_withClass hb ht hs hf hclass fun s' c hs' hc => ?_
  dsimp only
  split
  · have hstatic : "static ".utf8ByteSize = 7 := by decide
    have hdot : ".".utf8ByteSize = 1 := by decide
    refine brief_raise hs' hf (Frame.noSuchMethod_fair hb ?_)
    rw [String.utf8ByteSize_append, String.utf8ByteSize_append, String.utf8ByteSize_append]
    omega
  · refine brief_attempt hs' hf (OperandStack.popMany_brief hf.stack _) fun p hp => ?_
    refine brief_attempt hs' hf (Frame.forCall_brief hb hc hname hp.1 _) fun g hg => ?_
    exact Query.yields_done ⟨hs', hf.withStack hp.2, hg⟩

theorem invokeVirtual_brief (hb : b.Ample) (ht : ∀ x ∈ t.unit.texts, x.utf8ByteSize ≤ b.text)
    (hs : s.Brief b) (hf : f.Brief b) {name : String} (hname : name.utf8ByteSize ≤ b.text)
    (arity : Nat) : Brief b (invokeVirtual t s f name arity) := by
  refine brief_attempt hs hf (OperandStack.popMany_brief hf.stack _) fun p hp => ?_
  refine brief_attempt hs hf (OperandStack.popObject_brief hb hp.2) fun q hq => ?_
  refine brief_withClass hb ht hs hf hq.1.2 fun s' c hs' hc => ?_
  have harguments : ∀ v ∈ Value.object q.1.1 q.1.2 :: p.1, v.Brief b :=
    List.forall_mem_cons.2 ⟨hq.1, hp.1⟩
  refine brief_attempt hs' hf (Frame.forCall_brief hb hc hname harguments _) fun g hg => ?_
  exact Query.yields_done ⟨hs', hf.withStack hq.2, hg⟩

theorem throw_brief (hb : b.Ample) (hs : s.Brief b) (hf : f.Brief b) : Brief b (throw s f) := by
  refine brief_attempt hs hf (OperandStack.pop_brief hf.stack) fun ⟨v, stack⟩ hp => ?_
  dsimp only
  split
  · exact brief_raise hs hf (Exception.Brief.fair hp.1)
  · exact brief_raise hs hf (Exception.fair_of_short hb (by decide) (by decide))
  · have hv := v.typeName_le
    have hcannot : "cannot throw ".utf8ByteSize = 13 := by decide
    refine brief_raise hs hf (Exception.fair_of_short hb
      (by decide : "TypeError".utf8ByteSize ≤ 64) ?_)
    show ("cannot throw " ++ v.typeName).utf8ByteSize ≤ 64
    rw [String.utf8ByteSize_append]
    omega

theorem jumpOn_brief (hb : b.Ample) (hs : s.Brief b) (hf : f.Brief b) (wanted : Bool) (l : Label) :
    Brief b (jumpOn s f wanted l) := by
  refine brief_attempt hs hf (OperandStack.popBool_brief hb hf.stack) fun p hp => ?_
  have hf' := hf.withStack hp
  dsimp only
  split
  · exact brief_attempt hs hf' (Frame.jump_brief hf' l) fun g hg => brief_next hs hg
  · exact brief_next hs hf'

theorem Brief.wider {q : Query Outcome} (h : Brief b q) : Brief b.after q :=
  h.mono fun _ ho => ho.mono b.le_after

theorem new_brief (hb : b.Ample) (ht : ∀ x ∈ t.unit.texts, x.utf8ByteSize ≤ b.text) (hs : s.Brief b)
    (hf : f.Brief b) {className : String} (hclass : className.utf8ByteSize ≤ b.text) (thread : Nat) :
    Brief b.after (instruction t thread s f (.new className)) := by
  have hs' := TaskState.Brief.load (t := t) hs className
  have hf' := hf.mono b.le_after
  have hload := TaskState.load_brief (s := s) hb ht hclass
  refine brief_attempt (hs'.mono b.le_after) hf' (hload.mono b.le_after) fun c hc => ?_
  obtain ⟨hv, hheap⟩ := hs'.heap.newObject (hc _ List.mem_cons_self)
  exact brief_push hb.after ((hs'.mono b.le_after).withHeap hheap) hf' hf'.stack hv

/-- **An exception that is made from a value has what the value is printed as for its message.** -/
theorem newException_brief (hb : b.Ample) (hs : s.Brief b) (hf : f.Brief b) {kind : String}
    (hkind : kind.utf8ByteSize ≤ b.text) (thread : Nat) :
    Brief b.after (instruction t thread s f (.newException kind)) := by
  have hs' := hs.mono b.le_after
  have hf' := hf.mono b.le_after
  have hpop := (OperandStack.pop_brief hf.stack).mono b.le_after
  refine brief_attempt hs' hf' hpop fun ⟨v, stack⟩ hp => ?_
  have hmessage : (if v = .null then "" else v.shown).utf8ByteSize ≤ b.after.message := by
    split
    · exact Nat.zero_le _
    · exact hp.1.shown_le hb
  have hstack : stack.Brief b.after := fun w hw => (hp.2 w hw).mono b.le_after
  have hv : (s.heap.newException (.of kind (if v = .null then "" else v.shown))).1.Brief b.after :=
    ⟨hkind, hmessage⟩
  have hheap := hs'.heap.newException (.of kind (if v = .null then "" else v.shown))
  exact brief_push hb.after (hs'.withHeap hheap) hf' hstack hv

/-- **An instruction keeps to the limits, or to those for one object or exception more.** -/
theorem instruction_brief (hb : b.Ample) (ht : ∀ x ∈ t.unit.texts, x.utf8ByteSize ≤ b.text)
    (hs : s.Brief b) (hf : f.Brief b) (thread : Nat) {i : Instruction}
    (hi : ∀ x ∈ i.texts, x.utf8ByteSize ≤ b.text) :
    Brief b.after (instruction t thread s f i) := by
  have next (stack : OperandStack) (h : stack.Brief b) : Brief b (Step.next s (f.withStack stack)) :=
    brief_next hs (hf.withStack h)
  have push (stack : OperandStack) (v : Value) (h : stack.Brief b) (hv : v.Brief b) :
      Brief b (Step.push s f stack v) := brief_push hb hs hf h hv
  have pop := OperandStack.pop_brief hf.stack
  cases i with
  | new c => exact new_brief hb ht hs hf (hi c List.mem_cons_self) thread
  | newException kind => exact newException_brief hb hs hf (hi kind List.mem_cons_self) thread
  | label l => exact (brief_next hs hf).wider
  | lineNumber n l => exact (brief_next hs hf).wider
  | frame depth =>
    simp only [instruction]
    split
    · exact (brief_next hs hf).wider
    · refine (brief_raise hs hf ?_).wider
      exact Exception.fair_verifyError b _
  | push c =>
    have hc : ∀ x, c = .text x → x.utf8ByteSize ≤ b.text := by
      rintro x rfl
      exact hi x List.mem_cons_self
    exact (push _ _ hf.stack (Value.brief_ofConstant hc)).wider
  | load i =>
    exact (brief_attempt hs hf (Frame.load_brief hf i) fun v hv => push _ v hf.stack hv).wider
  | store i =>
    refine (brief_attempt hs hf pop fun p hp => ?_).wider
    exact brief_attempt hs hf (Frame.store_brief (hf.withStack hp.2) i hp.1) fun g hg =>
      brief_next hs hg
  | binary op =>
    refine (brief_attempt hs hf pop fun p hp => ?_).wider
    refine brief_attempt hs hf (OperandStack.pop_brief hp.2) fun q hq => ?_
    exact brief_attempt hs hf (op.apply_brief hb q.1 p.1) fun v hv => push _ v hq.2 hv
  | neg =>
    exact (brief_attempt hs hf (OperandStack.popInt_brief hb hf.stack) fun p hp =>
      push p.2 (.int (-p.1)) hp trivial).wider
  | not =>
    exact (brief_attempt hs hf (OperandStack.popBool_brief hb hf.stack) fun p hp =>
      push p.2 (.bool (!p.1)) hp trivial).wider
  | dup =>
    refine (brief_attempt hs hf pop fun p hp => ?_).wider
    exact brief_attempt hs hf (OperandStack.push_brief hb hp.2 hp.1) fun stack h => push _ _ h hp.1
  | pop => exact (brief_attempt hs hf pop fun p hp => next _ hp.2).wider
  | swap =>
    refine (brief_attempt hs hf pop fun p hp => ?_).wider
    refine brief_attempt hs hf (OperandStack.pop_brief hp.2) fun q hq => ?_
    exact brief_attempt hs hf (OperandStack.push_brief hb hq.2 hp.1) fun stack h => push _ _ h hq.1
  | jump l => exact (brief_attempt hs hf (Frame.jump_brief hf l) fun g hg => brief_next hs hg).wider
  | jumpIf l => exact (jumpOn_brief hb hs hf true l).wider
  | jumpIfNot l => exact (jumpOn_brief hb hs hf false l).wider
  | invokeStatic c m =>
    have hm : m ∈ (Instruction.invokeStatic c m).texts := by simp [Instruction.texts]
    exact (invokeStatic_brief hb ht hs hf (hi c List.mem_cons_self) (hi m hm)).wider
  | invokeVirtual m n => exact (invokeVirtual_brief hb ht hs hf (hi m List.mem_cons_self) _).wider
  | getField field =>
    refine (brief_attempt hs hf (OperandStack.popObject_brief hb hf.stack) fun p hp => ?_).wider
    exact push _ _ hp.2 (hs.heap.get _ field)
  | putField field =>
    refine (brief_attempt hs hf pop fun p hp => ?_).wider
    refine brief_attempt hs hf (OperandStack.popObject_brief hb hp.2) fun q hq => ?_
    exact brief_next ⟨hs.heap.set _ field hp.1, hs.recordings⟩ (hf.withStack hq.2)
  | throw => exact (throw_brief hb hs hf).wider
  | ret => exact (brief_ret hs none (by simp)).wider
  | retValue =>
    refine (brief_attempt hs hf pop fun p hp => brief_ret hs (some p.1) ?_).wider
    rintro w ⟨⟩
    exact hp.1
  | host c => exact (host_brief hb ht hs hf thread c).wider
  | hook tracer name operands => exact (hook_brief hb hs hf thread tracer name operands).wider

theorem frame_brief (hb : b.Ample) (ht : ∀ x ∈ t.unit.texts, x.utf8ByteSize ≤ b.text) (hs : s.Brief b)
    (hf : f.Brief b) (thread : Nat) : Brief b.after (frame t thread s f) := by
  unfold frame
  split
  · exact (brief_ret hs none (by simp)).wider
  · next i hi =>
    have hf' : Frame.Brief b { f with next := f.next + 1 } := ⟨hf.locals, hf.stack, hf.code⟩
    exact instruction_brief hb ht hs hf' thread (hf.code i (Array.mem_of_getElem? hi))

end Step

/-! ### Turns -/

def Progress.Brief (b : Limits) : Progress → Prop
  | .running s frames => s.Brief b ∧ ∀ f ∈ frames, f.Brief b
  | .waiting s frames _ => s.Brief b ∧ ∀ f ∈ frames, f.Brief b
  | .ended s r => s.Brief b ∧ ∀ v, r = .ok v → v.Brief b

namespace Activation

variable {t : Task} {b : Limits} {s : TaskState} {frames : List Frame}

theorem findHandler?_brief (h : ∀ f ∈ frames, f.Brief b) {kind : String} {f : Frame}
    {handler : LinkedHandler} {outer : List Frame}
    (hh : findHandler? kind frames = some (f, handler, outer)) : ∀ g ∈ f :: outer, g.Brief b :=
  fun g hg => h g ((findHandler?_suffix hh).subset hg)

/-- An exception that a handler takes keeps to the limits. -/
theorem unwind_brief (hs : s.Brief b) (h : ∀ f ∈ frames, f.Brief b) {r : Raised}
    (hr : r.exception.Fair b) : (unwind t s frames r).Brief b := by
  unfold unwind
  dsimp only
  split
  · exact ⟨hs, nofun⟩
  · next hfatal =>
    have hbrief : r.exception.Brief b := by
      refine hr (Bool.eq_false_iff.2 fun hu => hfatal ?_)
      rw [isFatal, hu, Bool.true_or]
    split
    · next f handler outer hh =>
      have hframes := List.forall_mem_cons.1 (findHandler?_brief h hh)
      cases r with
      | fresh e =>
        exact ⟨hs.withHeap (hs.heap.newException e),
          List.forall_mem_cons.2 ⟨hframes.1.enter handler hbrief, hframes.2⟩⟩
      | value id e => exact ⟨hs, List.forall_mem_cons.2 ⟨hframes.1.enter handler hbrief, hframes.2⟩⟩
    · exact ⟨hs, nofun⟩

theorem enter_brief (hb : b.Ample) (hs : s.Brief b) (h : ∀ f ∈ frames, f.Brief b) {callee : Frame}
    (hcallee : callee.Brief b) : (enter t s callee frames).Brief b := by
  unfold enter
  split
  · exact unwind_brief hs h (Exception.fair_of_short hb (by decide) (by decide))
  · exact ⟨hs, List.forall_mem_cons.2 ⟨hcallee, h⟩⟩

theorem leave_brief (hs : s.Brief b) (h : ∀ f ∈ frames, f.Brief b) {v : Option Value}
    (hv : ∀ w ∈ v, w.Brief b) : (leave s v frames).Brief b := by
  cases frames with
  | nil =>
    refine ⟨hs, fun w hw => ?_⟩
    rw [← Except.ok.inj hw]
    cases v with
    | none => trivial
    | some w => exact hv w rfl
  | cons f outer =>
    rw [List.forall_mem_cons] at h
    cases v with
    | none => exact ⟨hs, List.forall_mem_cons.2 h⟩
    | some w =>
      have hf := h.1.withStack (OperandStack.brief_add_iff.2 ⟨hv w rfl, h.1.stack⟩)
      exact ⟨hs, List.forall_mem_cons.2 ⟨hf, h.2⟩⟩

theorem finish_brief (hb : b.Ample) (h : ∀ f ∈ frames, f.Brief b) {o : Outcome} (ho : o.Brief b) :
    (finish t frames o).Brief b := by
  cases o with
  | next s f => exact ⟨ho.1, List.forall_mem_cons.2 ⟨ho.2, h⟩⟩
  | call s f callee => exact enter_brief hb ho.1 (List.forall_mem_cons.2 ⟨ho.2.1, h⟩) ho.2.2
  | ret s v => exact leave_brief ho.1 h ho.2
  | raise s f r => exact unwind_brief ho.1 (List.forall_mem_cons.2 ⟨ho.2.1, h⟩) ho.2.2
  | fault s e => exact ⟨ho, nofun⟩
  | wait s f w => exact ⟨ho.1, List.forall_mem_cons.2 ⟨ho.2, h⟩⟩

theorem step_brief (hb : b.Ample) (ht : ∀ x ∈ t.unit.texts, x.utf8ByteSize ≤ b.text) (hs : s.Brief b)
    (h : ∀ f ∈ frames, f.Brief b) (thread : Nat) :
    (step t thread s frames).Yields b.text (Progress.Brief b.after) := by
  have hs' := hs.mono b.le_after
  unfold step
  split
  · exact Query.yields_done ⟨hs', nofun⟩
  · split
    · refine Query.yields_done ⟨hs', fun v hv => ?_⟩
      rw [← Except.ok.inj hv]
      trivial
    · next f outer =>
      rw [List.forall_mem_cons] at h
      have houter : ∀ g ∈ outer, g.Brief b.after := fun g hg => (h.2 g hg).mono b.le_after
      exact (Step.frame_brief hb ht hs h.1 thread).map fun o ho => finish_brief hb.after houter ho

/-- A call from outside keeps to the limits that its arguments keep to. -/
theorem start_brief (ht : ∀ x ∈ t.unit.texts, x.utf8ByteSize ≤ b.text) (hs : s.Brief b)
    (className methodName : String) {arguments : List Value} (harguments : ∀ v ∈ arguments, v.Brief b) :
    (start t s className methodName arguments).2.Brief b ∧
      ∀ f, (start t s className methodName arguments).1 = .ok f → f.Brief b := by
  refine ⟨TaskState.Brief.load hs className, fun f hf => ?_⟩
  unfold start at hf
  cases hl : (s.load t className).1 with
  | error e => simp [hl, Except.mapError, bind, Except.bind] at hf
  | ok c =>
    have hc := (TaskState.offers_of_load hl).brief ht
    cases hcall : Frame.forCall c methodName arguments none with
    | error e => simp [hl, hcall, Except.mapError, bind, Except.bind] at hf
    | ok g =>
      have hg : g = f := by simpa [hl, hcall, Except.mapError, bind, Except.bind] using hf
      exact hg ▸ Frame.brief_of_forCall hc harguments hcall

end Activation

/-- The value that a thread ends with, if it has returned. -/
def Turn.returned? : Turn → Option Value
  | .ended _ (.ok v) => some v
  | _ => none

structure Turn.Brief (b : Limits) (u : Turn) : Prop where
  shared : u.shared.Brief b
  frames : ∀ f ∈ u.frames, f.Brief b
  returned : ∀ v ∈ u.returned?, v.Brief b

theorem Turn.brief_ofProgress {b : Limits} {p : Progress} (h : p.Brief b) (now : Nat) :
    (Turn.ofProgress now p).Brief b := by
  have noValue : ∀ v ∈ (none : Option Value), v.Brief b := nofun
  cases p with
  | running s frames => exact ⟨h.1, h.2, noValue⟩
  | waiting s frames w => cases w <;> exact ⟨h.1, h.2, noValue⟩
  | ended s r =>
    refine ⟨h.1, List.forall_mem_nil _, fun v hv => ?_⟩
    cases r with
    | error e => cases hv
    | ok w => exact h.2 v (congrArg Except.ok (Option.some.inj hv))

/-- **A turn of a thread keeps to the limits for one object or exception more.** -/
theorem Activity.turn_brief {t : Task} {b : Limits} {s : TaskState} {a : Activity} (hb : b.Ample)
    (ht : ∀ x ∈ t.unit.texts, x.utf8ByteSize ≤ b.text) (hs : s.Brief b) (ha : ∀ f ∈ a.frames, f.Brief b)
    (thread now : Nat) : (a.turn t thread now s).Yields b.text (Turn.Brief b.after) := by
  have noValue : ∀ v ∈ (none : Option Value), v.Brief b.after := nofun
  have hs' := hs.mono b.le_after
  have ha' : ∀ f ∈ a.frames, f.Brief b.after := fun f hf => (ha f hf).mono b.le_after
  cases a with
  | starting c m =>
    obtain ⟨hstart, hframe⟩ := Activation.start_brief ht hs c m (List.forall_mem_nil _)
    simp only [turn]
    split
    · next f hf =>
      refine Query.yields_done ⟨hstart.mono b.le_after, fun g hg => ?_, noValue⟩
      rw [List.mem_singleton.1 hg]
      exact (hframe f hf).mono b.le_after
    · exact Query.yields_done ⟨hstart.mono b.le_after, List.forall_mem_nil _, noValue⟩
  | running frames =>
    exact (Activation.step_brief hb ht hs ha thread).map fun p hp => Turn.brief_ofProgress hp now
  | sleeping frames wake =>
    simp only [turn]
    split
    · exact Query.yields_done ⟨hs', List.forall_mem_nil _, noValue⟩
    · split <;> exact Query.yields_done ⟨hs', ha', noValue⟩
  | joining frames index =>
    simp only [turn]
    split
    · exact Query.yields_done ⟨hs', ha', noValue⟩
    · split
      · exact Query.yields_done ⟨hs', List.forall_mem_nil _, noValue⟩
      · exact Query.yields_done ⟨hs', ha', noValue⟩

end Confine
