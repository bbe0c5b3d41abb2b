import Confine.Proofs.Machine.Footprint
import Confine.Proofs.Tracing.Counterpart
import Confine.Proofs.Tracing.Quiet

/-!
# Instructions with and without tracers

Two tasks whose units differ in hooks only run the same instruction alike: they ask the host the same, and with the
same answers they change the shared state alike (`TaskState.Alike`), call frames that shadow each other, and raise
the same exceptions.

* `Step.instruction_alike` — one instruction, for frames right behind it;
* `Activation.step_alike` — a step of all frames, where no extra hook comes next;
* `Activation.step_of_extra` — an extra hook only records.
-/

namespace Confine

/-! ### States -/

/-- **Two states differ in what has been recorded only**, and no tracer interrupts. -/
inductive TaskState.Alike (s : TaskState) : TaskState → Prop where
  | mk {recordings : Recordings} (h : s.recordings.Quiet) (h' : recordings.Quiet) :
      Alike s { s with recordings := recordings }

theorem TaskState.Alike.quiet {s s' : TaskState} (h : s.Alike s') : s.recordings.Quiet ∧ s'.recordings.Quiet := by
  cases h with
  | mk hq hq' => exact ⟨hq, hq'⟩

theorem TaskState.Alike.cancelled_eq {s s' : TaskState} (h : s.Alike s') : s'.cancelled = s.cancelled := by
  cases h with
  | mk _ _ => rfl

/-- Two tasks are about units that differ in hooks only. -/
structure Task.Counterpart (t t' : Task) : Prop where
  unit : t.unit.Counterpart t'.unit
  capability : t'.capability = t.capability
  maxExtraThreads : t'.maxExtraThreads = t.maxExtraThreads

namespace TaskState.Alike

variable {t t' : Task} {s s' : TaskState}

theorem heap (h : s.Alike s') : s'.heap = s.heap := by cases h; rfl

theorem withHeap (h : s.Alike s') (heap : Heap) :
    TaskState.Alike { s with heap := heap } { s' with heap := heap } := by
  cases h with
  | mk h h' => exact .mk h h'

theorem record (h : s.Alike s') (ht : t.Counterpart t') (p : Permission) (granted : Bool) :
    (s.record t p granted).Alike (s'.record t' p granted) := by
  cases h with
  | mk h h' =>
    unfold TaskState.record
    rw [ht.capability]
    exact .mk h h'

theorem check (h : s.Alike s') (ht : t.Counterpart t') (p : Permission) :
    (s'.check t' p).1 = (s.check t p).1 ∧ (s.check t p).2.Alike (s'.check t' p).2 := by
  cases h with
  | mk h h' =>
    unfold TaskState.check
    rw [ht.capability]
    exact ⟨rfl, .mk h h'⟩

theorem load (h : s.Alike s') (ht : t.Counterpart t') (name : String) :
    Agree LinkedClass.Aligned (s.load t name).1 (s'.load t' name).1 ∧
      (s.load t name).2.Alike (s'.load t' name).2 := by
  cases h with
  | @mk recordings h h' =>
    obtain ⟨hl, hs⟩ := ht.unit.loadClass s.classSets name (some t.capability) s.confinements
    unfold TaskState.load
    dsimp only
    rw [ht.capability, hs]
    generalize (t.unit.loadClass s.classSets name (some t.capability) s.confinements).1 = r at hl
    generalize (t'.unit.loadClass s.classSets name (some t.capability) s.confinements).1 = r'
      at hl
    cases hl with
    | @ok p p' hp =>
      obtain ⟨c, sets⟩ := p
      obtain ⟨c', sets'⟩ := p'
      obtain ⟨hc, rfl⟩ := hp
      exact ⟨.ok hc, .mk h h'⟩
    | error e => exact ⟨.error _, .mk h h'⟩

theorem write (h : s.Alike s') (c : Console) (text : String) (thread : Nat)
    (now : Time.Timestamp) : (s.write c text thread now).Alike (s'.write c text thread now) := by
  cases h with
  | mk h h' => exact .mk h h'

theorem spawn (h : s.Alike s') (ht : t.Counterpart t') (className methodName : String) :
    (s'.spawn t' className methodName).1 = (s.spawn t className methodName).1 ∧
      (s.spawn t className methodName).2.Alike (s'.spawn t' className methodName).2 := by
  cases h with
  | mk h h' =>
    unfold TaskState.spawn TaskState.liveThreads TaskState.record
    rw [ht.capability, ht.maxExtraThreads]
    dsimp only
    split
    · exact ⟨rfl, .mk h h'⟩
    · split
      · exact ⟨rfl, .mk h h'⟩
      · exact ⟨rfl, .mk h h'⟩

theorem onHook (h : s.Alike s') (tracer tracer' : String) (call call' : HookCall)
    (thread : Nat) :
    TaskState.Alike { s with recordings := (s.recordings.onHook tracer call thread).2 }
      { s' with recordings := (s'.recordings.onHook tracer' call' thread).2 } := by
  cases h with
  | mk h h' => exact .mk (h.onHook tracer call thread).2 (h'.onHook tracer' call' thread).2

end TaskState.Alike

/-! ### Ends of instructions -/

/-- What two instructions come to is alike. -/
inductive Outcome.Alike : Outcome → Outcome → Prop where
  | next {s s' : TaskState} {f f' : Frame} (hs : s.Alike s') (hf : f.Shadow f') :
      Alike (.next s f) (.next s' f')
  | call {s s' : TaskState} {f f' g g' : Frame} (hs : s.Alike s') (hf : f.Behind f')
      (hg : g.Shadow g') : Alike (.call s f g) (.call s' f' g')
  | ret {s s' : TaskState} (hs : s.Alike s') (v : Option Value) : Alike (.ret s v) (.ret s' v)
  | raise {s s' : TaskState} {f f' : Frame} (hs : s.Alike s') (hf : f.Behind f') (r : Raised) :
      Alike (.raise s f r) (.raise s' f' r)
  | fault {s s' : TaskState} (hs : s.Alike s') (e : Fault) : Alike (.fault s e) (.fault s' e)
  | wait {s s' : TaskState} {f f' : Frame} (hs : s.Alike s') (hf : f.Shadow f') (w : Wait) :
      Alike (.wait s f w) (.wait s' f' w)

namespace Step

variable {α β : Type} {t t' : Task} {s s' : TaskState} {f f' : Frame}

/-- The rest of two instructions asks the same, and comes to ends that are alike. -/
abbrev Alike (q q' : Query Outcome) : Prop := Query.Rel Outcome.Alike q q'

theorem alike_next (hs : s.Alike s') (hf : f.Shadow f') : Alike (next s f) (next s' f') :=
  .done (.next hs hf)

theorem alike_raise (hs : s.Alike s') (hf : f.Behind f') (r : Raised) :
    Alike (raise s f r) (raise s' f' r) := .done (.raise hs hf r)

theorem alike_fault (hs : s.Alike s') (e : Fault) : Alike (fault s e) (fault s' e) :=
  .done (.fault hs e)

theorem alike_wait (hs : s.Alike s') (hf : f.Shadow f') (w : Wait) :
    Alike (wait s f w) (wait s' f' w) := .done (.wait hs hf w)

theorem alike_attempt_of_agree (hs : s.Alike s') (hf : f.Behind f') {R : α → β → Prop}
    {r : Except Exception α} {r' : Except Exception β} (hr : Agree R r r')
    {k : α → Query Outcome} {k' : β → Query Outcome} (hk : ∀ a b, R a b → Alike (k a) (k' b)) :
    Alike (attempt s f r k) (attempt s' f' r' k') := by
  cases hr with
  | ok h => exact hk _ _ h
  | error e => exact alike_raise hs hf _

theorem alike_attempt (hs : s.Alike s') (hf : f.Behind f') (r : Except Exception α)
    {k k' : α → Query Outcome} (hk : ∀ a, Alike (k a) (k' a)) :
    Alike (attempt s f r k) (attempt s' f' r k') := by
  cases r with
  | ok a => exact hk a
  | error e => exact alike_raise hs hf _

theorem alike_push (hs : s.Alike s') (hf : f.Behind f') (stack : OperandStack) (v : Value) :
    Alike (push s f stack v) (push s' f' stack v) :=
  alike_attempt hs hf _ fun stack => alike_next hs (hf.withStack stack).shadow

theorem alike_require (ht : t.Counterpart t') (hs : s.Alike s') (p : Permission)
    {k k' : TaskState → Query Outcome} (hk : ∀ s s', s.Alike s' → Alike (k s) (k' s')) :
    Alike (require t s p k) (require t' s' p k') := by
  obtain ⟨hgranted, hs⟩ := hs.check ht p
  unfold require
  dsimp only
  rw [hgranted]
  split
  · exact hk _ _ hs
  · exact alike_fault hs _

theorem alike_withClass (ht : t.Counterpart t') (hs : s.Alike s') (hf : f.Behind f')
    (name : String) {k k' : TaskState → LinkedClass → Query Outcome}
    (hk : ∀ s s' c c', s.Alike s' → c.Aligned c' → Alike (k s c) (k' s' c')) :
    Alike (withClass t s f name k) (withClass t' s' f' name k') := by
  obtain ⟨hl, hs⟩ := hs.load ht name
  exact alike_attempt_of_agree hs hf hl fun c c' hc => hk _ _ _ _ hs hc

/-! ### Host calls -/

theorem alike_writeText (hs : s.Alike s') (hf : f.Behind f') (thread : Nat) (c : Console)
    (newline : Bool) : Alike (writeText s f thread c newline) (writeText s' f' thread c newline) := by
  unfold writeText
  rw [hf.stack]
  refine alike_attempt hs hf _ fun p => .ask fun now => ?_
  exact alike_next (hs.write _ _ _ _) (hf.withStack _).shadow

/-- A program that reads the text of a class would see its hooks; any other path is refused. -/
theorem alike_readFile (ht : t.Counterpart t') (hs : s.Alike s') (hf : f.Behind f')
    (hread : ∀ path stack, f.stack.popText = .ok (path, stack) → t.unit.classFile? path = none) :
    Alike (readFile t s f) (readFile t' s' f') := by
  unfold readFile
  rw [hf.stack]
  cases hp : f.stack.popText with
  | error e => exact alike_raise hs hf _
  | ok p =>
    have hnone := hread p.1 p.2 hp
    simp only [attempt, hnone, ht.unit.classFile?_eq_none hnone]
    exact alike_fault (hs.record ht _ _) _

theorem alike_writeFile (ht : t.Counterpart t') (hs : s.Alike s') (hf : f.Behind f') :
    Alike (writeFile t s f) (writeFile t' s' f') := by
  unfold writeFile
  rw [hf.stack]
  refine alike_attempt hs hf _ fun p => alike_attempt hs hf _ fun p' => ?_
  refine alike_require ht hs _ fun s s' hs => .ask fun
    | .ok () => alike_next hs (hf.withStack _).shadow
    | .error message => alike_raise hs hf _

theorem alike_getEnv (ht : t.Counterpart t') (hs : s.Alike s') (hf : f.Behind f') :
    Alike (getEnv t s f) (getEnv t' s' f') := by
  unfold getEnv
  rw [hf.stack]
  refine alike_attempt hs hf _ fun p => alike_require ht hs _ fun s s' hs => .ask fun text => ?_
  exact alike_push hs hf _ _

theorem alike_getProperty (ht : t.Counterpart t') (hs : s.Alike s') (hf : f.Behind f') :
    Alike (getProperty t s f) (getProperty t' s' f') := by
  unfold getProperty
  rw [hf.stack]
  refine alike_attempt hs hf _ fun p => alike_require ht hs _ fun s s' hs => ?_
  by_cases hn : p.1 = "user.dir"
  · simp only [hn, if_true]
    exact .ask fun dir => alike_push hs hf _ _
  · simp only [hn, if_false]
    exact alike_push hs hf _ _

theorem alike_exit (ht : t.Counterpart t') (hs : s.Alike s') (hf : f.Behind f') :
    Alike (exit t s f) (exit t' s' f') := by
  unfold exit
  rw [hf.stack]
  refine alike_attempt hs hf _ fun p => alike_require ht hs _ fun s s' hs => ?_
  exact alike_next hs (hf.withStack _).shadow

theorem alike_spawn (ht : t.Counterpart t') (hs : s.Alike s') (hf : f.Behind f')
    (className methodName : String) :
    Alike (spawn t s f className methodName) (spawn t' s' f' className methodName) := by
  obtain ⟨hstarted, hs⟩ := hs.spawn ht className methodName
  unfold spawn
  dsimp only
  rw [hstarted, hf.stack]
  split
  · exact alike_push hs hf _ _
  · exact alike_fault hs _

theorem alike_join (hs : s.Alike s') (hf : f.Behind f') : Alike (join s f) (join s' f') := by
  have hjoinable : ∀ index, s'.joinable index = s.joinable index := by
    cases hs
    exact fun _ => rfl
  unfold join
  rw [hf.stack]
  refine alike_attempt hs hf _ fun p => ?_
  dsimp only
  split
  · exact alike_raise hs hf _
  · rw [hjoinable]
    split
    · exact alike_wait hs (hf.withStack _).shadow _
    · exact alike_raise hs hf _

theorem alike_sleep (hs : s.Alike s') (hf : f.Behind f') : Alike (sleep s f) (sleep s' f') := by
  unfold sleep
  rw [hf.stack]
  refine alike_attempt hs hf _ fun p => ?_
  dsimp only
  split
  · exact alike_raise hs hf _
  · exact alike_wait hs (hf.withStack _).shadow _

theorem alike_loadClass (ht : t.Counterpart t') (hs : s.Alike s') (hf : f.Behind f') :
    Alike (loadClass t s f) (loadClass t' s' f') := by
  unfold loadClass
  rw [hf.stack]
  refine alike_attempt hs hf _ fun p => alike_withClass ht hs hf _ fun s s' c c' hs hc => ?_
  rw [hc.name]
  exact alike_push hs hf _ _

theorem alike_host (ht : t.Counterpart t') (hs : s.Alike s') (hf : f.Behind f') (thread : Nat)
    (c : HostCall) (hread : c = .readFile → ∀ path stack,
      f.stack.popText = .ok (path, stack) → t.unit.classFile? path = none) :
    Alike (host t thread s f c) (host t' thread s' f' c) := by
  cases c with
  | print => exact alike_writeText hs hf ..
  | println => exact alike_writeText hs hf ..
  | eprint => exact alike_writeText hs hf ..
  | eprintln => exact alike_writeText hs hf ..
  | readFile => exact alike_readFile ht hs hf (hread rfl)
  | writeFile => exact alike_writeFile ht hs hf
  | getEnv => exact alike_getEnv ht hs hf
  | getProperty => exact alike_getProperty ht hs hf
  | exit => exact alike_exit ht hs hf
  | setStreams => exact alike_require ht hs _ fun s s' hs => alike_next hs hf.shadow
  | spawn c m => exact alike_spawn ht hs hf c m
  | join => exact alike_join hs hf
  | sleep => exact alike_sleep hs hf
  | time =>
    refine .ask fun now => ?_
    rw [hf.stack]
    exact alike_push hs hf _ _
  | loadClass => exact alike_loadClass ht hs hf

/-! ### Other instructions -/

/-- Calls into tracers only record, whatever tracers there are. -/
theorem alike_hook (hs : s.Alike s') (hf : f.Shadow f') (thread : Nat) (tracer tracer' : String)
    (name name' : String) (operands operands' : List HookOperand) :
    Alike (hook thread s f tracer name operands) (hook thread s' f' tracer' name' operands') := by
  have hquiet : s.recordings.Quiet ∧ s'.recordings.Quiet := by
    cases hs with
    | mk h h' => exact ⟨h, h'⟩
  unfold hook
  dsimp only
  rw [(hquiet.1.onHook tracer _ thread).1, (hquiet.2.onHook tracer' _ thread).1]
  exact alike_next (hs.onHook _ _ _ _ _) hf

theorem alike_invokeStatic (ht : t.Counterpart t') (hs : s.Alike s') (hf : f.Behind f')
    (className name : String) :
    Alike (invokeStatic t s f className name) (invokeStatic t' s' f' className name) := by
  refine alike_withClass ht hs hf _ fun s s' c c' hs hc => ?_
  have hrel := hc.method?_rel name
  dsimp only
  generalize c.method? name = o at hrel
  generalize c'.method? name = o' at hrel
  cases hrel with
  | none => exact alike_raise hs hf _
  | @some m m' hm =>
    obtain ⟨A⟩ := hm
    have hstatic : m'.method.isStatic = m.method.isStatic := by rw [A.method]
    have hparams : m'.method.params = m.method.params := by rw [A.method]
    simp only [Option.filter_some, hstatic]
    by_cases hb : m.method.isStatic = true
    · simp only [hb, if_true, hparams, hf.stack]
      refine alike_attempt hs hf _ fun p => ?_
      refine alike_attempt_of_agree hs hf (hc.forCall_agree _ _ _) fun g g' hg => ?_
      exact .done (.call hs (hf.withStack _) hg)
    · simp only [hb]
      exact alike_raise hs hf _

theorem alike_invokeVirtual (ht : t.Counterpart t') (hs : s.Alike s') (hf : f.Behind f')
    (name : String) (arity : Nat) :
    Alike (invokeVirtual t s f name arity) (invokeVirtual t' s' f' name arity) := by
  unfold invokeVirtual
  rw [hf.stack]
  refine alike_attempt hs hf _ fun p => alike_attempt hs hf _ fun p' => ?_
  refine alike_withClass ht hs hf _ fun s s' c c' hs hc => ?_
  refine alike_attempt_of_agree hs hf (hc.forCall_agree _ _ _) fun g g' hg => ?_
  exact .done (.call hs (hf.withStack _) hg)

theorem alike_throw (hs : s.Alike s') (hf : f.Behind f') : Alike (throw s f) (throw s' f') := by
  unfold throw
  rw [hf.stack]
  refine alike_attempt hs hf _ fun p => ?_
  dsimp only
  split <;> exact alike_raise hs hf _

theorem jump_agree (hf : f.Behind f') (l : Label) : Agree Frame.Shadow (f.jump l) (f'.jump l) := by
  obtain ⟨A, -⟩ := hf.place
  unfold Frame.jump
  rw [A.place?]
  cases f'.method.place? l with
  | none => exact .error _
  | some place => exact .ok ⟨⟨hf.className, hf.locals, hf.stack⟩, A, rfl⟩

theorem store_agree (hf : f.Behind f') (i : UInt16) (v : Value) :
    Agree Frame.Behind (f.store i v) (f'.store i v) := by
  unfold Frame.store
  rw [hf.locals]
  split
  · exact .ok ⟨⟨hf.className, rfl, hf.stack⟩, hf.place⟩
  · exact .error _

theorem alike_jumpOn (hs : s.Alike s') (hf : f.Behind f') (wanted : Bool) (l : Label) :
    Alike (jumpOn s f wanted l) (jumpOn s' f' wanted l) := by
  unfold jumpOn
  rw [hf.stack]
  refine alike_attempt hs hf _ fun p => ?_
  have hf' := hf.withStack p.2
  dsimp only
  split
  · exact alike_attempt_of_agree hs hf' (jump_agree hf' l) fun g g' hg => alike_next hs hg
  · exact alike_next hs hf'.shadow

/-- **One instruction with and without tracers.** -/
theorem instruction_alike (ht : t.Counterpart t') (hs : s.Alike s') (hf : f.Behind f')
    (thread : Nat) (i : Instruction) (hread : i = .host .readFile → ∀ path stack,
      f.stack.popText = .ok (path, stack) → t.unit.classFile? path = none) :
    Alike (instruction t thread s f i) (instruction t' thread s' f' i) := by
  have pushes : ∀ stack v, Alike (push s f stack v) (push s' f' stack v) := alike_push hs hf
  have goes : ∀ stack, Alike (next s (f.withStack stack)) (next s' (f'.withStack stack)) :=
    fun stack => alike_next hs (hf.withStack stack).shadow
  have tries : ∀ {α : Type} (r : Except Exception α) {k k' : α → Query Outcome},
      (∀ a, Alike (k a) (k' a)) → Alike (attempt s f r k) (attempt s' f' r k') :=
    fun r => alike_attempt hs hf r
  unfold instruction
  rw [hf.stack]
  cases i with
  | label l => exact alike_next hs hf.shadow
  | lineNumber n l => exact alike_next hs hf.shadow
  | frame depth =>
    by_cases hd : f.stack.size = depth.toNat
    · simp only [hd, if_true]
      exact alike_next hs hf.shadow
    · simp only [hd, if_false]
      exact alike_raise hs hf _
  | push c => exact pushes _ _
  | load i =>
    dsimp only
    rw [hf.load]
    exact tries _ fun v => pushes _ _
  | store i =>
    refine tries _ fun p => ?_
    exact alike_attempt_of_agree hs hf (store_agree (hf.withStack _) i _) fun g g' hg =>
      alike_next hs hg.shadow
  | binary op => exact tries _ fun _ => tries _ fun _ => tries _ fun _ => pushes _ _
  | neg => exact tries _ fun _ => pushes _ _
  | not => exact tries _ fun _ => pushes _ _
  | dup => exact tries _ fun _ => tries _ fun _ => pushes _ _
  | pop => exact tries _ fun _ => goes _
  | swap => exact tries _ fun _ => tries _ fun _ => tries _ fun _ => pushes _ _
  | jump l => exact alike_attempt_of_agree hs hf (jump_agree hf l) fun g g' hg => alike_next hs hg
  | jumpIf l => exact alike_jumpOn hs hf true l
  | jumpIfNot l => exact alike_jumpOn hs hf false l
  | invokeStatic c m => exact alike_invokeStatic ht hs hf c m
  | invokeVirtual m n => exact alike_invokeVirtual ht hs hf m n.toNat
  | new c =>
    refine alike_withClass ht hs hf _ fun s s' c c' hs hc => ?_
    rw [hc.name, hs.heap]
    exact alike_push (hs.withHeap _) hf _ _
  | getField field =>
    dsimp only
    rw [hs.heap]
    exact tries _ fun _ => pushes _ _
  | putField field =>
    dsimp only
    rw [hs.heap]
    refine tries _ fun _ => tries _ fun _ => ?_
    exact alike_next (hs.withHeap _) (hf.withStack _).shadow
  | newException kind =>
    dsimp only
    rw [hs.heap]
    exact tries _ fun _ => alike_push (hs.withHeap _) hf _ _
  | throw => exact alike_throw hs hf
  | ret => exact .done (.ret hs none)
  | retValue => exact tries _ fun p => .done (.ret hs (some p.1))
  | host c =>
    exact alike_host ht hs hf thread c fun hc => hread (congrArg Instruction.host hc)
  | hook tracer name operands => exact alike_hook hs hf.shadow thread ..

end Step

/-! ### Frames of a thread -/

/-- The innermost frames shadow each other; the frames outside wait behind calls that they share. -/
inductive ShadowStack : List Frame → List Frame → Prop where
  | nil : ShadowStack [] []
  | cons {f f' : Frame} {outer outer' : List Frame} (hf : f.Shadow f')
      (ho : List.Forall₂ Frame.Behind outer outer') : ShadowStack (f :: outer) (f' :: outer')

/-- What two steps come to is alike. -/
inductive Progress.Alike : Progress → Progress → Prop where
  | running {s s' : TaskState} {frames frames' : List Frame} (hs : s.Alike s')
      (hf : ShadowStack frames frames') : Alike (.running s frames) (.running s' frames')
  | waiting {s s' : TaskState} {frames frames' : List Frame} (hs : s.Alike s')
      (hf : ShadowStack frames frames') (w : Wait) :
      Alike (.waiting s frames w) (.waiting s' frames' w)
  | ended {s s' : TaskState} (hs : s.Alike s') (r : Except Fault Value) :
      Alike (.ended s r) (.ended s' r)

/-- What the frames read next, if they read a file, is no class file of the unit. -/
def Task.ReadsNoClass (t : Task) (frames : List Frame) : Prop :=
  ∀ f ∈ frames.head?, f.method.code[f.next]? = some (.host .readFile) →
    ∀ path stack, f.stack.popText = .ok (path, stack) → t.unit.classFile? path = none

namespace Activation

variable {t t' : Task} {s s' : TaskState} {frames frames' : List Frame}

/-- The same handler of the same frame takes an exception. -/
theorem findHandler?_rel (h : List.Forall₂ Frame.Behind frames frames') (kind : String) :
    Option.Rel (fun x x' : Frame × LinkedHandler × List Frame =>
        (∀ v, (x.1.enter x.2.1 v).Shadow (x'.1.enter x'.2.1 v)) ∧
          List.Forall₂ Frame.Behind x.2.2 x'.2.2)
      (findHandler? kind frames) (findHandler? kind frames') := by
  induction h with
  | nil => exact .none
  | @cons f f' outer outer' hf ho ih =>
    have hrel := hf.handler?_rel kind
    unfold findHandler?
    generalize f.handler? kind = o at hrel
    generalize f'.handler? kind = o' at hrel
    cases hrel with
    | none => exact ih
    | some hr => exact .some ⟨hr, ho⟩

theorem unwind_alike (ht : t.Counterpart t') (hs : s.Alike s')
    (hf : List.Forall₂ Frame.Behind frames frames') (r : Raised) :
    (unwind t s frames r).Alike (unwind t' s' frames' r) := by
  have hfatal : ∀ e, isFatal t' e = isFatal t e := fun e => by
    rw [isFatal, isFatal, ht.unit.policy]
  have hvalue : (raisedValue s' r).1 = (raisedValue s r).1 ∧
      (raisedValue s r).2.Alike (raisedValue s' r).2 := by
    cases r with
    | value id e => exact ⟨rfl, hs⟩
    | fresh e =>
      unfold raisedValue
      rw [hs.heap]
      exact ⟨rfl, hs.withHeap _⟩
  have hrel := findHandler?_rel hf r.exception.kind
  unfold unwind
  dsimp only
  rw [hfatal]
  generalize findHandler? r.exception.kind frames = o at hrel
  generalize findHandler? r.exception.kind frames' = o' at hrel
  split
  · exact .ended hs _
  · cases hrel with
    | none => exact .ended hs _
    | some h =>
      dsimp only
      rw [hvalue.1]
      exact .running hvalue.2 (.cons (h.1 _) h.2)

theorem enter_alike (ht : t.Counterpart t') (hs : s.Alike s') {g g' : Frame} (hg : g.Shadow g')
    (hf : List.Forall₂ Frame.Behind frames frames') :
    (enter t s g frames).Alike (enter t' s' g' frames') := by
  unfold enter
  rw [← hf.length_eq]
  split
  · exact unwind_alike ht hs hf _
  · exact .running hs (.cons hg hf)

theorem leave_alike (hs : s.Alike s') (hf : List.Forall₂ Frame.Behind frames frames')
    (v : Option Value) : (leave s v frames).Alike (leave s' v frames') := by
  cases hf with
  | nil => exact .ended hs _
  | @cons f f' outer outer' hf ho =>
    cases v with
    | none => exact .running hs (.cons hf.shadow ho)
    | some v =>
      simp only [leave, hf.stack]
      exact .running hs (.cons (hf.withStack _).shadow ho)

theorem finish_alike (ht : t.Counterpart t') {o o' : Outcome} (h : o.Alike o')
    (hf : List.Forall₂ Frame.Behind frames frames') :
    (finish t frames o).Alike (finish t' frames' o') := by
  cases h with
  | next hs hg => exact .running hs (.cons hg hf)
  | call hs hg hc => exact enter_alike ht hs hc (.cons hg hf)
  | ret hs v => exact leave_alike hs hf v
  | raise hs hg r => exact unwind_alike ht hs (.cons hg hf) r
  | fault hs e => exact .ended hs _
  | wait hs hg w => exact .waiting hs (.cons hg hf) w

end Activation

/-- **The next instruction of frames at places that stand for each other**, if it is no extra hook. -/
theorem Step.frame_alike {t t' : Task} {s s' : TaskState} {f f' : Frame} (ht : t.Counterpart t')
    (hs : s.Alike s') (hf : f.SameValues f') (A : f.method.Alignment f'.method)
    (hplace : f.next = A.back f'.next) (hextra : A.extra f'.next = false) {outer : List Frame}
    (hread : t.ReadsNoClass (f :: outer)) (thread : Nat) :
    Query.Rel Outcome.Alike (frame t thread s f) (frame t' thread s' f') ∧
      f'.nextWrites = f.nextWrites := by
  have hbehind : Frame.Behind { f with next := f.next + 1 } { f' with next := f'.next + 1 } :=
    ⟨⟨hf.className, hf.locals, hf.stack⟩, A, f'.next, hextra, rfl, by rw [hplace]⟩
  have hfetch := A.fetch f'.next hextra
  rw [← hplace] at hfetch
  have hwrites : f'.nextWrites = f.nextWrites := by
    rw [Frame.nextWrites, Frame.nextWrites, hf.stack, hfetch]
  refine ⟨?_, hwrites⟩
  unfold frame
  rw [← hfetch]
  cases hi : f.method.code[f.next]? with
  | none => exact .done (.ret hs none)
  | some i =>
    exact instruction_alike ht hs hbehind thread i fun hi' =>
      hread f rfl (hi.trans (congrArg some hi'))

namespace Activation

variable {t t' : Task} {s s' : TaskState} {frames frames' : List Frame}

/-- **A step with and without tracers**, at places that stand for each other. -/
theorem step_alike_of_shared {f f' : Frame} {outer outer' : List Frame} (ht : t.Counterpart t')
    (hs : s.Alike s') (hf : f.SameValues f') (A : f.method.Alignment f'.method)
    (hplace : f.next = A.back f'.next) (hextra : A.extra f'.next = false)
    (ho : List.Forall₂ Frame.Behind outer outer') (hread : t.ReadsNoClass (f :: outer)) (thread : Nat) :
    Query.Rel Progress.Alike (step t thread s (f :: outer)) (step t' thread s' (f' :: outer')) ∧
      nextWrites s' (f' :: outer') = nextWrites s (f :: outer) := by
  have hcancelled : s'.cancelled = s.cancelled := by cases hs; rfl
  cases hc : s.cancelled with
  | true =>
    simp only [step, nextWrites, hcancelled, hc, if_true]
    exact ⟨.done (.ended hs _), trivial⟩
  | false =>
    simp only [step, nextWrites, hcancelled, hc, Bool.false_eq_true, if_false]
    obtain ⟨hframe, hwrites⟩ := Step.frame_alike ht hs hf A hplace hextra hread thread
    exact ⟨hframe.map fun o o' ho' => finish_alike ht ho' ho, hwrites⟩

/-- **A step at an extra hook** brings the thread with tracers one place nearer to the end of its code. -/
theorem step_alike_of_extra {f f' : Frame} {outer outer' : List Frame} (hs : s.Alike s')
    (hf : f.SameValues f') (A : f.method.Alignment f'.method) (hplace : f.next = A.back f'.next)
    (hextra : A.extra f'.next = true) (ho : List.Forall₂ Frame.Behind outer outer')
    (hc : s.cancelled = false) (thread : Nat) :
    ∃ s'', f'.next < f'.method.code.size ∧
      step t' thread s' (f' :: outer') =
        .done (.running s'' ({ f' with next := f'.next + 1 } :: outer')) ∧
      s.Alike s'' ∧ ShadowStack (f :: outer) ({ f' with next := f'.next + 1 } :: outer') ∧
      nextWrites s' (f' :: outer') = [] := by
  have hcancelled : s'.cancelled = false := by cases hs; exact hc
  simp only [step, nextWrites, hcancelled, Bool.false_eq_true, if_false]
  obtain ⟨tracer, name, operands, hhook⟩ := A.hook_of_extra _ hextra
  have hnext : Frame.Shadow f { f' with next := f'.next + 1 } :=
    ⟨⟨hf.className, hf.locals, hf.stack⟩, A, by rw [hplace, A.back_succ, hextra]; rfl⟩
  have hwrites : f'.nextWrites = [] := by
    rw [Frame.nextWrites, hhook]
    rfl
  cases hs with
  | mk h h' =>
    have hrecorded := h'.onHook tracer
      ⟨name, operands.map (Frame.operand { f' with next := f'.next + 1 })⟩ thread
    refine ⟨_, (Array.getElem?_eq_some_iff.1 hhook).1, ?_, .mk h hrecorded.2, .cons hnext ho, hwrites⟩
    simp only [Step.frame, hhook, Step.instruction, Step.hook, (h'.onHook _ _ _).1]
    rfl

/-- **A step with and without tracers.** Either both threads make the same step, or the one with
tracers is at an extra hook, which brings it one place nearer to the end of its code. -/
theorem step_alike (ht : t.Counterpart t') (hs : s.Alike s') (hf : ShadowStack frames frames')
    (hread : t.ReadsNoClass frames) (thread : Nat) :
    (Query.Rel Progress.Alike (step t thread s frames) (step t' thread s' frames') ∧
      nextWrites s' frames' = nextWrites s frames) ∨
    ∃ f' outer' s'', frames' = f' :: outer' ∧ f'.next < f'.method.code.size ∧
      step t' thread s' frames' =
        .done (.running s'' ({ f' with next := f'.next + 1 } :: outer')) ∧
      s.Alike s'' ∧ ShadowStack frames ({ f' with next := f'.next + 1 } :: outer') ∧
      nextWrites s' frames' = [] := by
  have hcancelled : s'.cancelled = s.cancelled := by cases hs; rfl
  cases hf with
  | nil =>
    left
    cases hc : s.cancelled <;>
      simp only [step, nextWrites, hcancelled, hc, Bool.false_eq_true, if_false, if_true] <;>
      exact ⟨.done (.ended hs _), trivial⟩
  | @cons f f' outer outer' hf ho =>
    obtain ⟨A, hplace⟩ := hf.place
    cases hextra : A.extra f'.next with
    | false =>
      exact .inl (step_alike_of_shared ht hs hf.toSameValues A hplace hextra ho hread thread)
    | true =>
      cases hc : s.cancelled with
      | true =>
        left
        simp only [step, nextWrites, hcancelled, hc, if_true]
        exact ⟨.done (.ended hs _), trivial⟩
      | false =>
        right
        obtain ⟨s'', h⟩ :=
          @step_alike_of_extra t' s s' f f' outer outer' hs hf.toSameValues A hplace hextra ho hc thread
        exact ⟨f', outer', s'', rfl, h⟩

/-- Calls from outside start alike. -/
theorem start_alike (ht : t.Counterpart t') (hs : s.Alike s') (className methodName : String)
    (arguments : List Value) :
    Agree Frame.Shadow (start t s className methodName arguments).1
        (start t' s' className methodName arguments).1 ∧
      (start t s className methodName arguments).2.Alike
        (start t' s' className methodName arguments).2 := by
  obtain ⟨hl, hs⟩ := hs.load ht className
  refine ⟨?_, hs⟩
  unfold start
  dsimp only
  generalize (s.load t className).1 = r at hl
  generalize (s'.load t' className).1 = r' at hl
  cases hl with
  | error e => exact .error _
  | ok hc =>
    have hcall := hc.forCall_agree methodName arguments none
    dsimp only [Except.mapError, bind, Except.bind]
    generalize Frame.forCall _ methodName arguments none = q at hcall
    generalize Frame.forCall _ methodName arguments none = q' at hcall
    cases hcall with
    | error e => exact .error _
    | ok hg => exact .ok hg

end Activation

end Confine
