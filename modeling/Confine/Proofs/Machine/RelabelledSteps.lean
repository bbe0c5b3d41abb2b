import Confine.Proofs.Loading.RelabelledUnits
import Confine.Proofs.Machine.Rerun
import Confine.Proofs.Sandbox.Mediated

/-!
# Steps under other labels

Two tasks whose units differ in what labels are called take the same steps: they ask the host the same, leave the same
shared state, and come to frames at the same places that hold the same. The one exception is a program that reads a
class file of its own unit, and sees the labels; its log says so (`TaskState.HasRead`).

* `Step.frame_relabels` — one instruction;
* `Activity.turn_relabels` — a turn of a thread.
-/

namespace Confine

/-! ### Tasks, frames and outcomes -/

/-- **One task is another under other labels.** -/
inductive Task.Relabels : Task → Task → Prop where
  | mk {u u' : LoadingUnit} {capability : Capability} {maxExtraThreads : Nat} (h : u.Relabels u') :
      Relabels ⟨u, capability, maxExtraThreads⟩ ⟨u', capability, maxExtraThreads⟩

/-- **One frame is another under other labels**: they are at the same place, and hold the same. -/
inductive Frame.Relabels : Frame → Frame → Prop where
  | mk {className : String} {m m' : LinkedMethod} {next : Nat} {locals : Array Value} {stack : OperandStack}
      (h : m.Relabels m') : Relabels ⟨className, m, next, locals, stack⟩ ⟨className, m', next, locals, stack⟩

/-- What two instructions come to is the same, but for what labels are called. -/
inductive Outcome.Relabels : Outcome → Outcome → Prop where
  | next (s : TaskState) {f f' : Frame} (hf : f.Relabels f') : Relabels (.next s f) (.next s f')
  | call (s : TaskState) {f f' g g' : Frame} (hf : f.Relabels f') (hg : g.Relabels g') :
      Relabels (.call s f g) (.call s f' g')
  | ret (s : TaskState) (v : Option Value) : Relabels (.ret s v) (.ret s v)
  | raise (s : TaskState) {f f' : Frame} (hf : f.Relabels f') (r : Raised) : Relabels (.raise s f r) (.raise s f' r)
  | fault (s : TaskState) (e : Fault) : Relabels (.fault s e) (.fault s e)
  | wait (s : TaskState) {f f' : Frame} (hf : f.Relabels f') (w : Wait) : Relabels (.wait s f w) (.wait s f' w)

/-- The decision lets a class file of the unit be read. -/
def LoadingUnit.Shows (u : LoadingUnit) (d : Decision) : Prop :=
  ∃ path text, u.classFile? path = some text ∧ d = ⟨.readFile ⟨path⟩, true⟩

/-- Since the state `s`, the task has read a class file of its unit. -/
def TaskState.HasRead (t : Task) (s s' : TaskState) : Prop :=
  ∃ ds, s'.confinements = s.confinements.recordAll t.capability ds ∧ ∃ d ∈ ds, t.unit.Shows d

/-! ### Parts of an instruction -/

variable {t t' : Task} {s : TaskState} {f f' : Frame}

theorem Task.Relabels.unit (ht : t.Relabels t') : t.unit.Relabels t'.unit := by
  cases ht with
  | mk hu => exact hu

theorem Task.Relabels.record_eq (ht : t.Relabels t') (s : TaskState) (p : Permission) (granted : Bool) :
    s.record t' p granted = s.record t p granted := by
  cases ht with
  | mk hu => rfl

theorem Task.Relabels.spawn_eq (ht : t.Relabels t') (s : TaskState) (className methodName : String) :
    s.spawn t' className methodName = s.spawn t className methodName := by
  cases ht with
  | mk hu => rfl

theorem Frame.Relabels.refl (f : Frame) : f.Relabels f := .mk (.refl f.method)

theorem Frame.Relabels.withStack (hf : f.Relabels f') (stack : OperandStack) :
    (f.withStack stack).Relabels (f'.withStack stack) := by
  cases hf with
  | mk h => exact .mk h

theorem Frame.Relabels.stack_eq (hf : f.Relabels f') : f'.stack = f.stack := by
  cases hf with
  | mk h => rfl

theorem Frame.Relabels.store (hf : f.Relabels f') (i : UInt16) (v : Value) :
    Agree Frame.Relabels (f.store i v) (f'.store i v) := by
  cases hf with
  | mk h =>
    unfold Frame.store
    dsimp only
    split
    · exact .ok (.mk h)
    · exact .error _

theorem Frame.Relabels.jump (hf : f.Relabels f') {l l' : Label} (hl : f.method.Meet f'.method l l') :
    Agree Frame.Relabels (f.jump l) (f'.jump l') := by
  cases hf with
  | @mk className m m' next locals stack h =>
    unfold Frame.jump
    dsimp only at hl ⊢
    rw [hl.place]
    cases hm : m.place? l with
    | none =>
      rw [hl.unknown hm]
      exact .error _
    | some place => exact .ok (.mk h)

/-- Calls of methods of the two classes fail alike, or make frames that are the same under other labels. -/
theorem LinkedClass.Relabels.forCall {c c' : LinkedClass} (h : c.Relabels c') (name : String) (arguments : List Value)
    (want : Option Bool) :
    Agree Frame.Relabels (Frame.forCall c name arguments want) (Frame.forCall c' name arguments want) := by
  have hrel := h.method?_rel name
  unfold Frame.forCall
  rw [h.name]
  generalize c.method? name = o at hrel
  generalize c'.method? name = o' at hrel
  cases hrel with
  | none => exact .error _
  | @some m m' hm =>
    -- what is asked of the method is none of its labels' business
    have hstatic : m'.method.isStatic = m.method.isStatic := by rw [hm.method]
    have hslots : m'.method.requiredSlots = m.method.requiredSlots := by
      rw [hm.method]
      rfl
    have hshown : m'.method.descriptor c.name = m.method.descriptor c.name := by
      rw [hm.method]
      rfl
    have hlocals : Frame.localsFor m'.method arguments = Frame.localsFor m.method arguments := by
      rw [hm.method]
      rfl
    have branch (b : Bool) (e : Exception) {g g' : Frame} (hg : g.Relabels g') :
        Agree Frame.Relabels (if b = true then .error e else .ok g) (if b = true then .error e else .ok g') := by
      cases b with
      | true => exact .error e
      | false => exact .ok hg
    dsimp only
    rw [hstatic, hslots, hshown, hlocals]
    exact branch _ _ (.mk hm)

/-- The tasks load classes alike. -/
theorem TaskState.load_relabels (ht : t.Relabels t') (s : TaskState) (name : String) :
    Agree LinkedClass.Relabels (s.load t name).1 (s.load t' name).1 ∧ (s.load t' name).2 = (s.load t name).2 := by
  obtain @⟨u, u', capability, _, hu⟩ := ht
  obtain ⟨hl, hs⟩ := hu.loadClass s.classSets name (some capability) s.confinements
  unfold TaskState.load
  dsimp only
  rw [hs]
  generalize (u.loadClass s.classSets name (some capability) s.confinements).1 = r at hl
  generalize (u'.loadClass s.classSets name (some capability) s.confinements).1 = r' at hl
  cases hl with
  | error e => exact ⟨.error _, rfl⟩
  | @ok p p' hp =>
    obtain ⟨c, sets⟩ := p
    obtain ⟨c', sets'⟩ := p'
    obtain ⟨hc, rfl⟩ := hp
    exact ⟨.ok hc, rfl⟩

namespace Step

variable {α β : Type}

/-- The rest of two instructions asks the same, and comes to the same but for what labels are called. -/
abbrev Relabels (q q' : Query Outcome) : Prop := Query.Rel Outcome.Relabels q q'

theorem relabels_attempt_of_agree (hf : f.Relabels f') {R : α → β → Prop} {r : Except Exception α}
    {r' : Except Exception β} (hr : Agree R r r') {k : α → Query Outcome} {k' : β → Query Outcome}
    (hk : ∀ a b, R a b → Relabels (k a) (k' b)) : Relabels (attempt s f r k) (attempt s f' r' k') := by
  cases hr with
  | ok h => exact hk _ _ h
  | error e => exact .done (.raise s hf _)

theorem relabels_attempt (hf : f.Relabels f') (r : Except Exception α) {k k' : α → Query Outcome}
    (hk : ∀ a, Relabels (k a) (k' a)) : Relabels (attempt s f r k) (attempt s f' r k') :=
  relabels_attempt_of_agree hf (.refl (fun _ => rfl) r) fun a _ heq => heq ▸ hk a

theorem relabels_push (hf : f.Relabels f') (stack : OperandStack) (v : Value) :
    Relabels (push s f stack v) (push s f' stack v) :=
  relabels_attempt hf _ fun stack => .done (.next s (hf.withStack stack))

theorem relabels_require (ht : t.Relabels t') (p : Permission) {k k' : TaskState → Query Outcome}
    (hk : ∀ s, Relabels (k s) (k' s)) : Relabels (require t s p k) (require t' s p k') := by
  cases ht with
  | mk hu =>
    unfold require
    dsimp only [TaskState.check]
    split
    · exact hk _
    · exact .done (.fault _ _)

theorem relabels_withClass (ht : t.Relabels t') (hf : f.Relabels f') (name : String)
    {k k' : TaskState → LinkedClass → Query Outcome}
    (hk : ∀ s c c', c.Relabels c' → Relabels (k s c) (k' s c')) :
    Relabels (withClass t s f name k) (withClass t' s f' name k') := by
  obtain ⟨hl, hs⟩ := s.load_relabels ht name
  unfold withClass
  dsimp only
  rw [hs]
  exact relabels_attempt_of_agree hf hl fun c c' hc => hk _ c c' hc

/-! ### Host calls -/

theorem push_eq_done (s : TaskState) (f : Frame) (stack : OperandStack) (v : Value) :
    ∃ o, push s f stack v = .done o ∧ o.shared = s := by
  unfold push attempt
  split <;> exact ⟨_, rfl, rfl⟩

/-- Only a class file of the unit itself can be read. -/
theorem readFile_relabels (ht : t.Relabels t') (hf : f.Relabels f') :
    Query.Rel (fun o o' => s.HasRead t o.shared ∨ o.Relabels o') (readFile t s f) (readFile t' s f') := by
  unfold readFile
  rw [hf.stack_eq]
  cases f.stack.popText with
  | error e => exact .done (.inr (.raise s hf _))
  | ok p =>
    dsimp only [attempt]
    cases hfile : t.unit.classFile? p.1 with
    | none =>
      rw [ht.unit.classFile?_eq_none hfile, ht.record_eq s _ false]
      exact .done (.inr (.fault _ _))
    | some text =>
      have hread : s.HasRead t (s.record t (.readFile ⟨p.1⟩) true) :=
        ⟨[⟨.readFile ⟨p.1⟩, true⟩], rfl, _, .head _, p.1, text, hfile, rfl⟩
      obtain ⟨o, ho, hshared⟩ := push_eq_done (s.record t (.readFile ⟨p.1⟩) true) f p.2 (.text text)
      dsimp only
      rw [ho]
      split
      · next text' _ =>
        obtain ⟨o', ho', -⟩ := push_eq_done (s.record t' (.readFile ⟨p.1⟩) true) f' p.2 (.text text')
        rw [ho']
        exact .done (.inl (hshared.symm ▸ hread))
      · exact .done (.inl (hshared.symm ▸ hread))

/-- What a call to the host does is the same in both tasks, unless it reads a file. -/
theorem host_relabels (ht : t.Relabels t') (hf : f.Relabels f') (thread : Nat) {c : HostCall} (hc : c ≠ .readFile) :
    Relabels (host t thread s f c) (host t' thread s f' c) := by
  have pushes (s : TaskState) (stack : OperandStack) (v : Value) : Relabels (push s f stack v) (push s f' stack v) :=
    relabels_push hf stack v
  have goes (s : TaskState) (stack : OperandStack) : Relabels (next s (f.withStack stack)) (next s (f'.withStack stack)) :=
    .done (.next s (hf.withStack stack))
  have tries {α : Type} (s : TaskState) (r : Except Exception α) {k k' : α → Query Outcome}
      (hk : ∀ a, Relabels (k a) (k' a)) : Relabels (attempt s f r k) (attempt s f' r k') := relabels_attempt hf r hk
  have writes (c : Console) (newline : Bool) :
      Relabels (writeText s f thread c newline) (writeText s f' thread c newline) := by
    unfold writeText
    rw [hf.stack_eq]
    exact tries _ _ fun p => .ask fun now => goes _ _
  cases c with
  | print => exact writes ..
  | println => exact writes ..
  | eprint => exact writes ..
  | eprintln => exact writes ..
  | readFile => exact absurd rfl hc
  | writeFile =>
    unfold host writeFile
    rw [hf.stack_eq]
    refine tries _ _ fun p => tries _ _ fun q => relabels_require ht _ fun s => .ask fun
      | .ok () => goes _ _
      | .error message => .done (.raise s hf _)
  | getEnv =>
    unfold host getEnv
    rw [hf.stack_eq]
    exact tries _ _ fun p => relabels_require ht _ fun s => .ask fun text => pushes _ _ _
  | getProperty =>
    unfold host getProperty
    rw [hf.stack_eq]
    refine tries _ _ fun p => relabels_require ht _ fun s => ?_
    split
    · exact .ask fun dir => pushes _ _ _
    · exact pushes _ _ _
  | exit =>
    unfold host exit
    rw [hf.stack_eq]
    exact tries _ _ fun p => relabels_require ht _ fun s => goes _ _
  | setStreams => exact relabels_require ht _ fun s => .done (.next s hf)
  | spawn className methodName =>
    show Relabels (spawn t s f className methodName) (spawn t' s f' className methodName)
    unfold spawn
    rw [ht.spawn_eq, hf.stack_eq]
    dsimp only
    split
    · exact pushes _ _ _
    · exact .done (.fault _ _)
  | join =>
    unfold host join
    rw [hf.stack_eq]
    refine tries _ _ fun p => ?_
    dsimp only
    split
    · exact .done (.raise s hf _)
    · split
      · exact .done (.wait s (hf.withStack _) _)
      · exact .done (.raise s hf _)
  | sleep =>
    unfold host sleep
    rw [hf.stack_eq]
    refine tries _ _ fun p => ?_
    dsimp only
    split
    · exact .done (.raise s hf _)
    · exact .done (.wait s (hf.withStack _) _)
  | time =>
    unfold host
    rw [hf.stack_eq]
    exact .ask fun now => pushes _ _ _
  | loadClass =>
    unfold host loadClass
    rw [hf.stack_eq]
    refine tries _ _ fun p => relabels_withClass ht hf _ fun s c c' hc => ?_
    rw [hc.name]
    exact pushes _ _ _

/-! ### Other instructions -/

theorem invokeStatic_relabels (ht : t.Relabels t') (hf : f.Relabels f') (className name : String) :
    Relabels (invokeStatic t s f className name) (invokeStatic t' s f' className name) := by
  refine relabels_withClass ht hf _ fun s c c' hc => ?_
  have hrel := hc.method?_rel name
  dsimp only
  rw [hf.stack_eq]
  generalize c.method? name = o at hrel
  generalize c'.method? name = o' at hrel
  cases hrel with
  | none => exact .done (.raise s hf _)
  | @some m m' hm =>
    have hstatic : m'.method.isStatic = m.method.isStatic := by rw [hm.method]
    have hparams : m'.method.params = m.method.params := by rw [hm.method]
    simp only [Option.filter_some, hstatic]
    by_cases hb : m.method.isStatic = true
    · simp only [hb, if_true, hparams]
      refine relabels_attempt hf _ fun p => relabels_attempt_of_agree hf (hc.forCall _ _ _) fun g g' hg => ?_
      exact .done (.call s (hf.withStack _) hg)
    · simp only [hb]
      exact .done (.raise s hf _)

theorem invokeVirtual_relabels (ht : t.Relabels t') (hf : f.Relabels f') (name : String) (arity : Nat) :
    Relabels (invokeVirtual t s f name arity) (invokeVirtual t' s f' name arity) := by
  unfold invokeVirtual
  rw [hf.stack_eq]
  refine relabels_attempt hf _ fun p => relabels_attempt hf _ fun q => relabels_withClass ht hf _ fun s c c' hc => ?_
  refine relabels_attempt_of_agree hf (hc.forCall _ _ _) fun g g' hg => ?_
  exact .done (.call s (hf.withStack _) hg)

theorem jumpOn_relabels (hf : f.Relabels f') (wanted : Bool) {l l' : Label} (hl : f.method.Meet f'.method l l') :
    Relabels (jumpOn s f wanted l) (jumpOn s f' wanted l') := by
  unfold jumpOn
  rw [hf.stack_eq]
  refine relabels_attempt hf _ fun p => ?_
  have hf' := hf.withStack p.2
  dsimp only
  split
  · exact relabels_attempt_of_agree hf' (hf'.jump hl) fun g g' hg => .done (.next s hg)
  · exact .done (.next s hf')

/-- **The same instruction in two tasks**, unless it reads a file. -/
theorem instruction_relabels (ht : t.Relabels t') (hf : f.Relabels f') (thread : Nat) {i i' : Instruction}
    (hi : i.Meet f.method f'.method i') (hread : i ≠ .host .readFile) :
    Relabels (instruction t thread s f i) (instruction t' thread s f' i') := by
  have pushes (s : TaskState) (stack : OperandStack) (v : Value) : Relabels (push s f stack v) (push s f' stack v) :=
    relabels_push hf stack v
  have goes (s : TaskState) (stack : OperandStack) : Relabels (next s (f.withStack stack)) (next s (f'.withStack stack)) :=
    .done (.next s (hf.withStack stack))
  have tries {α : Type} (s : TaskState) (r : Except Exception α) {k k' : α → Query Outcome}
      (hk : ∀ a, Relabels (k a) (k' a)) : Relabels (attempt s f r k) (attempt s f' r k') := relabels_attempt hf r hk
  unfold instruction
  rw [hf.stack_eq]
  cases hi with
  | label l l' => exact .done (.next s hf)
  | lineNumber n l l' => exact .done (.next s hf)
  | jump hl => exact relabels_attempt_of_agree hf (hf.jump hl) fun g g' hg => .done (.next s hg)
  | jumpIf hl => exact jumpOn_relabels hf true hl
  | jumpIfNot hl => exact jumpOn_relabels hf false hl
  | same i hjump =>
    cases i with
    | label l => exact .done (.next s hf)
    | lineNumber n l => exact .done (.next s hf)
    | frame depth =>
      dsimp only
      split
      · exact .done (.next s hf)
      · exact .done (.raise s hf _)
    | push c => exact pushes _ _ _
    | load i =>
      have hload : f'.load i = f.load i := by
        cases hf with
        | mk h => rfl
      dsimp only
      rw [hload]
      exact tries _ _ fun v => pushes _ _ _
    | store i =>
      refine tries _ _ fun p => relabels_attempt_of_agree hf ((hf.withStack _).store i _) fun g g' hg => ?_
      exact .done (.next s hg)
    | binary op => exact tries _ _ fun _ => tries _ _ fun _ => tries _ _ fun _ => pushes _ _ _
    | neg => exact tries _ _ fun _ => pushes _ _ _
    | not => exact tries _ _ fun _ => pushes _ _ _
    | dup => exact tries _ _ fun _ => tries _ _ fun _ => pushes _ _ _
    | pop => exact tries _ _ fun _ => goes _ _
    | swap => exact tries _ _ fun _ => tries _ _ fun _ => tries _ _ fun _ => pushes _ _ _
    | jump l => cases hjump
    | jumpIf l => cases hjump
    | jumpIfNot l => cases hjump
    | invokeStatic c m => exact invokeStatic_relabels ht hf c m
    | invokeVirtual m n => exact invokeVirtual_relabels ht hf m n.toNat
    | new c =>
      refine relabels_withClass ht hf _ fun s c c' hc => ?_
      rw [hc.name]
      exact pushes _ _ _
    | getField field => exact tries _ _ fun _ => pushes _ _ _
    | putField field => exact tries _ _ fun _ => tries _ _ fun _ => goes _ _
    | newException kind => exact tries _ _ fun _ => pushes _ _ _
    | throw =>
      dsimp only
      unfold throw
      rw [hf.stack_eq]
      refine tries _ _ fun p => ?_
      dsimp only
      split <;> exact .done (.raise s hf _)
    | ret => exact .done (.ret s none)
    | retValue => exact tries _ _ fun p => .done (.ret s (some p.1))
    | host c => exact host_relabels ht hf thread fun hc => hread (congrArg Instruction.host hc)
    | hook tracer name operands =>
      have hoperands : operands.map f'.operand = operands.map f.operand := by
        cases hf with
        | mk h => rfl
      dsimp only
      unfold hook
      rw [hoperands]
      dsimp only
      split
      · exact .done (.next _ hf)
      · exact .done (.raise _ hf _)
      · exact .done (.fault _ _)

/-- **The next instruction in two tasks** does the same, unless it hands out a class file. -/
theorem frame_relabels (ht : t.Relabels t') (hf : f.Relabels f') (thread : Nat) :
    Query.Rel (fun o o' => s.HasRead t o.shared ∨ o.Relabels o') (frame t thread s f) (frame t' thread s f') := by
  obtain @⟨className, m, m', next, locals, stack, h⟩ := hf
  have hcode : Option.Rel (Instruction.Meet m m') m.code[next]? m'.code[next]? := by
    rw [← Array.getElem?_toList, ← Array.getElem?_toList]
    exact forall₂_getElem? h.code next
  have hbehind : Frame.Relabels ⟨className, m, next + 1, locals, stack⟩ ⟨className, m', next + 1, locals, stack⟩ :=
    .mk h
  unfold frame
  dsimp only
  generalize m.code[next]? = o at hcode
  generalize m'.code[next]? = o' at hcode
  cases hcode with
  | none => exact .done (.inr (.ret s none))
  | @some i i' hi =>
    by_cases hread : i = .host .readFile
    · subst hread
      cases hi
      exact readFile_relabels ht hbehind
    · exact (instruction_relabels ht hbehind thread hi hread).imp fun _ _ => .inr

end Step

/-! ### Frames of a thread -/

abbrev FramesRelabel (frames frames' : List Frame) : Prop := List.Forall₂ Frame.Relabels frames frames'

inductive Progress.Relabels : Progress → Progress → Prop where
  | running (s : TaskState) {frames frames' : List Frame} (hf : FramesRelabel frames frames') :
      Relabels (.running s frames) (.running s frames')
  | waiting (s : TaskState) {frames frames' : List Frame} (hf : FramesRelabel frames frames') (w : Wait) :
      Relabels (.waiting s frames w) (.waiting s frames' w)
  | ended (s : TaskState) (r : Except Fault Value) : Relabels (.ended s r) (.ended s r)

def Progress.shared : Progress → TaskState
  | running s _ | waiting s _ _ | ended s _ => s

namespace Activation

variable {frames frames' : List Frame}

/-- The same handler of the same frame takes an exception. -/
theorem findHandler?_relabels (hf : FramesRelabel frames frames') (kind : String) :
    Option.Rel (fun x x' : Frame × LinkedHandler × List Frame =>
        x.1.Relabels x'.1 ∧ x'.2.1 = x.2.1 ∧ FramesRelabel x.2.2 x'.2.2)
      (findHandler? kind frames) (findHandler? kind frames') := by
  induction hf with
  | nil => exact .none
  | @cons f f' outer outer' hf ho ih =>
    have hhandler : f'.handler? kind = f.handler? kind := by
      cases hf with
      | mk h => rw [Frame.handler?, Frame.handler?, LinkedMethod.handler?, LinkedMethod.handler?, h.handlers]; rfl
    unfold findHandler?
    rw [hhandler]
    cases f.handler? kind with
    | none => exact ih
    | some h => exact .some ⟨hf, rfl, ho⟩

theorem unwind_relabels (ht : t.Relabels t') (s : TaskState) (hf : FramesRelabel frames frames') (r : Raised) :
    (unwind t s frames r).Relabels (unwind t' s frames' r) := by
  have hfatal (e : Exception) : isFatal t' e = isFatal t e := by
    rw [isFatal, isFatal, ht.unit.own.policy]
  have hrel := findHandler?_relabels hf r.exception.kind
  unfold unwind
  dsimp only
  rw [hfatal]
  generalize findHandler? r.exception.kind frames = o at hrel
  generalize findHandler? r.exception.kind frames' = o' at hrel
  split
  · exact .ended s _
  · cases hrel with
    | none => exact .ended s _
    | @some x x' h =>
      obtain ⟨f, _, outer⟩ := x
      obtain ⟨f', handler, outer'⟩ := x'
      obtain ⟨hf, rfl, ho⟩ := h
      have henter (v : Value) : (f.enter handler v).Relabels (f'.enter handler v) := by
        cases hf with
        | mk h => exact .mk h
      exact .running _ (.cons (henter _) ho)

theorem enter_relabels (ht : t.Relabels t') (s : TaskState) {g g' : Frame} (hg : g.Relabels g')
    (hf : FramesRelabel frames frames') : (enter t s g frames).Relabels (enter t' s g' frames') := by
  unfold enter
  rw [← hf.length_eq]
  split
  · exact unwind_relabels ht s hf _
  · exact .running s (.cons hg hf)

theorem leave_relabels (s : TaskState) (v : Option Value) (hf : FramesRelabel frames frames') :
    (leave s v frames).Relabels (leave s v frames') := by
  cases hf with
  | nil => exact .ended s _
  | cons hf ho =>
    cases v with
    | none => exact .running s (.cons hf ho)
    | some v =>
      simp only [leave, hf.stack_eq]
      exact .running s (.cons (hf.withStack _) ho)

theorem finish_relabels (ht : t.Relabels t') {o o' : Outcome} (h : o.Relabels o') (hf : FramesRelabel frames frames') :
    (finish t frames o).Relabels (finish t' frames' o') := by
  cases h with
  | next s hg => exact .running s (.cons hg hf)
  | call s hg hcallee => exact enter_relabels ht s hcallee (.cons hg hf)
  | ret s v => exact leave_relabels s v hf
  | raise s hg r => exact unwind_relabels ht s (.cons hg hf) r
  | fault s e => exact .ended s _
  | wait s hg w => exact .waiting s (.cons hg hf) w

/-- Whatever an instruction comes to, nothing more is logged for it. -/
theorem confinements_finish (t : Task) (frames : List Frame) (o : Outcome) :
    (finish t frames o).shared.confinements = o.shared.confinements := by
  have hunwind (s : TaskState) (frames : List Frame) (r : Raised) :
      (unwind t s frames r).shared.confinements = s.confinements := by
    unfold unwind raisedValue
    dsimp only
    split
    · rfl
    · split
      · cases r <;> rfl
      · rfl
  cases o with
  | call s f callee =>
    simp only [finish, enter]
    split
    · exact hunwind _ _ _
    · rfl
  | ret s v =>
    cases frames with
    | nil => rfl
    | cons f outer => cases v <;> rfl
  | raise s f r => exact hunwind _ _ _
  | _ => rfl

theorem step_relabels (ht : t.Relabels t') (s : TaskState) (hf : FramesRelabel frames frames') (thread : Nat) :
    Query.Rel (fun p p' => s.HasRead t p.shared ∨ p.Relabels p') (step t thread s frames)
      (step t' thread s frames') := by
  unfold step
  split
  · exact .done (.inr (.ended s _))
  · cases hf with
    | nil => exact .done (.inr (.ended s _))
    | cons hf ho =>
      refine (Step.frame_relabels ht hf thread).map fun o o' h => h.imp (fun hread => ?_) fun h => finish_relabels ht h ho
      obtain ⟨ds, hds, hread⟩ := hread
      exact ⟨ds, (confinements_finish t _ o).trans hds, hread⟩

/-- Calls from outside start alike. -/
theorem start_relabels (ht : t.Relabels t') (s : TaskState) (className methodName : String) (arguments : List Value) :
    Agree Frame.Relabels (start t s className methodName arguments).1 (start t' s className methodName arguments).1 ∧
      (start t' s className methodName arguments).2 = (start t s className methodName arguments).2 := by
  obtain ⟨hl, hs⟩ := s.load_relabels ht className
  refine ⟨?_, hs⟩
  unfold start
  dsimp only
  generalize (s.load t className).1 = r at hl
  generalize (s.load t' className).1 = r' at hl
  cases hl with
  | error e => exact .error _
  | @ok c c' hc =>
    have hcall := hc.forCall methodName arguments none
    dsimp only [Except.mapError, bind, Except.bind]
    generalize Frame.forCall c methodName arguments none = q at hcall
    generalize Frame.forCall c' methodName arguments none = q' at hcall
    cases hcall with
    | error e => exact .error _
    | ok hg => exact .ok hg

end Activation

/-! ### Turns -/

inductive Activity.Relabels : Activity → Activity → Prop where
  | starting (className methodName : String) : Relabels (.starting className methodName) (.starting className methodName)
  | running {frames frames' : List Frame} (hf : FramesRelabel frames frames') :
      Relabels (.running frames) (.running frames')
  | sleeping {frames frames' : List Frame} (hf : FramesRelabel frames frames') (wake : Nat) :
      Relabels (.sleeping frames wake) (.sleeping frames' wake)
  | joining {frames frames' : List Frame} (hf : FramesRelabel frames frames') (index : Nat) :
      Relabels (.joining frames index) (.joining frames' index)

inductive Turn.Relabels : Turn → Turn → Prop where
  | moved (s : TaskState) {a a' : Activity} (ha : a.Relabels a') : Relabels (.moved s a) (.moved s a')
  | blocked (s : TaskState) {a a' : Activity} (ha : a.Relabels a') (wake : Option Nat) :
      Relabels (.blocked s a wake) (.blocked s a' wake)
  | ended (s : TaskState) (r : Except Fault Value) : Relabels (.ended s r) (.ended s r)

theorem Turn.relabels_ofProgress (now : Nat) {p p' : Progress} (h : p.Relabels p') :
    (ofProgress now p).Relabels (ofProgress now p') := by
  cases h with
  | running s hf => exact .moved s (.running hf)
  | waiting s hf w =>
    cases w with
    | sleep millis => exact .moved s (.sleeping hf _)
    | join index => exact .moved s (.joining hf _)
  | ended s r => exact .ended s r

theorem Turn.shared_ofProgress (now : Nat) (p : Progress) : (ofProgress now p).shared = p.shared := by
  cases p with
  | waiting s frames w => cases w <;> rfl
  | _ => rfl

/-- **A turn of a thread does the same under other labels**, unless it reads a class file. -/
theorem Activity.turn_relabels (ht : t.Relabels t') (s : TaskState) {a a' : Activity} (ha : a.Relabels a')
    (thread now : Nat) :
    Query.Rel (fun u u' => s.HasRead t u.shared ∨ u.Relabels u') (a.turn t thread now s) (a'.turn t' thread now s) := by
  cases ha with
  | starting c m =>
    obtain ⟨hframe, hs⟩ := Activation.start_relabels ht s c m []
    simp only [turn]
    generalize Activation.start t s c m [] = q at hframe hs
    generalize Activation.start t' s c m [] = q' at hframe hs
    obtain ⟨r, s⟩ := q
    obtain ⟨r', s'⟩ := q'
    obtain rfl : s' = s := hs
    cases hframe with
    | ok hf => exact .done (.inr (.moved s' (.running (.cons hf .nil))))
    | error e => exact .done (.inr (.ended s' _))
  | running hf =>
    refine (Activation.step_relabels ht s hf thread).map fun p p' h => h.imp ?_ (Turn.relabels_ofProgress now)
    rw [Turn.shared_ofProgress]
    exact id
  | sleeping hf wake =>
    simp only [turn]
    split
    · exact .done (.inr (.ended s _))
    · split
      · exact .done (.inr (.moved s (.running hf)))
      · exact .done (.inr (.blocked s (.sleeping hf wake) _))
  | joining hf index =>
    simp only [turn]
    split
    · exact .done (.inr (.moved s (.running hf)))
    · split
      · exact .done (.inr (.ended s _))
      · exact .done (.inr (.blocked s (.joining hf index) _))

end Confine
