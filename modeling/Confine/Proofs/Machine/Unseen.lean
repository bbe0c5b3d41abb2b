import Confine.Machine.Activation
import Confine.Proofs.Machine.Query

/-!
# What instructions do not see

Instructions that are no calls into tracers neither see nor change what tracers have recorded, why the task was killed,
and which tracers its unit has.

* `Step.instruction_told` — one instruction;
* `Activation.step_told` — a step of all frames of a thread.
-/

namespace Confine

def LoadingUnit.tracedBy (u : LoadingUnit) (is : List Instrumentation) : LoadingUnit :=
  { u with own := { u.own with instrumentation := is } }

def Task.tracedBy (t : Task) (is : List Instrumentation) : Task :=
  { t with unit := t.unit.tracedBy is }

def TaskState.told (s : TaskState) (rs : Recordings) (reason : Option String) : TaskState :=
  { s with recordings := rs, killReason := reason }

/-- What an instruction comes to in such a state. -/
def Outcome.told (rs : Recordings) (reason : Option String) : Outcome → Outcome
  | .next s f => .next (s.told rs reason) f
  | .call s f g => .call (s.told rs reason) f g
  | .ret s v => .ret (s.told rs reason) v
  | .raise s f r => .raise (s.told rs reason) f r
  | .fault s e => .fault (s.told rs reason) e
  | .wait s f w => .wait (s.told rs reason) f w

abbrev Step.told (rs : Recordings) (reason : Option String) (q : Query Outcome) : Query Outcome :=
  q.map (.told rs reason)

namespace TaskState

variable (t : Task) (is : List Instrumentation) (s : TaskState) (rs : Recordings)
  (reason : Option String)

theorem load_told (name : String) :
    (s.told rs reason).load (t.tracedBy is) name =
      ((s.load t name).1, (s.load t name).2.told rs reason) := by
  have hloads : (t.tracedBy is).unit.loadClass (s.told rs reason).classSets name
      (some (t.tracedBy is).capability) (s.told rs reason).confinements =
      t.unit.loadClass s.classSets name (some t.capability) s.confinements := rfl
  unfold load
  rw [hloads]
  generalize t.unit.loadClass s.classSets name (some t.capability) s.confinements = p
  obtain ⟨r, confinements⟩ := p
  cases r <;> rfl

theorem spawn_told (c m : String) :
    (s.told rs reason).spawn (t.tracedBy is) c m =
      ((s.spawn t c m).1, (s.spawn t c m).2.told rs reason) := by
  have hlive : (s.told rs reason).liveThreads < (t.tracedBy is).maxExtraThreads ↔
      s.liveThreads < t.maxExtraThreads := Iff.rfl
  unfold spawn
  show (if s.cancelled = true then _ else _) = _
  by_cases hc : s.cancelled = true
  · rw [if_pos hc, if_pos hc]
  · rw [if_neg hc, if_neg hc]
    by_cases hl : s.liveThreads < t.maxExtraThreads
    · simp only [hl, hlive.2 hl, decide_true, if_true]
      rfl
    · simp only [hl, mt hlive.1 hl, decide_false, if_false]
      rfl

end TaskState

namespace Step

variable {t : Task} {is : List Instrumentation} {s : TaskState} {f : Frame} {rs : Recordings}
  {reason : Option String} {α : Type}

theorem attempt_told (r : Except Exception α) {k k' : α → Query Outcome}
    (h : ∀ a, k' a = told rs reason (k a)) :
    attempt (s.told rs reason) f r k' = told rs reason (attempt s f r k) := by
  cases r with
  | ok a => exact h a
  | error e => rfl

theorem push_told (stack : OperandStack) (v : Value) :
    push (s.told rs reason) f stack v = told rs reason (push s f stack v) :=
  attempt_told _ fun _ => rfl

theorem ask_told (r : HostRequest) {k k' : r.Answer → Query Outcome}
    (h : ∀ a, k' a = told rs reason (k a)) : Query.ask r k' = told rs reason (.ask r k) :=
  congrArg (Query.ask r) (funext h)

theorem require_told (p : Permission) {k k' : TaskState → Query Outcome}
    (h : ∀ s, k' (s.told rs reason) = told rs reason (k s)) :
    require (t.tracedBy is) (s.told rs reason) p k' = told rs reason (require t s p k) := by
  show (if (s.check t p).1 = true then k' ((s.check t p).2.told rs reason)
    else fault ((s.check t p).2.told rs reason) (.security p)) = _
  rw [h]
  unfold require
  split <;> simp only [*] <;> rfl

theorem withClass_told (name : String) {k k' : TaskState → LinkedClass → Query Outcome}
    (h : ∀ s c, k' (s.told rs reason) c = told rs reason (k s c)) :
    withClass (t.tracedBy is) (s.told rs reason) f name k' =
      told rs reason (withClass t s f name k) := by
  unfold withClass
  rw [TaskState.load_told]
  exact attempt_told _ fun c => h _ c

/-! ### Host calls -/

theorem writeText_told (thread : Nat) (c : Console) (newline : Bool) :
    writeText (s.told rs reason) f thread c newline =
      told rs reason (writeText s f thread c newline) :=
  attempt_told _ fun _ => ask_told _ fun _ => rfl

theorem readFile_told :
    readFile (t.tracedBy is) (s.told rs reason) f = told rs reason (readFile t s f) := by
  refine attempt_told _ fun p => ?_
  have hfile : (t.tracedBy is).unit.classFile? p.1 = t.unit.classFile? p.1 := rfl
  dsimp only
  rw [hfile]
  cases t.unit.classFile? p.1 with
  | none => rfl
  | some text => exact @push_told (s.record t (.readFile ⟨p.1⟩) true) ..

theorem writeFile_told :
    writeFile (t.tracedBy is) (s.told rs reason) f = told rs reason (writeFile t s f) := by
  refine attempt_told _ fun p => attempt_told _ fun q => require_told _ fun s => ask_told _ fun
    | .ok () => rfl
    | .error message => rfl

theorem getEnv_told :
    getEnv (t.tracedBy is) (s.told rs reason) f = told rs reason (getEnv t s f) :=
  attempt_told _ fun _ => require_told _ fun _ => ask_told _ fun _ => push_told _ _

theorem getProperty_told :
    getProperty (t.tracedBy is) (s.told rs reason) f = told rs reason (getProperty t s f) := by
  refine attempt_told _ fun p => require_told _ fun s => ?_
  by_cases hn : p.1 = "user.dir"
  · simp only [hn, if_true]
    exact ask_told _ fun _ => push_told _ _
  · simp only [hn, if_false]
    exact push_told _ _

theorem spawn_told (c m : String) :
    spawn (t.tracedBy is) (s.told rs reason) f c m = told rs reason (spawn t s f c m) := by
  unfold spawn
  rw [TaskState.spawn_told]
  generalize s.spawn t c m = p
  obtain ⟨r, s⟩ := p
  cases r with
  | ok index => exact push_told _ _
  | error e => rfl

theorem join_told : join (s.told rs reason) f = told rs reason (join s f) := by
  refine attempt_told _ fun p => ?_
  dsimp only
  split
  · rfl
  · show (if s.joinable _ = true then _ else _) = _
    split <;> rfl

theorem sleep_told : sleep (s.told rs reason) f = told rs reason (sleep s f) := by
  refine attempt_told _ fun p => ?_
  dsimp only
  split <;> rfl

theorem host_told (thread : Nat) (c : HostCall) :
    host (t.tracedBy is) thread (s.told rs reason) f c = told rs reason (host t thread s f c) := by
  cases c with
  | print | println | eprint | eprintln => exact writeText_told ..
  | readFile => exact readFile_told
  | writeFile => exact writeFile_told
  | getEnv => exact getEnv_told
  | getProperty => exact getProperty_told
  | exit =>
    refine attempt_told _ fun p => require_told _ fun s => ?_
    rfl
  | setStreams =>
    unfold host
    exact require_told _ fun _ => rfl
  | spawn c m => exact spawn_told c m
  | join => exact join_told
  | sleep => exact sleep_told
  | time => exact ask_told _ fun _ => push_told _ _
  | loadClass => exact attempt_told _ fun _ => withClass_told _ fun _ _ => push_told _ _

/-! ### Other instructions -/

theorem invokeStatic_told (c m : String) :
    invokeStatic (t.tracedBy is) (s.told rs reason) f c m =
      told rs reason (invokeStatic t s f c m) := by
  refine withClass_told _ fun s c => ?_
  dsimp only
  split
  · rfl
  · exact attempt_told _ fun _ => attempt_told _ fun _ => rfl

theorem invokeVirtual_told (m : String) (arity : Nat) :
    invokeVirtual (t.tracedBy is) (s.told rs reason) f m arity =
      told rs reason (invokeVirtual t s f m arity) :=
  attempt_told _ fun _ => attempt_told _ fun _ => withClass_told _ fun _ _ => attempt_told _ fun _ => rfl

theorem throw_told : throw (s.told rs reason) f = told rs reason (throw s f) := by
  refine attempt_told _ fun p => ?_
  dsimp only
  split <;> rfl

theorem jumpOn_told (wanted : Bool) (l : Label) :
    jumpOn (s.told rs reason) f wanted l = told rs reason (jumpOn s f wanted l) := by
  refine attempt_told _ fun p => ?_
  dsimp only
  split
  · exact attempt_told _ fun _ => rfl
  · rfl

/-- **An instruction that is no call into a tracer does not see the tracers.** -/
theorem instruction_told (t : Task) (is : List Instrumentation) (s : TaskState) (f : Frame)
    (rs : Recordings) (reason : Option String) (thread : Nat) {i : Instruction}
    (hi : ∀ tracer name operands, i ≠ .hook tracer name operands) :
    instruction (t.tracedBy is) thread (s.told rs reason) f i =
      told rs reason (instruction t thread s f i) := by
  cases i with
  | label | lineNumber => rfl
  | frame depth =>
    show (if f.stack.size = depth.toNat then _ else _) = told rs reason (if _ then _ else _)
    split <;> rfl
  | push c => exact push_told _ _
  | load i => exact attempt_told _ fun _ => push_told _ _
  | store i => exact attempt_told _ fun _ => attempt_told _ fun _ => rfl
  | binary op =>
    exact attempt_told _ fun _ => attempt_told _ fun _ => attempt_told _ fun _ => push_told _ _
  | neg | not => exact attempt_told _ fun _ => push_told _ _
  | dup => exact attempt_told _ fun _ => attempt_told _ fun _ => push_told _ _
  | pop => exact attempt_told _ fun _ => rfl
  | swap =>
    exact attempt_told _ fun _ => attempt_told _ fun _ => attempt_told _ fun _ => push_told _ _
  | jump l => exact attempt_told _ fun _ => rfl
  | jumpIf l => exact jumpOn_told true l
  | jumpIfNot l => exact jumpOn_told false l
  | invokeStatic c m => exact invokeStatic_told c m
  | invokeVirtual m n => exact invokeVirtual_told m n.toNat
  | new c =>
    unfold instruction
    refine withClass_told _ fun s c => ?_
    exact @push_told { s with heap := (s.heap.newObject c.name).2 } ..
  | getField field => exact attempt_told _ fun _ => push_told _ _
  | putField field => exact attempt_told _ fun _ => attempt_told _ fun _ => rfl
  | newException kind =>
    refine attempt_told _ fun p => ?_
    exact @push_told { s with heap := (s.heap.newException
      (.of kind (if p.1 = .null then "" else p.1.shown))).2 } ..
  | throw => exact throw_told
  | ret => rfl
  | retValue => exact attempt_told _ fun _ => rfl
  | host c => exact host_told thread c
  | hook tracer name operands => exact absurd rfl (hi tracer name operands)

end Step

/-! ### Frames of a thread -/

def Progress.told (rs : Recordings) (reason : Option String) : Progress → Progress
  | .running s frames => .running (s.told rs reason) frames
  | .waiting s frames w => .waiting (s.told rs reason) frames w
  | .ended s r => .ended (s.told rs reason) r

namespace Activation

variable (t : Task) (is : List Instrumentation) (s : TaskState) (rs : Recordings)
  (reason : Option String)

theorem unwind_told (frames : List Frame) (r : Raised) :
    unwind (t.tracedBy is) (s.told rs reason) frames r =
      (unwind t s frames r).told rs reason := by
  have hfatal : isFatal (t.tracedBy is) r.exception = isFatal t r.exception := rfl
  have hvalue : raisedValue (s.told rs reason) r =
      ((raisedValue s r).1, (raisedValue s r).2.told rs reason) := by
    cases r <;> rfl
  unfold unwind
  dsimp only
  rw [hfatal, hvalue]
  split
  · rfl
  · split <;> rfl

theorem enter_told (g : Frame) (frames : List Frame) :
    enter (t.tracedBy is) (s.told rs reason) g frames = (enter t s g frames).told rs reason := by
  unfold enter
  split
  · exact unwind_told ..
  · rfl

theorem leave_told (v : Option Value) (frames : List Frame) :
    leave (s.told rs reason) v frames = (leave s v frames).told rs reason := by
  cases frames with
  | nil => rfl
  | cons f outer => cases v <;> rfl

theorem finish_told (outer : List Frame) (o : Outcome) :
    finish (t.tracedBy is) outer (o.told rs reason) = (finish t outer o).told rs reason := by
  cases o with
  | next s f => rfl
  | call s f g => exact enter_told ..
  | ret s v => exact leave_told ..
  | raise s f r => exact unwind_told ..
  | fault s e => rfl
  | wait s f w => rfl

def AtHook (frames : List Frame) : Prop :=
  ∃ f outer tracer name operands, frames = f :: outer ∧
    f.method.code[f.next]? = some (.hook tracer name operands)

/-- **A step that is no call into a tracer does not see the tracers.** -/
theorem step_told (thread : Nat) {frames : List Frame}
    (h : s.cancelled = false → ¬ AtHook frames) :
    step (t.tracedBy is) thread (s.told rs reason) frames =
      (step t thread s frames).map (.told rs reason) := by
  unfold step
  show (if s.cancelled = true then _ else _) = _
  split
  · rfl
  · next hc =>
    cases frames with
    | nil => rfl
    | cons f outer =>
      have hframe : Step.frame (t.tracedBy is) thread (s.told rs reason) f =
          Step.told rs reason (Step.frame t thread s f) := by
        unfold Step.frame
        cases hi : f.method.code[f.next]? with
        | none => rfl
        | some i =>
          refine Step.instruction_told t is s _ rs reason thread fun tracer name operands heq => ?_
          exact h (by simpa using hc) ⟨f, outer, tracer, name, operands, rfl, heq ▸ hi⟩
      dsimp only
      rw [hframe, Query.map_map, Query.map_map]
      exact congrArg (fun g => Query.map g _) (funext (finish_told t is rs reason outer))

theorem start_told (className methodName : String) (arguments : List Value) :
    start (t.tracedBy is) (s.told rs reason) className methodName arguments =
      ((start t s className methodName arguments).1,
        (start t s className methodName arguments).2.told rs reason) := by
  unfold start
  rw [TaskState.load_told]

end Activation

end Confine
