import Confine.Proofs.Machine.Reachable

/-!
# What ends a task, and what ends a thread

A task is ended by a hook that asks for it, and by nobody else in the program; its threads are numbered by the
instruction that starts one, and by nothing else.

* `Step.frame_course` — what each instruction does to that part of the state, which frames it calls from and raises
  in, and which faults it has;
* `Activity.turn_course` — the same for a turn of a thread.
-/

namespace Confine

/-! ### Instructions that change the course of a task -/

section

variable (t : Task) (thread : Nat) (s : TaskState) (f : Frame)

/-- The reason for which an instruction kills the task: that of the hook that it calls. -/
def Instruction.kill? : Instruction → Option String
  | .hook tracer name operands =>
    match (s.recordings.onHook tracer ⟨name, operands.map f.operand⟩ thread).1 with
    | some (.kill reason) => some reason
    | _ => none
  | _ => none

/-- The thread that an instruction registers, if there is room for it. -/
def Instruction.spawn? : Instruction → Option ThreadStart
  | .host (.spawn className methodName) =>
    if s.cancelled = false ∧ s.liveThreads < t.maxExtraThreads then
      some ⟨s.nextThread, className, methodName⟩
    else none
  | _ => none

end

/-- The two states agree on whether the task has been cancelled and why, and on its threads. -/
structure TaskState.SameCourse (s s' : TaskState) : Prop where
  cancelled : s'.cancelled = s.cancelled
  killReason : s'.killReason = s.killReason
  nextThread : s'.nextThread = s.nextThread
  finished : s'.finished = s.finished
  starting : s'.starting = s.starting

/-- What becomes of the course of a task: it is killed for a reason, and threads are registered, or not. -/
structure TaskState.Turns (s : TaskState) (kill? : Option String) (spawn? : Option ThreadStart)
    (s' : TaskState) : Prop where
  cancelled : s'.cancelled = (s.cancelled || kill?.isSome)
  killReason : s'.killReason = s.killReason.or kill?
  nextThread : s'.nextThread = s.nextThread + spawn?.toList.length
  finished : s'.finished = s.finished
  starting : s'.starting = spawn?.toList ++ s.starting

namespace TaskState

variable {t : Task} {s s' s'' : TaskState} {kill? : Option String} {spawn? : Option ThreadStart}

theorem SameCourse.refl (s : TaskState) : s.SameCourse s := ⟨rfl, rfl, rfl, rfl, rfl⟩

theorem SameCourse.trans (h : s.SameCourse s') (h' : s'.SameCourse s'') : s.SameCourse s'' where
  cancelled := h'.cancelled.trans h.cancelled
  killReason := h'.killReason.trans h.killReason
  nextThread := h'.nextThread.trans h.nextThread
  finished := h'.finished.trans h.finished
  starting := h'.starting.trans h.starting

theorem SameCourse.turns (h : s.SameCourse s') : s.Turns none none s' where
  cancelled := by rw [h.cancelled, Option.isSome_none, Bool.or_false]
  killReason := by rw [h.killReason, Option.or_none]
  nextThread := h.nextThread
  finished := h.finished
  starting := h.starting

theorem Turns.trans_same (h : s.Turns kill? spawn? s') (h' : s'.SameCourse s'') :
    s.Turns kill? spawn? s'' where
  cancelled := h'.cancelled.trans h.cancelled
  killReason := h'.killReason.trans h.killReason
  nextThread := h'.nextThread.trans h.nextThread
  finished := h'.finished.trans h.finished
  starting := h'.starting.trans h.starting

theorem sameCourse_record (p : Permission) (granted : Bool) :
    s.SameCourse (s.record t p granted) := ⟨rfl, rfl, rfl, rfl, rfl⟩

theorem sameCourse_load (name : String) : s.SameCourse (s.load t name).2 := by
  unfold load
  split
  split <;> exact ⟨rfl, rfl, rfl, rfl, rfl⟩

theorem takeStarting_eq (s : TaskState) : s.takeStarting =
    (s.starting.reverse.map fun b => ⟨b.index, .starting b.className b.methodName⟩,
      { s with starting := [] }) := by
  unfold takeStarting
  split
  · next hnil => exact Prod.ext (by rw [hnil]; rfl) (by rw [← hnil])
  · rfl

theorem turns_kill (reason : String) : s.Turns (some reason) none (s.kill reason) where
  cancelled := by simp [kill]
  killReason := by cases h : s.killReason <;> simp [kill, h]
  nextThread := rfl
  finished := rfl
  starting := rfl

end TaskState

/-! ### One instruction -/

/-- An end that an instruction may have that began in the state `s`, with `C` true of the state that it leaves. A
method is called, and an exception raised, in the frame `f` with another stack. An instruction that ends
its thread has been denied a permission, or has seen that the task is cancelled. -/
inductive Outcome.Orderly (t : Task) (s : TaskState) (f : Frame) (C : TaskState → Prop) :
    Outcome → Prop where
  | next {s' : TaskState} {g : Frame} (hs : C s') : Orderly t s f C (.next s' g)
  | call {s' : TaskState} {g callee : Frame} (hs : C s') (hg : g = f.withStack g.stack) :
      Orderly t s f C (.call s' g callee)
  | ret {s' : TaskState} {v : Option Value} (hs : C s') : Orderly t s f C (.ret s' v)
  | raise {s' : TaskState} {g : Frame} {r : Raised} (hs : C s') (hg : g = f.withStack g.stack) :
      Orderly t s f C (.raise s' g r)
  | denied {p : Permission} (hs : C (s.record t p false)) :
      Orderly t s f C (.fault (s.record t p false) (.security p))
  | cancelled {s' : TaskState} (hs : C s') (hc : s'.cancelled = true) :
      Orderly t s f C (.fault s' .cancelled)
  | wait {s' : TaskState} {g : Frame} {w : Wait} (hs : C s') : Orderly t s f C (.wait s' g w)

theorem Outcome.Orderly.mono {t : Task} {s : TaskState} {f : Frame} {C D : TaskState → Prop}
    {o : Outcome} (h : o.Orderly t s f C) (hCD : ∀ s', C s' → D s') : o.Orderly t s f D := by
  cases h with
  | next hs => exact .next (hCD _ hs)
  | call hs hg => exact .call (hCD _ hs) hg
  | ret hs => exact .ret (hCD _ hs)
  | raise hs hg => exact .raise (hCD _ hs) hg
  | denied hs => exact .denied (hCD _ hs)
  | cancelled hs hc => exact .cancelled (hCD _ hs) hc
  | wait hs => exact .wait (hCD _ hs)

namespace Step

variable {α : Type} {t : Task} {s₀ s : TaskState} {f₀ f : Frame}

/-- The rest of an instruction of `f₀`, which began in the state `s₀`, leaves the course of the task as it is. -/
def Steady (t : Task) (s₀ : TaskState) (f₀ : Frame) (q : Query Outcome) : Prop :=
  q.All (fun _ => True) (Outcome.Orderly t s₀ f₀ s₀.SameCourse)

theorem steady_next (hs : s₀.SameCourse s) : Steady t s₀ f₀ (next s f) := .done (.next hs)

theorem steady_raise (hs : s₀.SameCourse s) (hf : f = f₀.withStack f.stack) (r : Raised) :
    Steady t s₀ f₀ (raise s f r) := .done (.raise hs hf)

theorem steady_denied (p : Permission) :
    Steady t s₀ f₀ (fault (s₀.record t p false) (.security p)) :=
  .done (.denied (TaskState.sameCourse_record p false))

theorem steady_attempt (hs : s₀.SameCourse s) (hf : f = f₀.withStack f.stack)
    {r : Except Exception α} {k : α → Query Outcome} (hk : ∀ a, Steady t s₀ f₀ (k a)) :
    Steady t s₀ f₀ (attempt s f r k) := by
  cases r with
  | ok a => exact hk a
  | error e => exact steady_raise hs hf _

theorem steady_push (hs : s₀.SameCourse s) (hf : f = f₀.withStack f.stack) (stack : OperandStack)
    (v : Value) : Steady t s₀ f₀ (push s f stack v) :=
  steady_attempt hs hf fun _ => steady_next hs

theorem steady_require {p : Permission} {k : TaskState → Query Outcome}
    (hk : ∀ s, s₀.SameCourse s → Steady t s₀ f₀ (k s)) : Steady t s₀ f₀ (require t s₀ p k) := by
  unfold require TaskState.check Confinements.check
  cases s₀.confinements.allows t.capability p with
  | true => exact hk _ (TaskState.sameCourse_record p true)
  | false => exact steady_denied p

theorem steady_withClass (hf : f = f₀.withStack f.stack) {name : String}
    {k : TaskState → LinkedClass → Query Outcome}
    (hk : ∀ s c, s₀.SameCourse s → Steady t s₀ f₀ (k s c)) :
    Steady t s₀ f₀ (withClass t s₀ f name k) := by
  have hload : s₀.SameCourse (s₀.load t name).2 := TaskState.sameCourse_load name
  exact steady_attempt hload hf fun c => hk _ c hload

/-! ### Host calls -/

theorem steady_writeText (thread : Nat) (c : Console) (newline : Bool) :
    Steady t s₀ f₀ (writeText s₀ f₀ thread c newline) :=
  steady_attempt (.refl _) rfl fun _ => .ask trivial fun _ => steady_next ⟨rfl, rfl, rfl, rfl, rfl⟩

theorem steady_readFile : Steady t s₀ f₀ (readFile t s₀ f₀) := by
  refine steady_attempt (.refl _) rfl fun p => ?_
  dsimp only
  split
  · exact steady_push (TaskState.sameCourse_record _ _) rfl _ _
  · exact steady_denied _

theorem steady_writeFile : Steady t s₀ f₀ (writeFile t s₀ f₀) := by
  refine steady_attempt (.refl _) rfl fun p => steady_attempt (.refl _) rfl fun p' => ?_
  exact steady_require fun s hs => .ask trivial fun
    | .ok () => steady_next hs
    | .error message => steady_raise hs rfl _

theorem steady_getEnv : Steady t s₀ f₀ (getEnv t s₀ f₀) :=
  steady_attempt (.refl _) rfl fun _ => steady_require fun _ hs =>
    .ask trivial fun _ => steady_push hs rfl _ _

theorem steady_getProperty : Steady t s₀ f₀ (getProperty t s₀ f₀) := by
  refine steady_attempt (.refl _) rfl fun p => steady_require fun s hs => ?_
  split
  · exact .ask trivial fun dir => steady_push hs rfl _ _
  · exact steady_push hs rfl _ _

theorem steady_join : Steady t s₀ f₀ (join s₀ f₀) := by
  refine steady_attempt (.refl _) rfl fun p => ?_
  dsimp only
  split
  · exact steady_raise (.refl _) rfl _
  · split
    · exact .done (.wait (.refl _))
    · exact steady_raise (.refl _) rfl _

theorem steady_sleep : Steady t s₀ f₀ (sleep s₀ f₀) := by
  refine steady_attempt (.refl _) rfl fun p => ?_
  dsimp only
  split
  · exact steady_raise (.refl _) rfl _
  · exact .done (.wait (.refl _))

/-- Every call to the host but the one that starts a thread. -/
theorem steady_host (thread : Nat) (call : HostCall) (h : ∀ c m, call ≠ .spawn c m) :
    Steady t s₀ f₀ (host t thread s₀ f₀ call) := by
  cases call with
  | print => exact steady_writeText thread _ _
  | println => exact steady_writeText thread _ _
  | eprint => exact steady_writeText thread _ _
  | eprintln => exact steady_writeText thread _ _
  | readFile => exact steady_readFile
  | writeFile => exact steady_writeFile
  | getEnv => exact steady_getEnv
  | getProperty => exact steady_getProperty
  | exit =>
    exact steady_attempt (.refl _) rfl fun p => steady_require fun s hs => steady_next hs
  | setStreams => exact steady_require fun s hs => steady_next hs
  | spawn c m => exact absurd rfl (h c m)
  | join => exact steady_join
  | sleep => exact steady_sleep
  | time => exact .ask trivial fun now => steady_push (.refl _) rfl _ _
  | loadClass =>
    exact steady_attempt (.refl _) rfl fun p =>
      steady_withClass rfl fun s c hs => steady_push hs rfl _ _

/-- To start a thread registers one, or is denied. -/
theorem spawn_course (className methodName : String) :
    (spawn t s₀ f₀ className methodName).All (fun _ => True) (Outcome.Orderly t s₀ f₀
      (s₀.Turns none ((Instruction.host (.spawn className methodName)).spawn? t s₀))) := by
  unfold spawn TaskState.spawn
  by_cases hc : s₀.cancelled = true
  · -- cancelled
    have hnone : (Instruction.host (.spawn className methodName)).spawn? t s₀ = none :=
      if_neg (by simp [hc])
    simp only [hc, if_true, hnone]
    exact .done (.cancelled (TaskState.SameCourse.refl s₀).turns hc)
  simp only [hc, if_false, Bool.false_eq_true]
  by_cases hl : s₀.liveThreads < t.maxExtraThreads
  · -- there is room for a thread
    have hsome : (Instruction.host (.spawn className methodName)).spawn? t s₀ =
        some ⟨s₀.nextThread, className, methodName⟩ := if_pos ⟨by simpa using hc, hl⟩
    simp only [hl, decide_true, if_true, hsome]
    unfold push
    cases f₀.stack.push _ with
    | ok stack => exact .done (.next ⟨by simp [TaskState.record], by simp [TaskState.record], rfl, rfl, rfl⟩)
    | error e =>
      exact .done (.raise ⟨by simp [TaskState.record], by simp [TaskState.record], rfl, rfl, rfl⟩ rfl)
  · -- there is none, which is recorded
    have hnone : (Instruction.host (.spawn className methodName)).spawn? t s₀ = none :=
      if_neg fun h => hl h.2
    simp only [hl, decide_false, hnone]
    exact .done (.denied (TaskState.sameCourse_record _ _).turns)

/-! ### Other instructions -/

/-- A hook kills the task, or leaves its course as it is. -/
theorem hook_course (thread : Nat) (tracer name : String) (operands : List HookOperand) :
    (hook thread s₀ f₀ tracer name operands).All (fun _ => True) (Outcome.Orderly t s₀ f₀
      (s₀.Turns ((Instruction.hook tracer name operands).kill? thread s₀ f₀) none)) := by
  unfold hook Instruction.kill?
  dsimp only
  generalize s₀.recordings.onHook tracer ⟨name, operands.map f₀.operand⟩ thread = q
  obtain ⟨signal, recordings⟩ := q
  have hs : s₀.SameCourse { s₀ with recordings := recordings } := ⟨rfl, rfl, rfl, rfl, rfl⟩
  cases signal with
  | none => exact .done (.next hs.turns)
  | some signal =>
    cases signal with
    | throw e => exact .done (.raise hs.turns rfl)
    | kill reason =>
      have hkill := TaskState.turns_kill (s := { s₀ with recordings := recordings }) reason
      exact .done (.cancelled ⟨hkill.cancelled, hkill.killReason, rfl, rfl, rfl⟩ rfl)

theorem steady_invokeStatic (className name : String) :
    Steady t s₀ f₀ (invokeStatic t s₀ f₀ className name) := by
  refine steady_withClass rfl fun s c hs => ?_
  dsimp only
  split
  · exact steady_raise hs rfl _
  · exact steady_attempt hs rfl fun p => steady_attempt hs rfl fun g => .done (.call hs rfl)

theorem steady_invokeVirtual (name : String) (arity : Nat) :
    Steady t s₀ f₀ (invokeVirtual t s₀ f₀ name arity) :=
  steady_attempt (.refl _) rfl fun _ => steady_attempt (.refl _) rfl fun _ =>
    steady_withClass rfl fun _ _ hs => steady_attempt hs rfl fun _ => .done (.call hs rfl)

theorem steady_throw : Steady t s₀ f₀ (throw s₀ f₀) := by
  refine steady_attempt (.refl _) rfl fun p => ?_
  dsimp only
  split <;> exact steady_raise (.refl _) rfl _

theorem steady_jumpOn (wanted : Bool) (l : Label) : Steady t s₀ f₀ (jumpOn s₀ f₀ wanted l) := by
  refine steady_attempt (.refl _) rfl fun p => ?_
  dsimp only
  split
  · exact steady_attempt (.refl _) rfl fun g => steady_next (.refl _)
  · exact steady_next (.refl _)

theorem instruction_course (t : Task) (thread : Nat) (s : TaskState) (f : Frame) (i : Instruction) :
    (instruction t thread s f i).All (fun _ => True)
      (Outcome.Orderly t s f (s.Turns (i.kill? thread s f) (i.spawn? t s))) := by
  -- all but a thread start and a hook neither kill nor start anything
  have steady {q : Query Outcome} {k : Option String} {b : Option ThreadStart}
      (h : Steady t s f q) (hk : k = none) (hb : b = none) :
      q.All (fun _ => True) (Outcome.Orderly t s f (s.Turns k b)) := by
    subst hk hb
    induction h with
    | done ho => exact .done (ho.mono fun s' hs => hs.turns)
    | ask hr _ ih => exact .ask hr ih
  have pushes (stack : OperandStack) (v : Value) : Steady t s f (push s f stack v) :=
    steady_push (.refl _) rfl stack v
  have goes (g : Frame) : Steady t s f (next s g) := steady_next (.refl _)
  have tries {α : Type} (r : Except Exception α) {k : α → Query Outcome}
      (hk : ∀ a, Steady t s f (k a)) : Steady t s f (attempt s f r k) :=
    steady_attempt (.refl _) rfl hk
  cases i with
  | label l => exact steady (goes f) rfl rfl
  | lineNumber n l => exact steady (goes f) rfl rfl
  | frame depth =>
    refine steady ?_ rfl rfl
    unfold instruction
    dsimp only
    split
    · exact goes f
    · exact steady_raise (.refl _) rfl _
  | push c => exact steady (pushes _ _) rfl rfl
  | load i => exact steady (tries _ fun v => pushes _ _) rfl rfl
  | store i =>
    exact steady (tries _ fun p => steady_attempt (.refl _) rfl fun g => goes g) rfl rfl
  | binary op =>
    exact steady (tries _ fun _ => tries _ fun _ => tries _ fun _ => pushes _ _) rfl rfl
  | neg => exact steady (tries _ fun _ => pushes _ _) rfl rfl
  | not => exact steady (tries _ fun _ => pushes _ _) rfl rfl
  | dup => exact steady (tries _ fun _ => tries _ fun _ => pushes _ _) rfl rfl
  | pop => exact steady (tries _ fun _ => goes _) rfl rfl
  | swap => exact steady (tries _ fun _ => tries _ fun _ => tries _ fun _ => pushes _ _) rfl rfl
  | jump l => exact steady (tries _ fun g => goes g) rfl rfl
  | jumpIf l => exact steady (steady_jumpOn true l) rfl rfl
  | jumpIfNot l => exact steady (steady_jumpOn false l) rfl rfl
  | invokeStatic c m => exact steady (steady_invokeStatic c m) rfl rfl
  | invokeVirtual m n => exact steady (steady_invokeVirtual m n.toNat) rfl rfl
  | new c =>
    refine steady ?_ rfl rfl
    simp only [instruction, Heap.newObject]
    refine steady_withClass rfl fun s' cls hs => steady_push ?_ rfl _ _
    exact hs.trans ⟨rfl, rfl, rfl, rfl, rfl⟩
  | getField field => exact steady (tries _ fun _ => pushes _ _) rfl rfl
  | putField field =>
    exact steady (tries _ fun _ => tries _ fun _ => steady_next ⟨rfl, rfl, rfl, rfl, rfl⟩) rfl rfl
  | newException kind =>
    refine steady ?_ rfl rfl
    simp only [instruction, Heap.newException]
    refine tries _ fun _ => steady_push ?_ rfl _ _
    exact ⟨rfl, rfl, rfl, rfl, rfl⟩
  | throw => exact steady steady_throw rfl rfl
  | ret => exact steady (.done (.ret (.refl _))) rfl rfl
  | retValue => exact steady (tries _ fun _ => .done (.ret (.refl _))) rfl rfl
  | host call =>
    by_cases h : ∃ c m, call = .spawn c m
    · obtain ⟨c, m, rfl⟩ := h
      exact spawn_course c m
    · -- a host call that starts no thread
      have hspawn : (Instruction.host call).spawn? t s = none := by
        cases call with
        | spawn c m => exact absurd ⟨c, m, rfl⟩ h
        | _ => rfl
      exact steady (steady_host thread call fun c m hcall => h ⟨c, m, hcall⟩) rfl hspawn
  | hook tracer name operands => exact hook_course thread tracer name operands

end Step

/-! ### Turns of threads -/

section

variable (t : Task) (thread : Nat) (s : TaskState)

/-- The instruction that the next turn of a thread executes, and its frame. A thread that has been cancelled
executes none. -/
def Activity.instruction? : Activity → Option (Frame × Instruction)
  | running (f :: _) => if s.cancelled then none else (f.method.code[f.next]?).map (f, ·)
  | _ => none

/-- The reason for which the next turn of a thread kills the task. -/
def Activity.kill? (a : Activity) : Option String :=
  (a.instruction? s).bind fun x => x.2.kill? thread s x.1

/-- The thread that the next turn of a thread registers. -/
def Activity.spawn? (a : Activity) : Option ThreadStart :=
  (a.instruction? s).bind fun x => x.2.spawn? t s

end

/-- The turn `u` of a thread changes the course of its task as its instruction does, and ends the thread with a
fault only if it was denied a permission, or has seen that the task is cancelled. -/
structure Turn.Orderly (t : Task) (thread : Nat) (s : TaskState) (a : Activity) (u : Turn) : Prop where
  course : s.Turns (a.kill? thread s) (a.spawn? t s) u.shared
  denied : ∀ s' p, u = .ended s' (.error (.security p)) →
    s'.confinements = s.confinements.record t.capability p false
  cancelled : ∀ s', u = .ended s' (.error .cancelled) → s'.cancelled = true
  confinement : ∀ s' fault, u ≠ .ended s' (.error (.confinement fault))

namespace Turn

variable {t : Task} {thread now : Nat} {s s' : TaskState} {a : Activity}

/-- A turn that ends its thread with an exception, with a value, or not at all. -/
theorem orderly_of_turns {u : Turn} (hs : s.Turns (a.kill? thread s) (a.spawn? t s) u.shared)
    (hfault : ∀ s' e, u = .ended s' (.error e) → ∃ x, e = .threw x) : u.Orderly t thread s a where
  course := hs
  denied := by
    intro s' p hu
    obtain ⟨x, hx⟩ := hfault s' _ hu
    cases hx
  cancelled := by
    intro s' hu
    obtain ⟨x, hx⟩ := hfault s' _ hu
    cases hx
  confinement := by
    intro s' e hu
    obtain ⟨x, hx⟩ := hfault s' _ hu
    cases hx

theorem orderly_of_same {u : Turn} (hi : a.instruction? s = none) (hs : s.SameCourse u.shared)
    (hfault : ∀ s' e, u = .ended s' (.error e) → ∃ x, e = .threw x) : u.Orderly t thread s a := by
  refine orderly_of_turns ?_ hfault
  rw [Activity.kill?, Activity.spawn?, hi]
  exact hs.turns

theorem orderly_of_cancelled (hi : a.instruction? s = none) (hc : s.cancelled = true) :
    (ended s (.error .cancelled)).Orderly t thread s a where
  course := by
    rw [Activity.kill?, Activity.spawn?, hi]
    exact (TaskState.SameCourse.refl s).turns
  denied := by rintro s' p ⟨⟩
  cancelled := by
    rintro s' ⟨⟩
    exact hc
  confinement := by rintro s' e ⟨⟩

/-- An exception that is on its way changes the heap only, and ends the thread with itself or not at all. -/
theorem unwind_course (now : Nat) (s : TaskState) (frames : List Frame) (r : Raised) :
    s.SameCourse (ofProgress now (Activation.unwind t s frames r)).shared ∧
      ∀ s' e, ofProgress now (Activation.unwind t s frames r) = .ended s' (.error e) →
        e = .threw r.exception := by
  unfold Activation.unwind
  dsimp only
  split
  · refine ⟨.refl s, ?_⟩
    rintro s' e ⟨⟩
    rfl
  · split
    · cases r <;> exact ⟨⟨rfl, rfl, rfl, rfl, rfl⟩, by rintro s' e ⟨⟩⟩
    · refine ⟨.refl s, ?_⟩
      rintro s' e ⟨⟩
      rfl

/-- A turn does what its instruction does. -/
theorem orderly_of_outcome {f : Frame} {C : TaskState → Prop} {o : Outcome}
    (ho : o.Orderly t s f C) (hC : ∀ s', C s' → s.Turns (a.kill? thread s) (a.spawn? t s) s')
    (now : Nat) (outer : List Frame) :
    (ofProgress now (Activation.finish t outer o)).Orderly t thread s a := by
  have goes {u : Turn} {s' : TaskState} (hs : C s') (hu : s'.SameCourse u.shared)
      (hfault : ∀ s' e, u = .ended s' (.error e) → ∃ x, e = .threw x) : u.Orderly t thread s a :=
    orderly_of_turns ((hC s' hs).trans_same hu) hfault
  have unwinds {s' : TaskState} (hs : C s') (frames : List Frame) (r : Raised) :
      (ofProgress now (Activation.unwind t s' frames r)).Orderly t thread s a := by
    obtain ⟨hsame, hthrew⟩ := unwind_course (t := t) now s' frames r
    exact goes hs hsame fun s'' e hu => ⟨_, hthrew s'' e hu⟩
  cases ho with
  | next hs => exact goes hs (.refl _) (by rintro s' e ⟨⟩)
  | call hs hg =>
    -- the callee's frame is entered, or there is no room for it
    unfold Activation.finish Activation.enter
    dsimp only
    split
    · exact unwinds hs _ _
    · exact goes hs (.refl _) (by rintro s' e ⟨⟩)
  | @ret s' v hs =>
    cases outer with
    | nil => exact goes hs (.refl _) (by rintro s' e ⟨⟩)
    | cons f outer => cases v <;> exact goes hs (.refl _) (by rintro s' e ⟨⟩)
  | raise hs hg => exact unwinds hs _ _
  | denied hs =>
    -- a denied call says so, and leaves no outcome behind
    refine ⟨hC _ hs, ?_, by rintro s' ⟨⟩, by rintro s' e ⟨⟩⟩
    rintro s' p ⟨⟩
    rfl
  | cancelled hs hc =>
    refine ⟨hC _ hs, by rintro s' p ⟨⟩, ?_, by rintro s' e ⟨⟩⟩
    rintro s' ⟨⟩
    exact hc
  | @wait s' g w hs => cases w <;> exact goes hs (.refl _) (by rintro s' e ⟨⟩)

end Turn

theorem Activation.threw_of_start {t : Task} {s : TaskState} {c m : String} {arguments : List Value}
    {e : Fault} (h : (start t s c m arguments).1 = .error e) : ∃ x, e = .threw x := by
  unfold start at h
  cases hl : (s.load t c).1 with
  | error x => exact ⟨x, by simpa [hl, Except.mapError, bind, Except.bind] using h.symm⟩
  | ok cls =>
    cases hc : Frame.forCall cls m arguments none with
    | error x => exact ⟨x, by simpa [hl, hc, Except.mapError, bind, Except.bind] using h.symm⟩
    | ok g => simp [hl, hc, Except.mapError, bind, Except.bind] at h

theorem Activity.turn_running {t : Task} {thread now : Nat} {s : TaskState} {f : Frame}
    {outer : List Frame} (hc : s.cancelled = false) : (running (f :: outer)).turn t thread now s =
      (Step.frame t thread s f).map fun o => Turn.ofProgress now (Activation.finish t outer o) := by
  simp only [turn, Activation.step, hc, Bool.false_eq_true, if_false]
  exact Query.map_map _ _ _

theorem Activity.turn_of_cancelled {t : Task} {frames : List Frame} {s : TaskState} {thread now : Nat}
    (hc : s.cancelled = true) :
    (running frames).turn t thread now s = .done (.ended s (.error .cancelled)) := by
  simp only [turn, Activation.step, hc, if_true]
  rfl

/-- **What a turn may be**: an instruction of the innermost frame, the start of the thread, or one that leaves the
frames as they are or leaves none. -/
theorem Activity.turn_cases {t : Task} {thread now : Nat} {s : TaskState} {a : Activity} {u : Turn}
    (hu : (a.turn t thread now s).MayCome u) :
    (∃ f outer o, a = running (f :: outer) ∧ (Step.frame t thread s f).MayCome o ∧
      u = Turn.ofProgress now (Activation.finish t outer o)) ∨
    (∃ c m f, (Activation.start t s c m []).1 = .ok f ∧ u.frames = [f]) ∨
    u.frames = a.frames ∨ u.frames = [] := by
  cases a with
  | starting c m =>
    simp only [turn] at hu
    split at hu
    · next f hf =>
      rw [Query.mayCome_done_iff.1 hu]
      exact .inr (.inl ⟨c, m, f, hf, rfl⟩)
    · rw [Query.mayCome_done_iff.1 hu]
      exact .inr (.inr (.inl rfl))
  | running frames =>
    cases hc : s.cancelled with
    | true =>
      rw [turn_of_cancelled hc] at hu
      rw [Query.mayCome_done_iff.1 hu]
      exact .inr (.inr (.inr rfl))
    | false =>
      cases frames with
      | nil =>
        simp only [turn, Activation.step, hc, Bool.false_eq_true, if_false] at hu
        rw [Query.mayCome_done_iff.1 hu]
        exact .inr (.inr (.inl rfl))
      | cons f outer =>
        rw [turn_running hc] at hu
        obtain ⟨o, ho, rfl⟩ := Query.mayCome_map_iff.1 hu
        exact .inl ⟨f, outer, o, rfl, ho, rfl⟩
  | sleeping frames wake =>
    simp only [turn] at hu
    split at hu
    · rw [Query.mayCome_done_iff.1 hu]
      exact .inr (.inr (.inr rfl))
    · split at hu <;> rw [Query.mayCome_done_iff.1 hu] <;> exact .inr (.inr (.inl rfl))
  | joining frames index =>
    simp only [turn] at hu
    split at hu
    · rw [Query.mayCome_done_iff.1 hu]
      exact .inr (.inr (.inl rfl))
    · split at hu <;> rw [Query.mayCome_done_iff.1 hu]
      · exact .inr (.inr (.inr rfl))
      · exact .inr (.inr (.inl rfl))

/-- **What a turn of a thread does to the course of its task.** -/
theorem Activity.turn_course (t : Task) (thread now : Nat) (s : TaskState) (a : Activity) :
    (a.turn t thread now s).All (fun _ => True) (Turn.Orderly t thread s a) := by
  have idle {u : Turn} (hi : a.instruction? s = none) (hs : u.shared = s)
      (hu : ∀ s' e, u ≠ .ended s' (.error e)) :
      (Query.done u).All (fun _ => True) (Turn.Orderly t thread s a) :=
    .done (Turn.orderly_of_same hi (by rw [hs]; exact .refl s) fun s' e h => absurd h (hu s' e))
  cases a with
  | starting c m =>
    have hload : s.SameCourse (Activation.start t s c m []).2 := TaskState.sameCourse_load c
    simp only [turn]
    split
    · exact .done (Turn.orderly_of_same rfl hload (by rintro s' e ⟨⟩))
    · next e he =>
      refine .done (Turn.orderly_of_same rfl hload ?_)
      rintro s' e' ⟨⟩
      exact Activation.threw_of_start he
  | running frames =>
    by_cases hc : s.cancelled = true
    · have hnone : (running frames).instruction? s = none := by
        cases frames with
        | nil => rfl
        | cons f outer => exact if_pos hc
      simp only [turn, Activation.step, if_pos hc]
      exact .done (Turn.orderly_of_cancelled hnone hc)
    cases frames with
    | nil =>
      simp only [turn, Activation.step, if_neg hc]
      exact idle rfl rfl (by rintro s' e ⟨⟩)
    | cons f outer =>
      have hinstruction : (running (f :: outer)).instruction? s =
          (f.method.code[f.next]?).map (f, ·) := if_neg hc
      rw [turn_running (by simpa using hc), Step.frame]
      cases hi : f.method.code[f.next]? with
      | none =>
        rw [hi] at hinstruction
        -- behind its last instruction the frame returns
        refine .done (Turn.orderly_of_outcome (C := s.SameCourse) (f := f) (.ret (.refl s))
          (fun s' hs => ?_) now outer)
        rw [kill?, spawn?, hinstruction]
        exact hs.turns
      | some i =>
        rw [hi] at hinstruction
        have hcourse := Step.instruction_course t thread s { f with next := f.next + 1 } i
        refine hcourse.map fun o ho => Turn.orderly_of_outcome ho (fun s' hs => ?_) now outer
        rw [kill?, spawn?, hinstruction]
        exact hs
  | sleeping frames wake =>
    simp only [turn]
    split
    · next hc => exact .done (Turn.orderly_of_cancelled rfl hc)
    · split <;> exact idle rfl rfl (by rintro s' e ⟨⟩)
  | joining frames index =>
    simp only [turn]
    split
    · exact idle rfl rfl (by rintro s' e ⟨⟩)
    · split
      · next hc => exact .done (Turn.orderly_of_cancelled rfl hc)
      · exact idle rfl rfl (by rintro s' e ⟨⟩)

end Confine
