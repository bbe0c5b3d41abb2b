import Confine.Machine.Activation
import Confine.Proofs.Machine.Query

/-!
# What one instruction can do

`Step.frame_bounded` says once, for all instructions, what a step may ask of the host and how it may end:

* it asks for a variable, the working directory or a file only if the confinement allows that
  (`TaskState.Permits`);
* the confinements change by decisions that the task logs, the output by what the instruction writes
  (`Instruction.writes`), and the threads by one that is registered within the limit (`TaskState.Does`);
* the frame stays in its method and keeps its number of locals (`Frame.Keeps`), and a frame that is called is made
  for a class that the unit offers (`Outcome.Within`).

`Activation.step_bounded` says the same of a step of all frames of a thread.
-/

namespace Confine

/-! ### Decisions that are logged -/

def Confinements.recordAll (s : Confinements) (c : Capability) (ds : List Decision) : Confinements :=
  ds.foldl (fun s d => s.record c d.permission d.granted) s

@[simp] theorem Confinements.allows_recordAll (s : Confinements) (c d : Capability)
    (ds : List Decision) (p : Permission) : (s.recordAll c ds).allows d p = s.allows d p := by
  induction ds generalizing s with
  | nil => rfl
  | cons a ds ih => exact (ih _).trans (s.allows_record c d _ p _)

theorem Confinements.recordAll_append (s : Confinements) (c : Capability) (ds ds' : List Decision) :
    s.recordAll c (ds ++ ds') = (s.recordAll c ds).recordAll c ds' := List.foldl_append ..

namespace TaskState

variable {t : Task} {s s' s'' : TaskState}

/-- Extra threads have been registered one after the other, within the limit, or none at all. -/
structure Registers (t : Task) (s s' : TaskState) : Prop where
  finished : s'.finished = s.finished
  starting : ∃ added, s'.starting = added ++ s.starting ∧
    s'.nextThread = s.nextThread + added.length ∧
    (added = [] ∨ s'.liveThreads ≤ t.maxExtraThreads)

theorem Registers.of_eq (hf : s'.finished = s.finished) (hn : s'.nextThread = s.nextThread)
    (hs : s'.starting = s.starting) : s.Registers t s' := ⟨hf, [], hs, hn, .inl rfl⟩

theorem Registers.trans (h : s.Registers t s') (h' : s'.Registers t s'') : s.Registers t s'' := by
  obtain ⟨hf, added, hs, hn, hl⟩ := h
  obtain ⟨hf', added', hs', hn', hl'⟩ := h'
  refine ⟨hf'.trans hf, added' ++ added, by rw [hs', hs, List.append_assoc], ?_, ?_⟩
  · rw [hn', hn, List.length_append]
    omega
  · rcases hl' with rfl | hl'
    · have hlive : s''.liveThreads = s'.liveThreads := by
        rw [liveThreads, liveThreads, hn', hf', List.length_nil, Nat.add_zero]
      rw [hlive]
      exact hl
    · exact .inr hl'

/-- Of confinements, output and threads, one state differs from another by decisions of the task and
by threads that have been registered alone. -/
structure Logs (t : Task) (s s' : TaskState) : Prop where
  decisions : ∃ ds, s'.confinements = s.confinements.recordAll t.capability ds
  sink : s'.sink = s.sink
  threads : s.Registers t s'

theorem Logs.of_eq (h : s'.confinements = s.confinements) (hs : s'.sink = s.sink)
    (hr : s.Registers t s') : s.Logs t s' := ⟨⟨[], h⟩, hs, hr⟩

theorem Logs.refl (s : TaskState) : s.Logs t s := .of_eq rfl rfl (.of_eq rfl rfl rfl)

theorem Logs.trans (h : s.Logs t s') (h' : s'.Logs t s'') : s.Logs t s'' := by
  obtain ⟨⟨ds, hs⟩, hw, hr⟩ := h
  obtain ⟨⟨ds', hs'⟩, hw', hr'⟩ := h'
  exact ⟨⟨ds ++ ds', by rw [hs', hs, Confinements.recordAll_append]⟩, hw'.trans hw, hr.trans hr'⟩

theorem logs_record (p : Permission) (granted : Bool) : s.Logs t (s.record t p granted) :=
  ⟨⟨[⟨p, granted⟩], rfl⟩, rfl, .of_eq rfl rfl rfl⟩

theorem Logs.allows_eq (h : s.Logs t s') (c : Capability) (p : Permission) :
    s'.confinements.allows c p = s.confinements.allows c p := by
  obtain ⟨ds, hs⟩ := h.decisions
  rw [hs, Confinements.allows_recordAll]

theorem logs_load (name : String) : s.Logs t (s.load t name).2 := by
  have hconf : (s.load t name).2.confinements =
      (t.unit.loadClass s.classSets name (some t.capability) s.confinements).2 := by
    unfold load
    split
    split <;> simp_all
  have hsink : (s.load t name).2.sink = s.sink := by
    unfold load
    split
    split <;> rfl
  have hthreads : s.Registers t (s.load t name).2 := by
    unfold load
    split
    split <;> exact .of_eq rfl rfl rfl
  rw [LoadingUnit.loadClass] at hconf
  simp only at hconf
  split at hconf
  · exact ⟨⟨[⟨.loadClass name, false⟩], hconf⟩, hsink, hthreads⟩
  · exact .of_eq hconf hsink hthreads

theorem logs_spawn (className methodName : String) :
    s.Logs t (s.spawn t className methodName).2 := by
  unfold spawn
  by_cases hc : s.cancelled
  · rw [if_pos hc]
    exact .refl s
  · rw [if_neg hc]
    by_cases hl : s.liveThreads < t.maxExtraThreads
    · simp only [hl, decide_true, if_true]
      refine .trans (logs_record _ _) (.of_eq rfl rfl ⟨rfl, [_], rfl, rfl, .inr ?_⟩)
      unfold liveThreads record at *
      simp only at *
      omega
    · simp only [hl, decide_false, if_false]
      exact logs_record _ _

/-- One state differs from another by decisions of the task, by threads that have been registered,
and by what has been written, all at one time. -/
structure Does (t : Task) (writes : List (Console × String)) (s s' : TaskState) : Prop where
  decisions : ∃ ds, s'.confinements = s.confinements.recordAll t.capability ds
  sink : ∃ now, s'.sink = writes.foldl (fun sink w => sink.write w.1 w.2 now) s.sink
  threads : s.Registers t s'

theorem Logs.does (h : s.Logs t s') : s.Does t [] s' := ⟨h.decisions, ⟨default, h.sink⟩, h.threads⟩

theorem Does.trans {writes : List (Console × String)} (h : s.Does t writes s')
    (h' : s'.Logs t s'') : s.Does t writes s'' := by
  obtain ⟨⟨ds, hs⟩, ⟨now, hw⟩, hr⟩ := h
  obtain ⟨⟨ds', hs'⟩, hw', hr'⟩ := h'
  exact ⟨⟨ds ++ ds', by rw [hs', hs, Confinements.recordAll_append]⟩, ⟨now, hw'.trans hw⟩,
    hr.trans hr'⟩

theorem Does.allows_eq {writes : List (Console × String)} (h : s.Does t writes s')
    (c : Capability) (p : Permission) :
    s'.confinements.allows c p = s.confinements.allows c p := by
  obtain ⟨ds, hs⟩ := h.decisions
  rw [hs, Confinements.allows_recordAll]

/-- The confinement of the task lets it make the request. -/
def Permits (t : Task) (s : TaskState) : HostRequest → Prop
  | .clock => True
  | .getEnv name => s.confinements.allows t.capability (.readEnv name) = true
  | .writeFile path _ => s.confinements.allows t.capability (.writeFile ⟨path⟩) = true
  | .workingDirectory => s.confinements.allows t.capability (.readProperty "user.dir") = true

end TaskState

/-! ### Classes that a unit offers -/

def LoadingUnit.Offers (u : LoadingUnit) (c : LinkedClass) : Prop :=
  ∃ l ∈ u.layers, ∃ name, l.class? name = some c

theorem LoadingUnit.offers_of_loadIn {name : String} {ls : List Layer} {sets below : List ClassSets}
    {c : LinkedClass} (h : loadIn name ls sets = .ok (c, below)) :
    ∃ l ∈ ls, l.class? name = some c := by
  induction ls generalizing sets below with
  | nil => simp [loadIn] at h
  | cons l ls ih =>
    unfold loadIn at h
    cases hc : l.class? name with
    | some d =>
      simp only [hc, Except.ok.injEq, Prod.mk.injEq] at h
      exact ⟨l, by simp, h.1 ▸ hc⟩
    | none =>
      simp only [hc] at h
      split at h
      · split at h
        · next hl =>
          simp only [Except.ok.injEq, Prod.mk.injEq] at h
          obtain ⟨rfl, -⟩ := h
          obtain ⟨l', hl', hc'⟩ := ih hl
          exact ⟨l', by simp [hl'], hc'⟩
        · simp at h
      · simp at h

theorem TaskState.offers_of_load {t : Task} {s : TaskState} {name : String} {c : LinkedClass}
    (h : (s.load t name).1 = .ok c) : t.unit.Offers c := by
  unfold load at h
  simp only [LoadingUnit.loadClass] at h
  split at h
  · next hl =>
    simp only [Except.ok.injEq] at h
    obtain ⟨l, hl, hc⟩ := LoadingUnit.offers_of_loadIn hl
    exact ⟨l, hl, name, h ▸ hc⟩
  · simp at h

/-! ### Frames that stay in their method -/

/-- One frame runs the method of another and has as many locals. -/
structure Frame.Keeps (f f' : Frame) : Prop where
  className : f'.className = f.className
  method : f'.method = f.method
  locals : f'.locals.size = f.locals.size

namespace Frame

variable {f f' f'' : Frame}

theorem Keeps.refl (f : Frame) : f.Keeps f := ⟨rfl, rfl, rfl⟩

theorem Keeps.trans (h : f.Keeps f') (h' : f'.Keeps f'') : f.Keeps f'' :=
  ⟨h'.className.trans h.className, h'.method.trans h.method, h'.locals.trans h.locals⟩

theorem keeps_withStack (f : Frame) (s : OperandStack) : f.Keeps (f.withStack s) := ⟨rfl, rfl, rfl⟩

theorem keeps_enter (f : Frame) (h : LinkedHandler) (v : Value) : f.Keeps (f.enter h v) :=
  ⟨rfl, rfl, rfl⟩

theorem keeps_of_jump {l : Label} (h : f.jump l = .ok f') : f.Keeps f' := by
  unfold jump at h
  split at h
  · simp only [Except.ok.injEq] at h
    subst h
    exact ⟨rfl, rfl, rfl⟩
  · simp at h

theorem keeps_of_store {i : UInt16} {v : Value} (h : f.store i v = .ok f') : f.Keeps f' := by
  unfold store at h
  split at h
  · simp only [Except.ok.injEq] at h
    subst h
    exact ⟨rfl, rfl, by simp⟩
  · simp at h

end Frame

/-! ### How an instruction may end -/

/-- The frame was made for a method of a class that the unit offers. -/
def Task.Calls (t : Task) (g : Frame) : Prop :=
  ∃ c name arguments want, t.unit.Offers c ∧ Frame.forCall c name arguments want = .ok g

def TaskState.Awaits (s : TaskState) (w : Wait) : Prop := ∀ index, w = .join index → s.joinable index

/-- An end that an instruction of `f` may have in the state `s`, with what it has written. -/
inductive Outcome.Within (t : Task) (s : TaskState) (f : Frame) :
    List (Console × String) → Outcome → Prop where
  | next {s' : TaskState} {f' : Frame} (hs : s.Logs t s') (hf : f.Keeps f') :
      Within t s f [] (.next s' f')
  | wrote {f' : Frame} (c : Console) (text : String) (thread : Nat) (now : Time.Timestamp)
      (hf : f.Keeps f') : Within t s f [(c, text)] (.next (s.write c text thread now) f')
  | call {s' : TaskState} {f' g : Frame} (hs : s.Logs t s') (hf : f.Keeps f') (hg : t.Calls g) :
      Within t s f [] (.call s' f' g)
  | ret {s' : TaskState} {v : Option Value} (hs : s.Logs t s') : Within t s f [] (.ret s' v)
  | raise {s' : TaskState} {f' : Frame} {r : Raised} (hs : s.Logs t s') (hf : f.Keeps f') :
      Within t s f [] (.raise s' f' r)
  | fault {s' : TaskState} {e : Fault} (hs : s.Logs t s') : Within t s f [] (.fault s' e)
  | wait {s' : TaskState} {f' : Frame} {w : Wait} (hs : s.Logs t s') (hf : f.Keeps f')
      (hw : s'.Awaits w) : Within t s f [] (.wait s' f' w)

/-! ### What an instruction writes -/

/-- The stream that a call to the host writes on, and whether it ends the line. -/
def HostCall.stream? : HostCall → Option (Console × Bool)
  | print => some (.stdout, false)
  | println => some (.stdout, true)
  | eprint => some (.stderr, false)
  | eprintln => some (.stderr, true)
  | _ => none

/-- What an instruction writes with its operands on the stack. -/
def Instruction.writes (stack : OperandStack) : Instruction → List (Console × String)
  | .host call =>
    match call.stream?, stack.pop with
    | some (c, newline), .ok (v, _) => [(c, if newline then v.shown ++ "\n" else v.shown)]
    | _, _ => []
  | _ => []

/-- What the next instruction of a frame writes. -/
def Frame.nextWrites (f : Frame) : List (Console × String) :=
  match f.method.code[f.next]? with
  | some i => i.writes f.stack
  | none => []

namespace Step

variable {α : Type} {t : Task} {s₀ s : TaskState} {f₀ f : Frame}

/-- The rest of an instruction of `f₀`, which began in the state `s₀`, asks and ends as it may, and
writes nothing. -/
def Bounded (t : Task) (s₀ : TaskState) (f₀ : Frame) (q : Query Outcome) : Prop :=
  q.All (s₀.Permits t) (Outcome.Within t s₀ f₀ [])

theorem bounded_next (hs : s₀.Logs t s) (hf : f₀.Keeps f) : Bounded t s₀ f₀ (next s f) :=
  .done (.next hs hf)

theorem bounded_raise (hs : s₀.Logs t s) (hf : f₀.Keeps f) (r : Raised) :
    Bounded t s₀ f₀ (raise s f r) := .done (.raise hs hf)

theorem bounded_fault (hs : s₀.Logs t s) (e : Fault) : Bounded t s₀ f₀ (fault s e) :=
  .done (.fault hs)

theorem bounded_wait (hs : s₀.Logs t s) (hf : f₀.Keeps f) {w : Wait} (hw : s.Awaits w) :
    Bounded t s₀ f₀ (wait s f w) := .done (.wait hs hf hw)

theorem bounded_attempt (hs : s₀.Logs t s) (hf : f₀.Keeps f) {r : Except Exception α}
    {k : α → Query Outcome} (hk : ∀ a, r = .ok a → Bounded t s₀ f₀ (k a)) :
    Bounded t s₀ f₀ (attempt s f r k) := by
  cases r with
  | ok a => exact hk a rfl
  | error e => exact bounded_raise hs hf _

theorem bounded_push (hs : s₀.Logs t s) (hf : f₀.Keeps f) (stack : OperandStack) (v : Value) :
    Bounded t s₀ f₀ (push s f stack v) :=
  bounded_attempt hs hf fun _ _ => bounded_next hs (hf.trans (f.keeps_withStack _))

theorem bounded_require (hs : s₀.Logs t s) {p : Permission} {k : TaskState → Query Outcome}
    (hk : s₀.confinements.allows t.capability p = true → ∀ s', s₀.Logs t s' →
      Bounded t s₀ f₀ (k s')) : Bounded t s₀ f₀ (require t s p k) := by
  have hs' : s₀.Logs t (s.check t p).2 := hs.trans (TaskState.logs_record _ _)
  unfold require
  by_cases h : (s.check t p).1 = true
  · simp only [h, if_true]
    exact hk ((hs.allows_eq _ _).symm.trans h) _ hs'
  · simp only [h]
    exact bounded_fault hs' _

theorem bounded_withClass (hs : s₀.Logs t s) (hf : f₀.Keeps f) {name : String}
    {k : TaskState → LinkedClass → Query Outcome}
    (hk : ∀ s' c, s₀.Logs t s' → t.unit.Offers c → Bounded t s₀ f₀ (k s' c)) :
    Bounded t s₀ f₀ (withClass t s f name k) := by
  have hs' := hs.trans (TaskState.logs_load (s := s) name)
  exact bounded_attempt hs' hf fun c hc => hk _ c hs' (TaskState.offers_of_load hc)

/-! ### Host calls -/

theorem writeText_bounded (hf : f₀.Keeps f) (thread : Nat) {call : HostCall} {c : Console}
    {newline : Bool} (hc : call.stream? = some (c, newline)) :
    (writeText s₀ f thread c newline).All (s₀.Permits t)
      (Outcome.Within t s₀ f₀ ((Instruction.host call).writes f.stack)) := by
  unfold writeText
  cases hp : f.stack.pop with
  | error e =>
    have hw : (Instruction.host call).writes f.stack = [] := by simp [Instruction.writes, hp]
    rw [hw]
    exact bounded_raise (.refl _) hf _
  | ok p =>
    have hw : (Instruction.host call).writes f.stack =
        [(c, if newline then p.1.shown ++ "\n" else p.1.shown)] := by
      simp [Instruction.writes, hc, hp]
    rw [hw]
    exact .ask trivial fun now => .done (.wrote _ _ _ _ (hf.trans (f.keeps_withStack _)))

theorem bounded_readFile (hf : f₀.Keeps f) : Bounded t s₀ f₀ (readFile t s₀ f) := by
  refine bounded_attempt (.refl _) hf fun p _ => ?_
  dsimp only
  split
  · exact bounded_push (TaskState.logs_record _ _) hf _ _
  · exact bounded_fault (TaskState.logs_record _ _) _

theorem bounded_writeFile (hf : f₀.Keeps f) : Bounded t s₀ f₀ (writeFile t s₀ f) := by
  refine bounded_attempt (.refl _) hf fun p _ => bounded_attempt (.refl _) hf fun p' _ => ?_
  refine bounded_require (.refl _) fun hp s' hs' => .ask hp fun
    | .ok () => bounded_next hs' (hf.trans (f.keeps_withStack _))
    | .error message => bounded_raise hs' hf _

theorem bounded_getEnv (hf : f₀.Keeps f) : Bounded t s₀ f₀ (getEnv t s₀ f) := by
  refine bounded_attempt (.refl _) hf fun p _ => bounded_require (.refl _) fun hp s' hs' => ?_
  exact .ask hp fun text => bounded_push hs' hf _ _

theorem bounded_getProperty (hf : f₀.Keeps f) : Bounded t s₀ f₀ (getProperty t s₀ f) := by
  refine bounded_attempt (.refl _) hf fun p _ => bounded_require (.refl _) fun hp s' hs' => ?_
  by_cases hn : p.1 = "user.dir"
  · rw [hn] at hp
    simp only [hn, if_true]
    exact .ask hp fun dir => bounded_push hs' hf _ _
  · simp only [hn, if_false]
    exact bounded_push hs' hf _ _

theorem bounded_exit (hf : f₀.Keeps f) : Bounded t s₀ f₀ (exit t s₀ f) := by
  refine bounded_attempt (.refl _) hf fun p _ => bounded_require (.refl _) fun _ s' hs' => ?_
  exact bounded_next hs' (hf.trans (f.keeps_withStack _))

theorem bounded_spawn (hf : f₀.Keeps f) (className methodName : String) :
    Bounded t s₀ f₀ (spawn t s₀ f className methodName) := by
  have hs := TaskState.logs_spawn (t := t) (s := s₀) className methodName
  unfold spawn
  dsimp only
  split
  · exact bounded_push hs hf _ _
  · exact bounded_fault hs _

theorem bounded_join (hf : f₀.Keeps f) : Bounded t s₀ f₀ (join s₀ f) := by
  refine bounded_attempt (.refl _) hf fun p _ => ?_
  dsimp only
  split
  · exact bounded_raise (.refl _) hf _
  · split
    · next hj =>
      refine bounded_wait (.refl _) (hf.trans (f.keeps_withStack _)) fun index hi => ?_
      rw [Wait.join.injEq] at hi
      exact hi ▸ hj
    · exact bounded_raise (.refl _) hf _

theorem bounded_sleep (hf : f₀.Keeps f) : Bounded t s₀ f₀ (sleep s₀ f) := by
  refine bounded_attempt (.refl _) hf fun p _ => ?_
  dsimp only
  split
  · exact bounded_raise (.refl _) hf _
  · exact bounded_wait (.refl _) (hf.trans (f.keeps_withStack _)) (by simp [TaskState.Awaits])

theorem bounded_loadClass (hf : f₀.Keeps f) : Bounded t s₀ f₀ (loadClass t s₀ f) := by
  refine bounded_attempt (.refl _) hf fun p _ => ?_
  exact bounded_withClass (.refl _) hf fun s' c hs' _ => bounded_push hs' hf _ _

theorem host_bounded (hf : f₀.Keeps f) (thread : Nat) (c : HostCall) :
    (host t thread s₀ f c).All (s₀.Permits t)
      (Outcome.Within t s₀ f₀ ((Instruction.host c).writes f.stack)) := by
  cases c with
  | print => exact writeText_bounded hf thread rfl
  | println => exact writeText_bounded hf thread rfl
  | eprint => exact writeText_bounded hf thread rfl
  | eprintln => exact writeText_bounded hf thread rfl
  | readFile => exact bounded_readFile hf
  | writeFile => exact bounded_writeFile hf
  | getEnv => exact bounded_getEnv hf
  | getProperty => exact bounded_getProperty hf
  | exit => exact bounded_exit hf
  | setStreams => exact bounded_require (.refl _) fun _ s' hs' => bounded_next hs' hf
  | spawn c m => exact bounded_spawn hf c m
  | join => exact bounded_join hf
  | sleep => exact bounded_sleep hf
  | time => exact .ask trivial fun now => bounded_push (.refl _) hf _ _
  | loadClass => exact bounded_loadClass hf

/-! ### Other instructions -/

theorem bounded_hook (hf : f₀.Keeps f) (thread : Nat) (tracer name : String)
    (operands : List HookOperand) :
    Bounded t s₀ f₀ (hook thread s₀ f tracer name operands) := by
  unfold hook
  dsimp only
  split
  · exact .done (.next (.of_eq rfl rfl (.of_eq rfl rfl rfl)) hf)
  · exact .done (.raise (.of_eq rfl rfl (.of_eq rfl rfl rfl)) hf)
  · exact .done (.fault (.of_eq rfl rfl (.of_eq rfl rfl rfl)))

theorem bounded_invokeStatic (hf : f₀.Keeps f) (className name : String) :
    Bounded t s₀ f₀ (invokeStatic t s₀ f className name) := by
  refine bounded_withClass (.refl _) hf fun s c hs hc => ?_
  dsimp only
  split
  · exact bounded_raise hs hf _
  · refine bounded_attempt hs hf fun p _ => bounded_attempt hs hf fun g hg => ?_
    exact .done (.call hs (hf.trans (f.keeps_withStack _)) ⟨c, _, _, _, hc, hg⟩)

theorem bounded_invokeVirtual (hf : f₀.Keeps f) (name : String) (arity : Nat) :
    Bounded t s₀ f₀ (invokeVirtual t s₀ f name arity) := by
  refine bounded_attempt (.refl _) hf fun p _ => bounded_attempt (.refl _) hf fun p' _ => ?_
  refine bounded_withClass (.refl _) hf fun s c hs hc => bounded_attempt hs hf fun g hg => ?_
  exact .done (.call hs (hf.trans (f.keeps_withStack _)) ⟨c, _, _, _, hc, hg⟩)

theorem bounded_throw (hf : f₀.Keeps f) : Bounded t s₀ f₀ (throw s₀ f) := by
  refine bounded_attempt (.refl _) hf fun p _ => ?_
  dsimp only
  split <;> exact bounded_raise (.refl _) hf _

theorem bounded_jumpOn (hf : f₀.Keeps f) (wanted : Bool) (l : Label) :
    Bounded t s₀ f₀ (jumpOn s₀ f wanted l) := by
  refine bounded_attempt (.refl _) hf fun p _ => ?_
  have hf' := hf.trans (f.keeps_withStack p.2)
  dsimp only
  split
  · exact bounded_attempt (.refl _) hf' fun g hg =>
      bounded_next (.refl _) (hf'.trans (Frame.keeps_of_jump hg))
  · exact bounded_next (.refl _) hf'

theorem instruction_bounded (hf : f₀.Keeps f) (thread : Nat) (i : Instruction) :
    (instruction t thread s₀ f i).All (s₀.Permits t)
      (Outcome.Within t s₀ f₀ (i.writes f.stack)) := by
  have pushes : ∀ stack v, Bounded t s₀ f₀ (push s₀ f stack v) := fun stack v =>
    bounded_push (.refl _) hf stack v
  have goes : ∀ stack, Bounded t s₀ f₀ (next s₀ (f.withStack stack)) := fun stack =>
    bounded_next (.refl _) (hf.trans (f.keeps_withStack stack))
  have tries : ∀ {α : Type} (r : Except Exception α) (k : α → Query Outcome),
      (∀ a, r = .ok a → Bounded t s₀ f₀ (k a)) → Bounded t s₀ f₀ (attempt s₀ f r k) :=
    fun r k => bounded_attempt (.refl _) hf
  cases i with
  | label l => exact bounded_next (.refl _) hf
  | lineNumber n l => exact bounded_next (.refl _) hf
  | frame depth =>
    by_cases hd : f.stack.size = depth.toNat
    · simp only [instruction, hd, if_true]
      exact bounded_next (.refl _) hf
    · simp only [instruction, hd, if_false]
      exact bounded_raise (.refl _) hf _
  | push c => exact pushes _ _
  | load i => exact tries _ _ fun v _ => pushes _ _
  | store i =>
    refine tries _ _ fun p _ => tries _ _ fun g hg => ?_
    exact bounded_next (.refl _) (hf.trans ((f.keeps_withStack _).trans (Frame.keeps_of_store hg)))
  | binary op =>
    exact tries _ _ fun _ _ => tries _ _ fun _ _ => tries _ _ fun _ _ => pushes _ _
  | neg => exact tries _ _ fun _ _ => pushes _ _
  | not => exact tries _ _ fun _ _ => pushes _ _
  | dup => exact tries _ _ fun _ _ => tries _ _ fun _ _ => pushes _ _
  | pop => exact tries _ _ fun _ _ => goes _
  | swap =>
    exact tries _ _ fun _ _ => tries _ _ fun _ _ => tries _ _ fun _ _ => pushes _ _
  | jump l =>
    exact tries _ _ fun g hg => bounded_next (.refl _) (hf.trans (Frame.keeps_of_jump hg))
  | jumpIf l => exact bounded_jumpOn hf true l
  | jumpIfNot l => exact bounded_jumpOn hf false l
  | invokeStatic c m => exact bounded_invokeStatic hf c m
  | invokeVirtual m n => exact bounded_invokeVirtual hf m n.toNat
  | new c =>
    simp only [instruction, Heap.newObject]
    refine bounded_withClass (.refl _) hf fun s c hs _ => bounded_push ?_ hf _ _
    exact hs.trans (.of_eq rfl rfl (.of_eq rfl rfl rfl))
  | getField field => exact tries _ _ fun _ _ => pushes _ _
  | putField field =>
    refine tries _ _ fun _ _ => tries _ _ fun _ _ => ?_
    exact bounded_next (.of_eq rfl rfl (.of_eq rfl rfl rfl)) (hf.trans (f.keeps_withStack _))
  | newException kind =>
    simp only [instruction, Heap.newException]
    refine tries _ _ fun _ _ => bounded_push ?_ hf _ _
    exact .of_eq rfl rfl (.of_eq rfl rfl rfl)
  | throw => exact bounded_throw hf
  | ret => exact .done (.ret (.refl _))
  | retValue => exact tries _ _ fun _ _ => .done (.ret (.refl _))
  | host c => exact host_bounded hf thread c
  | hook tracer name operands => exact bounded_hook hf thread tracer name operands

/-- **What one instruction can do.** -/
theorem frame_bounded (t : Task) (thread : Nat) (s : TaskState) (f : Frame) :
    (frame t thread s f).All (s.Permits t) (Outcome.Within t s f f.nextWrites) := by
  cases hi : f.method.code[f.next]? with
  | none =>
    simp only [frame, Frame.nextWrites, hi]
    exact .done (.ret (.refl _))
  | some i =>
    simp only [frame, Frame.nextWrites, hi]
    have hf : f.Keeps { f with next := f.next + 1 } := ⟨rfl, rfl, rfl⟩
    exact instruction_bounded hf thread i

end Step

/-! ### How a step of a thread may end -/

/-- The frame is one of some frames as it went on, or has been called. -/
def Frame.StemsFrom (t : Task) (frames : List Frame) (g : Frame) : Prop :=
  (∃ f ∈ frames, f.Keeps g) ∨ t.Calls g

/-- An end that a step of a thread with these frames may have in the state `s`, when it has written
`writes`. -/
inductive Progress.Within (t : Task) (s : TaskState) (frames : List Frame)
    (writes : List (Console × String)) : Progress → Prop where
  | running {s' : TaskState} {frames' : List Frame} (hs : s.Does t writes s')
      (hf : ∀ g ∈ frames', g.StemsFrom t frames) : Within t s frames writes (.running s' frames')
  | waiting {s' : TaskState} {frames' : List Frame} {w : Wait} (hs : s.Does t writes s')
      (hf : ∀ g ∈ frames', g.StemsFrom t frames) (hw : s'.Awaits w) :
      Within t s frames writes (.waiting s' frames' w)
  | ended {s' : TaskState} {r : Except Fault Value} (hs : s.Does t writes s') :
      Within t s frames writes (.ended s' r)

namespace Activation

variable {t : Task} {s s' : TaskState} {writes : List (Console × String)}

/-- The frames of `frames'` are those of `frames` as they went on, perhaps without the inner ones. -/
def Remains (frames frames' : List Frame) : Prop := ∀ g ∈ frames', ∃ f ∈ frames, f.Keeps g

theorem Remains.stems {frames frames' : List Frame} (h : Remains frames frames') :
    ∀ g ∈ frames', g.StemsFrom t frames := fun g hg => .inl (h g hg)

theorem remains_cons {f f' : Frame} (h : f.Keeps f') (outer : List Frame) :
    Remains (f :: outer) (f' :: outer) := by
  intro g hg
  rcases List.mem_cons.1 hg with rfl | hg
  · exact ⟨f, by simp, h⟩
  · exact ⟨g, by simp [hg], .refl g⟩

theorem Remains.trans {a b c : List Frame} (h : Remains a b) (h' : Remains b c) : Remains a c := by
  intro g hg
  obtain ⟨f, hf, hfg⟩ := h' g hg
  obtain ⟨e, he, hef⟩ := h f hf
  exact ⟨e, he, hef.trans hfg⟩

theorem remains_of_findHandler {kind : String} {frames outer : List Frame} {f : Frame}
    {h : LinkedHandler} (hh : findHandler? kind frames = some (f, h, outer)) :
    Remains frames (f :: outer) := by
  induction frames with
  | nil => simp [findHandler?] at hh
  | cons e rest ih =>
    unfold findHandler? at hh
    split at hh
    · simp only [Option.some.injEq, Prod.mk.injEq] at hh
      obtain ⟨rfl, -, rfl⟩ := hh
      exact remains_cons (.refl _) _
    · intro g hg
      obtain ⟨f', hf', hk⟩ := ih hh g hg
      exact ⟨f', by simp [hf'], hk⟩

theorem logs_raisedValue (r : Raised) : s.Logs t (raisedValue s r).2 := by
  cases r <;> exact .of_eq rfl rfl (.of_eq rfl rfl rfl)

theorem unwind_within {frames frames' : List Frame} (hs : s.Does t writes s')
    (hf : Remains frames frames') (r : Raised) :
    (unwind t s' frames' r).Within t s frames writes := by
  unfold unwind
  dsimp only
  split
  · exact .ended hs
  · split
    · next f h outer hh =>
      refine .running (hs.trans (logs_raisedValue r)) (Remains.stems (hf.trans ?_))
      exact (remains_of_findHandler hh).trans (remains_cons (f.keeps_enter h _) outer)
    · exact .ended hs

theorem enter_within {frames frames' : List Frame} {g : Frame} (hs : s.Does t writes s')
    (hf : Remains frames frames') (hg : t.Calls g) :
    (enter t s' g frames').Within t s frames writes := by
  unfold enter
  split
  · exact unwind_within hs hf _
  · refine .running hs fun e he => ?_
    rcases List.mem_cons.1 he with rfl | he
    · exact .inr hg
    · exact hf.stems e he

theorem leave_within {frames outer : List Frame} (hs : s.Does t writes s') (hf : Remains frames outer)
    (v : Option Value) : (leave s' v outer).Within t s frames writes := by
  cases outer with
  | nil => exact .ended hs
  | cons f outer =>
    cases v with
    | none => exact .running hs hf.stems
    | some v => exact .running hs (hf.trans (remains_cons (f.keeps_withStack _) outer)).stems

theorem finish_within {f : Frame} {o : Outcome} (h : Outcome.Within t s f writes o)
    (outer : List Frame) : Progress.Within t s (f :: outer) writes (finish t outer o) := by
  cases h with
  | next hs hf => exact .running hs.does (remains_cons hf outer).stems
  | wrote c text thread now hf =>
    exact .running ⟨⟨[], rfl⟩, ⟨⟨now, thread⟩, rfl⟩, .of_eq rfl rfl rfl⟩ (remains_cons hf outer).stems
  | call hs hf hg => exact enter_within hs.does (remains_cons hf outer) hg
  | ret hs => exact leave_within hs.does (fun g hg => ⟨g, by simp [hg], .refl g⟩) _
  | raise hs hf => exact unwind_within hs.does (remains_cons hf outer) _
  | fault hs => exact .ended hs.does
  | wait hs hf hw => exact .waiting hs.does (remains_cons hf outer).stems hw

/-- What the next step of a thread writes. -/
def nextWrites (s : TaskState) (frames : List Frame) : List (Console × String) :=
  if s.cancelled then [] else (frames.head?.map Frame.nextWrites).getD []

/-- **What one step of a thread can do.** -/
theorem step_bounded (t : Task) (thread : Nat) (s : TaskState) (frames : List Frame) :
    (step t thread s frames).All (s.Permits t)
      (Progress.Within t s frames (nextWrites s frames)) := by
  unfold step nextWrites
  split
  · exact .done (.ended (TaskState.Logs.refl s).does)
  · split
    · exact .done (.ended (TaskState.Logs.refl s).does)
    · next f outer =>
      exact (Step.frame_bounded t thread s f).map fun o ho => finish_within ho outer

theorem exists_of_start {className methodName : String} {arguments : List Value} {f : Frame}
    (h : (start t s className methodName arguments).1 = .ok f) :
    ∃ c, (s.load t className).1 = .ok c ∧ Frame.forCall c methodName arguments none = .ok f := by
  unfold start at h
  cases hl : (s.load t className).1 with
  | error e => simp [hl, Except.mapError, bind, Except.bind] at h
  | ok c =>
    refine ⟨c, rfl, ?_⟩
    cases hc : Frame.forCall c methodName arguments none with
    | error e => simp [hl, hc, Except.mapError, bind, Except.bind] at h
    | ok g => simpa [hl, hc, Except.mapError, bind, Except.bind] using h

theorem start_within (t : Task) (s : TaskState) (className methodName : String)
    (arguments : List Value) :
    s.Logs t (start t s className methodName arguments).2 ∧
      ∀ f, (start t s className methodName arguments).1 = .ok f → t.Calls f := by
  refine ⟨TaskState.logs_load className, fun f hf => ?_⟩
  obtain ⟨c, hc, hcall⟩ := exists_of_start hf
  exact ⟨c, methodName, arguments, none, TaskState.offers_of_load hc, hcall⟩

end Activation

end Confine
