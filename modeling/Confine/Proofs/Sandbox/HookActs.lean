import Confine.Proofs.Machine.Found
import Confine.Proofs.Machine.Unseen
import Confine.Proofs.Sandbox.Scheduled
import Confine.Proofs.Tracing.HookCalls

/-!
# The calls into tracers of a whole run

Under any scheduler, what tracers have recorded comes from the hooks that threads have executed, in the order of their
turns, and from what trusted work does to recordings.

* `HookAct` — a hook that was executed: by which thread, and in which frame;
* `Activity.recordings_of_turn` — what a turn does to recordings is what its hook does;
* `Task.Schedules.hookAct_found` — **every hook that is executed stands in a method of a class that the unit finds**;
* `Task.Schedules.recorded` — what each hook and each step of work keeps holds of a whole run;
* `EntryPoint.playedAlone` — the schedule in which the main thread has its turns alone, for samples.
-/

namespace Confine

/-- A call into a tracer, the thread that has made it, and the frame that it was in. -/
structure HookAct where
  thread : Nat
  frame : Frame
  tracer : String
  call : HookCall

def Recordings.behind (rs : Recordings) (e : HookAct) : Recordings := (rs.onHook e.tracer e.call e.thread).2

def Activity.hookAct? (thread : Nat) (s : TaskState) (a : Activity) : Option HookAct :=
  (a.instruction? s).bind fun x => (x.1.hookCall? x.2).map fun c => ⟨thread, x.1, c.1, c.2⟩

def Act.hookAct? : Act → Option HookAct
  | .turn thread _ s a _ _ => a.hookAct? thread s
  | .call _ _ _ _ => none

/-! ### One turn -/

namespace Activation

variable {t : Task} {s : TaskState}

theorem recordings_of_finish (outer : List Frame) {o : Outcome} (rs : Recordings) (now : Nat)
    (h : ∃ reason o', o = Outcome.told rs reason o') :
    (Turn.ofProgress now (finish t outer o)).shared.recordings = rs := by
  obtain ⟨reason, o', rfl⟩ := h
  have htold := finish_told t t.unit.own.instrumentation rs reason outer o'
  have hself : t.tracedBy t.unit.own.instrumentation = t := rfl
  rw [hself] at htold
  rw [htold]
  cases finish t outer o' with
  | running s frames => rfl
  | waiting s frames w => cases w <;> rfl
  | ended s r => rfl

theorem recordings_of_load (name : String) : (s.load t name).2.recordings = s.recordings := by
  unfold TaskState.load
  split
  split <;> rfl

end Activation

section Turn

variable {t : Task} {thread now : Nat} {s : TaskState} {a : Activity} {u : Turn}

/-- A frame that is not at a hook records nothing. -/
theorem Step.told_of_mayCome {f : Frame} {o : Outcome} (h : (frame t thread s f).MayCome o)
    (hi : ∀ i, f.method.code[f.next]? = some i → f.hookCall? i = none) :
    ∃ reason o', o = Outcome.told s.recordings reason o' := by
  unfold frame at h
  split at h
  · rw [Query.mayCome_done_iff.1 h]
    exact ⟨s.killReason, .ret s none, rfl⟩
  · next i hcode =>
    have hno : ∀ tracer name operands, i ≠ .hook tracer name operands := by
      rintro tracer name operands rfl
      cases hi _ hcode
    have htold := instruction_told t t.unit.own.instrumentation s { f with next := f.next + 1 } s.recordings
      s.killReason thread hno
    have hself : instruction t thread s { f with next := f.next + 1 } i =
      told s.recordings s.killReason (instruction t thread s { f with next := f.next + 1 } i) := htold
    rw [hself] at h
    obtain ⟨o', -, rfl⟩ := Query.mayCome_map_iff.1 h
    exact ⟨s.killReason, o', rfl⟩

/-- A frame at a hook records what the hook records. -/
theorem Step.told_of_hook {f : Frame} {tracer name : String} {operands : List HookOperand} {o : Outcome}
    (h : (frame t thread s f).MayCome o) (hi : f.method.code[f.next]? = some (.hook tracer name operands)) :
    ∃ reason o', o = Outcome.told
      (s.recordings.onHook tracer ⟨name, operands.map f.operand⟩ thread).2 reason o' := by
  have hoperands : operands.map (Frame.operand { f with next := f.next + 1 }) = operands.map f.operand := rfl
  simp only [frame, hi, instruction, hook, hoperands] at h
  generalize s.recordings.onHook tracer ⟨name, operands.map f.operand⟩ thread = q at h ⊢
  obtain ⟨signal, rs⟩ := q
  cases signal with
  | none =>
    rw [Query.mayCome_done_iff.1 h]
    exact ⟨s.killReason, .next s _, rfl⟩
  | some signal =>
    cases signal with
    | throw e =>
      rw [Query.mayCome_done_iff.1 h]
      exact ⟨s.killReason, .raise s _ _, rfl⟩
    | kill reason =>
      rw [Query.mayCome_done_iff.1 h]
      exact ⟨_, .fault (s.kill reason) .cancelled, rfl⟩

/-- **What a turn does to recordings is what its hook does.** -/
theorem Activity.recordings_of_turn (hu : (a.turn t thread now s).MayCome u) :
    u.shared.recordings = (a.hookAct? thread s).elim s.recordings s.recordings.behind := by
  cases a with
  | starting c m =>
    have hload := Activation.recordings_of_load (t := t) (s := s) c
    simp only [turn] at hu
    split at hu <;> (rw [Query.mayCome_done_iff.1 hu]; exact hload)
  | running frames =>
    cases hc : s.cancelled with
    | true =>
      have hnone : (running frames).hookAct? thread s = none := by
        cases frames <;> simp [hookAct?, instruction?, hc]
      rw [turn_of_cancelled hc] at hu
      rw [Query.mayCome_done_iff.1 hu, hnone]
      rfl
    | false =>
      cases frames with
      | nil =>
        simp only [turn, Activation.step, hc, Bool.false_eq_true, if_false] at hu
        rw [Query.mayCome_done_iff.1 hu]
        rfl
      | cons f outer =>
        rw [turn_running hc] at hu
        obtain ⟨o, ho, rfl⟩ := Query.mayCome_map_iff.1 hu
        have hact : (running (f :: outer)).hookAct? thread s =
            (f.method.code[f.next]?.bind f.hookCall?).map fun c => ⟨thread, f, c.1, c.2⟩ := by
          simp only [hookAct?, instruction?, hc, Bool.false_eq_true, if_false]
          cases f.method.code[f.next]? <;> rfl
        rw [hact]
        cases hcall : f.method.code[f.next]?.bind f.hookCall? with
        | none =>
          refine Activation.recordings_of_finish outer _ now (Step.told_of_mayCome ho fun i hi => ?_)
          rwa [hi] at hcall
        | some c =>
          obtain ⟨i, hi, hc⟩ := Option.bind_eq_some_iff.1 hcall
          cases i with
          | hook tracer name operands =>
            obtain rfl := Option.some.inj hc
            exact Activation.recordings_of_finish outer _ now (Step.told_of_hook ho hi)
          | _ => cases hc
  | sleeping frames wake =>
    simp only [turn] at hu
    split at hu
    · rw [Query.mayCome_done_iff.1 hu]
      rfl
    · split at hu <;> (rw [Query.mayCome_done_iff.1 hu]; rfl)
  | joining frames index =>
    simp only [turn] at hu
    split at hu
    · rw [Query.mayCome_done_iff.1 hu]
      rfl
    · split at hu <;> (rw [Query.mayCome_done_iff.1 hu]; rfl)

end Turn

/-! ### Whole runs -/

/-- The threads of a task in any order are where threads of the task may come. -/
theorem Task.Interleaves.reaches {t : Task} {s₀ : TaskState} {acts : List Act} {c : Crowd}
    (h : t.Interleaves s₀ acts c) :
    (∀ x ∈ c.threads, t.Reaches x.2) ∧
      ∀ thread now s a asked u, Act.turn thread now s a asked u ∈ acts → t.Reaches a := by
  have none_more {acts : List Act} {x : Act}
      (ih : ∀ thread now s a asked u, Act.turn thread now s a asked u ∈ acts → t.Reaches a)
      (hx : ∀ thread now s a asked u, x = .turn thread now s a asked u → t.Reaches a) :
      ∀ thread now s a asked u, Act.turn thread now s a asked u ∈ acts ++ [x] → t.Reaches a := by
    intro thread now s a asked u hmem
    rcases List.mem_append.1 hmem with hmem | hmem
    · exact ih thread now s a asked u hmem
    · exact hx thread now s a asked u (List.mem_singleton.1 hmem).symm
  induction h with
  | start => simp
  | @turn acts s front back thread a now asked u _ hu ih =>
    obtain ⟨hthreads, hacts⟩ := ih
    have ha : t.Reaches a := hthreads (thread, a) (by simp)
    refine ⟨fun x hx => ?_, none_more hacts (by rintro _ _ _ _ _ _ ⟨⟩; exact ha)⟩
    -- the threads in front, the one whose turn it was, and the threads behind
    rcases List.mem_append.1 hx with hx | hx
    · rcases List.mem_append.1 hx with hx | hx
      · exact hthreads x (List.mem_append_left _ hx)
      · cases u with
        | moved s' a' =>
          obtain rfl := List.mem_singleton.1 hx
          exact .moved ha hu.mayCome
        | blocked s' a' wake =>
          obtain rfl := List.mem_singleton.1 hx
          exact .blocked ha hu.mayCome
        | ended s' r => cases hx
    · exact hthreads x (List.mem_append_right _ (List.mem_cons_of_mem _ hx))
  | @call acts s threads thread className methodName arguments _ ih =>
    obtain ⟨hthreads, hacts⟩ := ih
    refine ⟨fun x hx => ?_, none_more hacts (by rintro _ _ _ _ _ _ ⟨⟩)⟩
    rcases List.mem_append.1 hx with hx | hx
    · unfold Activation.started at hx
      split at hx
      · next f hf =>
        obtain rfl := List.mem_singleton.1 hx
        exact .called hf
      · cases hx
    · exact hthreads x hx
  | @begun acts s threads _ ih =>
    refine ⟨fun x hx => ?_, ih.2⟩
    rcases List.mem_append.1 hx with hx | hx
    · exact ih.1 x hx
    · rw [TaskState.takeStarting_eq] at hx
      simp only [List.map_map, List.mem_map, Function.comp_apply] at hx
      obtain ⟨b, -, rfl⟩ := hx
      exact .spawned b.className b.methodName
  | other _ _ _ _ ih => exact ih

namespace Task.Schedules

variable {t : Task} {s₀ : TaskState} {work : List WorkStep} {acts : List Act} {c : Scene}

/-- **Every hook that is executed stands in a method of a class that the unit finds.** -/
theorem hookAct_found (hu : t.unit.Built) (h : t.Schedules s₀ work acts c) {e : HookAct}
    (he : e ∈ acts.filterMap Act.hookAct?) :
    e.frame.Found t.unit ∧ ∃ i, e.frame.method.code[e.frame.next]? = some i ∧
      e.frame.hookCall? i = some (e.tracer, e.call) := by
  obtain ⟨act, hact, he⟩ := List.mem_filterMap.1 he
  cases act with
  | call s className methodName arguments => cases he
  | turn thread now s a asked u =>
    have hreaches := h.interleaves.reaches.2 thread now s a asked u hact
    obtain ⟨⟨f, i⟩, hi, he⟩ := Option.bind_eq_some_iff.1 he
    obtain ⟨⟨tracer, call⟩, hcall, rfl⟩ := Option.map_eq_some_iff.1 he
    cases a with
    | running frames =>
      cases frames with
      | nil => cases hi
      | cons g outer =>
        simp only [Activity.instruction?] at hi
        split at hi
        · cases hi
        · obtain ⟨j, hj, heq⟩ := Option.map_eq_some_iff.1 hi
          obtain ⟨rfl, rfl⟩ := Prod.mk.inj heq
          exact ⟨hreaches.found hu g (by simp [Activity.frames]), j, hj, hcall⟩
    | _ => cases hi

end Task.Schedules

/-- What a step of trusted work does to recordings. -/
theorem WorkStep.recordings_perform {Q : Recordings → Prop} {t : Task} {s : TaskState} (h : Q s.recordings)
    (hreset : Q s.recordings.resetLines) (hsubscribe : ∀ x, Q (s.recordings.subscribe x))
    (htake : Q s.recordings.takeCollected.2) (w : Progressed) (step : WorkStep) :
    Q (step.perform t s w).shared.recordings := by
  cases step with
  | invoke c m arguments propagate =>
    simp only [perform]
    generalize Operand.values w.kept s.heap arguments = q
    have hstart : (Activation.start t { s with heap := q.2 } c m q.1).2.recordings = s.recordings :=
      Activation.recordings_of_load (s := { s with heap := q.2 }) c
    generalize Activation.start t { s with heap := q.2 } c m q.1 = p at hstart
    obtain ⟨r, s'⟩ := p
    cases r with
    | ok f => exact hstart ▸ h
    | error e =>
      dsimp only
      rw [WorkMove.shared_ofResult]
      exact hstart ▸ h
  | reset => exact hreset
  | callback name => exact hsubscribe _
  | events => exact htake
  | _ => exact h

/-- **What each hook and each step of work keeps holds of a whole run.** -/
theorem Task.Schedules.recorded {t : Task} {s₀ : TaskState} {work : List WorkStep} {acts : List Act} {c : Scene}
    {P : List HookAct → Recordings → Prop} (hstart : P [] s₀.recordings)
    (hhook : ∀ hooks rs e, P hooks rs → P (hooks ++ [e]) (rs.behind e))
    (hreset : ∀ hooks rs, P hooks rs → P hooks rs.resetLines)
    (hsubscribe : ∀ hooks rs x, P hooks rs → P hooks (rs.subscribe x))
    (htake : ∀ hooks rs, P hooks rs → P hooks rs.takeCollected.2) (h : t.Schedules s₀ work acts c) :
    P (acts.filterMap Act.hookAct?) c.shared.recordings := by
  -- a turn records what the hook it executes brings, and nothing otherwise
  have turn {acts : List Act} {s : TaskState} {a : Activity} {thread now : Nat} {asked : List Exchange} {u : Turn}
      (ih : P (acts.filterMap Act.hookAct?) s.recordings) (hu : (a.turn t thread now s).Comes asked u) :
      P ((acts ++ [Act.turn thread now s a asked u]).filterMap Act.hookAct?) u.shared.recordings := by
    have hact : Act.hookAct? (.turn thread now s a asked u) = a.hookAct? thread s := rfl
    rw [Activity.recordings_of_turn hu.mayCome, List.filterMap_append, List.filterMap_cons, hact]
    cases a.hookAct? thread s with
    | none => simpa using ih
    | some e => exact hhook _ _ e ih
  induction h with
  | start => exact hstart
  | @step acts s w step rest extras verdict _ ih =>
    have hnone : (step.acts s w).filterMap Act.hookAct? = [] := by cases step <;> rfl
    rw [List.filterMap_append, hnone, List.append_nil]
    -- a step of the work may reset the lines, subscribe, or take what was collected
    exact step.recordings_perform ih (hreset _ _ ih) (hsubscribe _ _ · ih) (htake _ _ ih) w
  | exhausted _ ih => exact ih
  | mainTurn _ hu ih => exact turn ih hu
  | extraTurn _ hu ih => exact turn ih hu
  | @begun acts s main extras verdict _ ih =>
    have hs : s.takeStarting.2.recordings = s.recordings := by
      rw [TaskState.takeStarting_eq]
    exact hs ▸ ih
  | @finished acts s main front back index result verdict now _ ih =>
    obtain ⟨sink, hburied⟩ := s.buried_eq index result now
    exact hburied ▸ ih
  | heard _ ih => exact ih
  | late _ ih => exact ih
  | cancelled _ ih => exact ih

/-! ### The main thread alone -/

/-- The first turns of a thread while no other thread has any, as far as it needs no answer and does not end. -/
def Activity.turnsAlone (t : Task) : Nat → TaskState → Activity → List Act × TaskState × Activity
  | 0, s, a => ([], s, a)
  | n + 1, s, a =>
    match a.turn t 0 0 s with
    | .done (.moved s' a') =>
      let q := turnsAlone t n s' a'
      (.turn 0 0 s a [] (.moved s' a') :: q.1, q.2)
    | _ => ([], s, a)

theorem Task.Schedules.turnsAlone {t : Task} {s₀ s : TaskState} {work : List WorkStep} {acts : List Act}
    {main : MainThread} {extras : List (Nat × ExtraStand)} {verdict : Option (Option WorkEnd)}
    (h : t.Schedules s₀ work acts ⟨s, .calling main, extras, verdict⟩) (n : Nat) :
    t.Schedules s₀ work (acts ++ (main.activity.turnsAlone t n s).1)
      ⟨(main.activity.turnsAlone t n s).2.1, .calling { main with activity := (main.activity.turnsAlone t n s).2.2 },
        extras, verdict⟩ := by
  induction n generalizing acts s main with
  | zero => simpa [Activity.turnsAlone] using h
  | succ n ih =>
    unfold Activity.turnsAlone
    split
    · next s' a' hturn =>
      have hcomes : (main.activity.turn t 0 0 s).Comes [] (.moved s' a') := by
        rw [hturn]
        exact .done _
      have hrest := ih (h.mainTurn hcomes)
      rwa [List.append_assoc] at hrest
    · simpa using h

/-- The first turns of an entry point while no other thread has any: what is done, and what the task is then. -/
def EntryPoint.playedAlone (e : EntryPoint) (t : Task) (s : TaskState) (n : Nat) : List Act × TaskState :=
  let call := Act.call s e.className e.methodName []
  match Activation.start t s e.className e.methodName [] with
  | (.ok f, s') =>
    let q := (Activity.running [f]).turnsAlone t n s'
    (call :: q.1, q.2.1)
  | (.error _, s') => ([call], s')

theorem EntryPoint.exists_playedAlone (e : EntryPoint) (t : Task) (s : TaskState) (n : Nat) :
    ∃ c, t.Schedules s e.work (e.playedAlone t s n).1 c ∧ c.shared = (e.playedAlone t s n).2 := by
  have hcall := (@Task.Schedules.start t s e.work).step
  simp only [WorkStep.acts, WorkStep.perform, Operand.values, List.nil_append] at hcall
  unfold EntryPoint.playedAlone
  generalize Activation.start t s e.className e.methodName [] = q at hcall ⊢
  obtain ⟨r, s'⟩ := q
  cases r with
  | ok f => exact ⟨_, hcall.turnsAlone n, rfl⟩
  | error fault => exact ⟨_, hcall, WorkMove.shared_ofResult s' .none true (.error fault)⟩

end Confine
