import Confine.Proofs.Machine.Course
import Confine.Proofs.Sandbox.Interleaved

/-!
# Whole runs, under any scheduler

`Task.Schedules t s₀ work acts c` — the threads of a task and the one that waits for its end have been scheduled in some
order, from the state `s₀` and with this trusted work, and have come to the scene `c`.

* `Task.Schedules.interleaves` — the turns of its threads are turns in some order (`Task.Interleaves`);
* `RunState.run_scheduled` — a run on whatever host is such a schedule, up to the verdict on which it ends.
-/

namespace Confine

/-! ### Scenes -/

/-- Where the main thread is. -/
inductive MainStand where
  /-- in front of a step of its work -/
  | working (w : Progressed) (rest : List WorkStep)
  | calling (main : MainThread)
  | ended (w : Progressed) (e : WorkEnd)

/-- Where an extra thread is. -/
inductive ExtraStand where
  | active (a : Activity)
  /-- it has executed its last instruction, and does not yet count as finished -/
  | ended (result : Except Fault Value)

/-- Where everybody is between two actions. The verdict is what the caller goes by: nothing yet, that the time is up, or
how the work has ended. -/
structure Scene where
  shared : TaskState
  main : MainStand
  extras : List (Nat × ExtraStand)
  verdict : Option (Option WorkEnd)

def WorkMove.stand (rest : List WorkStep) : WorkMove → MainStand
  | answered _ w => .working w rest
  | call _ w f propagate => .calling ⟨.running [f], w, propagate, rest⟩
  | ended _ w e => .ended w e

def MainThread.behind (main : MainThread) : Turn → MainStand
  | .moved _ a | .blocked _ a _ => .calling { main with activity := a }
  | .ended s r => (WorkMove.ofResult s main.progressed main.propagate r).stand main.rest

def ExtraStand.behind : Turn → ExtraStand
  | .moved _ a | .blocked _ a _ => active a
  | .ended _ r => ended r

def ExtraStand.ofThreads (l : List ExtraThread) : List (Nat × ExtraStand) :=
  l.map fun x => (x.index, active x.activity)

def WorkStep.acts (s : TaskState) (w : Progressed) : WorkStep → List Act
  | invoke c m arguments _ =>
    let (arguments, heap) := Operand.values w.kept s.heap arguments
    [.call { s with heap := heap } c m arguments]
  | _ => []

/-- An extra thread is counted as finished; an exception that it has not caught is written. -/
def TaskState.buried (s : TaskState) (index : Nat) (result : Except Fault Value)
    (now : Time.Timestamp) : TaskState :=
  match ExtraThread.obituary? index result with
  | some text => (s.write .stderr text index now).finish index
  | none => s.finish index

/-- **Any schedule of a run.** -/
inductive Task.Schedules (t : Task) (s₀ : TaskState) (work : List WorkStep) :
    List Act → Scene → Prop where
  | start : Schedules t s₀ work [] ⟨s₀, .working .none work, [], none⟩
  /-- the main thread does a step of its work -/
  | step {acts : List Act} {s : TaskState} {w : Progressed} {step : WorkStep} {rest : List WorkStep}
      {extras : List (Nat × ExtraStand)} {verdict : Option (Option WorkEnd)}
      (h : Schedules t s₀ work acts ⟨s, .working w (step :: rest), extras, verdict⟩) :
      Schedules t s₀ work (acts ++ step.acts s w)
        ⟨(step.perform t s w).shared, (step.perform t s w).stand rest, extras, verdict⟩
  /-- there are no steps left -/
  | exhausted {acts : List Act} {s : TaskState} {w : Progressed} {extras : List (Nat × ExtraStand)}
      {verdict : Option (Option WorkEnd)}
      (h : Schedules t s₀ work acts ⟨s, .working w [], extras, verdict⟩) :
      Schedules t s₀ work acts ⟨s, .ended w (.finished (.ok .null)), extras, verdict⟩
  /-- the main thread has a turn in its call -/
  | mainTurn {acts : List Act} {s : TaskState} {main : MainThread}
      {extras : List (Nat × ExtraStand)} {verdict : Option (Option WorkEnd)} {now : Nat}
      {asked : List Exchange} {u : Turn}
      (h : Schedules t s₀ work acts ⟨s, .calling main, extras, verdict⟩)
      (hu : (main.activity.turn t 0 now s).Comes asked u) :
      Schedules t s₀ work (acts ++ [.turn 0 now s main.activity asked u])
        ⟨u.shared, main.behind u, extras, verdict⟩
  /-- an extra thread has a turn -/
  | extraTurn {acts : List Act} {s : TaskState} {main : MainStand}
      {front back : List (Nat × ExtraStand)} {index : Nat} {a : Activity}
      {verdict : Option (Option WorkEnd)} {now : Nat} {asked : List Exchange} {u : Turn}
      (h : Schedules t s₀ work acts ⟨s, main, front ++ (index, .active a) :: back, verdict⟩)
      (hu : (a.turn t index now s).Comes asked u) :
      Schedules t s₀ work (acts ++ [.turn index now s a asked u])
        ⟨u.shared, main, front ++ (index, .behind u) :: back, verdict⟩
  /-- the threads that were registered begin -/
  | begun {acts : List Act} {s : TaskState} {main : MainStand} {extras : List (Nat × ExtraStand)}
      {verdict : Option (Option WorkEnd)} (h : Schedules t s₀ work acts ⟨s, main, extras, verdict⟩) :
      Schedules t s₀ work acts ⟨s.takeStarting.2, main,
        extras ++ ExtraStand.ofThreads s.takeStarting.1, verdict⟩
  /-- an extra thread that has ended is counted as finished -/
  | finished {acts : List Act} {s : TaskState} {main : MainStand}
      {front back : List (Nat × ExtraStand)} {index : Nat} {result : Except Fault Value}
      {verdict : Option (Option WorkEnd)} (now : Time.Timestamp)
      (h : Schedules t s₀ work acts ⟨s, main, front ++ (index, .ended result) :: back, verdict⟩) :
      Schedules t s₀ work acts ⟨s.buried index result now, main, front ++ back, verdict⟩
  /-- the caller hears how the work has ended -/
  | heard {acts : List Act} {s : TaskState} {w : Progressed} {e : WorkEnd}
      {extras : List (Nat × ExtraStand)}
      (h : Schedules t s₀ work acts ⟨s, .ended w e, extras, none⟩) :
      Schedules t s₀ work acts ⟨s, .ended w e, extras, some (some e)⟩
  /-- the time is up, at any point -/
  | late {acts : List Act} {s : TaskState} {main : MainStand} {extras : List (Nat × ExtraStand)}
      (h : Schedules t s₀ work acts ⟨s, main, extras, none⟩) :
      Schedules t s₀ work acts ⟨s, main, extras, some none⟩
  /-- after its verdict, the caller cancels the task -/
  | cancelled {acts : List Act} {s : TaskState} {main : MainStand} {extras : List (Nat × ExtraStand)}
      {verdict : Option WorkEnd} (h : Schedules t s₀ work acts ⟨s, main, extras, some verdict⟩) :
      Schedules t s₀ work acts ⟨s.cancel, main, extras, some verdict⟩

/-! ### The turns of a schedule -/

def MainStand.threads : MainStand → List (Nat × Activity)
  | calling main => [(0, main.activity)]
  | working _ _ | ended _ _ => []

namespace ExtraStand

def activity? : ExtraStand → Option Activity
  | active a => some a
  | ended _ => none

def activities (l : List (Nat × ExtraStand)) : List (Nat × Activity) :=
  l.filterMap fun x => x.2.activity?.map (x.1, ·)

theorem activities_append (l l' : List (Nat × ExtraStand)) :
    activities (l ++ l') = activities l ++ activities l' := List.filterMap_append

theorem activities_cons (i : Nat) (x : ExtraStand) (l : List (Nat × ExtraStand)) :
    activities ((i, x) :: l) = (x.activity?.map (i, ·)).toList ++ activities l := by
  cases h : x.activity? <;> simp [activities, h]

theorem activity?_behind (u : Turn) : (behind u).activity? = u.activity? := by
  cases u <;> rfl

theorem activities_ofThreads (l : List ExtraThread) :
    activities (ofThreads l) = l.map fun x => (x.index, x.activity) := by
  simp [activities, ofThreads, activity?, List.filterMap_map]

end ExtraStand

def Scene.crowd (c : Scene) : Crowd := ⟨c.shared, c.main.threads ++ ExtraStand.activities c.extras⟩

@[simp] theorem WorkMove.threads_stand_ofResult (s : TaskState) (w : Progressed) (propagate : Bool)
    (r : Except Fault Value) (rest : List WorkStep) :
    ((ofResult s w propagate r).stand rest).threads = [] := by
  unfold ofResult
  split <;> rfl

theorem MainThread.threads_behind (main : MainThread) (u : Turn) :
    (main.behind u).threads = (u.activity?.map (0, ·)).toList := by
  cases u with
  | moved s a => rfl
  | blocked s a wake => rfl
  | ended s r => exact WorkMove.threads_stand_ofResult _ _ _ _ _

theorem TaskState.buried_eq (s : TaskState) (index : Nat) (r : Except Fault Value)
    (now : Time.Timestamp) : ∃ sink, s.buried index r now = { s with sink := sink }.finish index := by
  unfold buried
  split <;> exact ⟨_, rfl⟩

/-- A step of work, as the threads of a task see it. -/
theorem WorkStep.perform_interleaves {t : Task} {s₀ s : TaskState} {acts : List Act}
    {threads : List (Nat × Activity)} (h : t.Interleaves s₀ acts ⟨s, threads⟩) (w : Progressed)
    (step : WorkStep) (rest : List WorkStep) :
    t.Interleaves s₀ (acts ++ step.acts s w)
      ⟨(step.perform t s w).shared, ((step.perform t s w).stand rest).threads ++ threads⟩ := by
  have same {s' : TaskState} (hc : s'.confinements = s.confinements)
      (hn : s'.nextThread = s.nextThread) (hs : s'.starting = s.starting) :
      t.Interleaves s₀ (acts ++ []) ⟨s', [] ++ threads⟩ := by
    rw [List.append_nil]
    exact h.other hc hn hs
  cases step with
  | invoke c m arguments propagate =>
    simp only [perform, WorkStep.acts]
    generalize Operand.values w.kept s.heap arguments = q
    have hother : t.Interleaves s₀ acts ⟨{ s with heap := q.2 }, threads⟩ := h.other rfl rfl rfl
    have hcall := hother.call 0 c m q.1
    unfold Activation.started at hcall
    generalize Activation.start t { s with heap := q.2 } c m q.1 = p at hcall
    obtain ⟨r, s'⟩ := p
    cases r with
    | ok f => exact hcall
    | error e =>
      dsimp only
      rw [WorkMove.shared_ofResult, WorkMove.threads_stand_ofResult]
      exact hcall
  | _ => exact same rfl rfl rfl

/-- **The turns of a schedule are turns in some order.** -/
theorem Task.Schedules.interleaves {t : Task} {s₀ : TaskState} {work : List WorkStep}
    {acts : List Act} {c : Scene} (h : t.Schedules s₀ work acts c) :
    t.Interleaves s₀ acts c.crowd := by
  induction h with
  | start => exact .start
  | @step acts s w step rest extras verdict _ ih => exact step.perform_interleaves ih w rest
  | exhausted _ ih => exact ih
  | @mainTurn acts s main extras verdict now asked u _ hu ih =>
    have hcrowd : t.Interleaves s₀ acts
        ⟨s, [] ++ (0, main.activity) :: ExtraStand.activities extras⟩ := ih
    simp only [Scene.crowd, MainThread.threads_behind]
    exact hcrowd.turn hu
  | @extraTurn acts s main front back index a verdict now asked u _ hu ih =>
    simp only [Scene.crowd, ExtraStand.activities_append, ExtraStand.activities_cons,
      ExtraStand.activity?_behind]
    simp only [Scene.crowd, ExtraStand.activities_append, ExtraStand.activities_cons] at ih
    rw [← List.append_assoc] at ih
    simpa using ih.turn hu
  | begun _ ih =>
    simp only [Scene.crowd, ExtraStand.activities_append, ExtraStand.activities_ofThreads]
    rw [← List.append_assoc]
    exact ih.begun
  | @finished acts s main front back index result verdict now _ ih =>
    obtain ⟨sink, hburied⟩ := s.buried_eq index result now
    simp only [Scene.crowd, ExtraStand.activities_append, ExtraStand.activities_cons] at ih
    simp only [hburied, Scene.crowd, ExtraStand.activities_append]
    exact ih.other rfl rfl rfl
  | heard _ ih => exact ih
  | late _ ih => exact ih
  | cancelled _ ih => exact ih.other rfl rfl rfl

/-! ### Threads that have begun -/

def Activity.Begun (a : Activity) : Prop := ∀ c m, a ≠ .starting c m

/-- A turn leaves a thread that has begun, or none. -/
theorem Activity.begun_of_turn (t : Task) (thread now : Nat) (s : TaskState) (a : Activity) :
    (a.turn t thread now s).All (fun _ => True) fun u => ∀ a' ∈ u.activity?, a'.Begun := by
  have begins {u : Turn} (h : ∀ c m, u.activity? ≠ some (.starting c m)) :
      ∀ a' ∈ u.activity?, a'.Begun := by
    rintro a' ha' c m rfl
    exact h c m ha'
  cases a with
  | starting c m =>
    simp only [turn]
    split <;> exact .done (begins (by simp [Turn.activity?]))
  | running frames =>
    have hstep : ∀ q : Query Progress,
        q.All (fun _ => True) fun p => ∀ a' ∈ (Turn.ofProgress now p).activity?, a'.Begun := by
      intro q
      induction q with
      | done p =>
        refine .done (begins ?_)
        cases p with
        | waiting s frames w => cases w <;> simp [Turn.ofProgress, Turn.activity?]
        | _ => simp [Turn.ofProgress, Turn.activity?]
      | ask r resume ih => exact .ask trivial ih
    exact (hstep _).map fun p hp => hp
  | sleeping frames wake =>
    simp only [turn]
    split
    · exact .done (begins (by simp [Turn.activity?]))
    · split <;> exact .done (begins (by simp [Turn.activity?]))
  | joining frames index =>
    simp only [turn]
    split
    · exact .done (begins (by simp [Turn.activity?]))
    · split <;> exact .done (begins (by simp [Turn.activity?]))

theorem Query.Comes.mayCome {α : Type} {q : Query α} {l : List Exchange} {a : α}
    (h : q.Comes l a) : q.MayCome a := by
  induction h with
  | done a => exact .done a
  | ask a _ ih => exact .ask a ih

/-- A step of work leaves the course of the task as it is. -/
theorem WorkStep.sameCourse_perform (t : Task) (s : TaskState) (w : Progressed) (step : WorkStep) :
    s.SameCourse (step.perform t s w).shared := by
  cases step with
  | invoke c m arguments propagate =>
    simp only [perform]
    generalize Operand.values w.kept s.heap arguments = q
    have hheap : s.SameCourse { s with heap := q.2 } := ⟨rfl, rfl, rfl, rfl, rfl⟩
    have hload : s.SameCourse (Activation.start t { s with heap := q.2 } c m q.1).2 :=
      hheap.trans (TaskState.sameCourse_load c)
    generalize Activation.start t { s with heap := q.2 } c m q.1 = p at hload
    obtain ⟨r, s'⟩ := p
    cases r with
    | ok f => exact hload
    | error e =>
      dsimp only
      rw [WorkMove.shared_ofResult]
      exact hload
  | _ => exact ⟨rfl, rfl, rfl, rfl, rfl⟩

/-! ### Runs on a host -/

/-- Some schedule comes to the scene, with the sensitive questions that have been noted. -/
def Task.PlaysTo (t : Task) (s₀ : TaskState) (work : List WorkStep) (c : Scene)
    (noted : List Exchange) : Prop :=
  ∃ acts, t.Schedules s₀ work acts c ∧
    (acts.flatMap Act.asked).filter (·.isSensitive) = noted.filter (·.isSensitive)

section Runs

variable {t : Task} {s₀ s : TaskState} {work : List WorkStep} {main : MainStand}
  {extras : List (Nat × ExtraStand)} {verdict : Option (Option WorkEnd)} {l : List Exchange}

namespace Task.PlaysTo

theorem act {c c' : Scene} (h : t.PlaysTo s₀ work c l)
    (hact : ∀ acts, t.Schedules s₀ work acts c → t.Schedules s₀ work acts c') :
    t.PlaysTo s₀ work c' l := by
  obtain ⟨acts, h, hl⟩ := h
  exact ⟨acts, hact acts h, hl⟩

theorem step {w : Progressed} {step : WorkStep} {rest : List WorkStep}
    (h : t.PlaysTo s₀ work ⟨s, .working w (step :: rest), extras, verdict⟩ l) :
    t.PlaysTo s₀ work
      ⟨(step.perform t s w).shared, (step.perform t s w).stand rest, extras, verdict⟩ l := by
  obtain ⟨acts, h, hl⟩ := h
  have hasked : (step.acts s w).flatMap Act.asked = [] := by
    cases step <;> simp [WorkStep.acts, Act.asked]
  exact ⟨_, h.step, by simpa [hasked] using hl⟩

theorem mainDone {main : MainThread} (now : Nat) {u : Turn}
    (h : t.PlaysTo s₀ work ⟨s, .calling main, extras, verdict⟩ l)
    (hu : main.activity.turn t 0 now s = .done u) :
    t.PlaysTo s₀ work ⟨u.shared, main.behind u, extras, verdict⟩ l := by
  obtain ⟨acts, h, hl⟩ := h
  have hcomes : (main.activity.turn t 0 now s).Comes [] u := by
    rw [hu]
    exact .done u
  exact ⟨_, h.mainTurn hcomes, by simpa [Act.asked] using hl⟩

/-- A call in a task that has been cancelled ends, in at most two turns. -/
theorem callCancelled {main : MainThread} (hc : s.cancelled = true) (hbegun : main.activity.Begun)
    (h : t.PlaysTo s₀ work ⟨s, .calling main, extras, verdict⟩ l) :
    t.PlaysTo s₀ work ⟨s, (WorkMove.ofResult s main.progressed main.propagate
      (.error .cancelled)).stand main.rest, extras, verdict⟩ l := by
  obtain ⟨a, w, propagate, rest⟩ := main
  have hrunning {frames : List Frame}
      (h : t.PlaysTo s₀ work ⟨s, .calling ⟨.running frames, w, propagate, rest⟩, extras, verdict⟩ l) :=
    h.mainDone 0 (u := .ended s (.error .cancelled)) (by
      simp only [Activity.turn, Activation.step, hc, if_true]
      rfl)
  cases a with
  | starting c m => exact absurd rfl (hbegun c m)
  | running frames => exact hrunning h
  | sleeping frames wake =>
    exact h.mainDone 0 (u := .ended s (.error .cancelled)) (by
      simp only [Activity.turn, hc, if_true])
  | joining frames index =>
    by_cases hf : s.hasFinished index = true
    · exact hrunning (h.mainDone 0 (u := .moved s (.running frames)) (by
        simp only [Activity.turn, hf, if_true]))
    · exact h.mainDone 0 (u := .ended s (.error .cancelled)) (by
        simp only [Activity.turn, hf, hc, if_true, if_false, Bool.false_eq_true])

end Task.PlaysTo

/-! #### Work -/

def WorkRest.stand : WorkRest → MainStand
  | call _ w f propagate rest => .calling ⟨.running [f], w, propagate, rest⟩
  | ended _ w e => .ended w e

theorem WorkRest.resume_playsTo {w : Progressed} {steps : List WorkStep}
    (h : t.PlaysTo s₀ work ⟨s, .working w steps, extras, verdict⟩ l) : t.PlaysTo s₀ work
      ⟨(resume t s w steps).shared, (resume t s w steps).stand, extras, verdict⟩ l := by
  induction steps generalizing s w with
  | nil => exact h.act fun acts h => h.exhausted
  | cons step rest ih =>
    have hstep := h.step
    unfold resume
    generalize step.perform t s w = q at hstep
    cases q with
    | answered s w => exact ih hstep
    | call s w f propagate => exact hstep
    | ended s w e => exact hstep

theorem WorkRest.windDown_playsTo {w : Progressed} {steps : List WorkStep}
    (hc : s.cancelled = true)
    (h : t.PlaysTo s₀ work ⟨s, .working w steps, extras, verdict⟩ l) :
    ∃ stand, t.PlaysTo s₀ work ⟨(windDown t s w steps).1, stand, extras, verdict⟩ l := by
  induction steps generalizing s w with
  | nil => exact ⟨_, h⟩
  | cons step rest ih =>
    have hstep := h.step
    have hcancelled := (step.sameCourse_perform t s w).cancelled.trans hc
    unfold windDown
    generalize step.perform t s w = q at hstep hcancelled
    cases q with
    | answered s w => exact ih hcancelled hstep
    | call s w f propagate =>
      have hcall : t.PlaysTo s₀ work ⟨s, .calling ⟨.running [f], w, propagate, rest⟩, _, _⟩ l := hstep
      have hend : t.PlaysTo s₀ work ⟨s, (WorkMove.ofResult s w propagate
          (.error .cancelled)).stand rest, extras, verdict⟩ l :=
        hcall.callCancelled hcancelled (by rintro c m ⟨⟩)
      have hshared := WorkMove.shared_ofResult s w propagate (.error .cancelled)
      dsimp only
      generalize WorkMove.ofResult s w propagate (.error .cancelled) = q at hend hshared
      cases q with
      | answered s' w' =>
        obtain rfl : s' = s := hshared
        exact ih hcancelled hend
      | call s' w' f' b =>
        obtain rfl : s' = s := hshared
        exact ⟨_, hend⟩
      | ended s' w' e =>
        obtain rfl : s' = s := hshared
        exact ⟨_, hend⟩
    | ended s w e => exact ⟨_, hstep⟩

namespace RunState

def scene (st : RunState) : Scene :=
  ⟨st.shared, .calling st.main, ExtraStand.ofThreads st.extras, none⟩

theorem continueWork_playsTo (main : MainThread) {r : Except Fault Value}
    (h : t.PlaysTo s₀ work
      ⟨s, (WorkMove.ofResult s main.progressed main.propagate r).stand main.rest, extras, verdict⟩ l) :
    t.PlaysTo s₀ work
      ⟨(continueWork t s main r).shared, (continueWork t s main r).stand, extras, verdict⟩ l := by
  have hshared := WorkMove.shared_ofResult s main.progressed main.propagate r
  unfold continueWork
  generalize WorkMove.ofResult s main.progressed main.propagate r = q at h hshared
  cases q with
  | answered s' w =>
    obtain rfl : s' = s := hshared
    exact WorkRest.resume_playsTo h
  | call s' w f propagate =>
    obtain rfl : s' = s := hshared
    exact h
  | ended s' w e =>
    obtain rfl : s' = s := hshared
    exact h

/-- When the time is up, the caller cancels the task, and the work winds down. -/
theorem expire_playsTo {st : RunState} (hbegun : st.main.activity.Begun)
    (h : t.PlaysTo s₀ work st.scene l) :
    ∃ c, t.PlaysTo s₀ work c l ∧ c.shared = (expire t st).shared ∧
      c.verdict = some (expire t st).outcome := by
  have hcancel : t.PlaysTo s₀ work
      ⟨st.shared.cancel, .calling st.main, ExtraStand.ofThreads st.extras, some none⟩ l :=
    h.act fun acts h => h.late.cancelled
  have hend := hcancel.callCancelled rfl hbegun
  have hshared := WorkMove.shared_ofResult st.shared.cancel st.main.progressed st.main.propagate
    (.error .cancelled)
  unfold expire
  dsimp only
  generalize WorkMove.ofResult st.shared.cancel st.main.progressed st.main.propagate
    (.error .cancelled) = q at hend hshared
  rw [← hshared] at hend
  cases q with
  | answered s w =>
    obtain ⟨stand, hdown⟩ := WorkRest.windDown_playsTo (by rw [show s = _ from hshared]; rfl) hend
    exact ⟨_, hdown, rfl, rfl⟩
  | call s w f b => exact ⟨_, hend, rfl, rfl⟩
  | ended s w e => exact ⟨_, hend, rfl, rfl⟩

/-! #### Rounds -/

variable {σ : Type} {host : Host (StateM σ)}

theorem bury_playsTo (front : List (Nat × ExtraStand)) (index : Nat) (r : Except Fault Value) :
    Ensures (t.PlaysTo s₀ work ⟨s, main, front ++ (index, .ended r) :: extras, verdict⟩)
      (fun s' => t.PlaysTo s₀ work ⟨s', main, front ++ extras, verdict⟩)
      (bury host.watched s index r) := by
  unfold bury
  split
  · next text htext =>
    have hburied (now : Time.Timestamp) :
        s.buried index r now = (s.write .stderr text index now).finish index := by
      rw [TaskState.buried, htext]
    refine .bind (Q := fun _ => t.PlaysTo s₀ work ⟨s, main, front ++ (index, .ended r) :: extras,
      verdict⟩) ?_ fun now => .pure fun l h => h.act fun acts h => hburied now ▸ h.finished now
    -- the time is noted, but is not sensitive
    rintro w l ⟨acts, h, hl⟩
    have hnoted : (host.watched.answer .clock (w, l)).2.2 =
        l ++ [⟨.clock, (host.answer .clock w).1⟩] := rfl
    refine ⟨acts, h, ?_⟩
    rw [hl, hnoted, List.filter_append]
    exact (List.append_nil _).symm
  · next hnone =>
    have hburied : s.buried index r default = s.finish index := by rw [TaskState.buried, hnone]
    exact .pure fun l h => h.act fun acts h => hburied ▸ h.finished default

theorem mainTurn_playsTo (main : MainThread) (now : Nat) :
    Ensures (t.PlaysTo s₀ work ⟨s, .calling main, extras, verdict⟩)
      (fun u l => t.PlaysTo s₀ work ⟨u.shared, main.behind u, extras, verdict⟩ l ∧
        ∀ a ∈ u.activity?, a.Begun)
      ((main.activity.turn t 0 now s).answered host.watched.answer) := by
  rintro w l ⟨acts, h, hl⟩
  obtain ⟨asked, hu, hnoted⟩ := (main.activity.turn t 0 now s).exists_comes_watched host w l
  exact ⟨⟨_, h.mainTurn hu, by simp [Act.asked, hnoted, hl]⟩,
    (Activity.begun_of_turn t 0 now s main.activity).of_mayCome hu.mayCome⟩

theorem extraTurn_playsTo (front : List (Nat × ExtraStand)) (index : Nat) (a : Activity) (now : Nat) :
    Ensures (t.PlaysTo s₀ work ⟨s, main, front ++ (index, .active a) :: extras, verdict⟩)
      (fun u => t.PlaysTo s₀ work ⟨u.shared, main, front ++ (index, .behind u) :: extras, verdict⟩)
      ((a.turn t index now s).answered host.watched.answer) := by
  rintro w l ⟨acts, h, hl⟩
  obtain ⟨asked, hu, hnoted⟩ := (a.turn t index now s).exists_comes_watched host w l
  exact ⟨_, h.extraTurn hu, by simp [Act.asked, hnoted, hl]⟩

theorem extraTurns_playsTo (now : Nat) (xs : List ExtraThread) (r : Round) :
    Ensures (t.PlaysTo s₀ work ⟨r.shared, main,
        ExtraStand.ofThreads r.extras.reverse ++ ExtraStand.ofThreads xs, verdict⟩)
      (fun r => t.PlaysTo s₀ work
        ⟨r.shared, main, ExtraStand.ofThreads r.extras.reverse, verdict⟩)
      (extraTurns host.watched t now r xs) := by
  induction xs generalizing r with
  | nil =>
    refine .pure fun l h => ?_
    simpa [ExtraStand.ofThreads] using h
  | cons x rest ih =>
    refine (extraTurn_playsTo _ x.index x.activity now).bind fun u => ?_
    cases u with
    | moved s a =>
      refine (ih _).of_imp fun l hu => ?_
      simpa [ExtraStand.ofThreads, ExtraStand.behind, Turn.shared] using hu
    | blocked s a wake =>
      refine (ih _).of_imp fun l hu => ?_
      simpa [ExtraStand.ofThreads, ExtraStand.behind, Turn.shared] using hu
    | ended s result => exact (bury_playsTo _ x.index result).bind fun s => ih ⟨s, r.extras, true, r.wake⟩

theorem completeRound_playsTo {main : MainThread} {xs : List ExtraThread} (now deadline : Nat)
    (moved : Bool) (wake : Option Nat) :
    Ensures (t.PlaysTo s₀ work (scene ⟨s, main, xs⟩))
      (fun st l => t.PlaysTo s₀ work st.scene l ∧ st.main = main)
      (completeRound host.watched t now deadline s main xs moved wake) := by
  have begin_ {s : TaskState} {xs : List ExtraThread} {l : List Exchange}
      (h : t.PlaysTo s₀ work ⟨s, .calling main, ExtraStand.ofThreads xs, none⟩ l) :
      t.PlaysTo s₀ work ⟨s.takeStarting.2, .calling main,
        ExtraStand.ofThreads (xs ++ s.takeStarting.1), none⟩ l := by
    simpa [ExtraStand.ofThreads] using h.act fun acts h => h.begun
  unfold completeRound
  split
  · exact .pure fun l h => ⟨h, rfl⟩
  · refine ((extraTurns_playsTo now _ _).bind fun r => ?_).of_imp fun l => begin_
    dsimp only
    split
    · exact .bind (Q := fun _ => t.PlaysTo s₀ work ⟨r.shared, _, _, _⟩) (fun w l h => h) fun _ =>
        .pure fun l h => ⟨begin_ h, rfl⟩
    · exact .pure fun l h => ⟨begin_ h, rfl⟩

theorem rounds_playsTo (deadline fuel : Nat) (st : RunState) (hbegun : st.main.activity.Begun) :
    Ensures (t.PlaysTo s₀ work st.scene)
      (fun e l => ∃ c, t.PlaysTo s₀ work c l ∧ c.shared = e.shared ∧ c.verdict = some e.outcome)
      (rounds host.watched t deadline fuel st) := by
  induction fuel generalizing st with
  | zero => exact .pure fun l h => expire_playsTo hbegun h
  | succ fuel ih =>
    refine .bind (Q := fun _ => t.PlaysTo s₀ work st.scene) (fun w l h => h) fun now => ?_
    split
    · exact .pure fun l h => expire_playsTo hbegun h
    · have goes {s : TaskState} {main : MainThread} {xs : List ExtraThread} (moved : Bool)
          (wake : Option Nat) (hbegun : main.activity.Begun) :
          Ensures (t.PlaysTo s₀ work (scene ⟨s, main, xs⟩))
            (fun e l => ∃ c, t.PlaysTo s₀ work c l ∧ c.shared = e.shared ∧
              c.verdict = some e.outcome)
            (completeRound host.watched t now deadline s main xs moved wake >>=
              rounds host.watched t deadline fuel) := by
        refine (completeRound_playsTo now deadline moved wake).bind fun st w l h => ?_
        exact ih st (h.2 ▸ hbegun) w l h.1
      refine (mainTurn_playsTo st.main now).bind fun u => ?_
      cases u with
      | moved s a => exact fun w l h => goes true none (h.2 a rfl) w l h.1
      | blocked s a wake => exact fun w l h => goes false wake (h.2 a rfl) w l h.1
      | ended s result =>
        intro w l h
        have hwork := continueWork_playsTo { st.main with activity := .running [] } h.1
        dsimp only [Turn.shared] at hwork ⊢
        generalize continueWork t s { st.main with activity := .running [] } result = q at hwork
        cases q with
        | call s p f propagate rest => exact goes _ _ (by rintro c m ⟨⟩) w l hwork
        | ended s p e => exact ⟨_, hwork.act fun acts h => h.heard, rfl, rfl⟩

/-- **A run on whatever host is a schedule**, and asks what its turns ask. -/
theorem run_scheduled (host : Host (StateM σ)) (t : Task) (s : TaskState) (work : List WorkStep)
    (limit : Nat) (w : σ) :
    let q := run host.watched t s work limit (w, [])
    ∃ acts c, t.Schedules s work acts c ∧ c.shared = q.1.shared ∧ c.verdict = some q.1.outcome ∧
      (acts.flatMap Act.asked).filter (·.isSensitive) = q.2.2.filter (·.isSensitive) := by
  have hrun : Ensures (t.PlaysTo s work ⟨s, .working .none work, [], none⟩)
      (fun e l => ∃ c, t.PlaysTo s work c l ∧ c.shared = e.shared ∧ c.verdict = some e.outcome)
      (run host.watched t s work limit) := by
    refine .bind (Q := fun _ => t.PlaysTo s work ⟨s, .working .none work, [], none⟩)
      (fun w l h => h) fun now w l h => ?_
    have hwork := WorkRest.resume_playsTo h
    generalize WorkRest.resume t s .none work = q at hwork
    cases q with
    | call s p f propagate rest => exact rounds_playsTo _ _ _ (by rintro c m ⟨⟩) w l hwork
    | ended s p e => exact ⟨_, hwork.act fun acts h => h.heard, rfl, rfl⟩
  obtain ⟨c, ⟨acts, hacts, hl⟩, hshared, hverdict⟩ := hrun w [] ⟨[], .start, rfl⟩
  exact ⟨acts, c, hacts, hshared, hverdict, hl⟩

theorem run_interleaves (host : Host (StateM σ)) (t : Task) (s : TaskState) (work : List WorkStep)
    (limit : Nat) (w : σ) :
    let q := run host.watched t s work limit (w, [])
    ∃ acts c, t.Interleaves s acts c ∧ c.shared = q.1.shared ∧
      (acts.flatMap Act.asked).filter (·.isSensitive) = q.2.2.filter (·.isSensitive) := by
  obtain ⟨acts, c, hacts, hshared, -, hl⟩ := run_scheduled host t s work limit w
  exact ⟨acts, c.crowd, hacts.interleaves, hshared, hl⟩

end RunState

end Runs

end Confine
