import Confine.Proofs.Machine.Retraced
import Confine.Proofs.Sandbox.Earlier

/-!
# Earlier tasks

A task without extra threads is run after some tasks, and after others.  Round by round the two runs do the same
(`RunState.rounds_match`); what differs is where the numbers of objects begin, and only an object that is turned
into text shows its number.

Main statement: `Sandbox.execute_isolated`.  The result is the same after whatever tasks if as many objects have been
made, or if no object is turned into text.  Else it may differ (`Sandbox.printing_not_isolated`).
-/

namespace Confine

variable {σ τ : Type} {W : σ → τ → Prop}

/-! ### Where a thread comes -/

def Moment.InTime (host : Host (StateM σ)) (deadline : Nat) (x : Moment σ) : Prop :=
  (host.elapsed x.host).1 < deadline

/-- **Where the only thread of a task comes** from `x₀`, on a host, before the deadline. -/
inductive Task.Visits (t : Task) (host : Host (StateM σ)) (deadline : Nat) (x₀ : Moment σ) :
    Moment σ → Prop where
  | start : Visits t host deadline x₀ x₀
  | moved {x : Moment σ} {s : TaskState} {a : Activity} {w : σ} (h : Visits t host deadline x₀ x)
      (hx : x.InTime host deadline) (hu : x.turn t host = (.moved s a, w)) :
      Visits t host deadline x₀ ⟨s, a, w⟩
  | blocked {x : Moment σ} {s : TaskState} {a : Activity} {wake : Option Nat} {w : σ}
      (h : Visits t host deadline x₀ x) (hx : x.InTime host deadline)
      (hu : x.turn t host = (.blocked s a wake, w)) :
      Visits t host deadline x₀ ⟨s, a, (host.idleUntil (min deadline (wake.getD deadline)) w).2⟩

theorem Task.Visits.reaches {t : Task} {host : Host (StateM σ)} {deadline : Nat} {x₀ x : Moment σ}
    (h : t.Visits host deadline x₀ x) (h₀ : t.Reaches x₀.activity) : t.Reaches x.activity := by
  have comes : ∀ (x : Moment σ) {u : Turn} {w : σ}, x.turn t host = (u, w) →
      (x.activity.turn t 0 (host.elapsed x.host).1 x.shared).MayCome u := by
    intro x u w hu
    have hcomes := Query.mayCome_answered host.answer
      (x.activity.turn t 0 (host.elapsed x.host).1 x.shared) (host.elapsed x.host).2
    rwa [show (x.activity.turn t 0 (host.elapsed x.host).1 x.shared).answered host.answer
      (host.elapsed x.host).2 = (u, w) from hu] at hcomes
  induction h with
  | start => exact h₀
  | moved _ _ hu ih => exact .moved ih (comes _ hu)
  | blocked _ _ hu ih => exact .blocked ih (comes _ hu)

/-! ### Rounds in step -/

section Lockstep

variable {z : Rerun} {host : Host (StateM σ)} {host' : Host (StateM τ)}

/-- The ends of two runs agree. -/
inductive RunEnd.Match (z : Rerun) : RunEnd → RunEnd → Prop where
  | cutOff {s s' : TaskState} (hs : s.Match z s') (p p' : Progressed) :
      Match z ⟨s, p, none⟩ ⟨s', p', none⟩
  | finished {s s' : TaskState} {r r' : Except Fault Value} (hs : s.Match z s')
      (hr : ShowsSame r r') (p p' : Progressed) :
      Match z ⟨s, p, some (.finished r)⟩ ⟨s', p', some (.finished r')⟩

theorem RunEnd.Match.shared {e e' : RunEnd} (he : e.Match z e') :
    e.shared.Match z e'.shared := by
  cases he with
  | cutOff hs => exact hs
  | finished hs => exact hs

/-- Two threads that are alone are at the same place, on hosts that `W` relates. -/
structure Moment.Match (z : Rerun) (W : σ → τ → Prop) (x : Moment σ) (x' : Moment τ) : Prop where
  shared : x.shared.Match z x'.shared
  activity : x.activity.Match z x'.activity
  lonely : x.shared.Lonely
  host : W x.host x'.host

theorem TaskState.Match.cancel {s s' : TaskState} (h : s.Match z s') :
    s.cancel.Match z s'.cancel := { h with cancelled := rfl }

theorem TaskState.Match.lonely {s s' : TaskState} (h : s.Match z s') (hs : s.Lonely) : s'.Lonely :=
  ⟨h.nextThread.trans hs.nextThread, h.finished.trans hs.finished, h.starting.trans hs.starting⟩

variable (hz : z.Fair) (hh : host.Resembles (fun _ => True) W host')

include hz hh

theorem Moment.Match.turn {x : Moment σ} {x' : Moment τ} (h : x.Match z W x')
    (hshow : ∀ v ∈ x.activity.shown, z.CanShow v) :
    (x.turn z.task host).1.Match z (x'.turn z.task' host').1 ∧
      W (x.turn z.task host).2 (x'.turn z.task' host').2 := by
  obtain ⟨hnow, hw⟩ := hh.elapsed _ _ h.host
  unfold Moment.turn
  rw [← hnow]
  exact (Activity.turn_match hz h.shared h.activity hshow 0 _).twin
    (fun r => hh.answer r trivial) _ _ hw

variable (ht : z.task.maxExtraThreads = 0)

include ht

namespace RunState

/-- **Two runs in step**: round by round, until both end. -/
theorem rounds_match {deadline : Nat} {x₀ : Moment σ}
    (hshow : ∀ x, z.task.Visits host deadline x₀ x → x.InTime host deadline →
      ∀ v ∈ x.activity.shown, z.CanShow v)
    (fuel : Nat) {x : Moment σ} {x' : Moment τ} (hx : z.task.Visits host deadline x₀ x)
    (h : x.Match z W x') :
    let q := rounds host z.task deadline fuel ⟨x.shared, .entry x.activity, []⟩ x.host
    let q' := rounds host' z.task' deadline fuel ⟨x'.shared, .entry x'.activity, []⟩ x'.host
    q.1.Match z q'.1 ∧ W q.2 q'.2 := by
  dsimp only
  induction fuel generalizing x x' with
  | zero => exact ⟨.cutOff h.shared.cancel _ _, h.host⟩
  | succ fuel ih =>
    -- both runs look at the clock first, so both are cut off in the same round
    obtain ⟨hnow, hw⟩ := hh.elapsed _ _ h.host
    by_cases hlate : deadline ≤ (host.elapsed x.host).1
    · rw [rounds_succ, rounds_succ, ← hnow, if_pos hlate, if_pos hlate]
      exact ⟨.cutOff h.shared.cancel _ _, hw⟩
    · have htime : x.InTime host deadline := Nat.lt_of_not_le hlate
      have hlonely := Moment.lonely_turn ht host h.lonely
      rw [rounds_of_lonely ht _ _ h.lonely, rounds_of_lonely (hz.maxExtraThreads.trans ht) _ _
        (h.shared.lonely h.lonely), ← hnow, if_neg hlate, if_neg hlate]
      obtain ⟨hu, hw⟩ := h.turn hz hh (hshow x hx htime)
      have hmoved := fun s a w => @Task.Visits.moved σ _ _ _ _ _ s a w hx htime
      have hblocked := fun s a wake w => @Task.Visits.blocked σ _ _ _ _ _ s a wake w hx htime
      generalize x.turn z.task host = q at hu hlonely hw hmoved hblocked
      generalize x'.turn z.task' host' = q' at hu hw
      obtain ⟨u, w⟩ := q
      obtain ⟨u', w'⟩ := q'
      cases hu with
      | @moved s s' a a' hs ha =>
        have h : Moment.Match z W ⟨s, a, w⟩ ⟨s', a', w'⟩ := ⟨hs, ha, hlonely, hw⟩
        exact ih (hmoved _ _ _ rfl) h
      | @blocked s s' a a' hs ha wake =>
        obtain ⟨-, hw⟩ := hh.idleUntil (min deadline (wake.getD deadline)) w w' hw
        have h : Moment.Match z W ⟨s, a, _⟩ ⟨s', a', _⟩ := ⟨hs, ha, hlonely, hw⟩
        exact ih (hblocked _ _ _ _ rfl) h
      | ended hs hr => exact ⟨.finished hs hr _ _, hw⟩

/-- A run of an entry point turns an object into text, within its limit. -/
def ShowsObject (host : Host (StateM σ)) (t : Task) (s : TaskState) (e : EntryPoint) (limit : Nat)
    (w : σ) : Prop :=
  ∃ f s₁, Activation.start t s e.className e.methodName [] = (.ok f, s₁) ∧
    ∃ x, t.Visits host ((host.elapsed w).1 + limit) ⟨s₁, .running [f], (host.elapsed w).2⟩ x ∧
      x.InTime host ((host.elapsed w).1 + limit) ∧ ∃ v ∈ x.activity.shown, v.isObject = true

theorem run_match {s s' : TaskState} {w : σ} {w' : τ} {e : EntryPoint} {limit : Nat}
    (hshow : z.objects' = z.objects ∨ ¬ ShowsObject host z.task s e limit w) (hs : s.Match z s')
    (hlonely : s.Lonely) (hw : W w w') :
    let q := run host z.task s e.work limit w
    let q' := run host' z.task' s' e.work limit w'
    q.1.Match z q'.1 ∧ W q.2 q'.2 := by
  dsimp only
  rw [run_entry, run_entry]
  obtain ⟨hnow, hw⟩ := hh.elapsed w w' hw
  rw [← hnow]
  obtain ⟨hframe, hs⟩ := Activation.start_match hz hs e.className e.methodName .nil
  have hlonely := hlonely.registers ht
    (Activation.start_within z.task s e.className e.methodName []).1.threads
  unfold ShowsObject at hshow
  generalize Activation.start z.task s e.className e.methodName [] = q at hframe hs hlonely hshow
  generalize Activation.start z.task' s' e.className e.methodName [] = q' at hframe hs
  obtain ⟨r, s⟩ := q
  obtain ⟨r', s'⟩ := q'
  cases hframe with
  | error e => exact ⟨.finished hs (.error e) _ _, hw⟩
  | @ok f f' hf =>
    have h : Moment.Match z W ⟨s, .running [f], _⟩ ⟨s', .running [f'], _⟩ :=
      ⟨hs, .running (.cons hf .nil), hlonely, hw⟩
    refine rounds_match hz hh ht (fun x hx htime v hv => ?_) _ .start h
    refine hshow.imp_right fun hno => Bool.eq_false_iff.2 fun hobject => hno ?_
    exact ⟨_, _, rfl, x, hx, htime, v, hv, hobject⟩

end RunState

end Lockstep

/-! ### Two executions -/

namespace Sandbox

variable {sb sb' : Sandbox} {r : RegistryId} {u : LoadingUnit}
  {sets sets' : List LoadingUnit.ClassSets} {a : ExecutionArguments}

theorem conclusion_match {z : Rerun} {e e' : RunEnd} (he : e.Match z e') :
    Agree (fun p p' => p'.1.map Value.toJson = p.1.map Value.toJson ∧ p'.2 = p.2)
      (conclusion e.outcome) (conclusion e'.outcome) := by
  cases he with
  | cutOff hs p p' => exact .ok ⟨rfl, rfl⟩
  | finished hs hr p p' =>
    cases hr with
    | ok hv => exact .ok ⟨congrArg some hv, rfl⟩
    | error e =>
      cases e with
      | confinement fault => exact .error _
      | _ => exact .ok ⟨rfl, rfl⟩

theorem resultOf_match {z : Rerun} {e e' : RunEnd} (he : e.Match z e') {rec rec' : Record}
    (hrec : rec'.executionMillis = rec.executionMillis) (log : List Decision)
    (output : List OutputLine × Nat) :
    Agree SameButRecord (resultOf rec e.shared.cancel e.outcome log output)
      (resultOf rec' e'.shared.cancel e'.outcome log output) := by
  have hnone : e'.outcome.isNone = e.outcome.isNone := by cases he <;> rfl
  have hs := he.shared
  refine (conclusion_match he).bind ?_
  rintro ⟨v, error⟩ ⟨v', error'⟩ ⟨hv, rfl⟩
  have hsome : v'.isSome = v.isSome := by rw [← Option.isSome_map, hv, Option.isSome_map]
  refine .ok ?_
  unfold SameButRecord
  dsimp only [TaskState.cancel] at hv ⊢
  rw [hs.killReason, hs.recordings.results, hnone, hsome, hv, hrec]

section Prepared

variable {P P' : Prepared}

/-- The executions show the same: results that differ in the name of the run and in its dates only, and the same
output. -/
structure Execution.ShowsSame (E E' : Execution) : Prop where
  outcome : Agree SameButRecord E.outcome E'.outcome
  passedThrough : E'.passedThrough = E.passedThrough

/-- The same run, after two series of tasks. -/
def rerun (P P' : Prepared) : Rerun :=
  ⟨P.task, P'.task, P.state.heap.objects.size, P'.state.heap.objects.size,
    P.state.heap.exceptions, P'.state.heap.exceptions, P.state.confinements, P'.state.confinements⟩

variable (h : Prepares sb r u sets a P) (h' : Prepares sb' r u sets' a P')

include h h'

theorem fair_rerun : (rerun P P').Fair where
  unit := h'.unit_eq.trans h.unit_eq.symm
  maxExtraThreads := by
    simp only [rerun]
    rw [h.task, h'.task]
  allows p := (h'.grants p).trans (h.grants p).symm

theorem Prepares.state_match : P.state.Match (rerun P P') P'.state := by
  have hrecordings : P'.state.recordings = P.state.recordings :=
    Except.ok.inj (h'.started.symm.trans h.started)
  refine ⟨⟨⟨0, rfl, rfl⟩, ⟨0, rfl, rfl⟩, fun i field => ?_⟩, ⟨[], rfl, rfl⟩, ?_, ?_, ?_, ?_, ?_, ?_, ?_⟩
  · rw [Heap.get_of_size_le (by simp only [rerun]; omega),
      Heap.get_of_size_le (by simp only [rerun]; omega)]
    exact .null
  · rw [h.state, h'.state]
  · rw [hrecordings]
    exact .refl _
  all_goals rw [h.state, h'.state]

/-- **What is left of two runs shows the same.** -/
theorem conclude_match {e e' : RunEnd} (he : e.Match (rerun P P') e') {rec rec' : Record}
    (hrec : rec'.executionMillis = rec.executionMillis) :
    (conclude r P rec e).ShowsSame (conclude r P' rec' e') := by
  obtain ⟨ds, hlog, hlog'⟩ := he.shared.log
  obtain ⟨s, hrelease⟩ := h.release ds
  obtain ⟨s', hrelease'⟩ := h'.release ds
  have hsink := he.shared.sink
  simp only [rerun] at hlog hlog'
  rw [← hlog] at hrelease
  rw [← hlog'] at hrelease'
  refine ⟨?_, ?_⟩
  · simp only [conclude, TaskState.cancel, hrelease, hrelease', hsink]
    exact resultOf_match he hrec _ _
  · simp only [conclude, TaskState.cancel, hsink]

end Prepared

def ShowsObject (host : Host (StateM σ)) (sb : Sandbox) (r : RegistryId) (u : LoadingUnit)
    (sets : List LoadingUnit.ClassSets) (a : ExecutionArguments) (e : EntryPoint) (w : σ) : Prop :=
  ∃ P, sb.prepare r u sets a = .ok P ∧
    RunState.ShowsObject host P.task P.state e (a.timeoutMillis * 1000000)
      (host.elapsed (host.today (host.randomBytes w).2).2).2

/-- Runs begin alike where no confinement is in force. -/
theorem Free.prepare_agree (hsb : sb.Free) (hsb' : sb'.Free) (r : RegistryId) (u : LoadingUnit)
    (sets sets' : List LoadingUnit.ClassSets) (a : ExecutionArguments) :
    Agree (fun P P' => Prepares sb r u sets a P ∧ Prepares sb' r u sets' a P')
      (sb.prepare r u sets a) (sb'.prepare r u sets' a) := by
  have hagree : Agree (fun _ _ => True) (sb.prepare r u sets a) (sb'.prepare r u sets' a) := by
    rw [hsb.prepare, hsb'.prepare]
    cases a.permissions.firstForbidden? with
    | some p => exact .error _
    | none =>
      cases Recordings.start a.maxExtraThreads u.own.instrumentation with
      | error fault => exact .error _
      | ok recordings => exact .ok trivial
  generalize hP : sb.prepare r u sets a = x at hagree
  generalize hP' : sb'.prepare r u sets' a = x' at hagree
  cases hagree with
  | error fault => exact .error fault
  | ok _ => exact .ok ⟨prepare_eq_ok_iff.1 hP, prepare_eq_ok_iff.1 hP'⟩

/-- **Tasks are isolated from earlier tasks.** Take a unit and an entry point, arguments without extra
threads, and two hosts that answer alike. After whatever tasks, and after whatever others, the execution shows the
same, provided that as many objects have been made or that no object is turned into text. -/
theorem execute_isolated (hsb : Reached sb) (hsb' : Reached sb') (r : RegistryId) (u : LoadingUnit)
    (sets sets' : List LoadingUnit.ClassSets) {a : ExecutionArguments} (ha : a.maxExtraThreads = 0)
    (e : EntryPoint) {host : Host (StateM σ)} {host' : Host (StateM τ)}
    (hh : host.Resembles (fun _ => True) W host') {w : σ} {w' : τ} (hw : W w w')
    (hshow : sb'.heap.objects.size = sb.heap.objects.size ∨
      ¬ ShowsObject host sb r u sets a e w) :
    (execute host sb r u sets a e w).1.ShowsSame (execute host' sb' r u sets' a e w').1 ∧
      W (execute host sb r u sets a e w).2 (execute host' sb' r u sets' a e w').2 := by
  unfold execute
  cases checkEntry u e with
  | error fault => exact ⟨⟨.error fault, rfl⟩, hw⟩
  | ok _ =>
    have hagree := hsb.free.prepare_agree hsb'.free r u sets sets' a
    unfold ShowsObject at hshow
    unfold executeWork
    generalize sb.prepare r u sets a = x at hagree hshow
    generalize sb'.prepare r u sets' a = x' at hagree
    cases hagree with
    | error fault => exact ⟨⟨.error fault, rfl⟩, hw⟩
    | @ok P P' h =>
      obtain ⟨h, h'⟩ := h
      have hlonely := h.lonely
      have ht : P.task.maxExtraThreads = 0 := by rw [h.task, ha]
      have hsize : (rerun P P').objects' = (rerun P P').objects ↔
          sb'.heap.objects.size = sb.heap.objects.size := by
        simp only [rerun]
        rw [h.state, h'.state]
      -- the name and the dates may differ, the rest of what the hosts answer is the same
      obtain ⟨-, hw⟩ := hh.randomBytes w w' hw
      obtain ⟨-, hw⟩ := hh.today _ _ hw
      obtain ⟨hbefore, hw⟩ := hh.elapsed _ _ hw
      obtain ⟨hrun, hw⟩ := RunState.run_match (fair_rerun h h') hh ht
        (hshow.imp hsize.2 fun hno hobject => hno ⟨P, rfl, hobject⟩) (h.state_match h') hlonely hw
      obtain ⟨hafter, hw⟩ := hh.elapsed _ _ hw
      obtain ⟨-, hw⟩ := hh.today _ _ hw
      have hmillis := congrArg₂ (fun before after => (after - before) / 1000000) hbefore hafter
      exact ⟨conclude_match h h' hrun hmillis.symm, hw⟩

/-! ### Programs that show no object, and one that does -/

/-- The instruction turns no value into text. -/
def ShowsNothing (i : Instruction) : Prop := ∀ (last : Bool) (f : Frame), f.shown last i = []

/-- A program of instructions that turn no value into text turns no object into text. -/
theorem not_showsObject_of_calls {host : Host (StateM σ)} {t : Task} {s : TaskState}
    {e : EntryPoint} {limit : Nat} {w : σ}
    (h : ∀ g, t.Calls g → ∀ i ∈ g.method.code, ShowsNothing i) :
    ¬ RunState.ShowsObject host t s e limit w := by
  rintro ⟨f, s₁, hf, x, hx, -, v, hv, -⟩
  have hreaches := hx.reaches (.called (congrArg Prod.fst hf))
  have hcode := hreaches.invariant h fun f g hk hf => hk.method ▸ hf
  generalize x.activity = a at hv hcode
  cases a with
  | running frames =>
    cases frames with
    | nil => cases hv
    | cons f outer =>
      dsimp only [Activity.shown] at hv
      cases hi : f.method.code[f.next]? with
      | none => simp [hi] at hv
      | some i =>
        simp only [hi] at hv
        rw [hcode f (by simp [Activity.frames]) i (Array.mem_of_getElem? hi)] at hv
        cases hv
  | _ => cases hv

def unitOf (code : List Instruction) : LoadingUnit :=
  ⟨⟨⟨1⟩, "", .default, [], [("Main", LoadingUnit.definedClass
    ⟨"Main", none, [⟨"main", true, [], 0, code, []⟩]⟩)]⟩, []⟩

theorem mem_code_of_calls {code : List Instruction} {t : Task} (ht : t.unit = unitOf code)
    {g : Frame} (h : t.Calls g) {i : Instruction} (hi : i ∈ g.method.code) : i ∈ code := by
  obtain ⟨l, hl, e, he, hm⟩ := h.exists_method
  rw [ht] at hl
  obtain rfl := List.mem_singleton.1 hl
  obtain rfl := List.mem_singleton.1 he
  rw [List.mem_singleton.1 hm] at hi
  simpa [LinkedMethod.ofMethod] using hi

def dropping : LoadingUnit := unitOf [.new "Main", .pop, .ret]

def printing : LoadingUnit := unitOf [.new "Main", .host .println, .ret]

def afterOne (u : LoadingUnit) : Sandbox :=
  (execute World.host empty ⟨0⟩ u [] .default .default .fresh).1.sandbox

theorem reached_afterOne (u : LoadingUnit) : Reached (afterOne u) := Reached.empty.afterEntry ..

/-- The task that drops its object shows the same after another one as at first, though objects have
been made. -/
theorem execute_isolated_sample :
    (afterOne dropping).heap.objects.size ≠ empty.heap.objects.size ∧
      (execute World.host empty ⟨0⟩ dropping [] .default .default .fresh).1.ShowsSame
        (execute World.host (afterOne dropping) ⟨0⟩ dropping [] .default .default .fresh).1 := by
  refine ⟨by decide +kernel, (execute_isolated .empty (reached_afterOne dropping) ⟨0⟩ dropping [] []
    rfl .default (.refl _ _) rfl (.inr ?_)).1⟩
  rintro ⟨P, hP, hobject⟩
  have ht := (prepare_eq_ok_iff.1 hP).unit_eq
  refine not_showsObject_of_calls (fun g hg i hi => ?_) hobject
  have hcode := mem_code_of_calls ht hg hi
  simp only [List.mem_cons, List.not_mem_nil, or_false] at hcode
  rcases hcode with rfl | rfl | rfl <;> exact fun _ _ => rfl

/-- **An object that is printed shows how many were made by earlier tasks**: the same task prints one
number at first, and another one after a task. -/
theorem printing_not_isolated :
    Reached empty ∧ Reached (afterOne printing) ∧
      (execute World.host empty ⟨0⟩ printing [] .default .default .fresh).1.outcome.toOption.map
        (·.stdout) = some "Main@1" ∧
      (execute World.host (afterOne printing) ⟨0⟩ printing [] .default .default
        .fresh).1.outcome.toOption.map (·.stdout) = some "Main@2" ∧
      ¬ Agree SameButRecord
        (execute World.host empty ⟨0⟩ printing [] .default .default .fresh).1.outcome
        (execute World.host (afterOne printing) ⟨0⟩ printing [] .default .default
          .fresh).1.outcome := by
  refine ⟨.empty, reached_afterOne printing, by decide +kernel, by decide +kernel, fun h => ?_⟩
  have hstdout : ∀ {o o' : Except SandboxFault ExecutionResult}, Agree SameButRecord o o' →
      o'.toOption.map (·.stdout) = o.toOption.map (·.stdout) := by
    intro o o' h
    cases h with
    | error fault => rfl
    | ok hx =>
      rw [hx]
      rfl
  have hsame := hstdout h
  revert hsame
  decide +kernel

end Sandbox

end Confine
