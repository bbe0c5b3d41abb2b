import Confine.Proofs.Sandbox.Audited
import Confine.Proofs.Sandbox.Endings

/-!
# What the flags of a result say

A task is cancelled by its caller, behind the verdict, or by a hook that kills it, and that leaves a reason.  So a main
thread that has been cancelled in time has been killed, and every run that has not completed says why.

* `Task.Schedules.accounted` — before the verdict, a cancelled task has a reason;
* `Task.Schedules.decision?_of_security` — a thread that a denied check has ended has logged the denial;
* `Sandbox.classified_of_prepare` — **the flags of every result**, whatever the schedule was.
-/

namespace Confine

def Act.kill? : Act → Option String
  | turn thread _ s a _ _ => a.kill? thread s
  | call _ _ _ _ => none

/-! ### Reasons -/

/-- A task that has been cancelled before the verdict, and a main thread that has seen it, have a reason: the first
that a hook has given. -/
structure Scene.Accounted (acts : List Act) (c : Scene) : Prop where
  reason : c.shared.killReason = (acts.filterMap Act.kill?).head?
  cancelled : c.verdict = none → c.shared.cancelled = true → c.shared.killReason.isSome = true
  ended : c.verdict = none → ∀ w, c.main = .ended w (.finished (.error .cancelled)) →
    c.shared.killReason.isSome = true
  heard : c.verdict = some (some (.finished (.error .cancelled))) →
    c.shared.killReason.isSome = true

namespace Scene.Accounted

variable {acts : List Act} {s s' : TaskState} {main main' : MainStand}
  {extras extras' : List (Nat × ExtraStand)} {verdict : Option (Option WorkEnd)}

/-- An action that leaves the course of the task as it is. -/
theorem of_same (h : Accounted acts ⟨s, main, extras, verdict⟩) (hc : s'.cancelled = s.cancelled)
    (hk : s'.killReason = s.killReason)
    (hmain : ∀ w, main' = .ended w (.finished (.error .cancelled)) →
      main = .ended w (.finished (.error .cancelled))) :
    Accounted acts ⟨s', main', extras', verdict⟩ where
  reason := hk.trans h.reason
  cancelled hv hcancelled := by
    rw [hk]
    exact h.cancelled hv (hc ▸ hcancelled)
  ended hv w hw := by
    rw [hk]
    exact h.ended hv w (hmain w hw)
  heard hv := by
    rw [hk]
    exact h.heard hv

/-- A turn. The main thread ends as cancelled only if the turn has seen that the task is. -/
theorem of_turn (h : Accounted acts ⟨s, main, extras, verdict⟩) {x : Act}
    (hc : s'.cancelled = (s.cancelled || x.kill?.isSome))
    (hk : s'.killReason = s.killReason.or x.kill?)
    (hmain : ∀ w, main' = .ended w (.finished (.error .cancelled)) →
      main = .ended w (.finished (.error .cancelled)) ∨ s'.cancelled = true) :
    Accounted (acts ++ [x]) ⟨s', main', extras', verdict⟩ := by
  have keeps (hr : s.killReason.isSome = true) : s'.killReason.isSome = true := by
    rw [hk, Option.isSome_or, hr, Bool.true_or]
  have reason (hv : verdict = none) (hcancelled : s'.cancelled = true) :
      s'.killReason.isSome = true := by
    rw [hc, Bool.or_eq_true] at hcancelled
    rcases hcancelled with hcancelled | hkill
    · exact keeps (h.cancelled hv hcancelled)
    · rw [hk, Option.isSome_or, hkill, Bool.or_true]
  refine ⟨?_, reason, fun hv w hw => ?_, fun hv => keeps (h.heard hv)⟩
  · have hreason : s.killReason = (acts.filterMap Act.kill?).head? := h.reason
    rw [List.filterMap_append, List.head?_append, ← hreason]
    dsimp only
    rw [hk]
    cases hx : x.kill? <;> simp [hx]
  · rcases hmain w hw with hw | hcancelled
    · exact keeps (h.ended hv w hw)
    · exact reason hv hcancelled

end Scene.Accounted

/-- A call that has ended ends the work as cancelled only if it has been. -/
theorem WorkMove.cancelled_of_ofResult {s : TaskState} {w w' : Progressed} {propagate : Bool}
    {r : Except Fault Value} {rest : List WorkStep}
    (h : (ofResult s w propagate r).stand rest = .ended w' (.finished (.error .cancelled))) :
    r = .error .cancelled := by
  unfold ofResult at h
  split at h
  · cases h
    rfl
  · cases h

theorem WorkStep.stand_perform_ne (t : Task) (s : TaskState) (w w' : Progressed) (step : WorkStep)
    (rest : List WorkStep) :
    (step.perform t s w).stand rest ≠ .ended w' (.finished (.error .cancelled)) := by
  cases step with
  | invoke c m arguments propagate =>
    simp only [perform]
    split
    · rintro ⟨⟩
    · next e he =>
      intro h
      obtain ⟨x, rfl⟩ := Activation.threw_of_start he
      cases WorkMove.cancelled_of_ofResult h
  | _ => rintro ⟨⟩

namespace Task.Schedules

variable {t : Task} {s₀ s : TaskState} {work : List WorkStep} {acts : List Act} {c : Scene}

/-- **Before the verdict, a task is cancelled for a reason only**, and the reason is the first one given. -/
theorem accounted (hreason : s₀.killReason = none) (hcancelled : s₀.cancelled = false)
    (h : t.Schedules s₀ work acts c) : c.Accounted acts := by
  induction h with
  | start =>
    refine ⟨hreason, fun _ hc => ?_, by rintro - w ⟨⟩, by rintro ⟨⟩⟩
    rw [hcancelled] at hc
    cases hc
  | @step acts s w step rest extras verdict _ ih =>
    have hsame := step.sameCourse_perform t s w
    have hkill : (acts ++ step.acts s w).filterMap Act.kill? = acts.filterMap Act.kill? := by
      cases step <;> simp [WorkStep.acts, Act.kill?]
    have hacc : Scene.Accounted acts ⟨_, _, extras, verdict⟩ := ih.of_same hsame.cancelled
      hsame.killReason fun w' hw' => absurd hw' (step.stand_perform_ne t s w w' rest)
    exact ⟨hkill ▸ hacc.reason, hacc.cancelled, hacc.ended, hacc.heard⟩
  | exhausted _ ih => exact ih.of_same rfl rfl (by rintro w ⟨⟩)
  | @mainTurn acts s main extras verdict now asked u _ hu ih =>
    -- a main thread that ends as cancelled has been cancelled
    have hturn := (main.activity.turn_course t 0 now s).of_mayCome hu.mayCome
    refine ih.of_turn hturn.course.cancelled hturn.course.killReason fun w hw => .inr ?_
    cases u with
    | moved s' a => cases hw
    | blocked s' a wake => cases hw
    | ended s' r =>
      obtain rfl := WorkMove.cancelled_of_ofResult hw
      exact hturn.cancelled s' rfl
  | @extraTurn acts s main front back index a verdict now asked u _ hu ih =>
    have hturn := (a.turn_course t index now s).of_mayCome hu.mayCome
    exact ih.of_turn hturn.course.cancelled hturn.course.killReason fun w hw => .inl hw
  | @begun acts s main extras verdict _ ih =>
    rw [s.takeStarting_eq]
    exact ih.of_same rfl rfl fun w hw => hw
  | @finished acts s main front back index result verdict now _ ih =>
    obtain ⟨sink, hburied⟩ := s.buried_eq index result now
    rw [hburied]
    exact ih.of_same rfl rfl fun w hw => hw
  | @heard acts s w e extras _ ih =>
    refine ⟨ih.reason, by rintro ⟨⟩, by rintro ⟨⟩, ?_⟩
    rintro ⟨⟩
    exact ih.ended rfl w rfl
  | late _ ih => exact ⟨ih.reason, by rintro ⟨⟩, by rintro ⟨⟩, by rintro ⟨⟩⟩
  | cancelled _ ih => exact ⟨ih.reason, by rintro ⟨⟩, by rintro ⟨⟩, ih.heard⟩

/-! ### Denials -/

/-- **A thread that a denied check has ended has logged the denial.** -/
theorem decision?_of_security {g : GrantSet} (hg : s₀.Grants t g)
    (hplace : t.capability.nonce < s₀.confinements.history.length)
    (h : t.Schedules s₀ work acts c) {thread now : Nat} {a : Activity} {asked : List Exchange}
    {s' : TaskState} {p : Permission}
    (hturn : .turn thread now s a asked (.ended s' (.error (.security p))) ∈ acts) :
    a.decision? t g s = some ⟨p, false⟩ := by
  obtain ⟨before, after, rfl⟩ := List.append_of_mem hturn
  obtain ⟨c', hbefore, rfl, -, -⟩ := h.at_turn
  have hrecorded := (h.orderly hturn).denied s' p rfl
  have hlogged := (h.interleaves.mediated hg _ _ _ _ _ _ hturn).log
  -- the log of the turn is compared with what the turn has recorded
  have hlength : t.capability.nonce < c'.shared.confinements.history.length := by
    rw [show c'.shared = c'.crowd.shared from rfl, hbefore.interleaves.log hg,
      Confinements.length_recordAll]
    exact hplace
  have hdecisions := congrArg (·.decisions t.capability) (hrecorded.symm.trans hlogged)
  rw [Confinements.decisions_record hlength, Confinements.decisions_recordAll hlength] at hdecisions
  have hlist := (List.append_cancel_left hdecisions).symm
  cases hd : a.decision? t g c'.shared with
  | none => rw [hd] at hlist; cases hlist
  | some d => rw [hd] at hlist; exact congrArg some (List.cons.inj hlist).1

end Task.Schedules

/-! ### Flags -/

/-- **The flags of a result agree with each other**, and with the verdict on its run. -/
structure ExecutionResult.Consistent (verdict : Option WorkEnd) (x : ExecutionResult) : Prop where
  /-- what was returned is what the work has returned -/
  returned : ∀ j, x.returned = some j ↔ ∃ v, verdict = some (.finished (.ok v)) ∧ v.toJson = j
  completed : x.completed = true ↔ x.returned.isSome = true ∧ x.timedOut = false ∧
    x.killed = false ∧ x.permissionDenied = false
  /-- a run that has not completed says why -/
  incomplete : x.completed = false → x.timedOut = true ∨ x.killed = true ∨ x.failed = true ∨
    x.permissionDenied = true
  failed : x.failed = true ↔ x.error.isSome = true
  failed_alone : x.failed = true → x.returned = none ∧ x.timedOut = false
  killed : x.killed = true ↔ x.killReason.isSome = true
  killed_alone : x.killed = true → x.timedOut = false
  denied : x.permissionDenied = true ↔ ∃ d ∈ x.permissionLog, d.granted = false

namespace Sandbox

theorem conclusion_eq_ok {outcome : Option WorkEnd} {value : Option Value}
    {error : Option TaskError} (h : conclusion outcome = .ok (value, error)) :
    (∀ v, value = some v ↔ outcome = some (.finished (.ok v))) ∧
    (error.isSome = true → value = none ∧ outcome.isSome = true) ∧
    (value = none → error = none →
      outcome = none ∨ outcome = some (.finished (.error .cancelled))) := by
  unfold conclusion at h
  split at h
  · cases h
    simp
  · cases h
  · split at h <;> cases h <;> simp [eq_comm]

/-- The parts of a result. -/
theorem resultOf_eq_ok {rec : Record} {s : TaskState} {outcome : Option WorkEnd}
    {log : List Decision} {output : List OutputLine × Nat} {x : ExecutionResult}
    (h : resultOf rec s outcome log output = .ok x) : ∃ value error,
      conclusion outcome = .ok (value, error) ∧
      x.completed = (value.isSome && !x.permissionDenied && !x.killed && !x.timedOut) ∧
      x.timedOut = (outcome.isNone && !x.killed) ∧ x.failed = error.isSome ∧
      x.killed = x.killReason.isSome ∧ x.killReason = s.killReason ∧ x.error = error ∧
      x.permissionDenied = log.any (!·.granted) ∧ x.returned = value.map Value.toJson ∧
      x.permissionLog = log := by
  unfold resultOf at h
  cases hc : conclusion outcome with
  | error fault => simp [hc, bind, Except.bind] at h
  | ok q =>
    simp only [hc, bind, Except.bind, Except.ok.injEq] at h
    subst h
    exact ⟨q.1, q.2, rfl, rfl, rfl, rfl, rfl, rfl, rfl, rfl, rfl, rfl⟩

/-- **Flags are consistent** if a main thread that was cancelled in time has been killed. -/
theorem consistent_of_resultOf {rec : Record} {s : TaskState} {outcome : Option WorkEnd}
    {log : List Decision} {output : List OutputLine × Nat} {x : ExecutionResult}
    (h : resultOf rec s outcome log output = .ok x)
    (hcancelled : outcome = some (.finished (.error .cancelled)) → s.killReason.isSome = true) :
    x.Consistent outcome := by
  obtain ⟨value, error, hconclusion, hcompleted, htimedOut, hfailed, hkilled, hreason, herror,
    hdenied, hreturned, hlog⟩ := resultOf_eq_ok h
  obtain ⟨hvalue, hthrew, hneither⟩ := conclusion_eq_ok hconclusion
  have hisSome : x.returned.isSome = value.isSome := by rw [hreturned, Option.isSome_map]
  refine ⟨fun j => ?_, ?_, fun hincomplete => ?_, ?_, fun hf => ?_, ?_, fun hk => ?_, ?_⟩
  · -- the value is the one returned
    rw [hreturned, Option.map_eq_some_iff]
    exact exists_congr fun v => and_congr_left fun _ => hvalue v
  · -- completed: a value, and nothing denied, killed or timed out
    rw [hcompleted, hisSome]
    simp only [Bool.and_eq_true, Bool.not_eq_true']
    tauto
  · -- not completed: one of the other flags says why
    cases hv : value with
    | some v =>
      rw [hcompleted, hv] at hincomplete
      simp only [Option.isSome_some, Bool.true_and, Bool.and_eq_false_iff, Bool.not_eq_false'] at hincomplete
      tauto
    | none =>
      cases he : error with
      | some e => exact .inr (.inr (.inl (by rw [hfailed, he]; rfl)))
      | none =>
        rcases hneither hv he with hnone | hended
        · cases hk : x.killed with
          | true => exact .inr (.inl rfl)
          | false => exact .inl (by rw [htimedOut, hnone, hk]; rfl)
        · exact .inr (.inl (by rw [hkilled, hreason]; exact hcancelled hended))
  · rw [hfailed, herror]
  · -- failed: the exception is the work's own
    rw [hfailed] at hf
    obtain ⟨hnone, hsome⟩ := hthrew hf
    refine ⟨by rw [hreturned, hnone]; rfl, ?_⟩
    rw [htimedOut, Option.isNone_eq_false_iff.2 hsome, Bool.false_and]
  · rw [hkilled]
  · rw [htimedOut, hk, Bool.not_true, Bool.and_false]
  · -- denied: one of the decisions was against it
    rw [hdenied, hlog, List.any_eq_true]
    simp only [Bool.not_eq_true']

end Sandbox

/-! ### Results of schedules -/

/-- **What the flags of a result say** about the acts of its run. -/
structure ExecutionResult.Classified (acts : List Act) (verdict : Option WorkEnd)
    (x : ExecutionResult) : Prop extends x.Consistent verdict where
  /-- the reason is the first that was given -/
  reason : x.killReason = (acts.filterMap Act.kill?).head?
  /-- a denied check that has ended the main thread is in the log, whatever the verdict is -/
  denied_main : ∀ now s a asked s' p,
    .turn 0 now s a asked (.ended s' (.error (.security p))) ∈ acts → ⟨p, false⟩ ∈ x.permissionLog
  /-- a verdict of a denied check says that one has ended the main thread -/
  denied_verdict : ∀ p, verdict = some (.finished (.error (.security p))) →
    ⟨p, false⟩ ∈ x.permissionLog

namespace Sandbox

variable {sb : Sandbox} {r : RegistryId} {u : LoadingUnit} {sets : List LoadingUnit.ClassSets}
  {a : ExecutionArguments} {P : Prepared}

theorem Prepares.outcome_eq (h : Prepares sb r u sets a P) {work : List WorkStep} {acts : List Act}
    {c : Scene} (hacts : P.task.Schedules P.state work acts c) (rec : Record) {e : RunEnd}
    (he : e.shared = c.shared) : (conclude r P rec e).outcome =
      resultOf rec c.shared.cancel e.outcome (acts.filterMap (·.decision? P.task a.permissions))
        (outputOf c.shared.sink.shutDown).1 := by
  obtain ⟨s, hrelease⟩ := h.release (acts.filterMap (·.decision? P.task a.permissions))
  rw [← hacts.interleaves.log h.grants] at hrelease
  simp only [conclude, TaskState.cancel, he]
  rw [show c.shared = c.crowd.shared from rfl, hrelease]
  rfl

/-- **The flags of a result**, at the end of any schedule of an entry point. -/
theorem Prepares.classified (h : Prepares sb r u sets a P) {entry : EntryPoint} {acts : List Act}
    {c : Scene} (hacts : P.task.Schedules P.state entry.work acts c) (rec : Record) {e : RunEnd}
    (he : e.shared = c.shared) (hverdict : c.verdict = some e.outcome) {x : ExecutionResult}
    (hx : (conclude r P rec e).outcome = .ok x) : x.Classified acts e.outcome := by
  rw [h.outcome_eq hacts rec he] at hx
  have haccounted := hacts.accounted (by rw [h.state]) (by rw [h.state])
  obtain ⟨-, -, -, -, -, -, -, hreason, -, -, -, hlog⟩ := resultOf_eq_ok hx
  have logged (p : Permission) {now : Nat} {s s' : TaskState} {a : Activity}
      {asked : List Exchange}
      (hturn : .turn 0 now s a asked (.ended s' (.error (.security p))) ∈ acts) :
      ⟨p, false⟩ ∈ x.permissionLog := by
    rw [hlog]
    exact List.mem_filterMap.2
      ⟨_, hturn, hacts.decision?_of_security h.grants h.nonce_lt hturn⟩
  refine ⟨consistent_of_resultOf hx fun hended => haccounted.heard (hverdict.trans (by rw [hended])),
    hreason.trans haccounted.reason, fun now s a asked s' p => logged p, fun p hp => ?_⟩
  rw [hp] at hverdict
  have harises : (Fault.security p).Arises entry.work acts := hacts.arises.2 _ hverdict
  cases harises with
  | @step step _ hstep hp =>
    -- the work of an entry point has no step that ends it so
    rcases List.mem_cons.1 hstep with rfl | hstep
    · cases hp
    · obtain rfl := List.mem_singleton.1 hstep
      cases hp
  | turn hturn => exact logged p hturn

/-- **The results of a program that has been prepared.** -/
structure Prepared.Classified (sb : Sandbox) (r : RegistryId) (u : LoadingUnit)
    (sets : List LoadingUnit.ClassSets) (a : ExecutionArguments) (P : Prepared) : Prop where
  /-- however its threads are scheduled, and whenever the time is up -/
  scheduled : ∀ {entry : EntryPoint} {acts : List Act} {c : Scene},
    P.task.Schedules P.state entry.work acts c → ∀ rec (e : RunEnd), e.shared = c.shared →
      c.verdict = some e.outcome → ∀ x, (conclude r P rec e).outcome = .ok x →
        x.Classified acts e.outcome
  /-- an execution on a host is one of these -/
  executed : ∀ {σ : Type} (host : Host (StateM σ)) (entry : EntryPoint) (w : σ) (x : ExecutionResult),
    (execute host sb r u sets a entry w).1.outcome = .ok x → ∃ acts c verdict,
      P.task.Schedules P.state entry.work acts c ∧ c.verdict = some verdict ∧
        x.Classified acts verdict

/-- **The flags of every result classify its run.** -/
theorem classified_of_prepare (hP : sb.prepare r u sets a = .ok P) :
    P.Classified sb r u sets a where
  scheduled hacts rec e he hverdict x hx :=
    (prepare_eq_ok_iff.1 hP).classified hacts rec he hverdict hx
  executed := by
    intro σ host entry w x hx
    have hprepares := prepare_eq_ok_iff.1 hP
    unfold execute at hx
    cases hentry : checkEntry u entry with
    | error fault =>
      rw [hentry] at hx
      cases hx
    | ok _ =>
      rw [hentry] at hx
      unfold executeWork at hx
      rw [hP] at hx
      obtain ⟨acts, c, hacts, hshared, hverdict⟩ := hprepares.scheduled host entry.work
        (a.timeoutMillis * 1000000) (host.elapsed (host.today (host.randomBytes w).2).2).2
      exact ⟨acts, c, _, hacts, hverdict, hprepares.classified hacts _ hshared.symm hverdict hx⟩

/-- The sample may not see a variable: it has failed, with a denial in its log. -/
theorem classified_of_prepare_sample :
    ∃ P x, empty.prepare ⟨0⟩ Sample.unit [] .default = .ok P ∧
      P.Classified empty ⟨0⟩ Sample.unit [] .default ∧
      (execute World.host empty ⟨0⟩ Sample.unit [] .default .default
        (keyedWorld .empty "1")).1.outcome = .ok x ∧
      (x.completed, x.timedOut, x.failed, x.permissionDenied) = (false, false, true, true) := by
  obtain ⟨P, hP⟩ : ∃ P, empty.prepare ⟨0⟩ Sample.unit [] .default = .ok P := ⟨_, rfl⟩
  have hflags : (execute World.host empty ⟨0⟩ Sample.unit [] .default .default
      (keyedWorld .empty "1")).1.outcome.toOption.map
        (fun x => (x.completed, x.timedOut, x.failed, x.permissionDenied)) =
      some (false, false, true, true) := by decide +kernel
  obtain ⟨x, hx, hxflags⟩ := Option.map_eq_some_iff.1 hflags
  refine ⟨P, x, hP, classified_of_prepare hP, ?_, hxflags⟩
  cases ho : (execute World.host empty ⟨0⟩ Sample.unit [] .default .default
      (keyedWorld .empty "1")).1.outcome with
  | error fault =>
    rw [ho] at hx
    cases hx
  | ok x' =>
    rw [ho] at hx
    exact congrArg Except.ok (Option.some.inj hx)

end Sandbox

end Confine
