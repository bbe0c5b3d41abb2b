import Confine.Proofs.Machine.Query
import Confine.Sandbox.Execute

/-!
# How runs begin and end

* `Sandbox.prepare_eq_ok_iff` — what there is when a run begins;
* `Sandbox.prepare_begins` — runs in two units begin alike if their tracers start alike;
* `Confinements.allows_of_confine` — a fresh confinement allows what was granted, and nothing else;
* `Sandbox.conclude_alike` — what is left of two runs is the same if they have done the same.
-/

namespace Confine

/-! ### Confinements -/

/-- **A fresh confinement allows what was granted.** -/
theorem Confinements.allows_of_confine {s s' : Confinements} {r : RegistryId} {u : UnitId}
    {g : GrantSet} {token : ConfinementToken} {c : Capability}
    (h : s.confine r u g = .ok (token, s')) (hc : s'.capability r token = .ok c) (p : Permission) :
    s'.allows c p = g.implies p := by
  unfold confine at h
  split at h
  · cases h
  · simp only [Except.ok.injEq, Prod.mk.injEq] at h
    obtain ⟨rfl, rfl⟩ := h
    have hnonce : c = ⟨s.history.length⟩ := by
      unfold capability at hc
      split at hc
      · cases hc
      · split at hc
        · next heq =>
          simp only [Except.ok.injEq] at hc
          rw [← hc, heq]
        · cases hc
    rw [hnonce, allows, List.getElem?_concat_length]
    exact Bool.true_and _

namespace Sandbox

/-! ### Beginnings -/

/-- What a run begins with. -/
structure Prepares (sb : Sandbox) (r : RegistryId) (u : LoadingUnit)
    (sets : List LoadingUnit.ClassSets) (a : ExecutionArguments) (P : Prepared) : Prop where
  allowed : a.permissions.firstForbidden? = none
  started : Recordings.start a.maxExtraThreads u.own.instrumentation = .ok P.state.recordings
  confined : sb.confinements.confine r u.id a.permissions = .ok (P.token, P.state.confinements)
  capability : P.state.confinements.capability r P.token = .ok P.task.capability
  task : P.task = ⟨u, P.task.capability, a.maxExtraThreads⟩
  state : P.state = {
    heap := sb.heap
    confinements := P.state.confinements
    classSets := sets
    sink := sinkFor a
    recordings := P.state.recordings
    cancelled := false
    killReason := none
    nextThread := 1
    finished := []
    starting := [] }

theorem prepare_eq_ok_iff {sb : Sandbox} {r : RegistryId} {u : LoadingUnit}
    {sets : List LoadingUnit.ClassSets} {a : ExecutionArguments} {P : Prepared} :
    sb.prepare r u sets a = .ok P ↔ Prepares sb r u sets a P := by
  constructor
  · intro h
    unfold prepare at h
    cases hp : a.permissions.firstForbidden? with
    | some p => simp [hp] at h
    | none =>
      cases hs : Recordings.start a.maxExtraThreads u.own.instrumentation with
      | error e => simp [hp, hs, Except.mapError, bind, Except.bind] at h
      | ok recordings =>
        cases hc : sb.confinements.confine r u.id a.permissions with
        | error e => simp [hp, hs, hc, Except.mapError, bind, Except.bind] at h
        | ok q =>
          cases hcap : q.2.capability r q.1 with
          | error e => simp [hp, hs, hc, hcap, Except.mapError, bind, Except.bind] at h
          | ok capability =>
            simp only [hp, hs, hc, hcap, Except.mapError, bind, Except.bind,
              Except.ok.injEq] at h
            subst h
            exact ⟨hp, hs, hc, hcap, rfl, rfl⟩
  · rintro ⟨hp, hs, hc, hcap, ht, hstate⟩
    simp only [prepare, hp, hs, hc, hcap, Except.mapError, bind, Except.bind]
    rw [← ht, ← hstate]

/-- Two runs begin alike, the second one in the unit `u'`, with recordings that `S` relates. -/
structure Prepared.Begins (S : Recordings → Recordings → Prop) (u' : LoadingUnit) (P P' : Prepared) :
    Prop where
  token : P'.token = P.token
  task : P'.task = { P.task with unit := u' }
  state : P'.state = { P.state with recordings := P'.state.recordings }
  recordings : S P.state.recordings P'.state.recordings

/-- **Runs are prepared alike in two units of one name**, if their tracers start alike. -/
theorem prepare_begins {S : Recordings → Recordings → Prop} {u u' : LoadingUnit} (hid : u'.id = u.id)
    {a : ExecutionArguments}
    (hstart : Agree S (Recordings.start a.maxExtraThreads u.own.instrumentation)
      (Recordings.start a.maxExtraThreads u'.own.instrumentation)) (sb : Sandbox) (r : RegistryId)
    (sets : List LoadingUnit.ClassSets) :
    Agree (Prepared.Begins S u') (sb.prepare r u sets a) (sb.prepare r u' sets a) := by
  unfold prepare
  rw [hid]
  cases a.permissions.firstForbidden? with
  | some p => exact .error _
  | none =>
    generalize Recordings.start a.maxExtraThreads u.own.instrumentation = rs at hstart
    generalize Recordings.start a.maxExtraThreads u'.own.instrumentation = rs' at hstart
    cases hstart with
    | error e => exact .error _
    | ok h =>
      simp only [Except.mapError, bind, Except.bind]
      cases sb.confinements.confine r u.id a.permissions with
      | error e => exact .error _
      | ok q =>
        obtain ⟨token, confinements⟩ := q
        dsimp only
        cases confinements.capability r token with
        | error e => exact .error _
        | ok capability => exact .ok ⟨rfl, rfl, rfl, h⟩

/-! ### Ends -/

/-- Two executions are the same, but for what `R` relates in their results. -/
structure Execution.Alike (R : ExecutionResult → ExecutionResult → Prop) (E E' : Execution) :
    Prop where
  outcome : Agree R E.outcome E'.outcome
  answers : E'.answers = E.answers
  sandbox : E'.sandbox = E.sandbox
  classSets : E'.classSets = E.classSets
  passedThrough : E'.passedThrough = E.passedThrough

theorem Execution.Alike.refl {R : ExecutionResult → ExecutionResult → Prop} (hR : ∀ x, R x x)
    (E : Execution) : E.Alike R E := by
  refine ⟨?_, rfl, rfl, rfl, rfl⟩
  cases E.outcome with
  | error e => exact .error e
  | ok x => exact .ok (hR x)

/-- **What is left of two runs is the same if they have done the same.** -/
theorem conclude_alike {R : ExecutionResult → ExecutionResult → Prop} {P P' : Prepared}
    (ht : P'.token = P.token) (hid : P'.task.unit.id = P.task.unit.id) {rec rec' : Record}
    {e e' : RunEnd} (hs : e'.shared = { e.shared with recordings := e'.shared.recordings })
    (hw : e'.progressed = e.progressed)
    (hR : ∀ log output, Agree R (resultOf rec e.shared.cancel e.outcome log output)
      (resultOf rec' e'.shared.cancel e'.outcome log output)) (r : RegistryId) :
    (conclude r P rec e).Alike R (conclude r P' rec' e') := by
  have hsink : e'.shared.sink = e.shared.sink := by rw [hs]
  have hconfinements : e'.shared.confinements = e.shared.confinements := by rw [hs]
  have hheap : e'.shared.heap = e.shared.heap := by rw [hs]
  have hsets : e'.shared.classSets = e.shared.classSets := by rw [hs]
  refine ⟨?_, ?_, ?_, hsets, ?_⟩
  · -- what is released is the same, and so is the outcome
    simp only [conclude, TaskState.cancel, hsink, hconfinements, ht, hid]
    cases e.shared.confinements.release r P.token P.task.unit.id with
    | error fault => exact .error _
    | ok q => exact hR _ _
  · -- the answers to the work
    simp only [conclude, hw]
  · -- the sandbox that is left
    simp only [conclude, TaskState.cancel, hconfinements, hheap, ht, hid]
  · -- what has been passed through
    simp only [conclude, TaskState.cancel, hsink]

end Sandbox

end Confine
