import Confine.Proofs.Sandbox.Earlier
import Confine.Proofs.Sandbox.Endings

/-!
# Runs leave the confinements as they were

However a run ends, the confinements that are in force after it, with what they grant and what they have logged, are
those that were in force before it; and who still holds a capability of the run is denied everything.

* `Confinements.SettledSince` — that, as a relation of two states of the confinements;
* `Sandbox.cleansUp` — **every execution settles what it has confined**, and one that fails before its main thread begins
  leaves everything as it was.
-/

namespace Confine

/-! ### Confinements that have been settled -/

namespace Confinements

/-- What is in force in the second state is what was in force in the first, entry for entry; all that has been
confined in between has been released. -/
structure SettledSince (before after : Confinements) : Prop where
  live : ∀ (n : Nat) (e : Confinement), e.live = true → (after.history[n]? = some e ↔ before.history[n]? = some e)
  /-- a capability from in between denies everything, whatever is done to the registries later -/
  denied : ∀ c : Capability, before.history.length ≤ c.nonce → c.nonce < after.history.length →
    ∀ calls p, ((RegistryCall.performAll after calls).check c p).1 = false

variable {before after : Confinements}

theorem SettledSince.refl (s : Confinements) : s.SettledSince s :=
  ⟨fun _ _ _ => Iff.rfl, fun _ hle hlt => absurd hlt (Nat.not_lt.2 hle)⟩

/-- One confinement more, which has been released. -/
theorem settledSince_of_append {e : Confinement} (he : e.live = false)
    (h : after.history = before.history ++ [e]) : before.SettledSince after := by
  have hlast : after.history[before.history.length]? = some e := by simp [h]
  constructor
  · intro n e' he'
    rcases Nat.lt_trichotomy n before.history.length with hn | rfl | hn
    · rw [h, List.getElem?_append_left hn]
    · rw [hlast, List.getElem?_eq_none (Nat.le_refl _)]
      simp only [Option.some.injEq, reduceCtorEq, iff_false]
      rintro rfl
      rw [he] at he'
      cases he'
    · have hlen : after.history.length ≤ n := by
        rw [h, List.length_append, List.length_singleton]
        exact hn
      rw [List.getElem?_eq_none hlen, List.getElem?_eq_none (Nat.le_of_lt hn)]
  · intro c hle hlt calls p
    have hnonce : c.nonce = before.history.length := by
      rw [h, List.length_append, List.length_singleton] at hlt
      omega
    have hreleased : after.IsReleased c.nonce := ⟨e, hnonce ▸ hlast, he⟩
    exact (hreleased.performAll calls).allows p

theorem modify_concat (l : List Confinement) (e : Confinement) (f : Confinement → Confinement) :
    modify ⟨l ++ [e]⟩ l.length f = ⟨l ++ [f e]⟩ := by
  simp [modify, List.modify_eq_take_cons_drop]

theorem recordAll_concat (l : List Confinement) (e : Confinement) (ds : List Decision) :
    recordAll ⟨l ++ [e]⟩ ⟨l.length⟩ ds = ⟨l ++ [{ e with log := ds.reverse ++ e.log }]⟩ := by
  induction ds generalizing e with
  | nil => rfl
  | cons d ds ih =>
    calc recordAll ⟨l ++ [e]⟩ ⟨l.length⟩ (d :: ds)
        = recordAll (modify ⟨l ++ [e]⟩ l.length fun e => { e with log := d :: e.log })
            ⟨l.length⟩ ds := rfl
      _ = ⟨l ++ [{ e with log := ds.reverse ++ d :: e.log }]⟩ := by rw [modify_concat, ih]
      _ = ⟨l ++ [{ e with log := (d :: ds).reverse ++ e.log }]⟩ := by simp

end Confinements

/-! ### How trusted work may fail -/

/-- The fault is one that a step of the work asks for. -/
def SandboxFault.StemsFrom (work : List WorkStep) : SandboxFault → Prop
  | .panicked message => .panic message ∈ work
  | .confinement (.threadLimit n) => .threadLimit n ∈ work
  | _ => False

/-- **A run fails only as a step of its work says.** -/
theorem Task.Schedules.stemsFrom {t : Task} {s₀ : TaskState} {work : List WorkStep}
    {acts : List Act} {c : Scene} (h : t.Schedules s₀ work acts c) {e : WorkEnd}
    (he : c.verdict = some (some e)) {fault : SandboxFault}
    (hfault : Sandbox.conclusion (some e) = .error fault) : fault.StemsFrom work := by
  have harises := h.arises.2 e he
  cases e with
  | panicked message =>
    cases hfault
    exact harises
  | finished r =>
    cases r with
    | ok v => cases hfault
    | error e =>
      cases e with
      | confinement x =>
        cases hfault
        cases harises with
        | @step step _ hstep hx =>
          cases step <;> cases hx
          exact hstep
        | turn hturn => exact absurd rfl ((h.orderly hturn).confinement _ _)
      | _ => cases hfault

theorem SandboxFault.not_stemsFrom_entry (fault : SandboxFault) (e : EntryPoint) :
    ¬ fault.StemsFrom e.work := by
  cases fault with
  | panicked message => simp [StemsFrom, EntryPoint.work]
  | confinement fault => cases fault <;> simp [StemsFrom, EntryPoint.work]
  | _ => exact id

/-! ### Executions -/

namespace Sandbox

variable {sb : Sandbox} {r : RegistryId} {u : LoadingUnit} {sets : List LoadingUnit.ClassSets}
  {a : ExecutionArguments} {P : Prepared}

theorem Prepares.released (h : Prepares sb r u sets a P) (ds : List Decision) :
    ∃ s e, (P.state.confinements.recordAll P.task.capability ds).release r P.token P.task.unit.id =
      .ok (ds, s) ∧ s.history = sb.confinements.history ++ [e] ∧ e.live = false := by
  obtain ⟨s, hrelease⟩ := h.release ds
  obtain ⟨-, -, -, hs⟩ := Confinements.release_eq_ok_iff.1 hrelease
  obtain ⟨-, htoken, hstate⟩ := Confinements.confine_eq_ok_iff.1 h.confined
  have hcapability : P.task.capability = ⟨sb.confinements.history.length⟩ :=
    congrArg Capability.mk h.nonce_eq
  rw [hstate, hcapability, Confinements.recordAll_concat, htoken, Confinements.modify_concat] at hs
  exact ⟨s, ⟨r, u.id, a.permissions, [], false⟩, hrelease, by rw [hs], rfl⟩

/-- **Whatever the turns of a run were, to conclude it settles what was confined for it.** -/
theorem Prepares.settledSince (h : Prepares sb r u sets a P) {acts : List Act} {c : Crowd}
    (hacts : P.task.Interleaves P.state acts c) (rec : Record) {e : RunEnd}
    (he : e.shared.confinements = c.shared.confinements) :
    sb.confinements.SettledSince (conclude r P rec e).sandbox.confinements := by
  obtain ⟨s, e', hrelease, hs, hdead⟩ :=
    h.released (acts.filterMap (·.decision? P.task a.permissions))
  rw [← hacts.log h.grants, ← he] at hrelease
  simp only [conclude, TaskState.cancel, hrelease]
  exact Confinements.settledSince_of_append hdead hs

theorem Prepares.denied (h : Prepares sb r u sets a P) {acts : List Act} {c : Crowd}
    (hacts : P.task.Interleaves P.state acts c) (rec : Record) {e : RunEnd}
    (he : e.shared.confinements = c.shared.confinements) (calls : List RegistryCall)
    (p : Permission) : ((RegistryCall.performAll (conclude r P rec e).sandbox.confinements
      calls).check P.task.capability p).1 = false := by
  have hsettled := h.settledSince hacts rec he
  obtain ⟨s, e', hrelease, hs, -⟩ :=
    h.released (acts.filterMap (·.decision? P.task a.permissions))
  rw [← hacts.log h.grants, ← he] at hrelease
  refine hsettled.denied _ (Nat.le_of_eq h.nonce_eq.symm) ?_ calls p
  simp only [conclude, TaskState.cancel, hrelease]
  rw [h.nonce_eq, hs, List.length_append, List.length_singleton]
  exact Nat.lt_succ_self _

/-- A run that has begun fails only as its work asks for. -/
theorem Prepares.stemsFrom (h : Prepares sb r u sets a P) {work : List WorkStep} {acts : List Act}
    {c : Scene} (hacts : P.task.Schedules P.state work acts c) (rec : Record) {e : RunEnd}
    (he : e.shared = c.shared) (hverdict : c.verdict = some e.outcome) {fault : SandboxFault}
    (hfault : (conclude r P rec e).outcome = .error fault) : fault.StemsFrom work := by
  obtain ⟨s, e', hrelease, -, -⟩ :=
    h.released (acts.filterMap (·.decision? P.task a.permissions))
  rw [← hacts.interleaves.log h.grants] at hrelease
  have hconclusion : conclusion e.outcome = .error fault := by
    simp only [conclude, TaskState.cancel, he] at hfault
    rw [show c.shared = c.crowd.shared from rfl, hrelease] at hfault
    cases hc : conclusion e.outcome with
    | error x => simpa [resultOf, hc, Except.mapError, bind, Except.bind] using hfault
    | ok x => simp [resultOf, hc, Except.mapError, bind, Except.bind] at hfault
  cases hout : e.outcome with
  | none =>
    rw [hout] at hconclusion
    cases hconclusion
  | some end_ =>
    rw [hout] at hconclusion hverdict
    exact hacts.stemsFrom hverdict hconclusion

/-- **Executions clean up after themselves.** -/
structure CleansUp (sb : Sandbox) (r : RegistryId) (u : LoadingUnit)
    (sets : List LoadingUnit.ClassSets) (a : ExecutionArguments) : Prop where
  /-- however the threads of a run are scheduled, and wherever they are when it is concluded -/
  concluded : ∀ {P work acts c}, sb.prepare r u sets a = .ok P →
    P.task.Schedules P.state work acts c → ∀ rec (e : RunEnd), e.shared = c.shared →
      sb.confinements.SettledSince (conclude r P rec e).sandbox.confinements ∧
      ∀ calls p, ((RegistryCall.performAll (conclude r P rec e).sandbox.confinements calls).check
        P.task.capability p).1 = false
  /-- trusted work, on any host; it fails as one of its steps says, or before the main thread begins, and then
  everything is as it was -/
  work : ∀ {σ : Type} (host : Host (StateM σ)) (work : List WorkStep) (w : σ),
    let E := (executeWork host sb r u sets a work w).1
    sb.confinements.SettledSince E.sandbox.confinements ∧
    ∀ fault, E.outcome = .error fault → E = .failed sb sets fault ∨
      (∃ P, sb.prepare r u sets a = .ok P) ∧ fault.StemsFrom work
  /-- the program of the unit, on any host; it fails only before the main thread begins -/
  entry : ∀ {σ : Type} (host : Host (StateM σ)) (entry : EntryPoint) (w : σ),
    let E := (execute host sb r u sets a entry w).1
    sb.confinements.SettledSince E.sandbox.confinements ∧
    ∀ fault, E.outcome = .error fault → E = .failed sb sets fault

theorem executeWork_cleansUp {σ : Type} (host : Host (StateM σ)) (sb : Sandbox) (r : RegistryId)
    (u : LoadingUnit) (sets : List LoadingUnit.ClassSets) (a : ExecutionArguments)
    (work : List WorkStep) (w : σ) :
    let E := (executeWork host sb r u sets a work w).1
    sb.confinements.SettledSince E.sandbox.confinements ∧
    ∀ fault, E.outcome = .error fault → E = .failed sb sets fault ∨
      (∃ P, sb.prepare r u sets a = .ok P) ∧ fault.StemsFrom work := by
  unfold executeWork
  cases hP : sb.prepare r u sets a with
  | error fault =>
    refine ⟨.refl _, ?_⟩
    rintro _ ⟨⟩
    exact .inl rfl
  | ok P =>
    have hprepares := prepare_eq_ok_iff.1 hP
    obtain ⟨acts, c, hacts, hshared, hverdict⟩ := hprepares.scheduled host work
      (a.timeoutMillis * 1000000) (host.elapsed (host.today (host.randomBytes w).2).2).2
    refine ⟨hprepares.settledSince hacts.interleaves _ (congrArg TaskState.confinements hshared.symm),
      fun fault hfault => .inr ⟨⟨P, rfl⟩, ?_⟩⟩
    exact hprepares.stemsFrom hacts _ hshared.symm hverdict hfault

/-- **Every execution settles what it has confined**, whatever the registries, the unit, the work and the host are. -/
theorem cleansUp (sb : Sandbox) (r : RegistryId) (u : LoadingUnit)
    (sets : List LoadingUnit.ClassSets) (a : ExecutionArguments) : sb.CleansUp r u sets a where
  concluded := by
    intro P work acts c hP hacts rec e he
    have hprepares := prepare_eq_ok_iff.1 hP
    have hconfinements : e.shared.confinements = c.crowd.shared.confinements :=
      congrArg TaskState.confinements he
    exact ⟨hprepares.settledSince hacts.interleaves rec hconfinements,
      hprepares.denied hacts.interleaves rec hconfinements⟩
  work host work w := executeWork_cleansUp host sb r u sets a work w
  entry := by
    intro σ host entry w
    unfold execute
    cases checkEntry u entry with
    | error fault =>
      refine ⟨.refl _, ?_⟩
      rintro _ ⟨⟩
      rfl
    | ok _ =>
      obtain ⟨hsettled, hfails⟩ := executeWork_cleansUp host sb r u sets a entry.work w
      refine ⟨hsettled, fun fault hfault => ?_⟩
      rcases hfails fault hfault with h | ⟨-, h⟩
      · exact h
      · exact absurd h (fault.not_stemsFrom_entry entry)

end Sandbox

end Confine
