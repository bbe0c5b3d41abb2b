import Confine.Proofs.Sandbox.Audited

/-!
# What tasks leave behind

`Sandbox.Reached sb` — tasks of whatever units have run one after the other, and this is what is left of them.

* `Sandbox.Reached.free` — no confinement is in force between two tasks;
* `Sandbox.Free.prepare` — so the beginning of the next one does not depend on them.
-/

namespace Confine

namespace Confinements

variable {s : Confinements} {r : RegistryId} {u : UnitId} {n : Nat}

theorem isLive_recordAll (c : Capability) (ds : List Decision) :
    (s.recordAll c ds).IsLive r u n ↔ s.IsLive r u n := by
  induction ds generalizing s with
  | nil => rfl
  | cons d ds ih => exact ih.trans (isLive_record c d.permission d.granted)

theorem live?_eq_none (h : ∀ n, ¬ s.IsLive r u n) : s.live? r u = none := by
  cases hn : s.live? r u with
  | none => rfl
  | some n => exact absurd (isLive_of_live? hn) (h n)

end Confinements

namespace Sandbox

variable {σ : Type} {sb : Sandbox} {r : RegistryId} {u : LoadingUnit}
  {sets : List LoadingUnit.ClassSets} {a : ExecutionArguments} {P : Prepared}

def Free (sb : Sandbox) : Prop := ∀ r u n, ¬ sb.confinements.IsLive r u n

/-- **What some tasks have left**, one after the other, of any units, with any work and on any hosts. -/
inductive Reached : Sandbox → Prop where
  | empty : Reached .empty
  | after {sb : Sandbox} (h : Reached sb) {σ : Type} (host : Host (StateM σ)) (r : RegistryId)
      (u : LoadingUnit) (sets : List LoadingUnit.ClassSets) (a : ExecutionArguments)
      (work : List WorkStep) (w : σ) : Reached (executeWork host sb r u sets a work w).1.sandbox

theorem Reached.afterEntry (h : Reached sb) (host : Host (StateM σ)) (r : RegistryId)
    (u : LoadingUnit) (sets : List LoadingUnit.ClassSets) (a : ExecutionArguments) (e : EntryPoint)
    (w : σ) : Reached (execute host sb r u sets a e w).1.sandbox := by
  unfold execute
  cases checkEntry u e with
  | error fault => exact h
  | ok _ => exact h.after host r u sets a e.work w

/-! ### One task -/

theorem Prepares.unit_eq (h : Prepares sb r u sets a P) : P.task.unit = u := by rw [h.task]

theorem Prepares.exists_log (h : Prepares sb r u sets a P) (host : Host (StateM σ))
    (work : List WorkStep) (limit : Nat) (w : σ) :
    ∃ ds, (RunState.run host P.task P.state work limit w).1.shared.confinements =
      P.state.confinements.recordAll P.task.capability ds := by
  obtain ⟨hrun, acts, c, hacts, hc, -⟩ := h.runs host work limit w
  exact ⟨_, by rw [hrun, ← hc]; exact hacts.log h.grants⟩

/-- **What is left of a run has no confinement in force** if nothing had before it. -/
theorem Free.conclude (hsb : sb.Free) (h : Prepares sb r u sets a P) (rec : Record) {e : RunEnd}
    {ds : List Decision}
    (he : e.shared.confinements = P.state.confinements.recordAll P.task.capability ds) :
    (conclude r P rec e).sandbox.Free := by
  intro r' u' n hlive
  obtain ⟨s, hrelease⟩ := h.release ds
  obtain ⟨-, -, -, hs⟩ := Confinements.release_eq_ok_iff.1 hrelease
  obtain ⟨-, htoken, hstate⟩ := Confinements.confine_eq_ok_iff.1 h.confined
  simp only [Sandbox.conclude, TaskState.cancel, he, hrelease] at hlive
  rw [hs, Confinements.isLive_release, Confinements.isLive_recordAll, hstate,
    Confinements.isLive_confine, htoken] at hlive
  obtain ⟨hlive | ⟨hn, -⟩, hne⟩ := hlive
  · exact hsb r' u' n hlive
  · exact hne hn.symm

theorem Free.executeWork (hsb : sb.Free) (host : Host (StateM σ)) (work : List WorkStep) (w : σ) :
    (executeWork host sb r u sets a work w).1.sandbox.Free := by
  unfold Sandbox.executeWork
  cases hP : sb.prepare r u sets a with
  | error fault => exact hsb
  | ok P =>
    have hprepares := prepare_eq_ok_iff.1 hP
    obtain ⟨ds, hlog⟩ := hprepares.exists_log host work (a.timeoutMillis * 1000000)
      (host.elapsed (host.today (host.randomBytes w).2).2).2
    exact hsb.conclude hprepares _ hlog

/-- **Between two tasks no confinement is in force.** -/
theorem Reached.free (h : Reached sb) : sb.Free := by
  induction h with
  | empty =>
    rintro r u n ⟨e, he, -⟩
    cases he
  | after h host r u sets a work w ih => exact ih.executeWork host work w

/-! ### The next task -/

/-- The run that begins in a sandbox where no confinement is in force. -/
def fresh (sb : Sandbox) (r : RegistryId) (u : LoadingUnit) (sets : List LoadingUnit.ClassSets)
    (a : ExecutionArguments) (recordings : Recordings) : Prepared :=
  let nonce := sb.confinements.history.length
  ⟨⟨u.id, nonce⟩, ⟨u, ⟨nonce⟩, a.maxExtraThreads⟩, {
    heap := sb.heap
    confinements := ⟨sb.confinements.history ++ [⟨r, u.id, a.permissions, [], true⟩]⟩
    classSets := sets
    sink := sinkFor a
    recordings := recordings
    cancelled := false
    killReason := none
    nextThread := 1
    finished := []
    starting := [] }⟩

/-- **Whether a run can begin does not depend on earlier tasks.** -/
theorem Free.prepare (hsb : sb.Free) (r : RegistryId) (u : LoadingUnit)
    (sets : List LoadingUnit.ClassSets) (a : ExecutionArguments) :
    sb.prepare r u sets a = match a.permissions.firstForbidden? with
      | some p => .error (.forbiddenPermission p)
      | none => ((Recordings.start a.maxExtraThreads u.own.instrumentation).mapError .tracer).map
          (sb.fresh r u sets a) := by
  let nonce := sb.confinements.history.length
  let s : Confinements := ⟨sb.confinements.history ++ [⟨r, u.id, a.permissions, [], true⟩]⟩
  have hconfine : sb.confinements.confine r u.id a.permissions = .ok (⟨u.id, nonce⟩, s) :=
    Confinements.confine_eq_ok_iff.2 ⟨Confinements.live?_eq_none (hsb r u.id), rfl, rfl⟩
  -- the confinement made is the only one that is live
  have only : ∀ {r' u' n}, s.IsLive r' u' n → n = nonce := by
    intro r' u' n hn
    rcases (Confinements.isLive_confine a.permissions).1 hn with hn | ⟨hn, -⟩
    · exact absurd hn (hsb r' u' n)
    · exact hn
  have hlive : s.live? r u.id = some nonce :=
    (Confinements.live?_eq_some_iff fun _ _ _ _ hm hn => (only hm).trans (only hn).symm).2
      ((Confinements.isLive_confine a.permissions).2 (.inr ⟨rfl, rfl, rfl⟩))
  have hcapability : s.capability r ⟨u.id, nonce⟩ = .ok ⟨nonce⟩ :=
    Confinements.capability_eq_ok_iff.2 ⟨hlive, rfl⟩
  unfold Sandbox.prepare
  cases a.permissions.firstForbidden? with
  | some p => rfl
  | none =>
    cases Recordings.start a.maxExtraThreads u.own.instrumentation with
    | error fault => rfl
    | ok recordings =>
      simp only [Except.mapError, bind, Except.bind, hconfine, hcapability]
      rfl

end Sandbox

end Confine
