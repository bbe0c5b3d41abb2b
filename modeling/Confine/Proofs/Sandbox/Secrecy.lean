import Confine.Proofs.Host.Twin
import Confine.Proofs.Machine.Reachable
import Confine.Proofs.Sandbox.Prepared

/-!
# What a run sees of its host

The confinement of a task allows the same throughout a run (`TaskState.Grants`), so the threads only ask what was granted.
Two hosts that the grants cannot tell apart make the same run (`RunState.run_twin`).

Main statement: `Sandbox.execute_blind`.  The execution is the same on both hosts, but for its name and its dates; without
a grant to write it does not depend on files, and leaves them as they are.
-/

namespace Confine

/-! ### What the confinement allows -/

/-- The confinement of the task is in force, with these grants. -/
def TaskState.Grants (t : Task) (g : GrantSet) (s : TaskState) : Prop :=
  ∀ p, s.confinements.allows t.capability p = g.implies p

namespace TaskState.Grants

variable {t : Task} {g : GrantSet} {s s' : TaskState}

theorem logs (h : s.Grants t g) (hs : s.Logs t s') : s'.Grants t g :=
  fun p => (hs.allows_eq _ p).trans (h p)

theorem does {writes : List (Console × String)} (h : s.Grants t g) (hs : s.Does t writes s') :
    s'.Grants t g := fun p => (hs.allows_eq _ p).trans (h p)

theorem permits (h : s.Grants t g) {r : HostRequest} (hr : s.Permits t r) : g.Permits r := by
  cases r with
  | clock => trivial
  | getEnv name => exact (h _).symm.trans hr
  | writeFile path contents => exact (h _).symm.trans hr
  | workingDirectory => exact (h _).symm.trans hr

theorem takeStarting (h : s.Grants t g) : s.takeStarting.2.Grants t g := by
  unfold TaskState.takeStarting
  split <;> exact h

end TaskState.Grants

/-! ### Work -/

def WorkMove.shared : WorkMove → TaskState
  | answered s _ | call s _ _ _ | ended s _ _ => s

def WorkRest.shared : WorkRest → TaskState
  | call s _ _ _ _ | ended s _ _ => s

@[simp] theorem WorkMove.shared_ofResult (s : TaskState) (w : Progressed) (propagate : Bool)
    (r : Except Fault Value) : (ofResult s w propagate r).shared = s := by
  unfold ofResult
  split <;> rfl

theorem WorkStep.logs_perform (t : Task) (s : TaskState) (w : Progressed) (step : WorkStep) :
    s.Logs t (step.perform t s w).shared := by
  cases step with
  | invoke c m arguments propagate =>
    simp only [perform]
    generalize Operand.values w.kept s.heap arguments = q
    have hheap : s.Logs t { s with heap := q.2 } := .of_eq rfl rfl (.of_eq rfl rfl rfl)
    have hlogs := hheap.trans (Activation.start_within t { s with heap := q.2 } c m q.1).1
    split
    · exact hlogs
    · rw [WorkMove.shared_ofResult]
      exact hlogs
  | _ => exact .of_eq rfl rfl (.of_eq rfl rfl rfl)

theorem WorkRest.logs_resume (t : Task) (s : TaskState) (w : Progressed) (l : List WorkStep) :
    s.Logs t (resume t s w l).shared := by
  induction l generalizing s w with
  | nil => exact .refl s
  | cons step rest ih =>
    have hstep := step.logs_perform t s w
    unfold resume
    generalize step.perform t s w = q at hstep
    cases q with
    | answered s' w' => exact hstep.trans (ih s' w')
    | call s' w' f propagate => exact hstep
    | ended s' w' e => exact hstep

theorem RunState.logs_continueWork (t : Task) (s : TaskState) (main : MainThread) (r : Except Fault Value) :
    s.Logs t (continueWork t s main r).shared := by
  have hshared := WorkMove.shared_ofResult s main.progressed main.propagate r
  unfold continueWork
  generalize WorkMove.ofResult s main.progressed main.propagate r = q at hshared
  cases q with
  | answered s' w =>
    obtain rfl : s' = s := hshared
    exact WorkRest.logs_resume t s' w main.rest
  | call s' w f propagate =>
    obtain rfl : s' = s := hshared
    exact .refl s'
  | ended s' w e =>
    obtain rfl : s' = s := hshared
    exact .refl s'

/-! ### Rounds -/

namespace RunState

variable {σ τ : Type} {t : Task} {g : GrantSet} {W : σ → τ → Prop} {host : Host (StateM σ)}
  {host' : Host (StateM τ)} (hh : host.Resembles g.Permits W host') {s : TaskState} (hs : s.Grants t g)

include hh hs

theorem turn_twin (a : Activity) (thread now : Nat) :
    Twin W (Both fun u => u.shared.Grants t g) ((a.turn t thread now s).answered host.answer)
      ((a.turn t thread now s).answered host'.answer) := by
  refine ((a.turn_bounded t thread now s).twin fun r hr => hh.answer r (hs.permits hr)).mono ?_
  rintro u _ ⟨rfl, ⟨writes, hdoes⟩, -⟩
  exact ⟨rfl, hs.does hdoes⟩

theorem bury_twin (index : Nat) (result : Except Fault Value) :
    Twin W (Both (TaskState.Grants t g)) (bury host s index result)
      (bury host' s index result) := by
  unfold bury
  split
  · refine (hh.answer .clock trivial).bind fun now _ heq => ?_
    subst heq
    exact .pure ⟨rfl, hs⟩
  · exact .pure ⟨rfl, hs⟩

omit hs in
theorem extraTurns_twin (now : Nat) (l : List ExtraThread) (r : Round)
    (hr : r.shared.Grants t g) :
    Twin W (Both fun r => r.shared.Grants t g) (extraTurns host t now r l)
      (extraTurns host' t now r l) := by
  induction l generalizing r with
  | nil => exact .pure ⟨rfl, hr⟩
  | cons x rest ih =>
    refine (turn_twin hh hr x.activity x.index now).bind ?_
    rintro u _ ⟨rfl, hu⟩
    cases u with
    | moved s a => exact ih _ hu
    | blocked s a wake => exact ih _ hu
    | ended s result =>
      refine (bury_twin hh hu x.index result).bind ?_
      rintro s _ ⟨rfl, hs⟩
      exact ih _ hs

theorem completeRound_twin (now deadline : Nat) (main : MainThread) (extras : List ExtraThread)
    (moved : Bool) (wake : Option Nat) :
    Twin W (Both fun st => st.shared.Grants t g)
      (completeRound host t now deadline s main extras moved wake)
      (completeRound host' t now deadline s main extras moved wake) := by
  unfold completeRound
  split
  · exact .pure ⟨rfl, hs⟩
  · refine (extraTurns_twin hh now _ _ hs.takeStarting).bind ?_
    rintro r _ ⟨rfl, hr⟩
    dsimp only
    split
    · exact (hh.idleUntil _).bind fun _ _ _ => .pure ⟨rfl, hr.takeStarting⟩
    · exact .pure ⟨rfl, hr.takeStarting⟩

omit hs in
/-- Rounds are the same on both hosts. -/
theorem rounds_twin (deadline fuel : Nat) (st : RunState) (hst : st.shared.Grants t g) :
    Twin W Eq (rounds host t deadline fuel st) (rounds host' t deadline fuel st) := by
  induction fuel generalizing st with
  | zero => exact .pure rfl
  | succ fuel ih =>
    refine hh.elapsed.bind fun now _ heq => ?_
    subst heq
    split
    · exact .pure rfl
    · have goes : ∀ s main extras moved wake, s.Grants t g →
          Twin W Eq
            (completeRound host t now deadline s main extras moved wake >>=
              rounds host t deadline fuel)
            (completeRound host' t now deadline s main extras moved wake >>=
              rounds host' t deadline fuel) := by
        intro s main extras moved wake hs
        refine (completeRound_twin hh hs now deadline main extras moved wake).bind ?_
        rintro st _ ⟨rfl, hst⟩
        exact ih st hst
      refine (turn_twin hh hst st.main.activity 0 now).bind ?_
      rintro u _ ⟨rfl, hu⟩
      cases u with
      | moved s a => exact goes _ _ _ _ _ hu
      | blocked s a wake => exact goes _ _ _ _ _ hu
      | ended s result =>
        have hs : s.Grants t g := hu
        have hwork := hs.logs (logs_continueWork t s { st.main with activity := .running [] } result)
        dsimp only
        generalize continueWork t s { st.main with activity := .running [] } result = q at hwork
        cases q with
        | call s p f propagate rest => exact goes _ _ _ _ _ hwork
        | ended s p e => exact .pure rfl

/-- **A run is the same on both hosts.** -/
theorem run_twin (work : List WorkStep) (limit : Nat) :
    Twin W Eq (run host t s work limit) (run host' t s work limit) := by
  refine hh.elapsed.bind fun now _ heq => ?_
  subst heq
  have hwork := hs.logs (WorkRest.logs_resume t s .none work)
  generalize WorkRest.resume t s .none work = q at hwork
  cases q with
  | call s p f propagate rest => exact rounds_twin hh _ _ _ hwork
  | ended s p e => exact .pure rfl

end RunState

namespace Sandbox

variable {σ τ : Type} {W : σ → τ → Prop} {host : Host (StateM σ)} {host' : Host (StateM τ)}
  {sb : Sandbox} {r : RegistryId} {u : LoadingUnit} {sets : List LoadingUnit.ClassSets}
  {a : ExecutionArguments}

theorem Prepares.grants {P : Prepared} (h : Prepares sb r u sets a P) :
    P.state.Grants P.task a.permissions :=
  fun p => Confinements.allows_of_confine h.confined h.capability p

/-- Two results differ in the name of the run and in its dates only. -/
def SameButRecord (x x' : ExecutionResult) : Prop :=
  x' = { x with taskId := x'.taskId, started := x'.started, stopped := x'.stopped }

theorem SameButRecord.refl (x : ExecutionResult) : SameButRecord x x := rfl

theorem executeWork_twin (hh : host.Resembles a.permissions.Permits W host')
    (work : List WorkStep) :
    Twin W (Execution.Alike SameButRecord) (executeWork host sb r u sets a work)
      (executeWork host' sb r u sets a work) := by
  unfold executeWork
  cases hP : sb.prepare r u sets a with
  | error fault => exact .pure (.refl .refl _)
  | ok P =>
    have hgrants := (prepare_eq_ok_iff.1 hP).grants
    refine hh.randomBytes.bind fun bytes bytes' _ => hh.today.bind fun started started' _ => ?_
    refine hh.elapsed.bind fun before _ heq => ?_
    subst heq
    refine (RunState.run_twin hh hgrants work _).bind fun e _ heq => ?_
    subst heq
    refine hh.elapsed.bind fun after _ heq => hh.today.bind fun stopped stopped' _ => .pure ?_
    subst heq
    refine conclude_alike (by rfl) (by rfl) (by rfl) (by rfl) (fun log output => ?_) r
    unfold resultOf
    cases conclusion e.outcome with
    | error fault => exact .error fault
    | ok q => exact .ok rfl

theorem execute_twin (hh : host.Resembles a.permissions.Permits W host') (e : EntryPoint) :
    Twin W (Execution.Alike SameButRecord) (execute host sb r u sets a e)
      (execute host' sb r u sets a e) := by
  unfold execute
  cases checkEntry u e with
  | error fault => exact .pure (.refl .refl _)
  | ok _ => exact executeWork_twin hh e.work

end Sandbox

/-! ### Files -/

theorem GrantSet.implies_writeFile_of_not_mem {g : GrantSet}
    (h : ∀ path, .writeFile path ∉ g.grants) (path : Path) : g.implies (.writeFile path) = false := by
  rw [Bool.eq_false_iff]
  intro hp
  simp only [implies, allowsWrite, Bool.and_eq_true, List.any_eq_true] at hp
  obtain ⟨-, p, hp, hbeneath⟩ := hp
  cases p with
  | writeFile dir => exact h dir hp
  | _ => cases hbeneath

def HostRequest.WritesNothing : HostRequest → Prop
  | .writeFile _ _ => False
  | _ => True

/-- Nothing but answers to requests to write changes what `files` shows of the host. -/
structure Host.Leaves {σ φ : Type} (files : σ → φ) (h : Host (StateM σ)) : Prop where
  elapsed : ∀ w, files (h.elapsed w).2 = files w
  idleUntil : ∀ n w, files (h.idleUntil n w).2 = files w
  today : ∀ w, files (h.today w).2 = files w
  randomBytes : ∀ w, files (h.randomBytes w).2 = files w
  answer : ∀ q : HostRequest, q.WritesNothing → ∀ w, files (h.answer q w).2 = files w

/-- A host resembles itself, and shows the same files, as long as nothing is written. -/
theorem Host.Leaves.resembles {σ φ : Type} {files : σ → φ} {h : Host (StateM σ)}
    (hl : h.Leaves files) (shown : φ) :
    h.Resembles HostRequest.WritesNothing (fun w w' => w = w' ∧ files w = shown) h where
  elapsed := by
    rintro w _ ⟨rfl, hw⟩
    exact ⟨rfl, rfl, (hl.elapsed w).trans hw⟩
  idleUntil := by
    rintro n w _ ⟨rfl, hw⟩
    exact ⟨rfl, rfl, (hl.idleUntil n w).trans hw⟩
  today := by
    rintro w _ ⟨rfl, hw⟩
    exact ⟨trivial, rfl, (hl.today w).trans hw⟩
  randomBytes := by
    rintro w _ ⟨rfl, hw⟩
    exact ⟨trivial, rfl, (hl.randomBytes w).trans hw⟩
  answer := by
    rintro q hq w _ ⟨rfl, hw⟩
    exact ⟨rfl, rfl, (hl.answer q hq w).trans hw⟩

theorem World.host_leaves : World.host.Leaves World.files := by
  refine ⟨fun _ => rfl, fun _ _ => rfl, fun _ => rfl, fun _ => rfl, fun q hq w => ?_⟩
  cases q with
  | writeFile path contents => exact hq.elim
  | _ => rfl

namespace Sandbox

/-- **What was not granted is not seen.** Two hosts with the same clock that answer alike what the
permissions allow to ask make the same execution, whatever else they hold. Without a permission to write
they may differ in their files too, and no file changes. -/
theorem execute_blind (sb : Sandbox) (r : RegistryId) (u : LoadingUnit)
    (sets : List LoadingUnit.ClassSets) (a : ExecutionArguments) (e : EntryPoint) :
    (∀ {σ τ : Type} {W : σ → τ → Prop} {host : Host (StateM σ)} {host' : Host (StateM τ)},
      host.Resembles a.permissions.Permits W host' →
        Twin W (Execution.Alike SameButRecord) (execute host sb r u sets a e)
          (execute host' sb r u sets a e)) ∧
    ((∀ path, .writeFile path ∉ a.permissions.grants) →
      (∀ {σ τ : Type} {W : σ → τ → Prop} {host : Host (StateM σ)} {host' : Host (StateM τ)},
        host.Resembles (fun q => a.permissions.Permits q ∧ q.WritesNothing) W host' →
          Twin W (Execution.Alike SameButRecord) (execute host sb r u sets a e)
            (execute host' sb r u sets a e)) ∧
      ∀ {σ φ : Type} {files : σ → φ} {host : Host (StateM σ)}, host.Leaves files →
        ∀ w, files (execute host sb r u sets a e w).2 = files w) := by
  refine ⟨fun hh => execute_twin hh e, fun hp => ?_⟩
  have hwrites : ∀ q, a.permissions.Permits q → a.permissions.Permits q ∧ q.WritesNothing := by
    intro q hq
    cases q with
    | writeFile path contents =>
      have hfalse := GrantSet.implies_writeFile_of_not_mem hp ⟨path⟩
      rw [GrantSet.Permits, hfalse] at hq
      cases hq
    | _ => exact ⟨hq, trivial⟩
  refine ⟨fun hh => execute_twin (hh.mono hwrites) e, fun {σ φ files host} hl w => ?_⟩
  have hh := (hl.resembles (files w)).mono fun q hq => (hwrites q hq).2
  exact (execute_twin hh e w w ⟨rfl, rfl⟩).2.2

/-- A world with a variable `HOME`, and a key that nobody may see. -/
def keyedWorld (files : FileTree) (key : String) : World :=
  ⟨files, ["work"], [("HOME", "/root"), ("KEY", key)], 0⟩

theorem keyedWorld_alike {g : GrantSet}
    (hg : ∀ name, g.implies (.readEnv name) = true → "HOME" = name)
    {files files' : FileTree}
    (hfiles : ∀ path, g.implies (.writeFile path) = true → files' = files) (key key' : String) :
    (keyedWorld files key).Alike g (keyedWorld files' key') where
  clock := rfl
  env name hname := by
    obtain rfl := hg name hname
    rfl
  files path hp := ⟨hfiles path hp, rfl⟩
  workDir _ := rfl

def sampleExecution (grants : List Permission) (w : World) : Execution × World :=
  execute World.host empty ⟨0⟩ Sample.unit [] { ExecutionArguments.default with
    permissions := ⟨grants⟩ } .default w

/-- The sample may see `HOME` and not the key: with another key its execution is the same. Where it may
not write, it is the same among other files too, and changes none. -/
theorem execute_blind_sample :
    (sampleExecution [.readEnv "HOME", .writeFile ⟨"out"⟩] (keyedWorld .empty "1")).1.Alike
        SameButRecord
        (sampleExecution [.readEnv "HOME", .writeFile ⟨"out"⟩] (keyedWorld .empty "2")).1 ∧
      (sampleExecution [.readEnv "HOME"] (keyedWorld .empty "1")).1.Alike SameButRecord
        (sampleExecution [.readEnv "HOME"] (keyedWorld ⟨[(["work"], .directory)]⟩ "2")).1 ∧
      (sampleExecution [.readEnv "HOME"] (keyedWorld .empty "1")).2.files = .empty := by
  have writes : ∀ path, .writeFile path ∉ [Permission.readEnv "HOME"] := by simp
  obtain ⟨hseen, -⟩ := execute_blind empty ⟨0⟩ Sample.unit [] { ExecutionArguments.default with
    permissions := ⟨[.readEnv "HOME", .writeFile ⟨"out"⟩]⟩ } .default
  obtain ⟨-, hunseen⟩ := execute_blind empty ⟨0⟩ Sample.unit [] { ExecutionArguments.default with
    permissions := ⟨[.readEnv "HOME"]⟩ } .default
  obtain ⟨hfiles, hleaves⟩ := hunseen writes
  refine ⟨(hseen (World.host_resembles _) _ _ (keyedWorld_alike ?_ (fun _ _ => rfl) _ _)).1,
    (hfiles ((World.host_resembles _).mono fun _ hq => hq.1) _ _
      (keyedWorld_alike ?_ (fun path hp => ?_) _ _)).1, hleaves World.host_leaves _⟩
  · simp [GrantSet.implies]
  · simp [GrantSet.implies]
  · rw [GrantSet.implies_writeFile_of_not_mem writes] at hp
    cases hp

end Sandbox

end Confine
