import Confine.Proofs.Sandbox.Scheduled

/-!
# The log of a run

Main statement: `Sandbox.audited_of_prepare`.  Whatever the order of turns and whatever the host answers, the log of a run
are the decisions that its turns called for, in order; what a turn asks for or shows has been granted in that turn,
what it was denied has ended its thread; and a run on any host is one of these.
-/

namespace Confine

/-! ### Decisions that are never granted -/

/-- What an instruction asks for is granted by what the grants imply, unless it is a class, a file of the unit or a
thread. -/
theorem Instruction.decision?_cases {t : Task} {g : GrantSet} {s : TaskState}
    {stack : OperandStack} {i : Instruction} {d : Decision} (h : i.decision? t g s stack = some d) :
    (d.granted = g.implies d.permission ∧ d.permission ≠ .createThread) ∨
    (∃ name, d.permission = .loadClass name ∧ d.granted = false) ∨
    (∃ path, d.permission = .readFile path) ∨
    ∃ className methodName, i = .host (.spawn className methodName) ∧ d.permission = .createThread := by
  have ofClass {name : String} (h : t.unit.refusal? name = some d) :
      ∃ name, d.permission = .loadClass name ∧ d.granted = false := ⟨name, Step.refusal?_eq_some h⟩
  unfold decision? at h
  split at h
  · -- what the grants decide: a file written, a variable or property read, the exit, the streams
    obtain ⟨path, -, rfl⟩ := Option.map_eq_some_iff.1 h
    exact .inl ⟨rfl, by simp⟩
  · obtain ⟨name, -, rfl⟩ := Option.map_eq_some_iff.1 h
    exact .inl ⟨rfl, by simp⟩
  · obtain ⟨name, -, rfl⟩ := Option.map_eq_some_iff.1 h
    exact .inl ⟨rfl, by simp⟩
  · split at h <;> cases h
    exact .inl ⟨rfl, by simp⟩
  · cases h
    exact .inl ⟨rfl, by simp⟩
  · -- a class file is read if the unit has it
    obtain ⟨path, -, rfl⟩ := Option.map_eq_some_iff.1 h
    exact .inr (.inr (.inl ⟨_, rfl⟩))
  · -- a thread is started if there is room for it
    split at h <;> cases h
    exact .inr (.inr (.inr ⟨_, _, rfl, rfl⟩))
  · -- and of the classes wanted it is the refusals that are decided
    obtain ⟨x, -, hx⟩ := Option.bind_eq_some_iff.1 h
    exact .inr (.inl (ofClass hx))
  · exact .inr (.inl (ofClass h))
  · exact .inr (.inl (ofClass h))
  · split at h
    · exact .inr (.inl (ofClass h))
    · cases h
  · cases h

theorem Instruction.granted_of_decision? {t : Task} {g : GrantSet} {s : TaskState}
    {stack : OperandStack} {i : Instruction} {d : Decision} (h : i.decision? t g s stack = some d)
    (hd : d.permission = .exit ∨ d.permission = .setStreams) : d.granted = false := by
  rcases decision?_cases h with ⟨hgranted, -⟩ | ⟨name, -, hfalse⟩ | ⟨path, hp⟩ | ⟨c, m, -, hp⟩
  · rw [hgranted]
    rcases hd with hd | hd <;> rw [hd] <;> rfl
  · exact hfalse
  · rw [hp] at hd
    rcases hd with hd | hd <;> cases hd
  · rw [hp] at hd
    rcases hd with hd | hd <;> cases hd

/-- To end the host and to change its streams is never granted. -/
theorem Act.granted_of_decision? {t : Task} {g : GrantSet} {x : Act} {d : Decision}
    (h : x.decision? t g = some d) (hd : d.permission = .exit ∨ d.permission = .setStreams) :
    d.granted = false := by
  cases x with
  | call s c m arguments => exact (Step.refusal?_eq_some h).2
  | turn thread now s a asked u =>
    simp only [decision?, Activity.decision?] at h
    split at h
    · exact (Step.refusal?_eq_some h).2
    · split at h
      · cases h
      · obtain ⟨i, -, hi⟩ := Option.bind_eq_some_iff.1 h
        exact Instruction.granted_of_decision? hi hd
    · cases h

/-! ### Class files that are handed out -/

namespace LoadingUnit

/-- **A unit hands out its own classes as they run**: read, checked and instrumented. -/
theorem Built.classFile?_eq_some {u : LoadingUnit} (h : Built u) {path text : String}
    (hfile : u.classFile? path = some text) :
    ∃ name c, classOfPath? path = some name ∧ Made name (definedClass c) ∧
      u.own.class? name = some (.ofClassFile c) ∧ text = c.encode := by
  obtain ⟨name, hname, hfile⟩ := Option.bind_eq_some_iff.1 hfile
  obtain ⟨d, hd, rfl⟩ := Option.map_eq_some_iff.1 hfile
  have hmade := h.made u.own (by simp [layers]) _ (getNamed?_mem hd)
  obtain ⟨origin, is₁, is₂, bytes, c, c', hdefines, rfl⟩ := hmade
  exact ⟨name, c', hname, ⟨origin, is₁, is₂, bytes, c, c', hdefines, rfl⟩,
    Option.map_eq_some_iff.2 ⟨_, hd, rfl⟩, rfl⟩

end LoadingUnit

/-! ### The log of the result -/

namespace Sandbox

variable {sb : Sandbox} {r : RegistryId} {u : LoadingUnit} {sets : List LoadingUnit.ClassSets}
  {a : ExecutionArguments} {P : Prepared} {σ : Type}

theorem Prepares.nonce_eq (h : Prepares sb r u sets a P) :
    P.task.capability.nonce = sb.confinements.history.length := by
  obtain ⟨-, htoken, -⟩ := Confinements.confine_eq_ok_iff.1 h.confined
  rw [(Confinements.capability_eq_ok_iff.1 h.capability).2, htoken]

theorem Prepares.nonce_lt (h : Prepares sb r u sets a P) :
    P.task.capability.nonce < P.state.confinements.history.length := by
  obtain ⟨-, -, hstate⟩ := Confinements.confine_eq_ok_iff.1 h.confined
  rw [h.nonce_eq, hstate]
  simp

theorem Prepares.decisions_eq_nil (h : Prepares sb r u sets a P) :
    P.state.confinements.decisions P.task.capability = [] := by
  obtain ⟨-, -, hstate⟩ := Confinements.confine_eq_ok_iff.1 h.confined
  simp [Confinements.decisions, h.nonce_eq, hstate]

theorem Prepares.release (h : Prepares sb r u sets a P) (ds : List Decision) :
    ∃ s, (P.state.confinements.recordAll P.task.capability ds).release r P.token
      P.task.unit.id = .ok (ds, s) := by
  obtain ⟨-, htoken, -⟩ := Confinements.confine_eq_ok_iff.1 h.confined
  obtain ⟨hlive, hnonce⟩ := Confinements.capability_eq_ok_iff.1 h.capability
  have hunit : P.task.unit = u := by rw [h.task]
  have hcap : (⟨P.token.nonce⟩ : Capability) = P.task.capability := by rw [← hnonce]
  refine ⟨_, Confinements.release_eq_ok_iff.2 ⟨by rw [htoken, hunit], ?_, ?_, rfl⟩⟩
  · rw [Confinements.live?_recordAll, hunit, ← hlive, htoken]
  · rw [hcap, Confinements.decisions_recordAll h.nonce_lt, h.decisions_eq_nil, List.nil_append]

theorem Prepares.run_watched (h : Prepares sb r u sets a P) (host : Host (StateM σ))
    (work : List WorkStep) (limit : Nat) (w : σ) :
    let q := RunState.run host.watched P.task P.state work limit (w, [])
    RunState.run host P.task P.state work limit w = (q.1, q.2.1) := by
  obtain ⟨hvalue, hstate⟩ := RunState.run_twin (host.watched_resembles _) h.grants work limit w
    (w, []) rfl
  exact Prod.ext hvalue hstate.symm

/-- A run on a host is a schedule of its threads, up to the verdict on which it ends. -/
theorem Prepares.scheduled (h : Prepares sb r u sets a P) (host : Host (StateM σ))
    (work : List WorkStep) (limit : Nat) (w : σ) :
    ∃ acts c, P.task.Schedules P.state work acts c ∧
      c.shared = (RunState.run host P.task P.state work limit w).1.shared ∧
      c.verdict = some (RunState.run host P.task P.state work limit w).1.outcome := by
  obtain ⟨acts, c, hacts, hshared, hverdict, -⟩ :=
    RunState.run_scheduled host P.task P.state work limit w
  rw [h.run_watched host work limit w]
  exact ⟨acts, c, hacts, hshared, hverdict⟩

/-- A run on a host, which may be watched, takes the turns of its threads in some order, and asks what they ask. -/
theorem Prepares.runs (h : Prepares sb r u sets a P) (host : Host (StateM σ))
    (work : List WorkStep) (limit : Nat) (w : σ) :
    let q := RunState.run host.watched P.task P.state work limit (w, [])
    RunState.run host P.task P.state work limit w = (q.1, q.2.1) ∧
      ∃ acts c, P.task.Interleaves P.state acts c ∧ c.shared = q.1.shared ∧
        (acts.flatMap Act.asked).filter (·.isSensitive) = q.2.2.filter (·.isSensitive) :=
  ⟨h.run_watched host work limit w, RunState.run_interleaves host P.task P.state work limit w⟩

theorem permissionLog_resultOf (rec : Record) (s : TaskState) (outcome : Option WorkEnd)
    (log : List Decision) (output : List OutputLine × Nat) :
    (resultOf rec s outcome log output).map (·.permissionLog) =
      (conclusion outcome).map fun _ => log := by
  unfold resultOf
  cases conclusion outcome <;> rfl

/-- **The log of a run and what the run does agree.** -/
structure Prepared.Audited (r : RegistryId) (g : GrantSet) (P : Prepared) : Prop where
  /-- the log of the result has the decisions that the turns called for, in order -/
  log : ∀ {acts c}, P.task.Interleaves P.state acts c →
    ∀ rec (e : RunEnd), e.shared.confinements = c.shared.confinements →
      (conclude r P rec e).outcome.map (·.permissionLog) =
        (conclusion e.outcome).map fun _ => acts.filterMap (·.decision? P.task g)
  /-- every turn does as its decision says -/
  mediated : ∀ {acts c}, P.task.Interleaves P.state acts c →
    ∀ thread now s a asked u, .turn thread now s a asked u ∈ acts →
      u.Mediated P.task g s a asked
  /-- what must never be granted never is -/
  never : ∀ {acts c}, P.task.Interleaves P.state acts c →
    ∀ d ∈ acts.filterMap (·.decision? P.task g),
      d.permission = .exit ∨ d.permission = .setStreams → d.granted = false
  /-- a run on a host, which may be watched, takes its turns in some order, and asks what they ask -/
  runs : ∀ {σ : Type} (host : Host (StateM σ)) (work : List WorkStep) (limit : Nat) (w : σ),
    let q := RunState.run host.watched P.task P.state work limit (w, [])
    RunState.run host P.task P.state work limit w = (q.1, q.2.1) ∧
      ∃ acts c, P.task.Interleaves P.state acts c ∧ c.shared = q.1.shared ∧
        (acts.flatMap Act.asked).filter (·.isSensitive) = q.2.2.filter (·.isSensitive)
  /-- the files that the unit hands out are those of its own classes, as they run -/
  files : ∀ {path text : String}, P.task.unit.classFile? path = some text →
    ∃ name c, LoadingUnit.classOfPath? path = some name ∧
      LoadingUnit.Made name (LoadingUnit.definedClass c) ∧
      P.task.unit.own.class? name = some (.ofClassFile c) ∧ text = c.encode

/-- **Complete mediation, and an exact log.** -/
theorem audited_of_prepare {sb : Sandbox} {r : RegistryId} {u : LoadingUnit}
    {sets : List LoadingUnit.ClassSets} {a : ExecutionArguments} {P : Prepared} (hu : u.Built)
    (hP : sb.prepare r u sets a = .ok P) : P.Audited r a.permissions where
  log := by
    intro acts c h rec e he
    have hprepares := prepare_eq_ok_iff.1 hP
    obtain ⟨s, hrelease⟩ := hprepares.release (acts.filterMap (·.decision? P.task a.permissions))
    rw [← h.log hprepares.grants, ← he] at hrelease
    simp only [conclude, TaskState.cancel, hrelease]
    exact permissionLog_resultOf _ _ _ _ _
  mediated h := h.mediated (prepare_eq_ok_iff.1 hP).grants
  never := by
    intro acts c _ d hd
    obtain ⟨x, -, hx⟩ := List.mem_filterMap.1 hd
    exact Act.granted_of_decision? hx
  runs := (prepare_eq_ok_iff.1 hP).runs
  files := by
    intro path text hfile
    have hunit : P.task.unit = u := by rw [(prepare_eq_ok_iff.1 hP).task]
    rw [hunit] at hfile ⊢
    exact hu.classFile?_eq_some hfile

/-- The sample may see one variable: in a run where it asks for that, the log says so, whatever the
turns were. -/
theorem audited_of_prepare_sample :
    ∃ P acts c, empty.prepare ⟨0⟩ Sample.unit [] { ExecutionArguments.default with
        permissions := ⟨[.readEnv "HOME"]⟩ } = .ok P ∧
      P.Audited ⟨0⟩ ⟨[.readEnv "HOME"]⟩ ∧ P.task.Interleaves P.state acts c ∧
      c.shared = (RunState.run World.host P.task P.state EntryPoint.default.work 1000000000
        (keyedWorld .empty "1")).1.shared ∧
      acts.filterMap (·.decision? P.task ⟨[.readEnv "HOME"]⟩) = [⟨.readEnv "HOME", true⟩] := by
  obtain ⟨P, hP, hlog⟩ : ∃ P, empty.prepare ⟨0⟩ Sample.unit [] { ExecutionArguments.default with
        permissions := ⟨[.readEnv "HOME"]⟩ } = .ok P ∧
      (RunState.run World.host P.task P.state EntryPoint.default.work 1000000000
        (keyedWorld .empty "1")).1.shared.confinements.decisions P.task.capability =
        [⟨.readEnv "HOME", true⟩] := ⟨_, rfl, by decide +kernel⟩
  have haudited := audited_of_prepare Sample.built_unit hP
  obtain ⟨hrun, acts, c, hacts, hc, -⟩ := haudited.runs World.host EntryPoint.default.work
    1000000000 (keyedWorld .empty "1")
  rw [← congrArg Prod.fst hrun] at hc
  refine ⟨P, acts, c, hP, haudited, hacts, hc, ?_⟩
  obtain ⟨s, hrelease⟩ := (prepare_eq_ok_iff.1 hP).release
    (acts.filterMap (·.decision? P.task ⟨[.readEnv "HOME"]⟩))
  rw [← hacts.log (prepare_eq_ok_iff.1 hP).grants, hc] at hrelease
  obtain ⟨-, -, hdecisions, -⟩ := Confinements.release_eq_ok_iff.1 hrelease
  rw [hdecisions, ← hlog]
  have hnonce := (Confinements.capability_eq_ok_iff.1 (prepare_eq_ok_iff.1 hP).capability).2
  exact congrArg _ (congrArg Capability.mk hnonce.symm)

end Sandbox

end Confine
