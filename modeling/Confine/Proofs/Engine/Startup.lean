import Confine.Engine.Basic
import Confine.Host.World
import Confine.Proofs.Loading.Built
import Confine.Proofs.Tracing.Woven

/-!
# Configurations that start an engine

What is loaded has been validated, whether it comes from the defaults, from a file or from the environment
(`EngineConfig.validate_of_load`).  A valid configuration starts an engine exactly if the engine may have so many slots
(`Engine.create_of_validate`), which validation does not ask; and an engine with a valid configuration never fails to
load a program because of it (`Engine.load_not_ofConfiguration`).

Main statement: `EngineConfig.loaded_serves`.
-/

namespace Confine

/-! ### What is loaded is valid -/

namespace EngineConfig

variable {σ : Type} {c : EngineConfig}

theorem validate_of_withOverrides {base : EngineConfig} {tasks timeout : Option String}
    (h : base.withOverrides tasks timeout = .ok c) : c.validate = .ok () := by
  unfold withOverrides at h
  cases htasks : overridden tasksVariable tasks base.maxConcurrentTasks with
  | error fault => simp [htasks, bind, Except.bind] at h
  | ok n =>
    cases htimeout : overridden timeoutVariable timeout base.defaultTimeoutMillis with
    | error fault => simp [htasks, htimeout, bind, Except.bind] at h
    | ok k =>
      simp only [htasks, htimeout, bind, Except.bind] at h
      split at h
      · cases h
      · next hvalid =>
        cases h
        exact hvalid

/-- Overrides are applied last, so what they leave is looked at again. -/
theorem validate_of_load {host : Host (StateM σ)} {path : Option String} {w : σ}
    (h : (load host path w).1 = .ok c) : c.validate = .ok () := by
  have behind {base : EngineConfig} {w : σ}
      (h : ((host.getEnv tasksVariable >>= fun tasks => host.getEnv timeoutVariable >>= fun timeout =>
        pure (base.withOverrides tasks timeout) : StateM σ _) w).1 = .ok c) : c.validate = .ok () :=
    validate_of_withOverrides h
  cases path with
  | none => exact behind h
  | some path =>
    simp only [load, bind, StateT.bind] at h
    generalize ofFile host path w = x at h
    obtain ⟨base, w⟩ := x
    cases base with
    | error fault => cases h
    | ok base => exact behind h

end EngineConfig

/-! ### Loading programs -/

/-- The fault lies with the configuration of a unit: with its policy, or with its tracers. -/
def LoadFault.OfConfiguration : LoadFault → Prop
  | policy _ | tracer _ => True
  | _ => False

namespace LoadingUnit

/-- The line trace and the method trace refuse no class. -/
theorem define_not_ofConfiguration {origin : Origin} {line : Option LineTrace.Instrumentation}
    {method : Option MethodTrace.Instrumentation} {name : String} {bytes : ByteArray} {fault : LoadFault}
    (h : define origin (Instrumentation.traces line method) name bytes = .error fault) :
    ¬ fault.OfConfiguration := by
  unfold define at h
  cases hd : ClassFile.decodeBytes? bytes with
  | none =>
    simp only [hd, bind, Except.bind, Except.error.injEq] at h
    exact h ▸ not_false
  | some c =>
    simp only [hd, bind, Except.bind] at h
    split at h
    · cases h
      exact not_false
    cases hs : Verifier.check .submitted c with
    | error e =>
      simp only [hs, Except.mapError, Except.error.injEq] at h
      exact h ▸ not_false
    | ok _ =>
      obtain ⟨c', line', method', hi, -⟩ := Instrumentation.instrumentAll_traces origin c line method
      cases hc : Verifier.check .instrumented c' with
      | error e =>
        simp only [hs, hi, hc, Except.mapError, Except.error.injEq] at h
        exact h ▸ not_false
      | ok _ => simp [hs, hi, hc, Except.mapError] at h

theorem defineAll_not_ofConfiguration {origin : Origin} {line : Option LineTrace.Instrumentation}
    {method : Option MethodTrace.Instrumentation} {done : List (String × DefinedClass)}
    {l : List (String × ByteArray)} {fault : LoadFault}
    (h : defineAll origin (Instrumentation.traces line method) done l = .error fault) :
    ¬ fault.OfConfiguration := by
  induction l generalizing line method done with
  | nil => cases h
  | cons e rest ih =>
    obtain ⟨name, bytes⟩ := e
    unfold defineAll at h
    cases hd : define origin (Instrumentation.traces line method) name bytes with
    | error e =>
      simp only [hd, Except.error.injEq] at h
      exact h ▸ define_not_ofConfiguration hd
    | ok q =>
      obtain ⟨d, is⟩ := q
      obtain ⟨c, c', hdefines, -⟩ := define_eq_ok_iff.1 hd
      obtain ⟨c'', line', method', hi, -⟩ := Instrumentation.instrumentAll_traces origin c line method
      obtain ⟨-, rfl⟩ := Prod.mk.inj (Except.ok.inj (hdefines.instrumented.symm.trans hi))
      simp only [hd] at h
      exact ih h

end LoadingUnit

namespace Engine

theorem exists_tracers (c : EngineConfig) : ∃ line method, tracers c = .ok (.traces line method) := by
  unfold tracers
  cases c.tracers.lineTrace <;> cases c.tracers.methodTrace
  · exact ⟨none, none, rfl⟩
  · exact ⟨none, some _, rfl⟩
  · exact ⟨some _, none, rfl⟩
  · exact ⟨some _, some _, rfl⟩

theorem policy_of_validate {c : EngineConfig} (h : c.validate = .ok ()) : c.policy.validate = .ok () := by
  unfold EngineConfig.validate at h
  split at h
  · cases h
  · split at h
    · cases h
    · cases hp : c.policy.validate with
      | error fault => simp [hp, Except.mapError] at h
      | ok _ => rfl

/-- **No program fails to load because of a valid configuration.** -/
theorem load_not_ofConfiguration {e : Engine} (h : e.config.validate = .ok ()) {p : Compiled} {fault : LoadFault}
    (hload : e.load p = .error fault) : ¬ fault.OfConfiguration := by
  obtain ⟨line, method, htracers⟩ := exists_tracers e.config
  obtain ⟨line', method', hroster, -⟩ := Instrumentation.ofRoster_traces line method
  unfold load LoadingUnit.build at hload
  simp only [htracers, policy_of_validate h, hroster, Except.mapError, bind, Except.bind] at hload
  generalize hd : LoadingUnit.defineAll _ _ _ _ = x at hload
  cases x with
  | error fault' =>
    simp only [Except.error.injEq] at hload
    exact hload ▸ LoadingUnit.defineAll_not_ofConfiguration hd
  | ok q => cases hload

/-- **Which valid configurations start an engine**: those that ask for no more slots than there may be. -/
theorem create_of_validate {c : EngineConfig} (h : c.validate = .ok ()) : create c =
    if maxSlots < c.maxConcurrentTasks then .error (.tooManySlots c.maxConcurrentTasks)
    else .ok ⟨c, none, .empty, 1, true⟩ := by
  simp only [create, h, Except.mapError, bind, Except.bind]

end Engine

/-! ### From a configuration to an engine -/

namespace EngineConfig

/-- **What a configuration is good for.** -/
structure Serves (c : EngineConfig) : Prop where
  starts : c.maxConcurrentTasks ≤ Engine.maxSlots → Engine.create c = .ok ⟨c, none, .empty, 1, true⟩
  /-- with more slots than there may be, the engine breaks down -/
  breaksDown : Engine.maxSlots < c.maxConcurrentTasks →
    Engine.create c = .error (.tooManySlots c.maxConcurrentTasks)
  /-- whatever library the engine has and whatever it has run -/
  loads : ∀ (e : Engine), e.config = c → ∀ (p : Compiled) (fault : LoadFault),
    e.load p = .error fault → ¬ fault.OfConfiguration

theorem serves_of_validate {c : EngineConfig} (h : c.validate = .ok ()) : c.Serves where
  starts hslots := by rw [Engine.create_of_validate h, if_neg (Nat.not_lt.2 hslots)]
  breaksDown hslots := by rw [Engine.create_of_validate h, if_pos hslots]
  loads e he p fault hload := Engine.load_not_ofConfiguration (he ▸ h) hload

/-- **What loading gives is valid, and what is valid serves.** From whatever file and under whatever environment, there
is a fault or a valid configuration; and a valid configuration starts an engine unless it asks for more slots than
there may be, and is never the reason for which a program cannot be loaded. -/
theorem loaded_serves {σ : Type} (host : Host (StateM σ)) (path : Option String) (w : σ) :
    ((∃ fault, (load host path w).1 = .error fault) ∨ ∃ c, (load host path w).1 = .ok c ∧ c.validate = .ok ()) ∧
      ∀ c : EngineConfig, c.validate = .ok () → c.Serves := by
  refine ⟨?_, fun c h => serves_of_validate h⟩
  cases hload : (load host path w).1 with
  | error fault => exact .inl ⟨fault, rfl⟩
  | ok c => exact .inr ⟨c, rfl, validate_of_load hload⟩

def hostWith (text : String) : World := World.fresh.withFile "o.json" text

/-- The configuration of as many tasks as an engine may have slots starts one. -/
theorem loaded_serves_full : ∃ c : EngineConfig, c.maxConcurrentTasks = Engine.maxSlots ∧
    (load World.host (some "o.json") (hostWith "\x7b\"max_concurrent_tasks\":2305843009213693951\x7d")).1 = .ok c ∧
    ∃ e, Engine.create c = .ok e := by
  have hloaded := loaded_serves World.host (some "o.json")
    (hostWith "\x7b\"max_concurrent_tasks\":2305843009213693951\x7d")
  have hc : (load World.host (some "o.json") (hostWith "\x7b\"max_concurrent_tasks\":2305843009213693951\x7d")).1 =
      .ok { default with maxConcurrentTasks := Engine.maxSlots } := by decide +kernel
  exact ⟨_, rfl, hc, _, (hloaded.2 _ (by decide)).starts le_rfl⟩

/-- **One task more, and there is no engine**: the configuration is loaded as a valid one, but the engine breaks
down. -/
theorem not_loaded_starts : ¬ ∀ (path : Option String) (w : World) (c : EngineConfig),
    (load World.host path w).1 = .ok c → ∃ e, Engine.create c = .ok e := by
  intro h
  have hc : (load World.host (some "o.json") (hostWith "\x7b\"max_concurrent_tasks\":2305843009213693952\x7d")).1 =
      .ok { default with maxConcurrentTasks := Engine.maxSlots + 1 } := by decide +kernel
  obtain ⟨e, he⟩ := h _ _ _ hc
  rw [Engine.create_of_validate (by decide), if_pos (Nat.lt_succ_self _)] at he
  cases he

end EngineConfig

end Confine
