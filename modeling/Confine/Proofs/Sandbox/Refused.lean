import Confine.Proofs.Loading.Lookup
import Confine.Proofs.Sandbox.Audited

/-!
# Classes that are refused

A class is refused by the nearest layer that neither has it nor may ask for it.  The unit that code runs in logs what
its own policy refuses; what the layers below refuse is not logged.

* `LoadingPolicy.Refuses` — the reasons for which a policy refuses a class;
* `RefusedAt` — the layer that refuses a class;
* `Act.wanted?` — the class that a turn asks for;
* `LoadingUnit.logsRefusals` — **what is refused, what of that is logged, and what a run says of it**;
* `LoadingUnit.not_refusals_logged` — what is refused below is not logged.
-/

namespace Confine

open LoadingUnit (ClassSets)

/-! ### The layer that refuses a class -/

/-- **The reasons to refuse a class**: its beginning is forbidden, is not on the list of what is allowed, or is on the
list of what is blocked. -/
inductive LoadingPolicy.Refuses (p : LoadingPolicy) (name : String) : Prop where
  | forbidden (h : isForbidden name = true)
  | notAllowed (hlist : p.allowedClasses ≠ []) (h : beginsLike p.allowedClasses name = false)
  | blocked (hlist : p.allowedClasses = []) (h : beginsLike p.blockedClasses name = true)

theorem LoadingPolicy.mayDelegate_eq_false_iff {p : LoadingPolicy} {name : String} :
    p.mayDelegate name = false ↔ p.Refuses name := by
  unfold mayDelegate
  constructor
  · intro h
    split at h
    · next hforbidden => exact .forbidden hforbidden
    · split at h
      · next hlist => exact .notAllowed (by simpa using hlist) h
      · next hlist => exact .blocked (by simpa using hlist) (by simpa using h)
  · rintro (hforbidden | ⟨hlist, h⟩ | ⟨hlist, h⟩)
    · exact if_pos hforbidden
    · simp [hlist, h]
    · simp [hlist, h]

/-- **The layer `k` refuses the class**: no layer up to it defines the class, those before it ask for it, and it does
not. -/
structure RefusedAt (name : String) (layers : List Layer) (k : Nat) : Prop where
  refused : ∃ l, layers[k]? = some l ∧ l.class? name = none ∧ l.policy.Refuses name
  undefined : ∀ b ∈ layers.take k, b.class? name = none
  delegated : ∀ b ∈ layers.take k, b.policy.mayDelegate name = true

section RefusedAt

variable {name : String} {l : Layer} {layers : List Layer} {k : Nat} {sets : List ClassSets}

theorem refusedAt_zero :
    RefusedAt name (l :: layers) 0 ↔ l.class? name = none ∧ l.policy.mayDelegate name = false := by
  rw [LoadingPolicy.mayDelegate_eq_false_iff]
  exact ⟨fun h => by simpa using h.refused, fun h => ⟨⟨l, rfl, h⟩, by simp, by simp⟩⟩

theorem refusedAt_succ : RefusedAt name (l :: layers) (k + 1) ↔
    l.class? name = none ∧ l.policy.mayDelegate name = true ∧ RefusedAt name layers k := by
  constructor
  · rintro ⟨hrefused, hundefined, hdelegated⟩
    obtain ⟨hl, hundefined⟩ := List.forall_mem_cons.1 hundefined
    obtain ⟨hmay, hdelegated⟩ := List.forall_mem_cons.1 hdelegated
    exact ⟨hl, hmay, hrefused, hundefined, hdelegated⟩
  · rintro ⟨hl, hmay, hrefused, hundefined, hdelegated⟩
    exact ⟨hrefused, List.forall_mem_cons.2 ⟨hl, hundefined⟩, List.forall_mem_cons.2 ⟨hmay, hdelegated⟩⟩

theorem exists_refusedAt_cons : (∃ k, RefusedAt name (l :: layers) k) ↔
    l.class? name = none ∧ (l.policy.mayDelegate name = true → ∃ k, RefusedAt name layers k) := by
  constructor
  · rintro ⟨_ | k, hk⟩
    · obtain ⟨hl, hmay⟩ := refusedAt_zero.1 hk
      exact ⟨hl, by simp [hmay]⟩
    · obtain ⟨hl, -, hk⟩ := refusedAt_succ.1 hk
      exact ⟨hl, fun _ => ⟨k, hk⟩⟩
  · rintro ⟨hl, h⟩
    cases hmay : l.policy.mayDelegate name with
    | false => exact ⟨0, refusedAt_zero.2 ⟨hl, hmay⟩⟩
    | true =>
      obtain ⟨k, hk⟩ := h hmay
      exact ⟨k + 1, refusedAt_succ.2 ⟨hl, hmay, hk⟩⟩

namespace LoadingUnit

theorem loadIn_cons_eq_error_iff {fault : LoadFault} : loadIn name (l :: layers) sets = .error fault ↔
    l.class? name = none ∧ (l.policy.mayDelegate name = true → loadIn name layers sets.tail = .error fault) ∧
      (l.policy.mayDelegate name = false → fault = .blocked name) := by
  rw [loadIn]
  cases l.class? name with
  | some c => simp
  | none =>
    cases l.policy.mayDelegate name with
    | false => simp [eq_comm]
    | true => cases loadIn name layers sets.tail <;> simp

/-- **A class is blocked if some layer refuses it.** -/
theorem loadIn_eq_blocked_iff :
    loadIn name layers sets = .error (.blocked name) ↔ ∃ k, RefusedAt name layers k := by
  induction layers generalizing sets with
  | nil =>
    simp only [loadIn, Except.error.injEq, reduceCtorEq, false_iff]
    rintro ⟨k, ⟨_, hl, -⟩, -, -⟩
    cases hl
  | cons l layers ih => simp [loadIn_cons_eq_error_iff, exists_refusedAt_cons, ih]

/-- **A class is not found if all layers ask for it and none has it.** -/
theorem loadIn_eq_notFound_iff : loadIn name layers sets = .error (.notFound name) ↔
    ∀ b ∈ layers, b.class? name = none ∧ b.policy.mayDelegate name = true := by
  induction layers generalizing sets with
  | nil => simp [loadIn]
  | cons l layers ih =>
    rw [loadIn_cons_eq_error_iff, List.forall_mem_cons, ih]
    cases l.policy.mayDelegate name <;> simp

theorem refuses_iff {u : LoadingUnit} : u.refuses name = true ↔ RefusedAt name u.layers 0 := by
  rw [layers, refusedAt_zero, refuses, Bool.and_eq_true, Option.isNone_iff_eq_none,
    Bool.not_eq_true']

end LoadingUnit

end RefusedAt

/-! ### Turns that ask for a class -/

def Decision.isOfClass (d : Decision) : Bool :=
  match d.permission with
  | .loadClass _ => true
  | _ => false

/-- The class that an instruction asks the unit for, with its operands on the stack. -/
def Instruction.wanted? (stack : OperandStack) : Instruction → Option String
  | .host .loadClass => stack.text? 0
  | .invokeStatic className _ | .new className => some className
  | .invokeVirtual _ arity =>
    match stack.values.drop arity.toNat with
    | .object _ className :: _ => some className
    | _ => none
  | _ => none

/-- The class that the next turn of a thread asks the unit for. -/
def Activity.wanted? (s : TaskState) : Activity → Option String
  | starting className _ => some className
  | running (f :: _) =>
    if s.cancelled then none else (f.method.code[f.next]?).bind (·.wanted? f.stack)
  | _ => none

def Act.wanted? : Act → Option String
  | turn _ _ s a _ _ => a.wanted? s
  | call _ className _ _ => some className

section Wanted

variable {t : Task} {g : GrantSet}

theorem filter_isOfClass_refusal? (u : LoadingUnit) (name : String) :
    (u.refusal? name).filter Decision.isOfClass = u.refusal? name := by
  unfold LoadingUnit.refusal?
  split <;> rfl

/-- **An instruction decides about the class that it asks for, if the unit's own policy refuses that**, and about no
other. -/
theorem Instruction.filter_decision? (s : TaskState) (stack : OperandStack) (i : Instruction) :
    (i.decision? t g s stack).filter Decision.isOfClass = (i.wanted? stack).bind t.unit.refusal? := by
  have other {d : Option Decision} (h : ∀ x ∈ d, x.isOfClass = false) :
      d.filter Decision.isOfClass = none := Option.filter_eq_none_iff.2 fun x hx => by simp [h x hx]
  have text {name : Option String} {d : String → Decision} (h : ∀ x, (d x).isOfClass = false) :
      (name.map d).filter Decision.isOfClass = none := by
    refine other fun x hx => ?_
    obtain ⟨n, -, rfl⟩ := Option.map_eq_some_iff.1 hx
    exact h n
  cases i with
  | host call =>
    cases call with
    | writeFile | getEnv | getProperty | readFile => exact text fun _ => rfl
    | setStreams => rfl
    | exit =>
      refine other fun x hx => ?_
      simp only [decision?] at hx
      split at hx <;> cases hx
      rfl
    | spawn c m =>
      refine other fun x hx => ?_
      simp only [decision?] at hx
      split at hx <;> cases hx
      rfl
    | loadClass =>
      simp only [decision?, wanted?]
      cases stack.text? 0 with
      | none => rfl
      | some name => exact filter_isOfClass_refusal? _ _
    | _ => rfl
  | invokeStatic c m => exact filter_isOfClass_refusal? _ _
  | new c => exact filter_isOfClass_refusal? _ _
  | invokeVirtual m arity =>
    simp only [decision?, wanted?]
    rcases stack.values.drop arity.toNat with _ | ⟨v, rest⟩
    · rfl
    · cases v with
      | object id c => exact filter_isOfClass_refusal? _ _
      | _ => rfl
  | _ => rfl

theorem Activity.filter_decision? (s : TaskState) (a : Activity) :
    (a.decision? t g s).filter Decision.isOfClass = (a.wanted? s).bind t.unit.refusal? := by
  cases a with
  | starting c m => exact filter_isOfClass_refusal? _ _
  | running frames =>
    cases frames with
    | nil => rfl
    | cons f outer =>
      simp only [decision?, wanted?]
      split
      · rfl
      · cases f.method.code[f.next]? with
        | none => rfl
        | some i => exact i.filter_decision? s f.stack
  | _ => rfl

theorem Act.filter_decision? (x : Act) :
    (x.decision? t g).filter Decision.isOfClass = x.wanted?.bind t.unit.refusal? := by
  cases x with
  | turn _ _ s a _ _ => exact a.filter_decision? s
  | call => exact filter_isOfClass_refusal? _ _

theorem filter_isOfClass_decisions (acts : List Act) :
    (acts.filterMap (·.decision? t g)).filter Decision.isOfClass =
      (acts.filterMap Act.wanted?).filterMap t.unit.refusal? := by
  rw [List.filter_filterMap, List.filterMap_filterMap]
  simp only [Act.filter_decision?]

end Wanted

/-! ### Runs -/

theorem Sandbox.Prepares.permissionLog_eq {sb : Sandbox} {r : RegistryId} {u : LoadingUnit}
    {sets : List ClassSets} {a : ExecutionArguments} {P : Prepared} (h : Prepares sb r u sets a P)
    {acts : List Act} {c : Crowd} (hacts : P.task.Interleaves P.state acts c) {rec : Record}
    {e : RunEnd} (he : e.shared.confinements = c.shared.confinements) {result : ExecutionResult}
    (hresult : (conclude r P rec e).outcome = .ok result) :
    result.permissionLog = acts.filterMap (·.decision? P.task a.permissions) ∧
      result.permissionDenied = result.permissionLog.any (!·.granted) := by
  obtain ⟨s, hrelease⟩ := h.release (acts.filterMap (·.decision? P.task a.permissions))
  rw [← hacts.log h.grants, ← he] at hrelease
  simp only [conclude, TaskState.cancel, hrelease, Except.mapError, bind, Except.bind, resultOf] at hresult
  split at hresult
  · cases hresult
  · cases hresult
    exact ⟨rfl, rfl⟩

namespace LoadingUnit

/-- **What a unit refuses, and what is logged of it.** -/
structure LogsRefusals (u : LoadingUnit) : Prop where
  /-- a class is blocked if some layer refuses it -/
  blocked : ∀ {sets name cap s},
    (u.loadClass sets name cap s).1 = .error (.blocked name) ↔ ∃ k, RefusedAt name u.layers k
  /-- it is not found if all layers ask for it and none has it -/
  notFound : ∀ {sets name cap s}, (u.loadClass sets name cap s).1 = .error (.notFound name) ↔
    ∀ l ∈ u.layers, l.class? name = none ∧ l.policy.mayDelegate name = true
  /-- what the unit's own policy refuses is logged once, for the capability -/
  logged : ∀ {sets name cap s}, cap.nonce < s.history.length → RefusedAt name u.layers 0 →
    let s' := (u.loadClass sets name (some cap) s).2
    s'.decisions cap = s.decisions cap ++ [⟨.loadClass name, false⟩] ∧
      ∀ d : Capability, d.nonce ≠ cap.nonce → s'.decisions d = s.decisions d
  /-- and nothing else is -/
  silent : ∀ {sets name cap s}, ¬ RefusedAt name u.layers 0 → (u.loadClass sets name cap s).2 = s
  /-- the log of a run has, of classes, the refusals of those that its turns asked for, in order -/
  log : ∀ {sb : Sandbox} {r sets a P acts c}, sb.prepare r u sets a = .ok P →
    P.task.Interleaves P.state acts c → ∀ {rec e result}, e.shared.confinements = c.shared.confinements →
      (Sandbox.conclude r P rec e).outcome = .ok result →
        result.permissionLog.filter Decision.isOfClass =
          (acts.filterMap Act.wanted?).filterMap u.refusal? ∧
        ∀ name ∈ acts.filterMap Act.wanted?, RefusedAt name u.layers 0 → result.permissionDenied = true
  /-- a run on a host takes its turns in some order -/
  runs : ∀ {sb : Sandbox} {r sets a P}, sb.prepare r u sets a = .ok P →
    ∀ {σ : Type} (host : Host (StateM σ)) work limit w, ∃ acts c, P.task.Interleaves P.state acts c ∧
      c.shared = (RunState.run host P.task P.state work limit w).1.shared

theorem refusal?_of_refusedAt {u : LoadingUnit} {name : String} (h : RefusedAt name u.layers 0) :
    u.refusal? name = some ⟨.loadClass name, false⟩ := if_pos (refuses_iff.2 h)

/-- **A class that the unit's own policy refuses is logged, once, and denies the run its permission**; a class that a
layer below refuses is blocked and not logged. -/
theorem logsRefusals (u : LoadingUnit) : u.LogsRefusals where
  blocked := loadIn_eq_blocked_iff
  notFound := loadIn_eq_notFound_iff
  logged := by
    intro sets name cap s hcap hrefused
    -- a refusal is recorded with the capability that asked
    simp only [loadClass, refuses_iff.2 hrefused, if_true]
    exact ⟨Confinements.decisions_record hcap _ _,
      fun d hd => Confinements.decisions_record_of_ne (Ne.symm hd) _ _⟩
  silent := by
    intro sets name cap s hrefused
    have hrefuses : u.refuses name = false := by simpa using mt refuses_iff.1 hrefused
    cases cap <;> simp [loadClass, hrefuses]
  log := by
    intro sb r sets a P acts c hP hacts rec e result he hresult
    have hprepares := Sandbox.prepare_eq_ok_iff.1 hP
    have hunit : P.task.unit = u := by rw [hprepares.task]
    obtain ⟨hlog, hdenied⟩ := hprepares.permissionLog_eq hacts he hresult
    -- of what the run decided, the loads are the refusals of the names wanted
    have hclasses : result.permissionLog.filter Decision.isOfClass =
        (acts.filterMap Act.wanted?).filterMap u.refusal? := by
      rw [hlog, filter_isOfClass_decisions, hunit]
    refine ⟨hclasses, fun name hname hrefused => ?_⟩
    have hmem : (⟨.loadClass name, false⟩ : Decision) ∈ result.permissionLog.filter Decision.isOfClass := by
      rw [hclasses]
      exact List.mem_filterMap.2 ⟨name, hname, refusal?_of_refusedAt hrefused⟩
    rw [hdenied, List.any_eq_true]
    exact ⟨_, (List.mem_filter.1 hmem).1, rfl⟩
  runs := by
    intro sb r sets a P hP σ host work limit w
    obtain ⟨hrun, acts, c, hacts, hc, -⟩ :=
      (Sandbox.prepare_eq_ok_iff.1 hP).runs host work limit w
    exact ⟨acts, c, hacts, by rw [hrun, hc]⟩

/-! ### A guarded library -/

namespace Guarded

def policy : LoadingPolicy := { LoadingPolicy.default with blockedClasses := ["secret."] }

/-- What a program is built from, on top of a parent and with a policy. -/
def plan (parent : Option LoadingUnit) (p : LoadingPolicy) : Plan :=
  { Sample.plan with parent := parent, policy := p }

def unit (id : UnitId) (parent : Option LoadingUnit) (p : LoadingPolicy) : LoadingUnit :=
  ⟨⟨id, "", p, [], [("Main", definedClass Sample.main)]⟩, (parent.map layers).getD []⟩

theorem built_unit (id : UnitId) {parent : Option LoadingUnit} {p : LoadingPolicy}
    (hparent : ∀ v, parent = some v → v.Built) (hp : p.validate = .ok ()) : (unit id parent p).Built := by
  obtain ⟨-, classes, is, hall, hunit⟩ := build_eq_ok_iff.1 Sample.build_plan
  obtain ⟨rfl, rfl⟩ : [] = is ∧ [("Main", definedClass Sample.main)] = classes := by
    injection hunit with hown
    injection hown with _ _ _ his hclasses
    exact ⟨his, hclasses⟩
  have hbuild : build (plan parent p) id = .ok (unit id parent p) :=
    build_eq_ok_iff.2 ⟨hp, _, _, hall, rfl⟩
  exact .build hparent hbuild

def library : LoadingUnit := unit ⟨1⟩ none policy

theorem built_library : library.Built := built_unit _ (by rintro _ ⟨⟩) (by decide +kernel)

end Guarded

/-- A program that blocks secret classes itself: work that asks for one is denied its permission. -/
theorem logsRefusals_guarded : Guarded.library.LogsRefusals ∧
    RefusedAt "secret.Key" Guarded.library.layers 0 ∧
    ∃ P acts c, Sandbox.empty.prepare ⟨0⟩ Guarded.library [] .default = .ok P ∧
      P.task.Interleaves P.state acts c ∧ acts.filterMap Act.wanted? = ["secret.Key"] ∧
      ∀ result, (Sandbox.conclude ⟨0⟩ P default ⟨c.shared, default, none⟩).outcome = .ok result →
        result.permissionDenied = true := by
  have hrefused : RefusedAt "secret.Key" Guarded.library.layers 0 := refuses_iff.1 (by decide +kernel)
  obtain ⟨P, hP⟩ : ∃ P, Sandbox.empty.prepare ⟨0⟩ Guarded.library [] .default = .ok P := ⟨_, rfl⟩
  have hacts : P.task.Interleaves P.state [.call P.state "secret.Key" "read" []] _ :=
    .call 0 "secret.Key" "read" [] .start
  refine ⟨logsRefusals _, hrefused, P, _, _, hP, hacts, rfl, fun result hresult => ?_⟩
  exact ((logsRefusals _).log hP hacts rfl hresult).2 _ (List.mem_singleton.2 rfl) hrefused

/-- **What a library refuses is not logged.** -/
theorem not_refusals_logged : ¬ ∀ (u : LoadingUnit) (sets : List ClassSets) (name : String) (cap : Capability)
    (s : Confinements), u.Built → cap.nonce < s.history.length →
      ((u.loadClass sets name (some cap) s).1 = .error (.blocked name) ↔
        (u.loadClass sets name (some cap) s).2.decisions cap =
          s.decisions cap ++ [⟨.loadClass name, false⟩]) := by
  intro h
  have hbuilt := Guarded.built_unit ⟨2⟩ (p := .default)
    (fun _ hv => Option.some.inj hv ▸ Guarded.built_library) rfl
  have hiff := h _ [] "secret.Key" ⟨0⟩ ⟨[⟨⟨0⟩, ⟨2⟩, ⟨[]⟩, [], true⟩]⟩ hbuilt (by decide)
  have hblocked := hiff.1 (by decide +kernel)
  revert hblocked
  decide +kernel

end LoadingUnit

end Confine
