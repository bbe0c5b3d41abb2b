import Confine.Proofs.Sandbox.Audited
import Confine.Proofs.Sandbox.HookActs
import Confine.Proofs.Tracing.Followed
import Confine.Proofs.Tracing.HookOwners
import Confine.Proofs.Tracing.TracedEntries

/-!
# Whose method an entry is

A call into the method trace carries a number that the layer of its method has given out, and the tracer of the task looks
it up in the table of the own layer. So the entries of own classes are those of the methods that are entered, and those
of classes below are if no layer below has given a number of the own table to another site.

* `MethodTrace.Step.Carries` — an entry tells the descriptor, the receiver and the parameters of a site;
* `MethodTrace.Recording.Keeps` — the entries that are recorded are the first of those that are reported;
* `LoadingUnit.Enters` — an entry and the hook that it comes from: the site that the hook was bound to, and the one that
  its number is looked up as;
* `Sandbox.entries_of_prepare` — **every entry of every run** is one of a hook that was executed.
-/

namespace Confine

/-! ### What an entry tells -/

/-- The entry tells what the site does: the descriptor, whether there is a receiver, and the names of the parameters. -/
def MethodTrace.Step.Carries (site : MethodTrace.Site) : MethodTrace.Step → Prop
  | .enter method receiver arguments => method = site.descriptor ∧ receiver.isSome = site.hasReceiver ∧
      arguments.map (·.name) = site.params
  | .line _ _ => False

def HookAct.site (e : HookAct) : MethodTrace.Site := MethodTrace.siteOf e.frame.className e.frame.method.method

namespace MethodTrace

/-- A call is reported as an entry of the site that its number stands for, and tells all of it if it passes a value for
the receiver and for each parameter. -/
theorem Recording.exists_of_enterOf {i : Instrumentation} {tracer : String} {number : Int64} {values : List Value}
    {step : Step} (h : Recording.enterOf? i (tracer, ⟨hookName, .int number :: values⟩) = some step) :
    ∃ n s receiver arguments, number.toInt = .ofNat n ∧ i.sites[n]? = some s ∧
      step = .enter s.descriptor receiver arguments ∧
      (values.length = s.params.length + s.hasReceiver.toNat → step.Carries s) := by
  unfold Recording.enterOf? Recording.enter? at h
  split at h
  · simp only [bne_self_eq_false, Bool.false_eq_true, if_false] at h
    cases hnumber : number.toInt with
    | negSucc n =>
      rw [hnumber] at h
      cases h
    | ofNat n =>
      rw [hnumber] at h
      obtain ⟨_, ⟨⟩, h⟩ := Option.bind_eq_some_iff.1 h
      obtain ⟨s, hs, h⟩ := Option.bind_eq_some_iff.1 h
      have told {values : List Value} (hlength : values.length = s.params.length) :
          (List.zipWith (fun name v => Argument.mk name v.toJson) s.params values).map (·.name) = s.params := by
        rw [← List.map_uncurry_zip_eq_zipWith, List.map_map]
        exact List.map_fst_zip hlength.ge
      cases hreceiver : s.hasReceiver with
      | false =>
        rw [hreceiver] at h
        cases h
        refine ⟨n, s, _, _, rfl, hs, rfl, fun hlength => ⟨rfl, by rw [hreceiver]; rfl, told ?_⟩⟩
        simpa [hreceiver] using hlength
      | true =>
        -- with one, the first value is the receiver
        rw [hreceiver] at h
        cases values with
        | nil =>
          cases h
          exact ⟨n, s, _, _, rfl, hs, rfl, fun hlength => absurd hlength (by simp [hreceiver])⟩
        | cons v rest =>
          cases h
          refine ⟨n, s, _, _, rfl, hs, rfl, fun hlength => ⟨rfl, by rw [hreceiver]; rfl, told ?_⟩⟩
          simpa [hreceiver] using hlength
  · cases h

/-! ### What is recorded -/

namespace Recording

/-- The entries that are reported are recorded while there is room: the first of them, in their order. -/
structure Keeps (reported : List Step) (r : Recording) : Prop where
  first : r.report.steps.filter (·.isEnter) <+: reported
  all : r.steps.size < r.instrumentation.arguments.recordedStepLimit → r.report.steps.filter (·.isEnter) = reported

@[simp] theorem instrumentation_record (r : Recording) (s : Step) : (r.record s).instrumentation = r.instrumentation := by
  unfold record
  split <;> rfl

variable {reported : List Step} {r : Recording}

theorem Keeps.record (h : r.Keeps reported) (s : Step) : (r.record s).Keeps (reported ++ [s].filter (·.isEnter)) := by
  unfold Recording.record
  split
  · next hroom =>
    have hsteps : Recording.report { r with steps := r.steps.push s } =
        ⟨r.instrumentation.arguments, r.report.steps ++ [s]⟩ := by
      simp [report]
    have hfilter : (r.report.steps ++ [s]).filter (·.isEnter) = reported ++ [s].filter (·.isEnter) := by
      rw [List.filter_append, h.all hroom]
    exact ⟨by rw [hsteps, hfilter], fun _ => by rw [hsteps, hfilter]⟩
  · next hfull => exact ⟨h.first.trans (List.prefix_append _ _), fun hroom => absurd hroom hfull⟩

theorem Keeps.onLines (h : r.Keeps reported) (lines : List LineEvent) :
    (lines.foldl onLine r).Keeps reported ∧ (lines.foldl onLine r).instrumentation = r.instrumentation := by
  induction lines generalizing r with
  | nil => exact ⟨h, rfl⟩
  | cons e lines ih =>
    have hline : (r.onLine e).Keeps reported := by
      have hrecord := h.record (.line e.source e.line)
      rwa [List.filter_cons_of_neg (by simp [Step.isEnter]), List.filter_nil, List.append_nil] at hrecord
    obtain ⟨hlines, hsame⟩ := ih hline
    exact ⟨hlines, hsame.trans (instrumentation_record _ _)⟩

theorem Keeps.onHook (h : r.Keeps reported) (call : HookCall) :
    (r.onHook call).Keeps (reported ++ (enterOf? r.instrumentation (MethodTrace.id, call)).toList) ∧
      (r.onHook call).instrumentation = r.instrumentation := by
  have henter : enterOf? r.instrumentation (MethodTrace.id, call) = enter? r.instrumentation call := if_pos rfl
  unfold Recording.onHook
  cases hs : enter? r.instrumentation call with
  | none => simpa [henter, hs] using h
  | some s =>
    have hs' : s.isEnter = true := isEnter_of_enterOf (henter.trans hs)
    refine ⟨?_, instrumentation_record _ _⟩
    simpa [henter, hs, hs'] using h.record s

end Recording

end MethodTrace

/-! ### The site of a hook -/

namespace LoadingUnit

/-- Numbers that are given out below the own layer stand for the same sites as in the own layer, if they stand for any
there. -/
def SitesAgree (u : LoadingUnit) : Prop :=
  ∀ l ∈ u.layers, ∀ n site own, l.site? n = some site → u.own.site? n = some own → own = site

/-- An entry is reported by the hook of a method: the layer of its class knows the site of the method by a number, and
the entry is one of the site that the own layer knows by this number. So it is one of the method if its class is an own
class, or if the layers agree on the numbers of sites. -/
structure Enters (u : LoadingUnit) (e : HookAct) (step : MethodTrace.Step) : Prop where
  bound : ∃ l n own receiver arguments, u.layerOf? e.frame.className = some l ∧ l.site? n = some e.site ∧
    u.own.site? n = some own ∧ step = .enter own.descriptor receiver arguments ∧ (own = e.site → step.Carries e.site)
  carries : (u.own.class? e.frame.className).isSome = true ∨ u.SitesAgree → step.Carries e.site

theorem toInt_ofNat_eq {n k : Nat} (hn : n < 2 ^ 64) (h : (Int64.ofNat n).toInt = .ofNat k) : k = n := by
  rw [Int64.toInt_ofNat'] at h
  simp only [Int.bmod, Int64.size, Int.ofNat_eq_natCast] at h
  split at h <;> omega

variable {u : LoadingUnit}

/-- **A call into the method trace passes the number of its method**, and a value for the receiver and each parameter. -/
theorem exists_number {e : HookAct} {l : Layer} {c : ClassFile} {m : Method} (h : e.frame.Runs u l c m)
    (ho : l.Orderly) {x : Instruction} (hx : e.frame.method.code[e.frame.next]? = some x)
    (hcall : e.frame.hookCall? x = some (MethodTrace.id, e.call)) :
    ∃ n values, n < 2 ^ 64 ∧ l.site? n = some e.site ∧
      e.call = ⟨MethodTrace.hookName, .int (Int64.ofNat n) :: values⟩ ∧
      values.length = e.site.params.length + e.site.hasReceiver.toNat := by
  cases x with
  | hook tracer name operands =>
    obtain ⟨rfl, heq⟩ := Prod.mk.inj (Option.some.inj hcall)
    obtain ⟨n, hn, hsite, hhook⟩ := ho.exists_site (h.exists_puts hx rfl)
    have hlocals := ((Verifier.check_eq_ok_iff.1 h.checked).2 m h.mem).locals
    rw [MethodTrace.enterHook_eq (Nat.lt_of_le_of_lt hlocals m.maxLocals.toNat_lt)] at hhook
    obtain ⟨-, rfl, rfl⟩ := Instruction.hook.inj hhook
    have hmethod : e.site = MethodTrace.siteOf c.name m := by rw [HookAct.site, h.method, h.name]; rfl
    refine ⟨n, ((List.range m.requiredSlots).map fun k => HookOperand.slot (UInt16.ofNat k)).map e.frame.operand, hn,
      hmethod ▸ hsite, heq.symm, ?_⟩
    rw [hmethod]
    cases hs : m.isStatic <;> simp [MethodTrace.siteOf, Method.requiredSlots, Method.firstParamSlot, hs]
  | _ => cases hcall

/-- **An entry that is reported is one of the site that the own layer knows by the number of the method.** -/
theorem enters_of_enterOf (hu : u.Built) (ho : ∀ l ∈ u.layers, l.Orderly) {i : MethodTrace.Instrumentation}
    (hi : .methodTrace i ∈ u.own.instrumentation) {e : HookAct} {step : MethodTrace.Step} (hfound : e.frame.Found u)
    {x : Instruction} (hx : e.frame.method.code[e.frame.next]? = some x)
    (hcall : e.frame.hookCall? x = some (e.tracer, e.call))
    (h : MethodTrace.Recording.enterOf? i (e.tracer, e.call) = some step) : u.Enters e step := by
  obtain ⟨l, c, m, hruns⟩ := hfound.exists_runs hu
  have htracer : e.tracer = MethodTrace.id := by
    by_contra hne
    rw [MethodTrace.Recording.enterOf?, if_neg hne] at h
    cases h
  rw [htracer] at hcall
  obtain ⟨n, values, hn, hsite, heq, hlength⟩ := exists_number hruns (ho l hruns.mem_layers) hx hcall
  rw [heq] at h
  obtain ⟨k, own, receiver, arguments, hnumber, hown, hstep, hcarries⟩ := MethodTrace.Recording.exists_of_enterOf h
  obtain rfl := toInt_ofNat_eq hn hnumber
  have hown : u.own.site? k = some own := by
    rw [Layer.site?, (ho u.own (by simp [layers])).methodTrace?_eq hi, Option.bind_some, hown]
  have hsame : own = e.site → step.Carries e.site := by
    rintro rfl
    exact hcarries hlength
  refine ⟨⟨l, k, own, receiver, arguments, hruns.layer, hsite, hown, hstep, hsame⟩, fun hagree => hsame ?_⟩
  rcases hagree with hdefined | hagree
  · obtain ⟨d, hd⟩ := Option.isSome_iff_exists.1 hdefined
    obtain rfl : l = u.own := Option.some.inj (hruns.layer.symm.trans (layerOf?_own hd))
    exact Option.some.inj (hown.symm.trans hsite)
  · exact hagree l hruns.mem_layers k e.site own hsite hown

end LoadingUnit

/-! ### Runs -/

/-- The first things that a partial function makes of a list are those that it makes of a part of the list. -/
theorem exists_sublist_of_prefix {α β : Type} {f : α → Option β} {xs : List α} {l : List β}
    (h : l <+: xs.filterMap f) :
    ∃ ys, ys.Sublist xs ∧ List.Forall₂ (fun x y => x ∈ xs ∧ f x = some y) ys l := by
  induction xs generalizing l with
  | nil =>
    obtain rfl := List.prefix_nil.1 h
    exact ⟨[], .slnil, .nil⟩
  | cons x xs ih =>
    cases hx : f x with
    | none =>
      rw [List.filterMap_cons_none hx] at h
      obtain ⟨ys, hys, hl⟩ := ih h
      exact ⟨ys, hys.cons x, hl.imp fun _ _ hy => ⟨List.mem_cons_of_mem x hy.1, hy.2⟩⟩
    | some y =>
      rw [List.filterMap_cons_some hx] at h
      cases l with
      | nil => exact ⟨[], List.nil_sublist _, .nil⟩
      | cons z l =>
        obtain ⟨rfl, hrest⟩ := List.cons_prefix_cons.1 h
        obtain ⟨ys, hys, hl⟩ := ih hrest
        exact ⟨x :: ys, hys.cons_cons x,
          .cons ⟨List.mem_cons_self, hx⟩ (hl.imp fun _ _ hy => ⟨List.mem_cons_of_mem x hy.1, hy.2⟩)⟩

def HookAct.enter? (i : MethodTrace.Instrumentation) (e : HookAct) : Option MethodTrace.Step :=
  MethodTrace.Recording.enterOf? i (e.tracer, e.call)

/-- **The entries that are recorded in a run are the first of those that its hooks report.** -/
theorem Task.Schedules.keeps {t : Task} {s₀ : TaskState} {work : List WorkStep} {acts : List Act} {c : Scene}
    {n : Nat} (hstart : Recordings.start n t.unit.own.instrumentation = .ok s₀.recordings)
    (h : t.Schedules s₀ work acts c) {r : MethodTrace.Recording} (hr : c.shared.recordings.methodTrace? = some r) :
    .methodTrace r.instrumentation ∈ t.unit.own.instrumentation ∧
      r.Keeps ((acts.filterMap Act.hookAct?).filterMap (HookAct.enter? r.instrumentation)) := by
  revert r
  refine Task.Schedules.recorded (P := fun hooks rs => ∀ {r}, rs.methodTrace? = some r →
    .methodTrace r.instrumentation ∈ t.unit.own.instrumentation ∧
      r.Keeps (hooks.filterMap (HookAct.enter? r.instrumentation))) ?_ ?_ ?_ ?_ ?_ h
  · intro r hr
    obtain ⟨hi, hsteps⟩ := Recordings.methodTrace?_start hstart hr
    have hnone : r.report.steps = [] := by rw [MethodTrace.Recording.report, hsteps]
    exact ⟨hi, by simp [hnone], fun _ => by simp [hnone]⟩
  · -- a hook: the entry it reports, and the lines that others are told
    intro hooks rs e ih r' hr'
    obtain ⟨lines, hlines⟩ := rs.methodTrace?_onHook e.tracer e.call e.thread
    rw [Recordings.behind, hlines] at hr'
    obtain ⟨r, hr, rfl⟩ := Option.map_eq_some_iff.1 hr'
    obtain ⟨hi, hkeeps⟩ := ih hr
    rw [List.filterMap_append]
    split
    · -- it is the method trace's own
      next htracer =>
      obtain ⟨hcall, hsame⟩ := hkeeps.onHook e.call
      obtain ⟨hkept, hsame'⟩ := hcall.onLines lines
      rw [hsame', hsame]
      refine ⟨hi, ?_⟩
      have henter : [e].filterMap (HookAct.enter? r.instrumentation) =
          (MethodTrace.Recording.enterOf? r.instrumentation (MethodTrace.id, e.call)).toList := by
        rw [← htracer, List.filterMap_cons]
        cases hstep : HookAct.enter? r.instrumentation e with
        | none => exact hstep ▸ rfl
        | some step => exact hstep ▸ rfl
      exact henter ▸ hkept
    · -- it is another tracer's, so no entry comes of it
      next htracer =>
      obtain ⟨hkept, hsame⟩ := hkeeps.onLines lines
      have hnone : HookAct.enter? r.instrumentation e = none := if_neg htracer
      rw [hsame, List.filterMap_cons_none hnone, List.filterMap_nil, List.append_nil]
      exact ⟨hi, hkept⟩
  · -- resetting the lines leaves the entries
    intro hooks rs ih r hr
    exact ih (rs.methodTrace?_resetLines ▸ hr)
  · intro hooks rs x ih r hr
    exact ih (rs.methodTrace?_subscribe x ▸ hr)
  · intro hooks rs ih r hr
    exact ih hr

namespace Sandbox

/-- **The entries of a program that has been prepared.** -/
structure Prepared.RecordsEntries (u : LoadingUnit) (P : Prepared) : Prop where
  /-- whatever its work is and however its threads are scheduled, each entry that is recorded is one of a hook that was
  executed, in the order of these -/
  scheduled : ∀ {work : List WorkStep} {acts : List Act} {c : Scene} {r : MethodTrace.Recording},
    P.task.Schedules P.state work acts c → c.shared.recordings.methodTrace? = some r →
      ∃ hooks, hooks.Sublist (acts.filterMap Act.hookAct?) ∧
        List.Forall₂ u.Enters hooks (r.report.steps.filter (·.isEnter))
  /-- a run on a host is such a schedule -/
  executed : ∀ {σ : Type} (host : Host (StateM σ)) (work : List WorkStep) (limit : Nat) (w : σ),
    ∃ acts c, P.task.Schedules P.state work acts c ∧
      c.shared = (RunState.run host P.task P.state work limit w).1.shared

/-- **Every entry that is recorded is one of a hook that was executed,** and of the site that the own layer knows by the
number that the hook was bound to. So it tells the descriptor, the receiver and the parameters of the very method that
has executed the hook if this is one of an own class, and for classes of layers below if these have given no number
of the own layer to another site. Each layer may have any tracers, and be trusted or not; only probes may not put in
calls into the method trace, and no layer may have more sites than there are numbers of 64 bits. -/
theorem entries_of_prepare {u : LoadingUnit} (hu : u.Built) (ho : ∀ l ∈ u.layers, l.Orderly) {sb : Sandbox}
    {r : RegistryId} {sets : List LoadingUnit.ClassSets} {a : ExecutionArguments} {P : Prepared}
    (hP : sb.prepare r u sets a = .ok P) : P.RecordsEntries u where
  scheduled := by
    intro work acts c rec hacts hrec
    have hprepares := prepare_eq_ok_iff.1 hP
    have hunit : P.task.unit = u := by rw [hprepares.task]
    obtain ⟨hi, hkeeps⟩ := hacts.keeps (hunit.symm ▸ hprepares.started) hrec
    obtain ⟨hooks, hsublist, hsteps⟩ := exists_sublist_of_prefix hkeeps.first
    refine ⟨hooks, hsublist, hsteps.imp fun e step hstep => ?_⟩
    obtain ⟨hfound, x, hx, hcall⟩ := hacts.hookAct_found (hunit.symm ▸ hu) hstep.1
    exact LoadingUnit.enters_of_enterOf hu ho (hunit ▸ hi) (hunit ▸ hfound) hx hcall hstep.2
  executed host work limit w := by
    obtain ⟨acts, c, hacts, hshared, -⟩ := (prepare_eq_ok_iff.1 hP).scheduled host work limit w
    exact ⟨acts, c, hacts, hshared⟩

/-! ### A program on a library with a method trace -/

namespace Stacked

def helper : ClassFile := ⟨"Lib", none, [⟨"helper", true, [], 0, [.ret], []⟩]⟩

def caller : ClassFile := ⟨"Main", none, [⟨"main", true, [], 0, [.invokeStatic "Lib" "helper", .ret], []⟩]⟩

def library (origin : Origin) : LoadingUnit := OfClass.unitOn none ⟨1⟩ origin [helper] none (some .default)

def unit (origin : Origin) : LoadingUnit :=
  OfClass.unitOn (some (library origin)) ⟨2⟩ .untrusted [caller] none (some .default)

theorem built_unit (origin : Origin) : (unit origin).Built := by
  refine .build (fun v hv => ?_) (@OfClass.build_on (some (library origin)) _ _ _ _ _ (by decide) (by decide))
  obtain rfl : library origin = v := Option.some.inj hv
  exact .build (fun _ h => by cases h)
    (@OfClass.build_on none _ _ _ _ _ (by decide) (by cases origin <;> decide))

theorem orderly_unit (origin : Origin) : ∀ l ∈ (unit origin).layers, l.Orderly := by
  have few {origin : Origin} {c : ClassFile} (hc : methodCount [c] ≤ 2 ^ 64) :
      ∀ i ∈ (LoadingUnit.weave origin none (some .default) [c]).method, i.sites.size ≤ 2 ^ 64 := fun i hi =>
    (LoadingUnit.size_weave origin none (some .default) [c] i hi).trans hc
  intro l hl
  rcases List.mem_cons.1 hl with rfl | hl
  · exact Layer.orderly_of_traces rfl (fun i hi => by cases hi) (few (c := caller) (by decide))
  · obtain rfl : l = (library origin).own := List.mem_singleton.1 hl
    exact Layer.orderly_of_traces rfl (fun i hi => by cases hi) (few (c := helper) (by decide))

theorem sitesAgree_unit : (unit .trusted).SitesAgree := by
  intro l hl n site own hsite hown
  rcases List.mem_cons.1 hl with rfl | hl
  · exact Option.some.inj (hown.symm.trans hsite)
  · obtain rfl : l = (library .trusted).own := List.mem_singleton.1 hl
    have hnone : (library .trusted).own.site? n = (#[] : Array MethodTrace.Site)[n]? := rfl
    rw [hnone] at hsite
    simp at hsite

def names (steps : List MethodTrace.Step) : List String :=
  steps.filterMap fun
    | .enter method _ _ => some method
    | .line _ _ => none

def executed (P : Prepared) (n : Nat) : List String :=
  ((EntryPoint.default.playedAlone P.task P.state n).1.filterMap Act.hookAct?).map (·.site.descriptor)

def recorded (P : Prepared) (n : Nat) : Option (List String) :=
  (EntryPoint.default.playedAlone P.task P.state n).2.recordings.methodTrace?.map fun r => names r.report.steps

end Stacked

/-- A program on a trusted library: the entry of the library's method is not recorded. -/
theorem entries_of_prepare_stacked : ∃ P, empty.prepare ⟨0⟩ (Stacked.unit .trusted) [] .default = .ok P ∧
    P.RecordsEntries (Stacked.unit .trusted) ∧ (Stacked.unit .trusted).SitesAgree ∧
    Stacked.executed P 4 = ["static Main.main()"] ∧ Stacked.recorded P 4 = some ["static Main.main()"] := by
  obtain ⟨P, hP⟩ : ∃ P, empty.prepare ⟨0⟩ (Stacked.unit .trusted) [] .default = .ok P := ⟨_, rfl⟩
  refine ⟨P, hP, entries_of_prepare (Stacked.built_unit _) (Stacked.orderly_unit _) hP, Stacked.sitesAgree_unit, ?_, ?_⟩
  · cases hP
    decide +kernel
  · cases hP
    decide +kernel

/-- **Entries of a library with a method trace of its own are told as those of the program.** -/
theorem not_entries_own : ¬ ∀ (u : LoadingUnit) (P : Prepared) (work : List WorkStep) (acts : List Act) (c : Scene)
    (r : MethodTrace.Recording), u.Built → empty.prepare ⟨0⟩ u [] .default = .ok P →
      P.task.Schedules P.state work acts c → c.shared.recordings.methodTrace? = some r →
        ∃ hooks, hooks.Sublist (acts.filterMap Act.hookAct?) ∧
          List.Forall₂ (fun e step => step.Carries e.site) hooks (r.report.steps.filter (·.isEnter)) := by
  intro h
  obtain ⟨P, hP⟩ : ∃ P, empty.prepare ⟨0⟩ (Stacked.unit .untrusted) [] .default = .ok P := ⟨_, rfl⟩
  have hexecuted : Stacked.executed P 4 = ["static Main.main()", "static Lib.helper()"] := by
    cases hP
    decide +kernel
  have hrecorded : Stacked.recorded P 4 = some ["static Main.main()", "static Main.main()"] := by
    cases hP
    decide +kernel
  obtain ⟨c, hacts, hc⟩ := EntryPoint.default.exists_playedAlone P.task P.state 4
  rw [Stacked.recorded, ← hc] at hrecorded
  obtain ⟨r, hr, hnames⟩ := Option.map_eq_some_iff.1 hrecorded
  obtain ⟨hooks, hsublist, hcarries⟩ := h _ P _ _ c r (Stacked.built_unit _) hP hacts hr
  have told {hooks : List HookAct} {steps : List MethodTrace.Step}
      (h : List.Forall₂ (fun e step => step.Carries e.site) hooks steps) :
      hooks.map (·.site.descriptor) = Stacked.names steps := by
    induction h with
    | nil => rfl
    | @cons e step _ _ he _ ih =>
      cases step with
      | enter method receiver arguments =>
        obtain ⟨rfl, -⟩ := he
        exact congrArg _ ih
      | line source n => exact he.elim
  have hsame : Stacked.names (r.report.steps.filter (·.isEnter)) = Stacked.names r.report.steps := by
    rw [Stacked.names, List.filterMap_filter]
    refine List.filterMap_congr fun step _ => ?_
    cases step <;> rfl
  have hmap := hsublist.map (·.site.descriptor)
  have hexecuted' : (_ : List HookAct).map _ = _ := hexecuted
  rw [told hcarries, hsame, hnames, hexecuted'] at hmap
  revert hmap
  decide

end Sandbox

end Confine
