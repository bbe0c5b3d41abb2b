import Confine.Proofs.Sandbox.Alone
import Confine.Proofs.Sandbox.Prepared
import Confine.Proofs.Tracing.Lockstep
import Confine.Proofs.Tracing.Reverified

/-!
# Tracing changes nothing that a program does

Two threads that run alone, one without tracers and one with them, go the same way (`Solo.Alike`); the one with tracers
makes extra steps, at hooks, but never without end (`Solo.rank`).

* `Solo.Alike.exists_iterate` — wherever the thread without tracers comes, the other comes too;
* `Solo.Alike.exists_iterate_back` — and the other way round;
* `Sandbox.prepare_agree` — the two runs are prepared alike;
* `Sandbox.traced_transparent` — the same for units and rosters: with tracers a program ends exactly if it ends without,
  with the same result, output, decisions, requests to the host and classes.
-/

namespace Confine

/-! ### Places of two threads -/

/-- The threads are in frames that shadow each other, or have ended in the same way. -/
inductive Stand.Alike : Stand → Stand → Prop where
  | running {frames frames' : List Frame} (h : ShadowStack frames frames') :
      Alike (.running frames) (.running frames')
  | ended (r : Except Fault Value) : Alike (.ended r) (.ended r)

namespace Solo

variable {σ : Type}

/-- **Two threads that run alone differ in what tracers have recorded only**, and in hooks that the
second has not run yet. -/
structure Alike (x x' : Solo σ) : Prop where
  shared : x.shared.Alike x'.shared
  stand : x.stand.Alike x'.stand
  written : x'.written = x.written
  host : x'.host = x.host

/-- The thread does not read a class file of its own unit next. -/
def ReadsNoClass (t : Task) (x : Solo σ) : Prop :=
  ∀ frames, x.stand = .running frames → t.ReadsNoClass frames

/-- How many instructions are ahead in the innermost method. -/
def rank (x : Solo σ) : Nat :=
  match x.stand with
  | .running (f :: _) => f.method.code.size - f.next
  | _ => 0

namespace Alike

variable {t t' : Task} {x x' : Solo σ}

theorem ended_iff (h : x.Alike x') (r : Except Fault Value) :
    x'.stand = .ended r ↔ x.stand = .ended r := by
  have hstand := h.stand
  generalize x.stand = a at hstand
  generalize x'.stand = b at hstand
  cases hstand with
  | running h => simp
  | ended r => rfl

theorem ofProgress {p p' : Progress} (h : p.Alike p') (written : List (Console × String)) (w : σ) :
    (Solo.ofProgress written w p).Alike (Solo.ofProgress written w p') := by
  cases h with
  | running hs hf => exact ⟨hs, .running hf, rfl, rfl⟩
  | waiting hs hf w => exact ⟨hs, .running hf, rfl, rfl⟩
  | ended hs r => exact ⟨hs, .ended r, rfl, rfl⟩

theorem start (ht : t.Counterpart t') {s s' : TaskState} (hs : s.Alike s')
    (className methodName : String) (arguments : List Value) (w : σ) :
    (Solo.start t s className methodName arguments w).Alike
      (Solo.start t' s' className methodName arguments w) := by
  obtain ⟨hf, hs⟩ := Activation.start_alike ht hs className methodName arguments
  unfold Solo.start
  generalize Activation.start t s className methodName arguments = p at hf hs
  generalize Activation.start t' s' className methodName arguments = p' at hf hs
  obtain ⟨r, s⟩ := p
  obtain ⟨r', s'⟩ := p'
  dsimp only at hf hs
  cases hf with
  | ok hg => exact ⟨hs, .running (.cons hg .nil), rfl, rfl⟩
  | error e => exact ⟨hs, .ended _, rfl, rfl⟩

variable (answer : (r : HostRequest) → StateM σ r.Answer)

theorem exists_running (h : x.Alike x') {frames : List Frame} (hx : x.stand = .running frames) :
    ∃ frames', x'.stand = .running frames' ∧ ShadowStack frames frames' := by
  have hstand := h.stand
  rw [hx] at hstand
  generalize x'.stand = b at hstand
  cases hstand with
  | running hf => exact ⟨_, rfl, hf⟩

theorem step_of_rel (h : x.Alike x') {frames frames' : List Frame} (hx : x.stand = .running frames)
    (hx' : x'.stand = .running frames')
    (hstep : Query.Rel Progress.Alike (Activation.step t 0 x.shared frames)
      (Activation.step t' 0 x'.shared frames'))
    (hwrites : Activation.nextWrites x'.shared frames' = Activation.nextWrites x.shared frames) :
    (x.step t answer).Alike (x'.step t' answer) := by
  obtain ⟨hp, hw⟩ := hstep.answered answer x.host
  rw [step_of_running t answer hx, step_of_running t' answer hx', h.written, h.host, hwrites, ← hw]
  exact .ofProgress hp _ _

/-- The thread with tracers runs a hook alone. -/
theorem step_of_hook (h : x.Alike x') {frames : List Frame} {f' : Frame} {outer' : List Frame}
    {s'' : TaskState} (hx : x.stand = .running frames) (hx' : x'.stand = .running (f' :: outer'))
    (hlt : f'.next < f'.method.code.size)
    (hstep : Activation.step t' 0 x'.shared (f' :: outer') =
      .done (.running s'' ({ f' with next := f'.next + 1 } :: outer')))
    (hs : x.shared.Alike s'') (hf : ShadowStack frames ({ f' with next := f'.next + 1 } :: outer'))
    (hwrites : Activation.nextWrites x'.shared (f' :: outer') = []) :
    x.Alike (x'.step t' answer) ∧ (x'.step t' answer).rank < x'.rank := by
  rw [step_of_running t' answer hx', h.written, h.host, hstep, hwrites, List.append_nil,
    Query.answered_done]
  refine ⟨⟨hs, ?_, rfl, rfl⟩, ?_⟩
  · rw [hx]
    exact .running hf
  · simp only [rank, hx', Solo.ofProgress]
    omega

/-- **One step**: both threads make it, or the one with tracers runs a hook. -/
theorem step (ht : t.Counterpart t') (h : x.Alike x') (hread : x.ReadsNoClass t) :
    (x.step t answer).Alike (x'.step t' answer) ∨
      x.Alike (x'.step t' answer) ∧ (x'.step t' answer).rank < x'.rank := by
  cases hx : x.stand with
  | ended r =>
    rw [step_of_ended t answer hx, step_of_ended t' answer ((h.ended_iff r).2 hx)]
    exact .inl h
  | running frames =>
    obtain ⟨frames', hx', hf⟩ := h.exists_running hx
    rcases Activation.step_alike ht h.shared hf (hread frames hx) 0 with
      ⟨hstep, hwrites⟩ | ⟨f', outer', s'', rfl, hlt, hstep, hs'', hf', hwrites⟩
    · exact .inl (h.step_of_rel answer hx hx' hstep hwrites)
    · exact .inr (h.step_of_hook answer hx hx' hlt hstep hs'' hf' hwrites)

/-- What one thread does in a step, the one with tracers does too, after the hooks on its way. -/
theorem exists_step (ht : t.Counterpart t') (h : x.Alike x') (hread : x.ReadsNoClass t) :
    ∃ k, (x.step t answer).Alike ((Solo.step t' answer)^[k] x') := by
  induction hn : x'.rank using Nat.strongRecOn generalizing x' with
  | ind n ih =>
    rcases h.step answer ht hread with h' | ⟨h', hlt⟩
    · exact ⟨1, h'⟩
    · obtain ⟨k, hk⟩ := ih _ (hn ▸ hlt) h' rfl
      exact ⟨k + 1, by rwa [Function.iterate_succ_apply]⟩

section Runs

variable (ht : t.Counterpart t') (h : x.Alike x')
  (hread : ∀ n, ((Solo.step t answer)^[n] x).ReadsNoClass t)

include ht h hread

/-- **Wherever the thread without tracers comes, the one with them comes too.** -/
theorem exists_iterate (n : Nat) :
    ∃ n', ((Solo.step t answer)^[n] x).Alike ((Solo.step t' answer)^[n'] x') := by
  induction n with
  | zero => exact ⟨0, h⟩
  | succ n ih =>
    obtain ⟨n', hn⟩ := ih
    obtain ⟨k, hk⟩ := hn.exists_step answer ht (hread n)
    rw [Function.iterate_succ_apply']
    exact ⟨k + n', by rwa [Function.iterate_add_apply]⟩

/-- **Wherever the thread with tracers comes, the one without them comes too.** -/
theorem exists_iterate_back (n' : Nat) :
    ∃ n, ((Solo.step t answer)^[n] x).Alike ((Solo.step t' answer)^[n'] x') := by
  induction n' with
  | zero => exact ⟨0, h⟩
  | succ n' ih =>
    obtain ⟨n, hn⟩ := ih
    rw [Function.iterate_succ_apply' _ n']
    rcases hn.step answer ht (hread n) with h' | ⟨h', -⟩
    · exact ⟨n + 1, by rwa [Function.iterate_succ_apply']⟩
    · exact ⟨n, h'⟩

end Runs

end Alike

/-! ### Ends -/

/-- The thread never reads a class file of its own unit. -/
def NeverReads (t : Task) (answer : (r : HostRequest) → StateM σ r.Answer) (x : Solo σ) : Prop :=
  ∀ n, ((step t answer)^[n] x).ReadsNoClass t

/-- Code that never asks for a file never reads one. -/
theorem neverReads_of_calls {t : Task} (answer : (r : HostRequest) → StateM σ r.Answer) {x : Solo σ}
    (hx : x.Reaches t) (hcode : ∀ g, t.Calls g → .host .readFile ∉ g.method.code) :
    x.NeverReads t answer := by
  intro n frames hstand f hf hread
  have hf' := (reaches_iterate t answer hx n frames hstand).invariant hcode
    (fun f g hk hf => hk.method ▸ hf) f (List.mem_of_head? hf)
  exact absurd (Array.mem_of_getElem? hread) hf'

/-- **A thread with tracers goes the way of the thread without them.** -/
structure Transparent (t t' : Task) (answer : (r : HostRequest) → StateM σ r.Answer)
    (x x' : Solo σ) : Prop where
  onward : ∀ n, ∃ n', ((step t answer)^[n] x).Alike ((step t' answer)^[n'] x')
  back : ∀ n', ∃ n, ((step t answer)^[n] x).Alike ((step t' answer)^[n'] x')
  /-- one ends exactly if the other does, and in the same way -/
  ends : ∀ r, (∃ n, ((step t answer)^[n] x).stand = .ended r) ↔
    ∃ n', ((step t' answer)^[n'] x').stand = .ended r
  /-- where they have ended, all that they have done is the same -/
  same : ∀ {n n' : Nat} {r r' : Except Fault Value}, ((step t answer)^[n] x).stand = .ended r →
    ((step t' answer)^[n'] x').stand = .ended r' →
      r' = r ∧ ((step t answer)^[n] x).Alike ((step t' answer)^[n'] x')

theorem Alike.transparent {t t' : Task} {answer : (r : HostRequest) → StateM σ r.Answer}
    {x x' : Solo σ} (ht : t.Counterpart t') (h : x.Alike x') (hread : x.NeverReads t answer) :
    Transparent t t' answer x x' where
  onward := h.exists_iterate answer ht hread
  back := h.exists_iterate_back answer ht hread
  ends r := by
    constructor
    · rintro ⟨n, hn⟩
      obtain ⟨n', ha⟩ := h.exists_iterate answer ht hread n
      exact ⟨n', (ha.ended_iff r).2 hn⟩
    · rintro ⟨n', hn'⟩
      obtain ⟨n, ha⟩ := h.exists_iterate_back answer ht hread n'
      exact ⟨n, (ha.ended_iff r).1 hn'⟩
  same {n n' r r'} hn hn' := by
    obtain ⟨k', ha⟩ := h.exists_iterate answer ht hread n
    have hk' := (ha.ended_iff r).2 hn
    rw [iterate_eq_of_ended t' answer hk' hn'] at ha hk'
    rw [hk'] at hn'
    exact ⟨(Stand.ended.inj hn').symm, ha⟩

end Solo

/-! ### Preparing the runs -/

namespace Sandbox

/-- Two runs begin alike: for units that differ in hooks only, in states that differ in recordings only. -/
structure Prepared.Counterpart (P P' : Prepared) : Prop where
  token : P'.token = P.token
  task : P.task.Counterpart P'.task
  state : P.state.Alike P'.state

/-- **Runs with and without tracers are prepared alike**, if tracers never interrupt. -/
theorem prepare_agree {u u' : LoadingUnit} (hu : u.Counterpart u')
    (hplain : u.own.instrumentation = []) {line : Option LineTrace.Instrumentation}
    {method : Option MethodTrace.Instrumentation}
    (htraced : u'.own.instrumentation = Instrumentation.traces line method)
    (hline : ∀ i ∈ line, i.arguments.runLineLimit = none) (sb : Sandbox) (r : RegistryId)
    (sets : List LoadingUnit.ClassSets) {a : ExecutionArguments} (ha : a.maxExtraThreads = 0) :
    Agree Prepared.Counterpart (sb.prepare r u sets a) (sb.prepare r u' sets a) := by
  obtain ⟨rs, hrs, hquiet⟩ := Recordings.quiet_start hline method
  obtain ⟨rs₀, hrs₀, hquiet₀⟩ := @Recordings.quiet_start none (by simp) none
  have hstart : Agree (fun rs rs' : Recordings => rs.Quiet ∧ rs'.Quiet)
      (Recordings.start a.maxExtraThreads u.own.instrumentation)
      (Recordings.start a.maxExtraThreads u'.own.instrumentation) := by
    rw [ha, hplain, htraced, hrs]
    exact hrs₀ ▸ .ok ⟨hquiet₀, hquiet⟩
  refine (prepare_begins hu.id hstart sb r sets).imp fun P P' hP h => ?_
  have hunit : P.task.unit = u := by rw [(prepare_eq_ok_iff.1 hP).task]
  refine ⟨h.token, ?_, ?_⟩
  · rw [h.task]
    exact ⟨hunit ▸ hu, rfl, rfl⟩
  · rw [h.state]
    exact .mk h.recordings.1 h.recordings.2

/-- The entry points are the same. -/
theorem checkEntry_eq {u u' : LoadingUnit} (hu : u.Counterpart u') (e : EntryPoint) :
    checkEntry u' e = checkEntry u e := by
  have hrel := hu.findClass_rel e.className
  unfold checkEntry
  generalize u.findClass e.className = o at hrel
  generalize u'.findClass e.className = o' at hrel
  cases hrel with
  | none => rfl
  | @some c c' hc =>
    have hmethod := hc.method?_rel e.methodName
    dsimp only
    generalize c.method? e.methodName = m at hmethod
    generalize c'.method? e.methodName = m' at hmethod
    cases hmethod with
    | none => rfl
    | some hm =>
      obtain ⟨A⟩ := hm
      dsimp only
      rw [A.method]
      rfl

/-! ### What is left of the runs -/

/-- Two results differ in what tracers report only. -/
def SameButTracers (x x' : ExecutionResult) : Prop :=
  x' = { x with tracerResults := x'.tracerResults }

theorem conclude_ofCall_alike {P P' : Prepared} (hP : P.Counterpart P') {s s' : TaskState}
    (hs : s.Alike s') (r : RegistryId) (rec : Record) (e : Except Fault Value) :
    (conclude r P rec (.ofCall s e)).Alike SameButTracers (conclude r P' rec (.ofCall s' e)) := by
  cases hs with
  | @mk recordings h h' =>
    have hresult : ∀ log output, Agree SameButTracers
        (resultOf rec s.cancel (some (.finished e)) log output)
        (resultOf rec { s with recordings := recordings }.cancel (some (.finished e)) log output) := by
      intro log output
      unfold resultOf
      cases conclusion (some (.finished e)) with
      | error fault => exact .error fault
      | ok q => exact .ok rfl
    exact conclude_alike hP.token hP.task.unit.id (by rfl) (by rfl) hresult r

/-- The thread that runs the entry point alone. -/
def Prepared.solo {τ : Type} (P : Prepared) (e : EntryPoint) (v : τ) : Solo τ :=
  .start P.task P.state e.className e.methodName [] v

/-- **What tracers leave as it is.** The entry point runs the same way; and if the runs on two hosts with the
same answers are not cut off by their limits, they are concluded alike. -/
structure Prepared.Transparent (r : RegistryId) (e : EntryPoint) (P P' : Prepared) : Prop where
  solo : ∀ {τ : Type} (answer : (r : HostRequest) → StateM τ r.Answer) (v : τ),
    (P.solo e v).NeverReads P.task answer →
      Solo.Transparent P.task P'.task answer (P.solo e v) (P'.solo e v)
  run : ∀ {σ σ' τ : Type} {answer : (r : HostRequest) → StateM τ r.Answer} {host : Host (StateM σ)}
    {host' : Host (StateM σ')} {view : σ → τ} {view' : σ' → τ} {w : σ} {w' : σ'}
    (limit limit' : Nat) (rec : Record),
    host.Serves answer view → host'.Serves answer view' → view' w' = view w →
    (P.solo e (view w)).NeverReads P.task answer →
    let q := RunState.run host P.task P.state e.work limit w
    let q' := RunState.run host' P'.task P'.state e.work limit' w'
    q.1.outcome ≠ none → q'.1.outcome ≠ none →
      (conclude r P rec q.1).Alike SameButTracers (conclude r P' rec q'.1) ∧ view' q'.2 = view q.2

theorem Prepared.Counterpart.lonely {P P' : Prepared} (h : P.Counterpart P') (hlonely : P.state.Lonely) :
    P'.state.Lonely := by
  have hstate := h.state
  generalize P'.state = s' at hstate
  cases hstate with
  | mk _ _ => exact ⟨hlonely.nextThread, hlonely.finished, hlonely.starting⟩

theorem Prepared.Counterpart.transparent {P P' : Prepared} (h : P.Counterpart P')
    (hlonely : P.state.Lonely) (ht : P.task.maxExtraThreads = 0) (r : RegistryId) (e : EntryPoint) :
    P.Transparent r e P' := by
  have hsolo : ∀ {τ : Type} (answer : (r : HostRequest) → StateM τ r.Answer) (v : τ),
      (P.solo e v).NeverReads P.task answer →
        Solo.Transparent P.task P'.task answer (P.solo e v) (P'.solo e v) := fun answer v hread =>
    (Solo.Alike.start h.task h.state e.className e.methodName [] v).transparent h.task hread
  refine ⟨hsolo, ?_⟩
  intro σ σ' τ answer host host' view view' w w' limit limit' rec hs hs' hw hread q q' ho ho'
  have ht' : P'.task.maxExtraThreads = 0 := h.task.maxExtraThreads.trans ht
  obtain ⟨n, res, hend, hq, hv⟩ := (RunState.run_alone ht hs hlonely e limit w).resolve_left ho
  obtain ⟨n', res', hend', hq', hv'⟩ :=
    (RunState.run_alone ht' hs' (h.lonely hlonely) e limit' w').resolve_left ho'
  rw [hw] at hend' hq' hv'
  obtain ⟨rfl, halike⟩ := (hsolo answer (view w) hread).same hend hend'
  refine ⟨?_, hv'.trans (halike.host.trans hv.symm)⟩
  dsimp only [q, q']
  rw [hq, hq']
  exact conclude_ofCall_alike h halike.shared r rec _

theorem sample_not_mem_readFile {t : Task} (ht : t.unit = Sample.unit) {g : Frame} (h : t.Calls g) :
    .host .readFile ∉ g.method.code := by
  obtain ⟨l, hl, e, he, hm⟩ := h.exists_method
  rw [ht] at hl
  obtain rfl := List.mem_singleton.1 hl
  obtain rfl := List.mem_singleton.1 he
  have hcode : ∀ m ∈ (LinkedClass.ofClassFile Sample.main).methods,
      .host .readFile ∉ m.code.toList := by decide
  exact fun hread => hcode _ hm (Array.mem_toList_iff.2 hread)

/-- **Tracing is transparent.** Take a program whose unit is built without tracers and with the line trace
without a limit of lines, the method trace, or both. Without extra threads both runs begin alike, or fail
alike, and if the program never reads its own class files, the one with tracers goes the same way. -/
theorem traced_transparent {tracers : List Tracer} (hp : ∀ t ∈ tracers, ∀ a, t ≠ .probe a)
    (hl : ∀ a, .lineTrace a ∈ tracers → a.runLineLimit = none) {roster : Roster Tracer}
    (hr : Roster.empty.addAll tracers = .ok roster) {p : LoadingUnit.Plan} {id : UnitId}
    {u u' : LoadingUnit} (hu : LoadingUnit.build { p with tracers := .empty } id = .ok u)
    (hu' : LoadingUnit.build { p with tracers := roster } id = .ok u') (sb : Sandbox)
    (r : RegistryId) (sets : List LoadingUnit.ClassSets) {a : ExecutionArguments}
    (ha : a.maxExtraThreads = 0) (e : EntryPoint) :
    checkEntry u' e = checkEntry u e ∧
      Agree (Prepared.Transparent r e) (sb.prepare r u sets a) (sb.prepare r u' sets a) := by
  obtain ⟨line, method, rfl, hmembers⟩ := (Roster.addAll_eq_ok_iff hp).1 hr
  obtain ⟨hunit, hplain, line', method', htraced, harguments⟩ :=
    LoadingUnit.counterpart_of_build hu hu'
  have hline : ∀ i ∈ line', i.arguments.runLineLimit = none := by
    intro i hi
    refine hl _ ?_
    rw [hi] at harguments
    rw [hmembers, ← harguments]
    simp [Roster.traces]
  have hagree := prepare_agree hunit hplain htraced hline sb r sets ha
  refine ⟨checkEntry_eq hunit e, hagree.imp fun P P' hP h => ?_⟩
  have hprepares := prepare_eq_ok_iff.1 hP
  have ht : P.task.maxExtraThreads = 0 := by rw [hprepares.task, ha]
  exact h.transparent hprepares.lonely ht r e

/-- The program of the sample, with both tracers, is refused the variable that it asks for as it is
without them. -/
theorem traced_transparent_sample :
    ∃ u' P', LoadingUnit.build { Sample.plan with
        tracers := .traces (some .default) (some .default) } ⟨1⟩ = .ok u' ∧
      empty.prepare ⟨0⟩ u' [] .default = .ok P' ∧
      ∀ {τ : Type} (answer : (r : HostRequest) → StateM τ r.Answer) (v : τ),
        ∃ n, ((Solo.step P'.task answer)^[n] (P'.solo .default v)).stand =
          .ended (.error (.security (.readEnv "HOME"))) := by
  obtain ⟨u', hu'⟩ : ∃ u', LoadingUnit.build { Sample.plan with
      tracers := .traces (some .default) (some .default) } ⟨1⟩ = .ok u' := by
    refine (@LoadingUnit.exists_build_traces_iff Sample.plan ⟨1⟩ Sample.unit Sample.build_plan
      (some .default) (some .default)).2 fun e he c hc => ?_
    obtain rfl := List.mem_singleton.1 he
    exact Option.some.inj (Sample.decodeBytes?_bytes.symm.trans hc) ▸ by decide
  obtain ⟨-, hagree⟩ := @traced_transparent [.lineTrace .default, .methodTrace .default] (by simp)
    (by simp [LineTrace.Arguments.default]) (.traces (some .default) (some .default)) rfl
    Sample.plan ⟨1⟩ Sample.unit u' Sample.build_plan hu' empty ⟨0⟩ [] .default rfl .default
  obtain ⟨P, hP⟩ : ∃ P, empty.prepare ⟨0⟩ Sample.unit [] .default = .ok P := ⟨_, rfl⟩
  rw [hP] at hagree
  generalize hP' : empty.prepare ⟨0⟩ u' [] .default = e' at hagree
  cases hagree with
  | @ok _ P' h =>
    refine ⟨u', P', hu', hP', fun answer v => ?_⟩
    refine ((h.solo answer v (Solo.neverReads_of_calls answer ?_ ?_)).ends _).1 ⟨4, ?_⟩
    · exact Solo.reaches_start _ _ _ _ _ _
    · cases hP
      exact fun g => sample_not_mem_readFile rfl
    · cases hP
      rfl

end Sandbox

end Confine
