import Confine.Proofs.Sandbox.Audited
import Confine.Proofs.Tracing.CutShort
import Confine.Proofs.Tracing.Transparent

/-!
# Runs with a limit of lines

* `Sandbox.prepare_within` — runs are prepared with a limit of lines as they are without one;
* `Sandbox.conclude_told`, `Sandbox.stoppedBy_of_conclude` — what two threads have done alike is concluded alike, and a
  run that the limit has cut short is concluded as such;
* `Sandbox.Prepared.Within.exists_stop` — there is a place where a thread stops that counts more lines than the limit;
* `Sandbox.lineLimit_cutsShort` — **a limit of lines only cuts a run short**.
-/

namespace Confine

open LineTrace (Limit)

theorem Instrumentation.within_of_ne {i : Instrumentation} (h : i.id ≠ LineTrace.id) (l : Limit) :
    i.within l = i := by
  cases i with
  | lineTrace i => exact absurd rfl h
  | methodTrace i => rfl
  | probe a active => rfl

namespace Sandbox

/-! ### Preparing the runs -/

/-- A run that begins without a limit of lines, with the arguments `a` of its line trace, and one that
begins with a limit. -/
structure Prepared.Within (a : LineTrace.Arguments) (l : Limit) (P P' : Prepared) : Prop where
  token : P'.token = P.token
  task : ∃ is, P'.task = P.task.tracedBy is
  state : ∃ rs', P.state.recordings.Within l rs' ∧ P'.state = P.state.told rs' none
  killReason : P.state.killReason = none
  traced : P.state.recordings.traced = ⟨a, [], 0⟩

/-- **Runs are prepared with a limit of lines as they are without one.** -/
theorem prepare_within {u : LoadingUnit} {front rest : List Instrumentation}
    {i : LineTrace.Instrumentation} (hu : u.own.instrumentation = front ++ .lineTrace i :: rest)
    (hi : i.arguments.runLineLimit = none) (hfront : ∀ j ∈ front, j.id ≠ LineTrace.id)
    (hrest : ∀ j ∈ rest, j.id ≠ LineTrace.id) (l : Limit) (sb : Sandbox) (r : RegistryId)
    (sets : List LoadingUnit.ClassSets) (a : ExecutionArguments) :
    Agree (Prepared.Within i.arguments l) (sb.prepare r u sets a)
      (sb.prepare r (u.within l) sets a) := by
  have hu' : (u.within l).own.instrumentation = front ++ .lineTrace (i.within l) :: rest := by
    have same : ∀ is : List Instrumentation, (∀ j ∈ is, j.id ≠ LineTrace.id) →
        is.map (Instrumentation.within l) = is := fun is his =>
      (List.map_congr_left fun j hj => Instrumentation.within_of_ne (his j hj) l).trans
        (List.map_id' is)
    show u.own.instrumentation.map (Instrumentation.within l) = _
    rw [hu, List.map_append, List.map_cons, same front hfront, same rest hrest]
    rfl
  have hstart : Agree (fun rs rs' : Recordings => rs.Within l rs' ∧ rs.traced = ⟨i.arguments, [], 0⟩)
      (Recordings.start a.maxExtraThreads u.own.instrumentation)
      (Recordings.start a.maxExtraThreads (u.within l).own.instrumentation) := by
    rw [hu, hu']
    rcases Recordings.start_around hfront hrest a.maxExtraThreads with ⟨e, he⟩ | ⟨c, subscribers, hc⟩
    · rw [he, he]
      exact .error _
    · have hwithin := LineTrace.Recording.within_start hi l subscribers
      rw [hc, hc]
      refine .ok ⟨⟨c, _, _, rfl, rfl, hwithin⟩, ?_⟩
      rw [Recordings.traced_fill, hwithin.single.report_eq]
      rfl
  have hid : (u.within l).id = u.id := rfl
  refine (prepare_begins hid hstart sb r sets).imp fun P P' hP h => ?_
  have hprepares := prepare_eq_ok_iff.1 hP
  have hunit : P.task.unit = u := by rw [hprepares.task]
  have hreason : P.state.killReason = none := by rw [hprepares.state]
  refine ⟨h.token, ⟨u.own.instrumentation.map (.within l), ?_⟩, ⟨_, h.recordings.1, ?_⟩, hreason,
    h.recordings.2⟩
  · rw [h.task, Task.tracedBy, hunit]
    rfl
  · rw [h.state, TaskState.told, ← hreason]

/-- The thread that runs the entry point, after `n` steps. -/
def Prepared.soloAfter {τ : Type} (P : Prepared) (e : EntryPoint)
    (answer : (r : HostRequest) → StateM τ r.Answer) (v : τ) (n : Nat) : Solo τ :=
  (Solo.step P.task answer)^[n] (P.solo e v)

/-- The threads that run the entry point. -/
theorem Prepared.Within.solo {a : LineTrace.Arguments} {l : Limit} {P P' : Prepared}
    (h : P.Within a l P') (e : EntryPoint) {τ : Type} (v : τ) :
    (P.solo e v).Within l (P'.solo e v) ∧ (P.solo e v).traced = ⟨a, [], 0⟩ := by
  obtain ⟨-, ⟨is, htask⟩, ⟨rs', hrs, hstate⟩, hreason, htraced⟩ := h
  have hself : P.solo e v = (P.solo e v).told P.state.recordings P.state.killReason :=
    Solo.start_told P.task P.task.unit.own.instrumentation P.state P.state.recordings
      P.state.killReason e.className e.methodName [] v
  have hrecordings : (P.solo e v).shared.recordings = P.state.recordings :=
    congrArg (·.shared.recordings) hself
  have hkill : (P.solo e v).shared.killReason = none :=
    (congrArg (·.shared.killReason) hself).trans hreason
  refine ⟨⟨.inl hkill, rs', hrecordings ▸ hrs, ?_⟩, ?_⟩
  · rw [hkill, Prepared.solo, htask, hstate, Solo.start_told]
    rfl
  · rw [Solo.traced, hrecordings, htraced]

/-! ### What is left of the runs -/

/-- Two results are the same, but for the arguments that the line trace reports with what it has found. -/
structure SameButLimit (l : Limit) (R : LineTrace.Result) (x x' : ExecutionResult) : Prop where
  same : x' = { x with tracerResults := x'.tracerResults }
  results : ∃ front rest, (∀ e ∈ front ++ rest, e.1 ≠ LineTrace.id) ∧
    x.tracerResults = front ++ (LineTrace.id, R.toJson) :: rest ∧
    x'.tracerResults = front ++ (LineTrace.id, (R.within l).toJson) :: rest

theorem exists_results {l : Limit} {rs rs' : Recordings} (h : rs.FoundWithin l rs') :
    ∃ front rest, (∀ e ∈ front ++ rest, e.1 ≠ LineTrace.id) ∧
      rs.results = front ++ (LineTrace.id, rs.traced.toJson) :: rest ∧
      rs'.results = front ++ (LineTrace.id, (rs.traced.within l).toJson) :: rest := by
  obtain ⟨c, r, r', rfl, rfl, hreport⟩ := h
  obtain ⟨front, rest, hne, hresults⟩ := c.results_fill
  refine ⟨front, rest, hne, ?_, ?_⟩
  · rw [hresults, Recordings.traced_fill]
  · rw [hresults, Recordings.traced_fill, hreport]

/-- **What has been done alike is concluded alike.** -/
theorem conclude_told {a : LineTrace.Arguments} {l : Limit} {P P' : Prepared} (hP : P.Within a l P')
    {s : TaskState} {rs' : Recordings} (h : s.recordings.FoundWithin l rs') (r : RegistryId)
    (rec : Record) (e : Except Fault Value) :
    (conclude r P rec (.ofCall s e)).Alike (SameButLimit l s.recordings.traced)
      (conclude r P' rec (.ofCall (s.told rs' s.killReason) e)) := by
  obtain ⟨is, htask⟩ := hP.task
  have hresult : ∀ log output, Agree (SameButLimit l s.recordings.traced)
      (resultOf rec s.cancel (some (.finished e)) log output)
      (resultOf rec (s.told rs' s.killReason).cancel (some (.finished e)) log output) := by
    intro log output
    unfold resultOf
    cases conclusion (some (.finished e)) with
    | error fault => exact .error fault
    | ok q => exact .ok ⟨rfl, exists_results h⟩
  exact conclude_alike hP.token (by rw [htask]; rfl) (by rfl) (by rfl) hresult r

/-- **The result of a run that a limit of lines has cut short** in the state `s`, with the decisions
`log`. Its line trace has found `R`. -/
structure StoppedBy (l : Limit) (R : LineTrace.Result) (s : TaskState) (log : List Decision)
    (x : ExecutionResult) : Prop where
  completed : x.completed = false
  timedOut : x.timedOut = false
  returned : x.returned = none
  killed : x.killed = decide (l.action = .killSandbox)
  killReason : x.killReason =
    if l.action = .killSandbox then some "run line limit exceeded" else none
  failed : x.failed = decide (l.action = .throwUncatchable)
  error : x.error = if l.action = .throwUncatchable then
    some ⟨"LineLimitExceeded", "exceeded " ++ toString l.lines ++ " lines"⟩ else none
  output : (x.outputLines, x.truncatedLines) = (outputOf s.sink.shutDown).1
  permissionLog : x.permissionLog = log
  permissionDenied : x.permissionDenied = log.any (!·.granted)
  /-- the other tracers report what they would report of `s` -/
  results : ∃ front rest, (∀ e ∈ front ++ rest, e.1 ≠ LineTrace.id) ∧
    s.recordings.results = front ++ (LineTrace.id, s.recordings.traced.toJson) :: rest ∧
    x.tracerResults = front ++ (LineTrace.id, R.toJson) :: rest

/-- **What is left of such a run.** -/
structure Execution.StoppedBy (l : Limit) (R : LineTrace.Result) (s : TaskState)
    (log : List Decision) (E : Execution) : Prop where
  outcome : ∃ x, E.outcome = .ok x ∧ Sandbox.StoppedBy l R s log x
  answers : E.answers = []
  heap : E.sandbox.heap = s.heap
  classSets : E.classSets = s.classSets
  passedThrough : E.passedThrough = (outputOf s.sink.shutDown).2

theorem outcome_of_release {r : RegistryId} {P : Prepared} {e : RunEnd} {log : List Decision}
    {c : Confinements}
    (h : e.shared.confinements.release r P.token P.task.unit.id = .ok (log, c)) (rec : Record) :
    (conclude r P rec e).outcome =
      resultOf rec e.shared.cancel e.outcome log (outputOf e.shared.sink.shutDown).1 := by
  have hrelease : e.shared.cancel.confinements.release r P.token P.task.unit.id = .ok (log, c) := h
  unfold conclude
  simp only [hrelease]
  rfl

/-- **A run that a limit of lines has cut short is concluded as such.** -/
theorem stoppedBy_of_conclude {l : Limit} {r : RegistryId} {P : Prepared} {s : TaskState}
    {log : List Decision} {c : Confinements}
    (hlog : s.confinements.release r P.token P.task.unit.id = .ok (log, c))
    (hreason : s.killReason = none) {rs' : Recordings} (h : s.recordings.FoundWithin l rs')
    (rec : Record) :
    (conclude r P rec (.ofCall ((l.stop s).told rs' (l.stop s).killReason)
      (.error l.fault))).StoppedBy l (s.recordings.traced.within l) s log := by
  have hresults := exists_results h
  obtain ⟨lines, action, maxUnsynchronized⟩ := l
  cases action with
  | killSandbox =>
    have hkill : (s.kill "run line limit exceeded").killReason = some "run line limit exceeded" := by
      rw [TaskState.kill, hreason]
      rfl
    have houtcome := outcome_of_release (e := .ofCall ((s.kill "run line limit exceeded").told rs'
      (s.kill "run line limit exceeded").killReason) (.error .cancelled)) hlog rec
    refine ⟨⟨_, houtcome, ?_⟩, rfl, rfl, rfl, rfl⟩
    exact .mk rfl rfl rfl (congrArg Option.isSome hkill) hkill rfl rfl rfl rfl rfl hresults
  | throwUncatchable =>
    have houtcome := outcome_of_release (e := .ofCall (s.told rs' s.killReason)
      (.error (.threw ⟨"LineLimitExceeded", "exceeded " ++ toString lines ++ " lines", true⟩)))
      hlog rec
    refine ⟨⟨_, houtcome, ?_⟩, rfl, rfl, rfl, rfl⟩
    exact .mk rfl rfl rfl (congrArg Option.isSome hreason) hreason rfl rfl rfl rfl rfl hresults

/-! ### Where a run is cut short -/

/-- **The place behind which a thread counts the line behind the limit.** Of what it has counted after `n`
steps, the first lines are recorded there. -/
structure Prepared.StopsAt (a : LineTrace.Arguments) (l : Limit) (P : Prepared) (e : EntryPoint)
    {τ : Type} (answer : (r : HostRequest) → StateM τ r.Answer) (v : τ) (n m : Nat) : Prop where
  before : m < n
  behind : (P.soloAfter e answer v (m + 1)).traced.linesRun = l.lines + 1
  traced : (P.soloAfter e answer v m).traced =
    ⟨a, (P.soloAfter e answer v n).traced.steps.take (min l.lines a.recordedStepLimit), l.lines⟩

namespace Prepared

variable {a : LineTrace.Arguments} {l : Limit} {P P' : Prepared} (h : P.Within a l P')
  (e : EntryPoint) {τ : Type} (answer : (r : HostRequest) → StateM τ r.Answer) (v : τ)

include h

theorem Within.onward {m n : Nat} (hle : m ≤ n) :
    (P.soloAfter e answer v m).traced.Onward (P.soloAfter e answer v n).traced :=
  (h.solo e v).1.single.onward P.task answer hle

theorem Within.arguments (n : Nat) : (P.soloAfter e answer v n).traced.arguments = a := by
  have hstart : (P.soloAfter e answer v 0).traced = ⟨a, [], 0⟩ := (h.solo e v).2
  rw [(h.onward e answer v (Nat.zero_le n)).arguments, hstart]

/-- **As long as no more lines are counted than the limit allows, the two threads go the same way.** -/
theorem Within.alike {n : Nat} (hn : (P.soloAfter e answer v n).traced.linesRun ≤ l.lines) :
    (P.soloAfter e answer v n).Within l (P'.soloAfter e answer v n) := by
  obtain ⟨is, htask⟩ := h.task
  rw [soloAfter, soloAfter, htask]
  exact (h.solo e v).1.iterate P.task answer is hn

/-- Where more lines are counted than the limit allows, there is one place where the thread with the
limit ends. -/
theorem Within.exists_stop {n : Nat} (hn : l.lines < (P.soloAfter e answer v n).traced.linesRun) :
    ∃ m, P.StopsAt a l e answer v n m ∧
      ∀ k, m < k → (P.soloAfter e answer v m).EndsWithin l (P'.soloAfter e answer v k) := by
  obtain ⟨hsolo, hstart⟩ := h.solo e v
  obtain ⟨is, htask⟩ := h.task
  have hzero : (P.solo e v).traced.linesRun ≤ l.lines := by
    rw [hstart]
    exact Nat.zero_le _
  obtain ⟨m, hm, hfull, hbehind, hends⟩ := hsolo.stops P.task answer is hzero hn
  refine ⟨m, ⟨hm, hbehind, ?_⟩, ?_⟩
  · have harguments := h.arguments e answer v m
    have hlength := (hsolo.single.iterate P.task answer m).steps_length
    have hprefix := List.prefix_iff_eq_take.1 (h.onward e answer v (Nat.le_of_lt hm)).steps
    unfold soloAfter at *
    generalize ((Solo.step P.task answer)^[m] (P.solo e v)).traced = R at *
    obtain ⟨arguments, steps, lines⟩ := R
    obtain rfl : arguments = a := harguments
    obtain rfl : lines = l.lines := hfull
    rw [← hlength, ← hprefix]
  · intro k hk
    rw [soloAfter, soloAfter, htask]
    exact hends k hk

theorem Within.stopsAt_unique {n m n' m' : Nat} (hm : P.StopsAt a l e answer v n m)
    (hm' : P.StopsAt a l e answer v n' m') : m = m' := by
  have notBefore : ∀ {n m n' m' : Nat}, P.StopsAt a l e answer v n m →
      P.StopsAt a l e answer v n' m' → ¬ m < m' := by
    intro n m n' m' hm hm' hlt
    have hle := (h.onward e answer v hlt).linesRun
    rw [hm.behind, hm'.traced] at hle
    exact absurd hle (Nat.not_succ_le_self _)
  exact Nat.le_antisymm (Nat.le_of_not_lt (notBefore hm' hm)) (Nat.le_of_not_lt (notBefore hm hm'))

/-- **Behind that place the thread with the limit has ended.** -/
theorem Within.stops {n m k : Nat} (hm : P.StopsAt a l e answer v n m) (hk : m < k) :
    (P.soloAfter e answer v m).EndsWithin l (P'.soloAfter e answer v k) := by
  have hlines : l.lines < (P.soloAfter e answer v (m + 1)).traced.linesRun := by
    rw [hm.behind]
    exact Nat.lt_succ_self _
  obtain ⟨m', hm', hends⟩ := h.exists_stop e answer v hlines
  obtain rfl := h.stopsAt_unique e answer v hm hm'
  exact hends k hk

end Prepared

/-! ### Runs -/

/-- **What a limit of lines makes of a run**: it cuts the run short, and leaves all else as it is. -/
structure Prepared.CutShort (a : LineTrace.Arguments) (l : Limit) (r : RegistryId) (e : EntryPoint)
    (P P' : Prepared) : Prop where
  /-- as long as no more lines are counted than the limit allows, the two threads go the same way -/
  alike : ∀ {τ : Type} (answer : (r : HostRequest) → StateM τ r.Answer) (v : τ) {n : Nat},
    (P.soloAfter e answer v n).traced.linesRun ≤ l.lines →
      (P.soloAfter e answer v n).Within l (P'.soloAfter e answer v n)
  /-- if more lines are counted, there is a last place before the line behind the limit -/
  exists_stop : ∀ {τ : Type} (answer : (r : HostRequest) → StateM τ r.Answer) (v : τ) {n : Nat},
    l.lines < (P.soloAfter e answer v n).traced.linesRun → ∃ m, P.StopsAt a l e answer v n m
  /-- there the thread with the limit ends, and nothing of the program runs any more -/
  stops : ∀ {τ : Type} (answer : (r : HostRequest) → StateM τ r.Answer) (v : τ) {n m k : Nat},
    P.StopsAt a l e answer v n m → m < k →
      (P.soloAfter e answer v m).EndsWithin l (P'.soloAfter e answer v k)
  /-- a run without a limit that is not cut off by its time goes as far as its thread goes alone -/
  counted : ∀ {σ τ : Type} {answer : (r : HostRequest) → StateM τ r.Answer} {host : Host (StateM σ)}
    {view : σ → τ} (w : σ) (limit : Nat), host.Serves answer view →
    let q := RunState.run host P.task P.state e.work limit w
    q.1.outcome ≠ none → ∃ n, q.1.shared = (P.soloAfter e answer (view w) n).shared ∧
      view q.2 = (P.soloAfter e answer (view w) n).host
  /-- if it has counted no more lines than the limit allows, the run with the limit is concluded alike -/
  kept : ∀ {σ σ' τ : Type} {answer : (r : HostRequest) → StateM τ r.Answer} {host : Host (StateM σ)}
    {host' : Host (StateM σ')} {view : σ → τ} {view' : σ' → τ} {w : σ} {w' : σ'}
    (limit limit' : Nat) (rec : Record),
    host.Serves answer view → host'.Serves answer view' → view' w' = view w →
    let q := RunState.run host P.task P.state e.work limit w
    let q' := RunState.run host' P'.task P'.state e.work limit' w'
    q.1.outcome ≠ none → q'.1.outcome ≠ none →
    q.1.shared.recordings.traced.linesRun ≤ l.lines →
      (conclude r P rec q.1).Alike (SameButLimit l q.1.shared.recordings.traced)
        (conclude r P' rec q'.1) ∧ view' q'.2 = view q.2
  /-- otherwise the run with the limit is concluded as one that has stopped at that place -/
  stopped : ∀ {σ' τ : Type} {answer : (r : HostRequest) → StateM τ r.Answer}
    {host' : Host (StateM σ')} {view' : σ' → τ} {w' : σ'} (limit' : Nat) (rec : Record),
    host'.Serves answer view' → ∀ {n m : Nat}, P.StopsAt a l e answer (view' w') n m →
    let q' := RunState.run host' P'.task P'.state e.work limit' w'
    let x := P.soloAfter e answer (view' w') m
    q'.1.outcome ≠ none → ∃ log,
      (conclude r P' rec q'.1).StoppedBy l (x.traced.within l) x.shared log ∧
      x.shared.confinements = P.state.confinements.recordAll P.task.capability log ∧
      view' q'.2 = x.host

/-- Wherever a thread is, the confinement of its run is released with what the thread has logged. -/
theorem Prepares.exists_log_soloAfter {sb : Sandbox} {r : RegistryId} {u : LoadingUnit}
    {sets : List LoadingUnit.ClassSets} {a : ExecutionArguments} {P : Prepared}
    (h : Prepares sb r u sets a P) (e : EntryPoint) {τ : Type}
    (answer : (r : HostRequest) → StateM τ r.Answer) (v : τ) (n : Nat) :
    ∃ log c, (P.soloAfter e answer v n).shared.confinements =
        P.state.confinements.recordAll P.task.capability log ∧
      (P.soloAfter e answer v n).shared.confinements.release r P.token P.task.unit.id =
        .ok (log, c) := by
  obtain ⟨ds, hds⟩ := Solo.exists_log_start P.task P.state e.className e.methodName [] v
  obtain ⟨ds', hds'⟩ := Solo.exists_log_iterate P.task answer n (P.solo e v)
  have hlog : (P.soloAfter e answer v n).shared.confinements =
      P.state.confinements.recordAll P.task.capability (ds ++ ds') := by
    rw [Confinements.recordAll_append, ← hds]
    exact hds'
  obtain ⟨c, hrelease⟩ := h.release (ds ++ ds')
  exact ⟨ds ++ ds', c, hlog, hlog ▸ hrelease⟩

/-- A run that is not cut off by its time ends where its thread ends. -/
theorem Prepared.run_of_ended {P : Prepared} (hlonely : P.state.Lonely)
    (ht : P.task.maxExtraThreads = 0) {σ τ : Type} {answer : (r : HostRequest) → StateM τ r.Answer}
    {host : Host (StateM σ)} {view : σ → τ} (hs : host.Serves answer view) {e : EntryPoint}
    {w : σ} {limit : Nat} (ho : (RunState.run host P.task P.state e.work limit w).1.outcome ≠ none)
    {n : Nat} {res : Except Fault Value}
    (hend : (P.soloAfter e answer (view w) n).stand = .ended res) :
    (RunState.run host P.task P.state e.work limit w).1 =
        .ofCall (P.soloAfter e answer (view w) n).shared res ∧
      view (RunState.run host P.task P.state e.work limit w).2 =
        (P.soloAfter e answer (view w) n).host := by
  obtain ⟨n', res', hend', hq, hv⟩ := (RunState.run_alone ht hs hlonely e limit w).resolve_left ho
  have hsame : P.soloAfter e answer (view w) n = P.soloAfter e answer (view w) n' :=
    Solo.iterate_eq_of_ended P.task answer hend hend'
  rw [hsame] at hend ⊢
  obtain rfl : res' = res := Stand.ended.inj (hend'.symm.trans hend)
  exact ⟨hq, hv⟩

/-- What a limit of lines makes of two runs that begin alike. -/
theorem Prepared.Within.cutShort {la : LineTrace.Arguments} {l : Limit} {P P' : Prepared}
    (h : P.Within la l P') {sb : Sandbox} {r : RegistryId} {u : LoadingUnit}
    {sets : List LoadingUnit.ClassSets} {a : ExecutionArguments} (hP : Prepares sb r u sets a P)
    (ha : a.maxExtraThreads = 0) (e : EntryPoint) : P.CutShort la l r e P' := by
  have hlonely := hP.lonely
  have ht : P.task.maxExtraThreads = 0 := by rw [hP.task, ha]
  obtain ⟨is, htask⟩ := h.task
  obtain ⟨rs', hrs, hstate⟩ := h.state
  have hlonely' : P'.state.Lonely := by
    rw [hstate]
    exact ⟨hlonely.nextThread, hlonely.finished, hlonely.starting⟩
  have ht' : P'.task.maxExtraThreads = 0 := by
    rw [htask]
    exact ht
  refine ⟨h.alike e, fun answer v n hn => ?_, h.stops e, ?_, ?_, ?_⟩
  · obtain ⟨m, hm, -⟩ := h.exists_stop e answer v hn
    exact ⟨m, hm⟩
  · -- without the limit, the run goes as far as its thread goes alone
    intro σ τ answer host view w limit hs q ho
    obtain ⟨n, res, -, hq, hv⟩ := (RunState.run_alone ht hs hlonely e limit w).resolve_left ho
    exact ⟨n, congrArg RunEnd.shared hq, hv⟩
  · -- below the limit both runs end with the same step, and the result is the same
    intro σ σ' τ answer host host' view view' w w' limit limit' rec hs hs' hw q q' ho ho' hle
    obtain ⟨n, res, hend, hq, hv⟩ := (RunState.run_alone ht hs hlonely e limit w).resolve_left ho
    dsimp only [q, q'] at hle ⊢
    rw [hq] at hle ⊢
    obtain ⟨-, rs', hrs, hx'⟩ := h.alike e answer (view w) hle
    have hend' : (P'.soloAfter e answer (view' w') n).stand = .ended res := by
      rw [hw, hx']
      exact hend
    obtain ⟨hq', hv'⟩ := run_of_ended hlonely' ht' hs' ho' hend'
    rw [hq', hv', hv, hw, hx']
    exact ⟨conclude_told h hrs.found r rec res, rfl⟩
  · -- beyond the limit the run is stopped
    intro σ' τ answer host' view' w' limit' rec hs' n m hm q' x ho'
    have hends := h.stops e answer (view' w') hm (Nat.lt_succ_self m)
    obtain ⟨hq', hv'⟩ := run_of_ended hlonely' ht' hs' ho' hends.stand
    obtain ⟨hreason, rs', hrs, hx'⟩ := hends
    obtain ⟨log, c, hlog, hrelease⟩ := hP.exists_log_soloAfter e answer (view' w') m
    have hrelease' : x.shared.confinements.release r P'.token P'.task.unit.id = .ok (log, c) := by
      rw [h.token, htask]
      exact hrelease
    dsimp only [q']
    rw [hq', hv', hx']
    exact ⟨log, stoppedBy_of_conclude hrelease' hreason hrs rec, hlog, rfl⟩

def sampleTraced : ClassFile × LineTrace.Instrumentation :=
  (LineTrace.Instrumentation.start .default).instrument .untrusted Sample.main

def sampleTracedUnit : LoadingUnit :=
  ⟨⟨⟨1⟩, "", .default, [.lineTrace sampleTraced.2],
    [("Main", LoadingUnit.definedClass sampleTraced.1)]⟩, []⟩

theorem build_sampleTraced :
    LoadingUnit.build { Sample.plan with tracers := .traces (some .default) none } ⟨1⟩ =
      .ok sampleTracedUnit := by
  have hd : LoadingUnit.define .untrusted [.lineTrace (.start .default)] "Main" Sample.bytes =
      .ok (LoadingUnit.definedClass sampleTraced.1, [.lineTrace sampleTraced.2]) :=
    LoadingUnit.define_eq_ok_iff.2 ⟨Sample.main, sampleTraced.1,
      ⟨Sample.decodeBytes?_bytes, rfl, rfl, rfl, by decide⟩, rfl⟩
  exact LoadingUnit.build_eq_ok_iff.2
    ⟨rfl, _, _, LoadingUnit.defineAll_cons_eq_ok_iff.2 ⟨_, _, hd, rfl⟩, rfl⟩

/-- **A limit of lines only cuts a run short.** Take a program whose unit is built with the line trace without
a limit, and perhaps with other tracers. With any limit the unit is built too; without extra threads both
runs begin alike, or fail alike, and the one with the limit is the same up to the line behind the limit. -/
theorem lineLimit_cutsShort {tracers : List Tracer} {la : LineTrace.Arguments}
    (hla : .lineTrace la ∈ tracers) (hnone : la.runLineLimit = none) {roster : Roster Tracer}
    (hr : Roster.empty.addAll tracers = .ok roster) {p : LoadingUnit.Plan} {id : UnitId}
    {u : LoadingUnit} (hu : LoadingUnit.build { p with tracers := roster } id = .ok u) (l : Limit) :
    ∃ roster' u', Roster.empty.addAll (tracers.map (.within l)) = .ok roster' ∧
      LoadingUnit.build { p with tracers := roster' } id = .ok u' ∧
      ∀ (sb : Sandbox) (r : RegistryId) (sets : List LoadingUnit.ClassSets) {a : ExecutionArguments},
        a.maxExtraThreads = 0 → ∀ e : EntryPoint,
          checkEntry u' e = checkEntry u e ∧
            Agree (Prepared.CutShort la l r e) (sb.prepare r u sets a) (sb.prepare r u' sets a) := by
  obtain ⟨front, i, rest, hi, rfl, hfront, hrest⟩ := LoadingUnit.exists_lineTrace_of_build hla hr hu
  refine ⟨roster.within l, u.within l, ?_, ?_, ?_⟩
  · have haddAll := Roster.addAll_within l .empty tracers
    rw [hr] at haddAll
    exact haddAll
  · have hbuild := LoadingUnit.build_within l { p with tracers := roster } id
    rw [hu] at hbuild
    exact hbuild
  · intro sb r sets a ha e
    refine ⟨rfl, (prepare_within hi hnone hfront hrest l sb r sets a).imp fun P P' hP h => ?_⟩
    exact h.cutShort (prepare_eq_ok_iff.1 hP) ha e

/-- The sample, which may run no line at all, ends with no line counted, before it asks for a variable,
and its handler for all exceptions does not run. -/
theorem lineLimit_cutsShort_sample :
    ∃ roster' u' P', Roster.empty.addAll
        [.lineTrace (LineTrace.Arguments.default.within ⟨0, .throwUncatchable, 1⟩)] = .ok roster' ∧
      LoadingUnit.build { Sample.plan with tracers := roster' } ⟨1⟩ = .ok u' ∧
      empty.prepare ⟨0⟩ u' [] .default = .ok P' ∧
      ∀ {τ : Type} (answer : (r : HostRequest) → StateM τ r.Answer) (v : τ),
        (P'.soloAfter .default answer v 2).stand =
            .ended (.error (.threw ⟨"LineLimitExceeded", "exceeded 0 lines", true⟩)) ∧
          (P'.soloAfter .default answer v 2).traced.linesRun = 0 ∧
          (P'.soloAfter .default answer v 2).host = v := by
  obtain ⟨roster', u', hr', hu', hcut⟩ := @lineLimit_cutsShort [.lineTrace .default] .default
    (List.mem_singleton.2 rfl) rfl (.traces (some .default) none) rfl Sample.plan ⟨1⟩
    sampleTracedUnit build_sampleTraced ⟨0, .throwUncatchable, 1⟩
  obtain ⟨-, hagree⟩ := @hcut empty ⟨0⟩ [] .default rfl .default
  obtain ⟨P, hP⟩ : ∃ P, empty.prepare ⟨0⟩ sampleTracedUnit [] .default = .ok P := ⟨_, rfl⟩
  rw [hP] at hagree
  generalize hP' : empty.prepare ⟨0⟩ u' [] .default = e' at hagree
  cases hagree with
  | @ok _ P' h =>
    refine ⟨roster', u', P', hr', hu', hP', fun answer v => ?_⟩
    have hone : (P.soloAfter .default answer v 2).traced.linesRun = 1 := by
      obtain ⟨t, hlines, hrecordings⟩ : ∃ t : LineTrace.ThreadLines, t.linesRun = 1 ∧
          (P.soloAfter .default answer v 2).shared.recordings =
            ⟨[.lineTrace ⟨.default, [t], []⟩], []⟩ := by
        cases hP
        exact ⟨_, rfl, rfl⟩
      rw [Solo.traced, hrecordings, Recordings.traced, ← hlines]
      simp [Recordings.lineTrace?, LineTrace.Recording.report]
    obtain ⟨m, hm⟩ := h.exists_stop answer v (n := 2) (hone ▸ Nat.zero_lt_one)
    have hends := h.stops answer v hm hm.before
    refine ⟨hends.stand, by rw [hends.traced_eq, hm.traced]; rfl, ?_⟩
    obtain ⟨-, rs', -, hx'⟩ := hends
    rw [hx']
    have hbefore := hm.before
    cases hP
    -- the stop is behind no turn or behind one, and the host is as it was in both
    obtain rfl | rfl : m = 0 ∨ m = 1 := by omega
    · rfl
    · rfl

end Sandbox

end Confine
