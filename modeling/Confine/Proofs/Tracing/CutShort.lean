import Confine.Proofs.Machine.Solo
import Confine.Proofs.Tracing.LineLimit

/-!
# A limit of lines cuts a run short

Two threads run alone, one without a limit of lines and one with it.

* `Solo.step_cases` — what a step does to recordings, and they to it;
* `Solo.Within.step` — the two threads make the same step, or the second is interrupted at the line behind its limit;
* `Solo.Within.iterate`, `Solo.Within.stops` — so they go the same way up to that line, and there the second ends.
-/

namespace Confine

open LineTrace (Limit)

/-- How a thread ends that reaches a line behind the limit. -/
def LineTrace.Limit.fault (l : Limit) : Fault :=
  match l.action with
  | .killSandbox => .cancelled
  | .throwUncatchable =>
    .threw ⟨"LineLimitExceeded", "exceeded " ++ toString l.lines ++ " lines", true⟩

def LineTrace.Limit.stop (l : Limit) (s : TaskState) : TaskState :=
  match l.action with
  | .killSandbox => s.kill "run line limit exceeded"
  | .throwUncatchable => s

/-! ### Calls into tracers -/

/-- Why the task has been killed, after a tracer has reacted. -/
def HookSignal.reason (reason : Option String) : Option HookSignal → Option String
  | some (.kill new) => some (reason.getD new)
  | _ => reason

namespace Solo

variable {σ : Type}

def told (x : Solo σ) (rs : Recordings) (reason : Option String) : Solo σ :=
  { x with shared := x.shared.told rs reason }

/-- Where the thread is when the tracer that it has called has reacted. -/
def afterHook (t : Task) (x : Solo σ) (frames : List Frame) : Option HookSignal → Solo σ
  | none => { x with stand := .running frames }
  | some (.throw e) => ofProgress x.written x.host (Activation.unwind t x.shared frames (.fresh e))
  | some (.kill _) => { x with shared := x.shared.cancel, stand := .ended (.error .cancelled) }

theorem ofProgress_told (written : List (Console × String)) (w : σ) (p : Progress) (rs : Recordings)
    (reason : Option String) :
    ofProgress written w (p.told rs reason) = (ofProgress written w p).told rs reason := by
  cases p <;> rfl

variable (t : Task) (answer : (r : HostRequest) → StateM σ r.Answer)

/-- A call into a tracer. -/
theorem ofProgress_hook (x : Solo σ) (is : List Instrumentation) (rs : Recordings)
    (reason : Option String) (f : Frame) (outer : List Frame) (tracer name : String)
    (operands : List HookOperand) :
    let call : HookCall := ⟨name, operands.map f.operand⟩
    let q := ((Step.hook 0 (x.told rs reason).shared f tracer name operands).map
      (Activation.finish (t.tracedBy is) outer)).answered answer x.host
    ofProgress x.written q.2 q.1 =
      (x.afterHook t (f :: outer) (rs.onHook tracer call 0).1).told (rs.onHook tracer call 0).2
        (HookSignal.reason reason (rs.onHook tracer call 0).1) := by
  dsimp only
  have hrecordings : (x.told rs reason).shared.recordings = rs := rfl
  unfold Step.hook
  rw [hrecordings]
  generalize rs.onHook tracer ⟨name, operands.map f.operand⟩ 0 = q
  obtain ⟨signal, rs'⟩ := q
  cases signal with
  | none => rfl
  | some signal =>
    cases signal with
    | throw e =>
      have hunwind := Activation.unwind_told t is x.shared rs' reason (f :: outer) (.fresh e)
      exact (congrArg (ofProgress x.written x.host) hunwind).trans (ofProgress_told ..)
    | kill new => rfl

theorem step_told {x : Solo σ} {frames : List Frame} (hx : x.stand = .running frames)
    (hno : x.shared.cancelled = false → ¬ Activation.AtHook frames) (is : List Instrumentation)
    (rs : Recordings) (reason : Option String) :
    (x.told rs reason).step (t.tracedBy is) answer = (x.step t answer).told rs reason := by
  rw [step_of_running t answer hx, step_of_running (t.tracedBy is) answer (x := x.told rs reason) hx]
  show ofProgress _ ((Activation.step (t.tracedBy is) 0 (x.shared.told rs reason) frames).answered
    answer x.host).2 ((Activation.step (t.tracedBy is) 0 (x.shared.told rs reason)
      frames).answered answer x.host).1 = _
  rw [Activation.step_told t is x.shared rs reason 0 hno, Query.answered_map, ofProgress_told]
  rfl

/-- **What a step does to recordings, and they to it.** Either they have no part in it, or it is a
call into a tracer, and all that matters is how that reacts. -/
theorem step_cases (x : Solo σ) :
    (∀ is rs reason, (x.told rs reason).step (t.tracedBy is) answer =
      (x.step t answer).told rs reason) ∨
    ∃ id call frames, (∃ frames, x.stand = .running frames) ∧ ∀ is rs reason,
      (x.told rs reason).step (t.tracedBy is) answer =
        (x.afterHook t frames (rs.onHook id call 0).1).told (rs.onHook id call 0).2
          (HookSignal.reason reason (rs.onHook id call 0).1) := by
  cases hx : x.stand with
  | ended r =>
    refine .inl fun is rs reason => ?_
    rw [step_of_ended t answer hx, step_of_ended (t.tracedBy is) answer (x := x.told rs reason) hx]
  | running frames =>
    by_cases hhook : x.shared.cancelled = false ∧ Activation.AtHook frames
    · obtain ⟨hc, f, outer, tracer, name, operands, rfl, hcode⟩ := hhook
      refine .inr ⟨tracer, ⟨name, operands.map (Frame.operand { f with next := f.next + 1 })⟩,
        { f with next := f.next + 1 } :: outer, ⟨_, rfl⟩, fun is rs reason => ?_⟩
      have hwrites : Activation.nextWrites (x.told rs reason).shared (f :: outer) = [] := by
        show (if x.shared.cancelled = true then [] else f.nextWrites) = []
        rw [hc, Frame.nextWrites, hcode]
        rfl
      have hstep : Activation.step (t.tracedBy is) 0 (x.told rs reason).shared (f :: outer) =
          (Step.hook 0 (x.told rs reason).shared { f with next := f.next + 1 } tracer name
            operands).map (Activation.finish (t.tracedBy is) outer) := by
        have hc' : (x.told rs reason).shared.cancelled = false := hc
        simp only [Activation.step, Step.frame, hc', hcode, Bool.false_eq_true, if_false]
        rfl
      rw [step_of_running (t.tracedBy is) answer (x := x.told rs reason) hx, hwrites,
        List.append_nil, hstep]
      exact ofProgress_hook t answer x is rs reason _ outer tracer name operands
    · exact .inl (step_told t answer hx fun hc hat => hhook ⟨hc, hat⟩)

theorem start_told (t : Task) (is : List Instrumentation) (s : TaskState) (rs : Recordings)
    (reason : Option String) (className methodName : String) (arguments : List Value) (w : σ) :
    start (t.tracedBy is) (s.told rs reason) className methodName arguments w =
      (start t s className methodName arguments w).told rs reason := by
  unfold start
  rw [Activation.start_told]
  generalize Activation.start t s className methodName arguments = p
  obtain ⟨r, s⟩ := p
  cases r <;> rfl

/-! ### What the line trace finds -/

def traced (x : Solo σ) : LineTrace.Result := x.shared.recordings.traced

/-- The line trace has recorded this thread only, and the task was killed only where it ended. -/
structure Single (x : Solo σ) : Prop where
  recordings : x.shared.recordings.Single
  live : x.shared.killReason = none ∨ ∃ r, x.stand = .ended r

variable {t answer} {x x' : Solo σ}

theorem live_step (hlive : x.shared.killReason = none ∨ ∃ r, x.stand = .ended r)
    (h : (x.step t answer).shared.killReason = x.shared.killReason) :
    (x.step t answer).shared.killReason = none ∨ ∃ r, (x.step t answer).stand = .ended r := by
  rcases hlive with hreason | ⟨r, hr⟩
  · exact .inl (h.trans hreason)
  · exact .inr ⟨r, by rw [step_of_ended t answer hr, hr]⟩

/-- A step that tracers have no part in leaves what they have told as it is. -/
theorem told_step_self
    (h : ∀ is rs reason, (x.told rs reason).step (t.tracedBy is) answer =
      (x.step t answer).told rs reason) :
    (x.step t answer).shared.recordings = x.shared.recordings ∧
      (x.step t answer).shared.killReason = x.shared.killReason := by
  have hself : x.step t answer = (x.step t answer).told x.shared.recordings x.shared.killReason :=
    h t.unit.own.instrumentation x.shared.recordings x.shared.killReason
  exact ⟨congrArg (·.shared.recordings) hself, congrArg (·.shared.killReason) hself⟩

theorem live_afterHook {frames frames' : List Frame} {signal : Option HookSignal} {rs : Recordings}
    (hlive : x.shared.killReason = none ∨ ∃ r, x.stand = .ended r)
    (hstand : x.stand = .running frames) :
    let y := (x.afterHook t frames' signal).told rs (HookSignal.reason x.shared.killReason signal)
    y.shared.killReason = none ∨ ∃ r, y.stand = .ended r := by
  have hreason := hlive.resolve_right fun ⟨r, hr⟩ => by simp [hstand] at hr
  cases signal with
  | none => exact .inl hreason
  | some signal =>
    cases signal with
    | throw e => exact .inl hreason
    | kill new => exact .inr ⟨_, rfl⟩

/-- **What the line trace has found, it will have found still.** -/
theorem Single.step (h : x.Single) :
    (x.step t answer).Single ∧ x.traced.Onward (x.step t answer).traced := by
  rcases step_cases t answer x with hblind | ⟨id, call, frames, ⟨frames', hstand⟩, hhook⟩
  · obtain ⟨hrecordings, hreason⟩ := told_step_self hblind
    refine ⟨⟨hrecordings ▸ h.recordings, live_step h.live hreason⟩, ?_⟩
    rw [traced, traced, hrecordings]
    exact .refl _
  · have hself : x.step t answer = _ :=
      hhook t.unit.own.instrumentation x.shared.recordings x.shared.killReason
    obtain ⟨hsingle, hon⟩ := h.recordings.onHook id call
    rw [hself]
    exact ⟨⟨hsingle, live_afterHook h.live hstand⟩, hon⟩

/-! ### A limit of lines -/

/-- **The thread without a limit of lines, and with one**: they differ in what the line trace of the
second keeps apart from its lines. -/
structure Within (l : Limit) (x x' : Solo σ) : Prop where
  live : x.shared.killReason = none ∨ ∃ r, x.stand = .ended r
  told : ∃ rs', x.shared.recordings.Within l rs' ∧ x' = x.told rs' x.shared.killReason

/-- The thread, interrupted because a limit of lines is reached. -/
def cutShort (l : Limit) (x : Solo σ) : Solo σ :=
  { x with shared := l.stop x.shared, stand := .ended (.error l.fault) }

/-- **The thread with a limit of lines has ended where the one without it goes on.** Its line trace
has found what the other had found there. -/
structure EndsWithin (l : Limit) (x x' : Solo σ) : Prop where
  live : x.shared.killReason = none
  told : ∃ rs', x.shared.recordings.FoundWithin l rs' ∧
    x' = (x.cutShort l).told rs' (l.stop x.shared).killReason

/-- No handler of the program takes what the line trace throws. -/
theorem told_afterHook_limit (a : LineTrace.Arguments) (l : Limit) (frames : List Frame)
    (rs : Recordings) :
    (x.afterHook t frames (some (LineTrace.Recording.limitSignal (a.within l) l.lines))).told rs
        (HookSignal.reason x.shared.killReason
          (some (LineTrace.Recording.limitSignal (a.within l) l.lines))) =
      (x.cutShort l).told rs (l.stop x.shared).killReason := by
  obtain ⟨lines, action, maxUnsynchronized⟩ := l
  cases action with
  | killSandbox => rfl
  | throwUncatchable => rfl

/-- **A step with a limit of lines.** Both threads make it alike; or it is the line behind the limit,
which the one without it counts, and there the other ends. -/
theorem Within.step {l : Limit} (is : List Instrumentation) (h : x.Within l x') :
    ((x.step t answer).Within l (x'.step (t.tracedBy is) answer) ∧
        (x.traced.linesRun ≤ l.lines → (x.step t answer).traced.linesRun ≤ l.lines)) ∨
      (l.lines ≤ x.traced.linesRun ∧
        (x.step t answer).traced.linesRun = x.traced.linesRun + 1 ∧
        x.EndsWithin l (x'.step (t.tracedBy is) answer)) := by
  obtain ⟨hlive, rs', hrs, rfl⟩ := h
  rcases step_cases t answer x with hblind | ⟨id, call, frames, ⟨frames', hstand⟩, hhook⟩
  · obtain ⟨hrecordings, hreason⟩ := told_step_self hblind
    refine .inl ⟨⟨live_step hlive hreason, rs', hrecordings ▸ hrs, ?_⟩, ?_⟩
    · rw [hblind, hreason]
    · rw [traced, traced, hrecordings]
      exact fun h => h
  · have hself : x.step t answer = _ :=
      hhook t.unit.own.instrumentation x.shared.recordings x.shared.killReason
    rw [hself, hhook]
    rcases hrs.onHook id call with ⟨hsame, hwithin, hle⟩ | ⟨hfull, hnone, hone, ⟨a, hsignal⟩, hfound⟩
    · rw [hsame]
      exact .inl ⟨⟨live_afterHook hlive hstand, _, hwithin, rfl⟩, hle⟩
    · have hreason := hlive.resolve_right fun ⟨r, hr⟩ => by simp [hstand] at hr
      refine .inr ⟨hfull, hone, hreason, _, hfound, ?_⟩
      rw [hsignal]
      exact told_afterHook_limit a l frames _

theorem Single.steps_length (h : x.Single) :
    x.traced.steps.length = min x.traced.linesRun x.traced.arguments.recordedStepLimit := by
  obtain ⟨c, r, hr, hsingle⟩ := h.recordings
  rw [traced, hr, Recordings.traced_fill, hsingle.report_eq]
  exact hsingle.kept

theorem Within.single {l : Limit} (h : x.Within l x') : x.Single := by
  obtain ⟨hlive, rs', hrs, -⟩ := h
  exact ⟨hrs.single, hlive⟩

theorem EndsWithin.traced_eq {l : Limit} (h : x.EndsWithin l x') :
    x'.traced = x.traced.within l := by
  obtain ⟨-, rs', hrs, rfl⟩ := h
  exact hrs.traced_eq

theorem EndsWithin.stand {l : Limit} (h : x.EndsWithin l x') : x'.stand = .ended (.error l.fault) := by
  obtain ⟨-, rs', -, rfl⟩ := h
  rfl

/-! ### Many steps -/

section Runs

variable (t answer) (h : x.Single)

include h

theorem Single.iterate (n : Nat) : ((Solo.step t answer)^[n] x).Single := by
  induction n with
  | zero => exact h
  | succ n ih =>
    rw [Function.iterate_succ_apply']
    exact ih.step.1

/-- **What the line trace has found stays the beginning of what it finds.** -/
theorem Single.onward {m n : Nat} (hle : m ≤ n) :
    ((Solo.step t answer)^[m] x).traced.Onward ((Solo.step t answer)^[n] x).traced := by
  induction hle with
  | refl => exact .refl _
  | @step n _ ih =>
    rw [Function.iterate_succ_apply']
    exact ih.trans (h.iterate t answer n).step.2

end Runs

section Limited

variable (t answer) (is : List Instrumentation) {l : Limit} (h : x.Within l x')

include h

/-- **As long as no more lines are counted than the limit allows, the two threads go the same way.** -/
theorem Within.iterate {n : Nat} (hn : ((Solo.step t answer)^[n] x).traced.linesRun ≤ l.lines) :
    ((Solo.step t answer)^[n] x).Within l ((Solo.step (t.tracedBy is) answer)^[n] x') := by
  induction n with
  | zero => exact h
  | succ n ih =>
    have hon := (h.single.onward t answer (Nat.le_succ n)).linesRun
    have hwithin := ih (hon.trans hn)
    rw [Function.iterate_succ_apply'] at hn
    rw [Function.iterate_succ_apply', Function.iterate_succ_apply']
    rcases @Within.step _ t answer _ _ l is hwithin with ⟨hstep, -⟩ | ⟨hfull, hone, -⟩
    · exact hstep
    · rw [hone] at hn
      omega

/-- **Where one line more is counted than the limit allows, the thread with the limit ends.** -/
theorem Within.stops (hstart : x.traced.linesRun ≤ l.lines) {n : Nat}
    (hn : l.lines < ((Solo.step t answer)^[n] x).traced.linesRun) :
    ∃ m < n, ((Solo.step t answer)^[m] x).traced.linesRun = l.lines ∧
      ((Solo.step t answer)^[m + 1] x).traced.linesRun = l.lines + 1 ∧
      ∀ k, m < k → ((Solo.step t answer)^[m] x).EndsWithin l
        ((Solo.step (t.tracedBy is) answer)^[k] x') := by
  induction n with
  | zero => exact absurd hstart (Nat.not_le_of_lt hn)
  | succ n ih =>
    by_cases hlate : l.lines < ((Solo.step t answer)^[n] x).traced.linesRun
    · obtain ⟨m, hm, hstop⟩ := ih hlate
      exact ⟨m, Nat.lt_succ_of_lt hm, hstop⟩
    · have hle := Nat.le_of_not_lt hlate
      rw [Function.iterate_succ_apply'] at hn
      rcases @Within.step _ t answer _ _ l is (h.iterate t answer is hle) with
        ⟨-, hstep⟩ | ⟨hfull, hone, hends⟩
      · exact absurd (hstep hle) (Nat.not_le_of_lt hn)
      · have hlines := Nat.le_antisymm hle hfull
        refine ⟨n, Nat.lt_succ_self n, hlines, by rw [Function.iterate_succ_apply', hone, hlines],
          fun k hk => ?_⟩
        rw [← Function.iterate_succ_apply' (Solo.step (t.tracedBy is) answer)] at hends
        rwa [iterate_of_le (t.tracedBy is) answer hends.stand hk]

end Limited

end Solo

end Confine
