import Confine.Proofs.Loading.Libraries
import Confine.Proofs.Sandbox.Stopped
import Confine.Proofs.Tracing.LineChains

/-!
# Coalescing does not starve a limit of lines

A line that is coalesced is not counted, and the limit is not looked at. Still a thread cannot run on without end below
its limit: of the line hooks that it executes, at most as many come on one that counts as a method has labels.

* `Activity.ended_of_limit` — the line behind the limit ends the turn of its thread;
* `Scene.Unstarved` — what a whole run of an entry point keeps without extra threads, under any scheduler;
* `Solo.recordings_step` — the hooks of a thread that runs alone;
* `Sandbox.lineHooks_bounded` — **a run executes one line hook more than its limit times the labels of a method at
  most**, and a program that executes more of them without the limit is stopped with it.
-/

namespace Confine

open LineTrace (Limit countedLines)

def HookAct.lineHooks (hooks : List HookAct) : Nat := hooks.countP (·.tracer == LineTrace.id)

/-! ### Places -/

def LoadingUnit.LabelsAtMost (u : LoadingUnit) (n : Nat) : Prop :=
  ∀ e ∈ u.own.classes, ∀ m ∈ e.2.linked.methods, m.callsLineTrace = true → m.method.labels.length ≤ n

/-- The call is at a place that is below `n`, if it is one into the line trace. -/
def HookAct.Below (e : HookAct) (n : Nat) : Prop :=
  e.tracer = LineTrace.id → ∃ k, e.line? = some k ∧ k.1.Below n

/-- So is every call that is made from a class that the unit finds. -/
def LoadingUnit.HooksBelow (u : LoadingUnit) (n : Nat) : Prop :=
  ∀ e : HookAct, (e.frame.Found u ∧ ∃ i, e.frame.method.code[e.frame.next]? = some i ∧
    e.frame.hookCall? i = some (e.tracer, e.call)) → e.Below n

/-- **The line trace is called at places among the labels of methods.** -/
theorem LoadingUnit.hooksBelow {u : LoadingUnit} {n : Nat}
    (hclasses : ∀ e ∈ u.own.classes, ∃ c, DefinedPlaced e c) (hparents : ∀ l ∈ u.parents, l.HookFree)
    (hn : u.LabelsAtMost n) : u.HooksBelow n := by
  rintro e ⟨hf, i, hi, hcall⟩ hid
  cases i with
  | hook tracer name operands =>
    obtain ⟨rfl, heq⟩ := Prod.mk.inj (Option.some.inj hcall)
    rw [hid] at hi
    obtain ⟨d, hd, hm, place, hat⟩ := exists_lineHook_of_found hclasses hparents hf hi
    have hcalls : e.frame.method.callsLineTrace = true :=
      Array.any_eq_true'.2 ⟨_, Array.mem_of_getElem? hi, beq_self_eq_true LineTrace.id⟩
    obtain ⟨source, number, line, hhook⟩ := hat.hook
    obtain ⟨-, rfl, rfl⟩ := Instruction.hook.inj hhook
    refine ⟨⟨⟨UInt64.ofNat number, Int64.ofNat place, line⟩, ⟨source, line, e.thread⟩⟩, ?_, place, rfl, ?_, ?_⟩
    · rw [HookAct.line?, if_pos hid, ← heq]
      simp [LineTrace.Recording.line?, Frame.operand, Value.ofConstant]
    · exact Nat.lt_of_lt_of_le hat.place (hn d hd _ hm hcalls)
    · exact Nat.lt_of_lt_of_le hat.place (length_le_of_nodup hat.nodup)
  | _ => cases hcall

/-- Such calls report a line each. -/
theorem HookAct.length_lines {n : Nat} {hooks : List HookAct} (h : ∀ e ∈ hooks, e.Below n) :
    (HookAct.lines hooks).length = lineHooks hooks ∧ ∀ k ∈ HookAct.lines hooks, k.1.Below n := by
  constructor
  · rw [lines, List.length_filterMap_eq_countP, lineHooks]
    refine List.countP_congr fun e he => ?_
    rw [beq_iff_eq]
    constructor
    · intro hline
      by_contra hid
      rw [line?, if_neg hid] at hline
      cases hline
    · intro hid
      obtain ⟨k, hk, -⟩ := h e he hid
      rw [hk]
      rfl
  · intro k hk
    obtain ⟨e, he, hline⟩ := List.mem_filterMap.1 hk
    have hid : e.tracer = LineTrace.id := by
      by_contra hid
      rw [line?, if_neg hid] at hline
      cases hline
    obtain ⟨k', hk', hbelow⟩ := h e he hid
    obtain rfl := Option.some.inj (hline.symm.trans hk')
    exact hbelow

/-- Lines that count, as many as they are, stand for at most that many times `n` line hooks. -/
theorem HookAct.lineHooks_le {coalesce : Bool} {n : Nat} {hooks : List HookAct} (h : ∀ e ∈ hooks, e.Below n) :
    lineHooks hooks ≤ n * (countedLines coalesce none (HookAct.lines hooks)).length := by
  obtain ⟨hlength, hbelow⟩ := length_lines h
  rw [← hlength]
  exact LineTrace.length_le_of_below hbelow

/-! ### One turn -/

/-- A thread that makes a call is at a hook. -/
theorem Activity.exists_of_hookAct {a : Activity} {thread : Nat} {s : TaskState} {e : HookAct}
    (h : a.hookAct? thread s = some e) :
    ∃ f outer tracer name operands, a = .running (f :: outer) ∧ s.cancelled = false ∧
      f.method.code[f.next]? = some (.hook tracer name operands) ∧
      e = ⟨thread, f, tracer, ⟨name, operands.map f.operand⟩⟩ := by
  obtain ⟨⟨f, i⟩, hi, he⟩ := Option.bind_eq_some_iff.1 h
  obtain ⟨⟨tracer, call⟩, hcall, rfl⟩ := Option.map_eq_some_iff.1 he
  cases a with
  | running frames =>
    cases frames with
    | nil => cases hi
    | cons g outer =>
      simp only [instruction?] at hi
      split at hi
      · cases hi
      · next hc =>
        obtain ⟨j, hj, heq⟩ := Option.map_eq_some_iff.1 hi
        obtain ⟨rfl, rfl⟩ := Prod.mk.inj heq
        cases j with
        | hook tracer' name operands =>
          obtain ⟨rfl, rfl⟩ := Prod.mk.inj (Option.some.inj hcall)
          exact ⟨g, outer, tracer', name, operands, rfl, by simpa using hc, hj, rfl⟩
        | _ => cases hcall
  | _ => cases hi

theorem Activity.thread_hookAct {a : Activity} {thread : Nat} {s : TaskState} {e : HookAct}
    (h : a.hookAct? thread s = some e) : e.thread = thread := by
  obtain ⟨f, outer, tracer, name, operands, -, -, -, rfl⟩ := exists_of_hookAct h
  rfl

/-- **The line behind the limit ends the turn of its thread**, and the thread: no handler takes what the line trace
throws. -/
theorem Activity.ended_of_limit {t : Task} {thread now : Nat} {s : TaskState} {a : Activity} {u : Turn} {e : HookAct}
    (h : a.hookAct? thread s = some e) {la : LineTrace.Arguments} {l : Limit} (hl : la.limit? = some l)
    (hlimit : (s.recordings.onHook e.tracer e.call thread).1 = some (LineTrace.Recording.limitSignal la l.lines))
    (hu : (a.turn t thread now s).MayCome u) : ∃ s', u = .ended s' (.error l.fault) := by
  obtain ⟨f, outer, tracer, name, operands, rfl, hc, hcode, rfl⟩ := exists_of_hookAct h
  rw [turn_running hc] at hu
  obtain ⟨o, ho, rfl⟩ := Query.mayCome_map_iff.1 hu
  have hoperands : operands.map (Frame.operand { f with next := f.next + 1 }) = operands.map f.operand := rfl
  dsimp only at hlimit
  simp only [Step.frame, hcode, Step.instruction, Step.hook, hoperands] at ho
  generalize s.recordings.onHook tracer ⟨name, operands.map f.operand⟩ thread = q at hlimit ho
  obtain ⟨signal, rs⟩ := q
  obtain rfl : signal = some _ := hlimit
  obtain ⟨lines, -, rfl⟩ := Option.map_eq_some_iff.1 hl
  unfold Limit.fault
  cases haction : la.limitAction with
  | killSandbox =>
    simp only [LineTrace.Recording.limitSignal, haction] at ho
    rw [Query.mayCome_done_iff.1 ho]
    exact ⟨_, rfl⟩
  | throwUncatchable =>
    simp only [LineTrace.Recording.limitSignal, haction] at ho
    rw [Query.mayCome_done_iff.1 ho]
    exact ⟨_, rfl⟩

/-! ### Whole runs -/

/-- The main thread in a run of an entry point: in front of its one call, in it, or behind it. -/
inductive MainStand.OfEntry (e : EntryPoint) : MainStand → Prop where
  | before : OfEntry e (.working .none e.work)
  | within (a : Activity) : OfEntry e (.calling (.entry a))
  | behind (w : Progressed) : OfEntry e (.working w [.ret (.ref 0)])
  | ended (w : Progressed) (r : WorkEnd) : OfEntry e (.ended w r)

theorem MainStand.ofEntry_ofResult (e : EntryPoint) (s : TaskState) (w : Progressed) (r : Except Fault Value) :
    ((WorkMove.ofResult s w true r).stand [.ret (.ref 0)]).OfEntry e := by
  cases r with
  | ok v => exact .behind _
  | error fault => exact .ended _ _

theorem MainStand.ofEntry_behind (e : EntryPoint) (a : Activity) (u : Turn) :
    ((MainThread.entry a).behind u).OfEntry e := by
  cases u with
  | moved s a => exact .within a
  | blocked s a wake => exact .within a
  | ended s r => exact ofEntry_ofResult e s _ r

theorem MainStand.OfEntry.perform {e : EntryPoint} {t : Task} {s : TaskState} {w : Progressed} {step : WorkStep}
    {rest : List WorkStep} (h : (MainStand.working w (step :: rest)).OfEntry e) :
    (step.perform t s w).shared.recordings = s.recordings ∧ ((step.perform t s w).stand rest).OfEntry e := by
  cases h with
  | before =>
    have hload : (Activation.start t s e.className e.methodName []).2.recordings = s.recordings :=
      Activation.recordings_of_load e.className
    simp only [WorkStep.perform, Operand.values]
    generalize Activation.start t s e.className e.methodName [] = p at hload
    obtain ⟨r, s'⟩ := p
    cases r with
    | ok f => exact ⟨hload, .within _⟩
    | error fault => exact ⟨hload, ofEntry_ofResult e s' _ _⟩
  | behind => exact ⟨rfl, .ended _ _⟩

/-- **What a run of an entry point keeps without extra threads**: as long as its main thread goes on, its lines are
counted; the line behind the limit is the last one. -/
structure Scene.Unstarved (la : LineTrace.Arguments) (e : EntryPoint) (hooks : List HookAct) (c : Scene) : Prop where
  lonely : c.shared.Lonely
  extras : c.extras = []
  main : c.main.OfEntry e
  counts : c.shared.recordings.Counts la hooks ∨
    ∃ l, la.limit? = some l ∧ (∃ w, c.main = .ended w (.finished (.error l.fault))) ∧ ∃ before h,
      hooks = before ++ [h] ∧ (countedLines la.coalesce none (HookAct.lines before)).length ≤ l.lines

namespace Scene.Unstarved

variable {la : LineTrace.Arguments} {e : EntryPoint} {hooks : List HookAct} {t : Task} {s : TaskState}

/-- **A turn of the main thread.** -/
theorem mainTurn (ht : t.maxExtraThreads = 0) {main : MainThread} {extras : List (Nat × ExtraStand)}
    {verdict : Option (Option WorkEnd)} (h : Unstarved la e hooks ⟨s, .calling main, extras, verdict⟩) {now : Nat}
    {u : Turn} (hu : (main.activity.turn t 0 now s).MayCome u) :
    Unstarved la e (hooks ++ (main.activity.hookAct? 0 s).toList) ⟨u.shared, main.behind u, extras, verdict⟩ := by
  have hcounts := h.counts.resolve_right fun ⟨_, _, ⟨w, hend⟩, _⟩ => by cases hend
  obtain ⟨a, rfl⟩ : ∃ a, main = .entry a := by
    cases h.main with
    | within a => exact ⟨a, rfl⟩
  have hrecordings := Activity.recordings_of_turn hu
  obtain ⟨_, hdoes⟩ := ((Activity.turn_bounded t 0 now s _).of_mayCome hu).1
  refine ⟨h.lonely.registers ht hdoes.threads, h.extras, MainStand.ofEntry_behind e a u, ?_⟩
  cases hact : (MainThread.entry a).activity.hookAct? 0 s with
  | none =>
    rw [hact] at hrecordings
    exact .inl (by simpa [hrecordings] using hcounts)
  | some x =>
    rw [hact] at hrecordings
    rcases hcounts.behind (Activity.thread_hookAct hact) with hbehind | ⟨lines, hlines, hsignal⟩
    · exact .inl (by simpa [hrecordings] using hbehind)
    · have hlimit : la.limit? = some ⟨lines, la.limitAction, la.maxUnsynchronized⟩ := by
        rw [LineTrace.Arguments.limit?, hlines, Option.map_some]
      obtain ⟨s', rfl⟩ := Activity.ended_of_limit hact hlimit hsignal hu
      exact .inr ⟨_, hlimit, ⟨_, rfl⟩, hooks, x, rfl, hcounts.counted_le hlines⟩

end Scene.Unstarved

/-- **So every run of an entry point is unstarved**, under any scheduler. -/
theorem Task.Schedules.unstarved {t : Task} {s₀ : TaskState} {e : EntryPoint} {la : LineTrace.Arguments}
    {acts : List Act} {c : Scene} (ht : t.maxExtraThreads = 0) (hs : s₀.Lonely) (hstart : s₀.recordings.Counts la [])
    (h : t.Schedules s₀ e.work acts c) : c.Unstarved la e (acts.filterMap Act.hookAct?) := by
  induction h with
  | start => exact ⟨hs, rfl, .before, .inl hstart⟩
  | @step acts s w step rest extras verdict _ ih =>
    obtain ⟨hrecordings, hmain⟩ := @MainStand.OfEntry.perform e t s w step rest ih.main
    have hsame := step.sameCourse_perform t s w
    have hnone : (step.acts s w).filterMap Act.hookAct? = [] := by cases step <;> rfl
    rw [List.filterMap_append, hnone, List.append_nil]
    -- a run that has stopped has ended, and so has no step of its work left
    have hcounts := ih.counts.resolve_right fun ⟨_, _, ⟨w, hend⟩, _⟩ => by cases hend
    refine ⟨⟨?_, ?_, ?_⟩, ih.extras, hmain, .inl (hrecordings.symm ▸ hcounts)⟩
    · exact hsame.nextThread.trans ih.lonely.nextThread
    · exact hsame.finished.trans ih.lonely.finished
    · exact hsame.starting.trans ih.lonely.starting
  | exhausted _ ih => cases ih.main
  | @mainTurn acts s main extras verdict now asked u _ hu ih =>
    have hact : (Act.turn 0 now s main.activity asked u).hookAct? = main.activity.hookAct? 0 s := rfl
    have hturn := ih.mainTurn ht hu.mayCome
    rw [List.filterMap_append]
    cases hnext : main.activity.hookAct? 0 s with
    | none =>
      rw [hnext] at hact hturn
      rwa [List.filterMap_cons_none hact]
    | some x =>
      rw [hnext] at hact hturn
      rwa [List.filterMap_cons_some hact]
  -- there are no extra threads
  | extraTurn _ _ ih => exact absurd ih.extras (by simp)
  | begun _ ih =>
    rw [ih.lonely.takeStarting]
    exact ⟨ih.lonely, by simpa [ExtraStand.ofThreads] using ih.extras, ih.main, ih.counts⟩
  | finished _ _ ih => exact absurd ih.extras (by simp)
  | heard _ ih => exact ⟨ih.lonely, ih.extras, ih.main, ih.counts⟩
  | late _ ih => exact ⟨ih.lonely, ih.extras, ih.main, ih.counts⟩
  | cancelled _ ih =>
    exact ⟨⟨ih.lonely.nextThread, ih.lonely.finished, ih.lonely.starting⟩, ih.extras, ih.main, ih.counts⟩

/-- **A run executes one line hook more than its limit times `n` at most**, if these are at places below `n`, and that
one ends it. -/
theorem Scene.Unstarved.lineHooks_le {la : LineTrace.Arguments} {e : EntryPoint} {hooks : List HookAct} {c : Scene}
    (h : c.Unstarved la e hooks) {l : Limit} (hl : la.limit? = some l) {n : Nat} (hbelow : ∀ x ∈ hooks, x.Below n) :
    HookAct.lineHooks hooks ≤ l.lines * n ∨
      HookAct.lineHooks hooks ≤ l.lines * n + 1 ∧ ∃ w, c.main = .ended w (.finished (.error l.fault)) := by
  have counted {hooks : List HookAct} (hbelow : ∀ x ∈ hooks, x.Below n)
      (hle : (countedLines la.coalesce none (HookAct.lines hooks)).length ≤ l.lines) :
      HookAct.lineHooks hooks ≤ l.lines * n :=
    calc HookAct.lineHooks hooks
        ≤ n * (countedLines la.coalesce none (HookAct.lines hooks)).length := HookAct.lineHooks_le hbelow
      _ ≤ n * l.lines := Nat.mul_le_mul_left n hle
      _ = l.lines * n := Nat.mul_comm n l.lines
  rcases h.counts with hcounts | ⟨l', hl', hended, before, x, rfl, hle⟩
  · obtain ⟨lines, hlines, rfl⟩ := Option.map_eq_some_iff.1 hl
    exact .inl (counted hbelow (hcounts.counted_le hlines))
  · obtain rfl : l' = l := Option.some.inj (hl'.symm.trans hl)
    have hbefore := counted (fun x hx => hbelow x (List.mem_append_left _ hx)) hle
    refine .inr ⟨?_, hended⟩
    calc HookAct.lineHooks (before ++ [x])
        = HookAct.lineHooks before + HookAct.lineHooks [x] := List.countP_append
      _ ≤ l'.lines * n + 1 := Nat.add_le_add hbefore (List.countP_le_length ..)

/-! ### A thread that runs alone -/

namespace Solo

variable {τ : Type} (t : Task) (answer : (r : HostRequest) → StateM τ r.Answer)

def hookAct? (x : Solo τ) : Option HookAct :=
  match x.stand with
  | .running frames => (Activity.running frames).hookAct? 0 x.shared
  | .ended _ => none

/-- **What a step does to recordings is what its hook does.** -/
theorem recordings_step (x : Solo τ) :
    (x.step t answer).shared.recordings = x.hookAct?.elim x.shared.recordings x.shared.recordings.behind := by
  unfold hookAct?
  cases hstand : x.stand with
  | ended r =>
    rw [step_of_ended t answer hstand]
    rfl
  | running frames =>
    have hturn := (Query.mayCome_answered answer (Activation.step t 0 x.shared frames) x.host).map (Turn.ofProgress 0)
    have hrecordings := @Activity.recordings_of_turn t 0 0 x.shared (.running frames) _ hturn
    rw [step_of_running t answer hstand, ← hrecordings]
    generalize ((Activation.step t 0 x.shared frames).answered answer x.host).1 = p
    cases p with
    | running s frames => rfl
    | waiting s frames w => cases w <;> rfl
    | ended s r => rfl

theorem thread_hookAct {x : Solo τ} {e : HookAct} (he : x.hookAct? = some e) : e.thread = 0 := by
  unfold hookAct? at he
  split at he
  · exact Activity.thread_hookAct he
  · cases he

theorem found_of_hookAct (hu : t.unit.Built) {x : Solo τ} (hx : x.Reaches t) {e : HookAct}
    (he : x.hookAct? = some e) :
    e.frame.Found t.unit ∧ ∃ i, e.frame.method.code[e.frame.next]? = some i ∧
      e.frame.hookCall? i = some (e.tracer, e.call) := by
  unfold hookAct? at he
  split at he
  · next frames hstand =>
    obtain ⟨f, outer, tracer, name, operands, hframes, -, hcode, rfl⟩ := Activity.exists_of_hookAct he
    obtain rfl := Activity.running.inj hframes
    exact ⟨(hx _ hstand).found hu f (by simp [Activity.frames]), _, hcode, rfl⟩
  · cases he

end Solo

namespace Sandbox

namespace Prepared

variable {τ : Type} (P : Prepared) (e : EntryPoint) (answer : (r : HostRequest) → StateM τ r.Answer) (v : τ)

def hooksAlone (n : Nat) : List HookAct := (List.range n).filterMap fun k => (P.soloAfter e answer v k).hookAct?

theorem hooksAlone_succ (n : Nat) :
    P.hooksAlone e answer v (n + 1) = P.hooksAlone e answer v n ++ (P.soloAfter e answer v n).hookAct?.toList := by
  rw [hooksAlone, List.range_succ, List.filterMap_append]
  cases h : (P.soloAfter e answer v n).hookAct? <;> simp [hooksAlone, h]

variable {P}

theorem found_of_hooksAlone (hu : P.task.unit.Built) {n : Nat} {x : HookAct} (hx : x ∈ P.hooksAlone e answer v n) :
    x.frame.Found P.task.unit ∧ ∃ i, x.frame.method.code[x.frame.next]? = some i ∧
      x.frame.hookCall? i = some (x.tracer, x.call) := by
  obtain ⟨k, -, hk⟩ := List.mem_filterMap.1 hx
  exact Solo.found_of_hookAct P.task hu
    (Solo.reaches_iterate P.task answer (Solo.reaches_start P.task P.state e.className e.methodName [] v) k) hk

/-- **Without a limit all lines of the thread are counted.** -/
theorem counts_soloAfter {la : LineTrace.Arguments} (hl : la.runLineLimit = none)
    (hstart : P.state.recordings.Counts la []) (n : Nat) :
    (P.soloAfter e answer v n).shared.recordings.Counts la (P.hooksAlone e answer v n) := by
  induction n with
  | zero =>
    have hself : P.solo e v = (P.solo e v).told P.state.recordings P.state.killReason :=
      Solo.start_told P.task P.task.unit.own.instrumentation P.state P.state.recordings P.state.killReason
        e.className e.methodName [] v
    have hrecordings : (P.solo e v).shared.recordings = P.state.recordings :=
      congrArg (·.shared.recordings) hself
    exact hrecordings.symm ▸ hstart
  | succ n ih =>
    have hstep : P.soloAfter e answer v (n + 1) = (P.soloAfter e answer v n).step P.task answer :=
      Function.iterate_succ_apply' ..
    rw [hstep, Solo.recordings_step, hooksAlone_succ]
    cases hact : (P.soloAfter e answer v n).hookAct? with
    | none => simpa using ih
    | some x =>
      refine (ih.behind (Solo.thread_hookAct hact)).resolve_right ?_
      rintro ⟨limit, hlimit, -⟩
      rw [hl] at hlimit
      cases hlimit

end Prepared

/-! ### The limit -/

/-- **A program does not outrun its limit of lines** in line hooks of which at most `n` come on a line that counts. -/
structure Prepared.LineHooksAtMost (l : Limit) (n : Nat) (P : Prepared) : Prop where
  /-- a run executes one line hook more than the limit times `n` at most, however it is scheduled -/
  scheduled : ∀ {e : EntryPoint} {acts : List Act} {c : Scene}, P.task.Schedules P.state e.work acts c →
    HookAct.lineHooks (acts.filterMap Act.hookAct?) ≤ l.lines * n + 1
  /-- with that one it has been stopped -/
  stopped : ∀ {e : EntryPoint} {acts : List Act} {c : Scene}, P.task.Schedules P.state e.work acts c →
    l.lines * n < HookAct.lineHooks (acts.filterMap Act.hookAct?) →
      ∃ w, c.main = .ended w (.finished (.error l.fault))
  /-- a run on a host is such a schedule -/
  executed : ∀ {σ : Type} (host : Host (StateM σ)) (e : EntryPoint) (time : Nat) (w : σ),
    ∃ acts c, P.task.Schedules P.state e.work acts c ∧
      c.shared = (RunState.run host P.task P.state e.work time w).1.shared

/-- **A program that executes too many line hooks without a limit is stopped with it.** -/
structure Prepared.StoppedWith (l : Limit) (n : Nat) (P P' : Prepared) : Prop where
  /-- the thread of the entry point, alone -/
  alone : ∀ {τ : Type} (e : EntryPoint) (answer : (r : HostRequest) → StateM τ r.Answer) (v : τ) {k : Nat},
    l.lines * n < HookAct.lineHooks (P.hooksAlone e answer v k) →
      (P'.soloAfter e answer v k).stand = .ended (.error l.fault)
  /-- a run on a host that is not cut off by its time -/
  executed : ∀ {σ τ : Type} {answer : (r : HostRequest) → StateM τ r.Answer} {host : Host (StateM σ)} {view : σ → τ}
    (e : EntryPoint) (time : Nat) (w : σ) {k : Nat}, host.Serves answer view →
      l.lines * n < HookAct.lineHooks (P.hooksAlone e answer (view w) k) →
      (RunState.run host P'.task P'.state e.work time w).1.outcome ≠ none →
        ∃ s, (RunState.run host P'.task P'.state e.work time w).1 = .ofCall s (.error l.fault)

theorem Prepares.counts {u : LoadingUnit} {front rest : List Instrumentation} {i : LineTrace.Instrumentation}
    (hu : u.own.instrumentation = front ++ .lineTrace i :: rest) (hfront : ∀ j ∈ front, j.id ≠ LineTrace.id)
    (hrest : ∀ j ∈ rest, j.id ≠ LineTrace.id) {sb : Sandbox} {r : RegistryId} {sets : List LoadingUnit.ClassSets}
    {a : ExecutionArguments} {P : Prepared} (hP : Prepares sb r u sets a P) :
    P.state.recordings.Counts i.arguments [] := by
  have hstarted := hP.started
  rw [hu] at hstarted
  rcases Recordings.start_around hfront hrest a.maxExtraThreads with ⟨fault, hfault⟩ | ⟨c, subscribers, hc⟩
  · rw [hfault] at hstarted
    cases hstarted
  · rw [hc] at hstarted
    exact ⟨c, _, (Except.ok.inj hstarted).symm, LineTrace.Recording.counts_start i.arguments subscribers⟩

/-- **A program that has been prepared with a limit does not outrun it.** -/
theorem Prepares.lineHooksAtMost {sb : Sandbox} {r : RegistryId} {u : LoadingUnit} {sets : List LoadingUnit.ClassSets}
    {a : ExecutionArguments} {P : Prepared} (hP : Prepares sb r u sets a P) (ha : a.maxExtraThreads = 0)
    (hu : u.Built) {n : Nat} (hbelow : u.HooksBelow n) {la : LineTrace.Arguments} {l : Limit} (hl : la.limit? = some l)
    (hstart : P.state.recordings.Counts la []) : P.LineHooksAtMost l n := by
  have hunit : P.task.unit = u := by rw [hP.task]
  have ht : P.task.maxExtraThreads = 0 := by rw [hP.task, ha]
  have bounded {e : EntryPoint} {acts : List Act} {c : Scene} (h : P.task.Schedules P.state e.work acts c) :=
    (h.unstarved ht hP.lonely hstart).lineHooks_le hl fun x hx =>
      hbelow x (hunit ▸ h.hookAct_found (hunit ▸ hu) hx)
  refine ⟨fun h => ?_, fun h hmany => ?_, fun host e time w => ?_⟩
  · exact (bounded h).elim Nat.le_succ_of_le (·.1)
  · exact ((bounded h).resolve_left (Nat.not_le_of_lt hmany)).2
  · obtain ⟨acts, c, hacts, hshared, -⟩ := hP.scheduled host e.work time w
    exact ⟨acts, c, hacts, hshared⟩

/-- **A program that has been prepared without a limit and with one** is stopped with it. -/
theorem Prepared.Within.stoppedWith {la : LineTrace.Arguments} {l : Limit} {P P' : Prepared} (h : P.Within la l P')
    {sb : Sandbox} {r : RegistryId} {u : LoadingUnit} {sets : List LoadingUnit.ClassSets} {a : ExecutionArguments}
    (hP : Prepares sb r u sets a P) (ha : a.maxExtraThreads = 0) (hu : u.Built) {n : Nat} (hbelow : u.HooksBelow n)
    (hl : la.runLineLimit = none) (hstart : P.state.recordings.Counts la []) : P.StoppedWith l n P' := by
  have hunit : P.task.unit = u := by rw [hP.task]
  have alone {τ : Type} (e : EntryPoint) (answer : (r : HostRequest) → StateM τ r.Answer) (v : τ) {k : Nat}
      (hmany : l.lines * n < HookAct.lineHooks (P.hooksAlone e answer v k)) :
      (P'.soloAfter e answer v k).stand = .ended (.error l.fault) := by
    have hle : HookAct.lineHooks (P.hooksAlone e answer v k) ≤
        n * (countedLines la.coalesce none (HookAct.lines (P.hooksAlone e answer v k))).length :=
      HookAct.lineHooks_le fun x hx => hbelow x (hunit ▸ found_of_hooksAlone e answer v (hunit ▸ hu) hx)
    -- more lines count than the limit allows
    have hover : l.lines < (P.soloAfter e answer v k).traced.linesRun := by
      rw [Solo.traced, (counts_soloAfter e answer v hl hstart k).linesRun_traced]
      rw [Nat.mul_comm] at hmany
      exact Nat.lt_of_mul_lt_mul_left (Nat.lt_of_lt_of_le hmany hle)
    obtain ⟨m, hm, hends⟩ := h.exists_stop e answer v hover
    exact (hends k hm.before).stand
  refine ⟨alone, ?_⟩
  intro σ τ answer host view e time w k hs hmany houtcome
  have hlonely := hP.lonely
  obtain ⟨is, htask⟩ := h.task
  obtain ⟨rs', -, hstate⟩ := h.state
  have hlonely' : P'.state.Lonely := by
    rw [hstate]
    exact ⟨hlonely.nextThread, hlonely.finished, hlonely.starting⟩
  have ht' : P'.task.maxExtraThreads = 0 := by
    rw [htask, hP.task]
    exact ha
  exact ⟨_, (run_of_ended hlonely' ht' hs houtcome (alone e _ _ hmany)).1⟩

/-- **Coalescing does not starve a limit of lines.** Take a unit with a line trace, and perhaps with other tracers, on
library units, whose methods have at most `n` labels where lines are traced. With a limit, a run without extra threads
executes at most one line hook more than the limit times `n`. Without one, the unit is built with any limit too, and a
program that executes more line hooks is stopped with it. Only probes may not put in calls into the line trace. -/
theorem lineHooks_bounded {tracers : List Tracer} {la : LineTrace.Arguments} (hla : .lineTrace la ∈ tracers)
    (hfree : ∀ a, .probe a ∈ tracers → a.Unforged) {roster : Roster Tracer}
    (hr : Roster.empty.addAll tracers = .ok roster) {p : LoadingUnit.Plan}
    (hp : ∀ v, p.parent = some v → v.Library) {id : UnitId} {u : LoadingUnit}
    (hu : LoadingUnit.build { p with tracers := roster } id = .ok u) {n : Nat} (hn : u.LabelsAtMost n) :
    (∀ l, la.limit? = some l → ∀ (sb : Sandbox) (r : RegistryId) (sets : List LoadingUnit.ClassSets)
      (a : ExecutionArguments) (P : Prepared), a.maxExtraThreads = 0 → sb.prepare r u sets a = .ok P →
        P.LineHooksAtMost l n) ∧
    (la.limit? = none → ∀ l, ∃ roster' u', Roster.empty.addAll (tracers.map (.within l)) = .ok roster' ∧
      LoadingUnit.build { p with tracers := roster' } id = .ok u' ∧
      ∀ (sb : Sandbox) (r : RegistryId) (sets : List LoadingUnit.ClassSets) (a : ExecutionArguments),
        a.maxExtraThreads = 0 →
          Agree (Prepared.StoppedWith l n) (sb.prepare r u sets a) (sb.prepare r u' sets a)) := by
  obtain ⟨front, i, rest, hi, rfl, hfront, hrest⟩ := LoadingUnit.exists_lineTrace_of_build hla hr hu
  have hbuilt : u.Built := @LoadingUnit.Built.build { p with tracers := roster } _ _ (fun v hv => (hp v hv).built) hu
  have hbelow : u.HooksBelow n :=
    LoadingUnit.hooksBelow (LoadingUnit.placed_of_build hr hfree hu) (LoadingUnit.hookFree_parents_of_build hp hu) hn
  constructor
  · intro l hl sb r sets a P ha hP
    have hprepares := prepare_eq_ok_iff.1 hP
    exact hprepares.lineHooksAtMost ha hbuilt hbelow hl (hprepares.counts hi hfront hrest)
  · intro hl l
    have hnone : i.arguments.runLineLimit = none := by simpa [LineTrace.Arguments.limit?] using hl
    refine ⟨roster.within l, u.within l, ?_, ?_, fun sb r sets a ha => ?_⟩
    · have haddAll := Roster.addAll_within l .empty tracers
      rw [hr] at haddAll
      exact haddAll
    · have hbuild := LoadingUnit.build_within l { p with tracers := roster } id
      rw [hu] at hbuild
      exact hbuild
    · refine (prepare_within hi hnone hfront hrest l sb r sets a).imp fun P P' hP hwithin => ?_
      have hprepares := prepare_eq_ok_iff.1 hP
      exact hwithin.stoppedWith hprepares ha hbuilt hbelow hnone (hprepares.counts hi hfront hrest)

/-! ### A loop in one line -/

namespace Looping

/-- A program that goes round one line for ever, in two pieces. -/
def program : ClassFile :=
  ⟨"Main", some "Main.java", [⟨"main", true, [], 0, [.label ⟨0⟩, .lineNumber 1 ⟨0⟩, .frame 0, .label ⟨1⟩,
    .lineNumber 1 ⟨1⟩, .jump ⟨0⟩], []⟩]⟩

def limited : LineTrace.Arguments := .within .default ⟨2, .killSandbox, 1000⟩

def unit (la : LineTrace.Arguments) : LoadingUnit := OfClass.unitOn none ⟨1⟩ .untrusted [program] (some la) none

theorem build_unit {la : LineTrace.Arguments} (h : la = .default ∨ la = limited) :
    LoadingUnit.build { OfClass.planOf [program] with parent := none, tracers := .traces (some la) none } ⟨1⟩ =
      .ok (unit la) :=
  @OfClass.build_on none ⟨1⟩ .untrusted [program] (some la) none (by decide) (by rcases h with rfl | rfl <;> decide)

theorem labelsAtMost_unit {la : LineTrace.Arguments} (h : la = .default ∨ la = limited) :
    (unit la).LabelsAtMost 2 := by
  unfold LoadingUnit.LabelsAtMost
  rcases h with rfl | rfl <;> decide +kernel

end Looping

/-- The loop executes four line hooks with a limit of two lines, and is stopped at the fifth one. -/
theorem lineHooks_bounded_looping :
    (∃ P, empty.prepare ⟨0⟩ (Looping.unit Looping.limited) [] .default = .ok P ∧
      P.LineHooksAtMost ⟨2, .killSandbox, 1000⟩ 2 ∧
      HookAct.lineHooks ((EntryPoint.default.playedAlone P.task P.state 30).1.filterMap Act.hookAct?) = 4) ∧
    ∃ P roster' u' P', empty.prepare ⟨0⟩ (Looping.unit .default) [] .default = .ok P ∧
      HookAct.lineHooks (P.hooksAlone .default OfClass.silent () 21) = 5 ∧
      Roster.empty.addAll [.lineTrace Looping.limited] = .ok roster' ∧
      LoadingUnit.build { OfClass.planOf [Looping.program] with parent := none, tracers := roster' } ⟨1⟩ = .ok u' ∧
      empty.prepare ⟨0⟩ u' [] .default = .ok P' ∧
      (P'.soloAfter .default OfClass.silent () 21).stand = .ended (.error .cancelled) := by
  constructor
  · obtain ⟨P, hP⟩ : ∃ P, empty.prepare ⟨0⟩ (Looping.unit Looping.limited) [] .default = .ok P := ⟨_, rfl⟩
    obtain ⟨hbound, -⟩ := @lineHooks_bounded [.lineTrace Looping.limited] Looping.limited (List.mem_singleton.2 rfl)
      (by simp) (.traces (some Looping.limited) none) rfl { OfClass.planOf [Looping.program] with parent := none }
      (by simp) ⟨1⟩ (Looping.unit Looping.limited) (Looping.build_unit (.inr rfl)) 2
        (Looping.labelsAtMost_unit (.inr rfl))
    refine ⟨P, hP, hbound _ rfl empty ⟨0⟩ [] .default P rfl hP, ?_⟩
    cases hP
    decide +kernel
  · obtain ⟨P, hP⟩ : ∃ P, empty.prepare ⟨0⟩ (Looping.unit .default) [] .default = .ok P := ⟨_, rfl⟩
    obtain ⟨-, hstopped⟩ := @lineHooks_bounded [.lineTrace .default] .default (List.mem_singleton.2 rfl)
      (by simp) (.traces (some .default) none) rfl { OfClass.planOf [Looping.program] with parent := none }
      (by simp) ⟨1⟩ (Looping.unit .default) (Looping.build_unit (.inl rfl)) 2 (Looping.labelsAtMost_unit (.inl rfl))
    obtain ⟨roster', u', hroster, hu', hagree⟩ := hstopped rfl ⟨2, .killSandbox, 1000⟩
    have hmany : HookAct.lineHooks (P.hooksAlone .default OfClass.silent () 21) = 5 := by
      cases hP
      decide +kernel
    have hprepared := hagree empty ⟨0⟩ [] .default rfl
    rw [hP] at hprepared
    generalize hP' : empty.prepare ⟨0⟩ u' [] .default = q at hprepared
    cases hprepared with
    | @ok _ P' h =>
      refine ⟨P, roster', u', P', hP, hmany, hroster, hu', hP', h.alone .default OfClass.silent () ?_⟩
      rw [hmany]
      decide

end Sandbox

end Confine
