import Confine.Proofs.Sandbox.Audited
import Confine.Proofs.Sandbox.HookActs
import Confine.Proofs.Tracing.Followed
import Confine.Proofs.Tracing.HookOwners
import Confine.Proofs.Tracing.LineAggregation
import Mathlib.Data.List.Destutter

/-!
# What coalescing hides

A line goes on with the one before it if it has the same number of a method and the next place among its labels. Where
numbers tell methods apart that is the same line once more, so coalescing hides nothing but repetitions.

* `LineTrace.destutter_countedLines` — if lines only go on with equal ones, coalescing changes nothing but how often a
  line is repeated;
* `LineTrace.Recording.Follows` — each thread has recorded the lines of its own hooks, and keeps them when the counts
  start again from zero (`Task.Schedules.follows`);
* `LoadingUnit.LinesApart` — the numbers in the hooks of a unit tell its methods apart;
* `Sandbox.coalesces_of_prepare` — then **coalescing only removes repetitions**, in every run.
-/

namespace Confine

attribute [ext] LineEvent

namespace LineTrace

/-! ### Lists of hooks -/

theorem countedLines_false (last : Option LastLine) (hooks : List (LastLine × LineEvent)) :
    countedLines false last hooks = hooks.map (·.2) := by
  induction hooks generalizing last with
  | nil => rfl
  | cons h hooks ih => exact congrArg (h.2 :: ·) (ih (some h.1))

theorem eq_of_goesOn {last line : LastLine} (h : goesOn (some last) line = true) :
    last.method = line.method ∧ last.line = line.line := by
  simp only [goesOn, Option.any_some, Bool.and_eq_true, beq_iff_eq] at h
  exact ⟨h.1.1, h.1.2⟩

theorem length_countedLines_le (coalesce : Bool) (last : Option LastLine) (hooks : List (LastLine × LineEvent)) :
    (countedLines coalesce last hooks).length ≤ hooks.length := by
  induction hooks generalizing last with
  | nil => exact Nat.le_refl 0
  | cons h hooks ih =>
    rw [countedLines]
    split
    · exact Nat.le_succ_of_le (ih _)
    · exact Nat.succ_le_succ (ih _)

/-- Lines go on with equal lines only. -/
def Repeats (hooks : List (LastLine × LineEvent)) : Prop :=
  ∀ h ∈ hooks, ∀ k ∈ hooks, goesOn (some h.1) k.1 = true → k.2 = h.2

theorem destutter'_countedLines {g : LastLine × LineEvent} {hooks : List (LastLine × LineEvent)}
    (h : Repeats (g :: hooks)) : (countedLines true (some g.1) hooks).destutter' (· ≠ ·) g.2 =
      (hooks.map (·.2)).destutter' (· ≠ ·) g.2 := by
  induction hooks generalizing g with
  | nil => rfl
  | cons k hooks ih =>
    have hrest := ih fun x hx y hy => h x (List.mem_cons_of_mem g hx) y (List.mem_cons_of_mem g hy)
    rw [countedLines, List.map_cons, Bool.true_and]
    cases hgoes : goesOn (some g.1) k.1 with
    | true =>
      -- the line is dropped on one side only, where it repeats the one before it
      have hk : k.2 = g.2 := h g (by simp) k (by simp) hgoes
      rw [if_pos rfl, List.destutter'_cons_neg _ (by simp [hk]), ← hk, hrest]
    | false =>
      rw [if_neg Bool.false_ne_true]
      by_cases hk : g.2 = k.2
      · rw [List.destutter'_cons_neg _ (by simp [hk]), List.destutter'_cons_neg _ (by simp [hk]), hk, hrest]
      · rw [List.destutter'_cons_pos _ hk, List.destutter'_cons_pos _ hk, hrest]

/-- **Coalescing then changes nothing but how often a line is repeated.** -/
theorem destutter_countedLines {hooks : List (LastLine × LineEvent)} (h : Repeats hooks) :
    (countedLines true none hooks).destutter (· ≠ ·) = (countedLines false none hooks).destutter (· ≠ ·) := by
  rw [countedLines_false]
  cases hooks with
  | nil => rfl
  | cons g hooks => exact destutter'_countedLines h

/-! ### What threads record in a run -/

namespace Recording

/-- Each thread has recorded the lines of its own hooks; the counts may have started again from zero meanwhile. -/
structure Follows (a : Arguments) (hooks : List (LastLine × LineEvent)) (r : Recording) : Prop where
  arguments : r.arguments = a
  lines : ∀ i, ∃ forgotten, Race.Keeps a (ofThread i hooks) [] forgotten (r.lines i)

variable {a : Arguments} {hooks : List (LastLine × LineEvent)} {r : Recording}

theorem Follows.start (ha : r.arguments = a) (hr : r.threads = []) : r.Follows a [] :=
  ⟨ha, fun i => ⟨0, by rw [lines_of_notMem (by simp [ids, hr])]; exact .start i⟩⟩

theorem Follows.onLine (h : r.Follows a hooks) (ha : a.runLineLimit = none) (k : LastLine × LineEvent) :
    (r.onLine k.1 k.2).2.Follows a (hooks ++ [k]) := by
  refine ⟨by rw [onLine_eq]; exact h.arguments, fun i => ?_⟩
  obtain ⟨forgotten, hkeeps⟩ := h.lines i
  refine ⟨forgotten, ?_⟩
  rw [onLine_eq, lines_put, thread_reach, thread_lines, ofThread_concat, h.arguments]
  by_cases hi : i = k.2.thread
  · subst hi
    rw [if_pos rfl, if_pos rfl]
    rcases reach_cases a (r.others k.2.thread) (r.lines k.2.thread) k.1 k.2 with
      ⟨hs, heq⟩ | ⟨hs, u, hu, ⟨limit, hl, -⟩ | ⟨-, heq⟩⟩
    · rw [heq]
      exact hkeeps.coalesced hs
    · exact absurd (hl.symm.trans ha) (Option.some_ne_none _)
    · obtain rfl : u = { r.lines k.2.thread with last := some k.1 } := by
        rw [hu, reconcile, ha]
        rfl
      rw [heq]
      exact (hkeeps.reached hs).counts
  · rw [if_neg hi, if_neg (Ne.symm hi)]
    exact hkeeps

theorem lines_reset (r : Recording) (i : Nat) :
    r.reset.lines i = { r.lines i with linesRun := 0, othersSeen := 0, unsynchronized := 0 } := by
  have hfind : r.reset.thread? i =
      (r.thread? i).map fun t => { t with linesRun := 0, othersSeen := 0, unsynchronized := 0 } := by
    rw [thread?, thread?, reset, List.find?_map]
    rfl
  rw [lines, lines, hfind]
  cases r.thread? i <;> rfl

theorem Follows.reset (h : r.Follows a hooks) : r.reset.Follows a hooks := by
  refine ⟨h.arguments, fun i => ?_⟩
  obtain ⟨forgotten, hlast, done, hdone, hlines, hsteps⟩ := h.lines i
  exact ⟨forgotten + (r.lines i).linesRun, by rw [lines_reset]; exact ⟨hlast, done, hdone, hlines, hsteps⟩⟩

theorem Follows.steps (h : r.Follows a hooks) (i : Nat) :
    (r.lines i).steps.toList = (countedLines a.coalesce none (ofThread i hooks)).take a.recordedStepLimit := by
  obtain ⟨-, -, done, hdone, -, hsteps⟩ := h.lines i
  rw [hsteps, hdone, List.append_nil]

theorem follows_afterHooks (ha : a.runLineLimit = none) (hooks : List (LastLine × LineEvent)) :
    (afterHooks a hooks).Follows a hooks := by
  induction hooks using List.reverseRecOn with
  | nil => exact .start rfl rfl
  | append_singleton hooks h ih =>
    rw [afterHooks_concat]
    exact ih.onLine ha h

/-- A line is coalesced only if it goes on with the last one of its thread. -/
theorem Follows.goesOn (h : r.Follows a hooks) {k : LastLine × LineEvent}
    (hk : (r.onLine k.1 k.2).1 = .coalesced) : goesOn (lastLine (ofThread k.2.thread hooks)) k.1 = true := by
  -- the last line of a thread is that of its last hook, whether this counted or not
  obtain ⟨-, hlast, -⟩ := h.lines k.2.thread
  rw [onLine_eq] at hk
  rcases reach_cases r.arguments (r.others k.2.thread) (r.lines k.2.thread) k.1 k.2 with
    ⟨hs, -⟩ | ⟨-, u, -, ⟨limit, -, -, heq⟩ | ⟨-, heq⟩⟩
  · rw [← hlast, ← isStutter_eq_goesOn]
    exact (Bool.and_eq_true_iff.1 hs).2
  · rw [heq] at hk
    cases hk
  · rw [heq] at hk
    cases hk

end Recording

end LineTrace

open LineTrace (LastLine ofThread lastLine)

/-- The line that a call reports to a line trace. -/
def HookAct.line? (e : HookAct) : Option (LastLine × LineEvent) :=
  if e.tracer = LineTrace.id then LineTrace.Recording.line? e.call e.thread else none

theorem HookAct.thread_line {e : HookAct} {h : LastLine × LineEvent} (hh : e.line? = some h) : h.2.thread = e.thread := by
  unfold line? at hh
  split at hh
  · exact Recordings.thread_line? hh
  · cases hh

/-- **Each thread has recorded the lines of its own hooks**, whatever the work of the task is and however its threads are
scheduled. -/
theorem Task.Schedules.follows {t : Task} {s₀ : TaskState} {work : List WorkStep} {acts : List Act} {c : Scene}
    {n : Nat} (hstart : Recordings.start n t.unit.own.instrumentation = .ok s₀.recordings)
    (hlimit : ∀ i, .lineTrace i ∈ t.unit.own.instrumentation → i.arguments.runLineLimit = none)
    (h : t.Schedules s₀ work acts c) {r : LineTrace.Recording} (hr : c.shared.recordings.lineTrace? = some r) :
    r.arguments.runLineLimit = none ∧
      r.Follows r.arguments ((acts.filterMap Act.hookAct?).filterMap HookAct.line?) := by
  revert r
  refine Task.Schedules.recorded (P := fun hooks rs => ∀ {r}, rs.lineTrace? = some r →
    r.arguments.runLineLimit = none ∧ r.Follows r.arguments (hooks.filterMap HookAct.line?)) ?_ ?_ ?_ ?_ ?_ h
  · intro r hr
    obtain ⟨i, hi, harguments, hthreads⟩ := Recordings.lineTrace?_start hstart hr
    exact ⟨harguments ▸ hlimit i hi, .start rfl hthreads⟩
  · -- a hook: the line it reports is added
    intro hooks rs e ih r' hr'
    rw [Recordings.behind, Recordings.lineTrace?_onHook] at hr'
    obtain ⟨r, hr, rfl⟩ := Option.map_eq_some_iff.1 hr'
    obtain ⟨hnone, hfollows⟩ := ih hr
    have hafter : r.afterHook e.tracer e.call e.thread = e.line?.elim r fun p => (r.onLine p.1 p.2).2 := by
      unfold LineTrace.Recording.afterHook HookAct.line?
      split <;> rfl
    rw [hafter, List.filterMap_append, List.filterMap_cons]
    cases e.line? with
    | none => simpa using ⟨hnone, hfollows⟩
    | some p =>
      have hp := hfollows.onLine hnone p
      have harguments : (r.onLine p.1 p.2).2.arguments = r.arguments := hp.arguments
      rw [Option.elim_some, harguments]
      exact ⟨hnone, hp⟩
  · -- the steps forget which line was the last
    intro hooks rs ih r' hr'
    rw [Recordings.lineTrace?_resetLines] at hr'
    obtain ⟨r, hr, rfl⟩ := Option.map_eq_some_iff.1 hr'
    exact ⟨(ih hr).1, (ih hr).2.reset⟩
  · intro hooks rs x ih r' hr'
    rw [Recordings.lineTrace?_subscribe] at hr'
    obtain ⟨r, hr, rfl⟩ := Option.map_eq_some_iff.1 hr'
    obtain ⟨hnone, hfollows⟩ := ih hr
    exact ⟨hnone, hfollows.arguments, hfollows.lines⟩
  · intro hooks rs ih r hr
    exact ih hr

/-! ### The numbers of methods -/

/-- The method has hooks of a line trace. -/
def LinkedMethod.callsLineTrace (m : LinkedMethod) : Bool :=
  m.code.any fun
    | .hook tracer _ _ => tracer == LineTrace.id
    | _ => false

def Layer.callsLineTrace (l : Layer) : Bool := l.classes.any fun e => e.2.linked.methods.any (·.callsLineTrace)

namespace LoadingUnit

/-- The numbers in the hooks of line traces tell methods apart: there are such hooks in at most one layer, since numbers
start again in each; and two methods with such hooks whose classes differ also differ when the name of the class and
that of the method are joined by a dot, since numbers are given to the joined names. -/
structure LinesApart (u : LoadingUnit) : Prop where
  layers : ∀ l ∈ u.layers, ∀ l' ∈ u.layers, l.callsLineTrace = true → l'.callsLineTrace = true → l = l'
  names : ∀ l ∈ u.layers, ∀ e ∈ l.classes, ∀ e' ∈ l.classes, ∀ m ∈ e.2.linked.methods, ∀ m' ∈ e'.2.linked.methods,
    m.callsLineTrace = true → m'.callsLineTrace = true →
      e.1 ++ "." ++ m.method.name = e'.1 ++ "." ++ m'.method.name → e.1 = e'.1

/-- A line is reported by a hook of the method that its frame runs: it has the number of the method in the layer of the
class, and the source of the class. -/
structure Reports (u : LoadingUnit) (e : HookAct) (h : LastLine × LineEvent) (l : Layer) (c : ClassFile)
    (m : Method) : Prop extends e.frame.Runs u l c m where
  number : ∃ i, l.lineTrace? = some i ∧ c.name ++ "." ++ m.name ∈ i.methods ∧
    i.methods.idxOf (c.name ++ "." ++ m.name) < 2 ^ 64 ∧
    h.1.method = UInt64.ofNat (i.methods.idxOf (c.name ++ "." ++ m.name))
  source : c.sourceFile = some h.2.source
  line : h.2.line = h.1.line
  calls : e.frame.method.callsLineTrace = true

variable {u : LoadingUnit}

/-- **Every line is reported by a hook of its method.** -/
theorem exists_reports (hu : u.Built) (ho : ∀ l ∈ u.layers, l.Orderly) {e : HookAct} (hfound : e.frame.Found u)
    {x : Instruction} (hx : e.frame.method.code[e.frame.next]? = some x)
    (hcall : e.frame.hookCall? x = some (e.tracer, e.call)) {h : LastLine × LineEvent} (hh : e.line? = some h) :
    ∃ l c m, u.Reports e h l c m := by
  obtain ⟨l, c, m, hruns⟩ := hfound.exists_runs hu
  unfold HookAct.line? at hh
  split at hh
  · next htracer =>
    rw [htracer] at hcall
    cases x with
    | hook tracer name operands =>
      obtain ⟨rfl, heq⟩ := Prod.mk.inj (Option.some.inj hcall)
      obtain ⟨i, source, place, n, hi, hsource, hmem, hlt, hhook⟩ :=
        (ho l hruns.mem_layers).exists_line (hruns.exists_puts hx rfl)
      obtain ⟨-, rfl, rfl⟩ := Instruction.hook.inj hhook
      rw [← heq] at hh
      obtain rfl : (⟨⟨UInt64.ofNat (i.methods.idxOf (c.name ++ "." ++ m.name)), Int64.ofNat place, n⟩,
          ⟨source, n, e.thread⟩⟩ : LastLine × LineEvent) = h := by
        simpa [LineTrace.Recording.line?, Frame.operand, Value.ofConstant] using hh
      refine ⟨l, c, m, hruns, ⟨i, hi, hmem, hlt, rfl⟩, hsource, rfl, ?_⟩
      exact Array.any_eq_true'.2 ⟨_, Array.mem_of_getElem? hx, beq_self_eq_true LineTrace.id⟩
    | _ => cases hcall
  · cases hh

theorem Reports.exists_entry {e : HookAct} {h : LastLine × LineEvent} {l : Layer} {c : ClassFile} {m : Method}
    (hr : u.Reports e h l c m) : ∃ d ∈ l.classes, d.1 = c.name ∧ e.frame.method ∈ d.2.linked.methods := by
  obtain ⟨d, hd, hlinked⟩ := Option.map_eq_some_iff.1 hr.defined
  refine ⟨_, getNamed?_mem hd, hr.name.symm, ?_⟩
  rw [hlinked, hr.method]
  exact List.mem_map_of_mem hr.mem

/-- **Lines with the same number are of one method.** -/
theorem LinesApart.same (hapart : u.LinesApart) {e e' : HookAct} {h h' : LastLine × LineEvent} {l l' : Layer}
    {c c' : ClassFile} {m m' : Method} (hr : u.Reports e h l c m) (hr' : u.Reports e' h' l' c' m')
    (hmethod : h.1.method = h'.1.method) :
    e.frame.className = e'.frame.className ∧ e.frame.method = e'.frame.method ∧ h.2.source = h'.2.source := by
  obtain ⟨d, hd, hdname, hdm⟩ := hr.exists_entry
  obtain ⟨d', hd', hdname', hdm'⟩ := hr'.exists_entry
  obtain rfl : l = l' := hapart.layers l hr.mem_layers l' hr'.mem_layers
    (List.any_eq_true.2 ⟨d, hd, List.any_eq_true.2 ⟨_, hdm, hr.calls⟩⟩)
    (List.any_eq_true.2 ⟨d', hd', List.any_eq_true.2 ⟨_, hdm', hr'.calls⟩⟩)
  obtain ⟨i, hi, hmem, hlt, hnumber⟩ := hr.number
  obtain ⟨i', hi', hmem', hlt', hnumber'⟩ := hr'.number
  obtain rfl : i = i' := Option.some.inj (hi.symm.trans hi')
  -- the numbers are places in one table, so the joined names are the same
  have hplace : i.methods.idxOf (c.name ++ "." ++ m.name) = i.methods.idxOf (c'.name ++ "." ++ m'.name) := by
    have htoNat := congrArg UInt64.toNat (hnumber.symm.trans (hmethod.trans hnumber'))
    rwa [UInt64.toNat_ofNat_of_lt' hlt, UInt64.toNat_ofNat_of_lt' hlt'] at htoNat
  have hjoined : c.name ++ "." ++ m.name = c'.name ++ "." ++ m'.name := (List.idxOf_inj hmem).1 hplace
  have hclass : c.name = c'.name := by
    rw [← hdname, ← hdname'] at hjoined ⊢
    refine hapart.names l hr.mem_layers d hd d' hd' _ hdm _ hdm' hr.calls hr'.calls ?_
    rwa [hr.method, hr'.method]
  have hname : m.name = m'.name := by
    rw [hclass] at hjoined
    exact (String.append_right_inj _).1 hjoined
  have hsame : LinkedClass.ofClassFile c = LinkedClass.ofClassFile c' := by
    have hdefined := hr.defined
    rw [← hr.name, hclass, hr'.name] at hdefined
    exact Option.some.inj (hdefined.symm.trans hr'.defined)
  refine ⟨hr.name.symm.trans (hclass.trans hr'.name), ?_, ?_⟩
  · -- the two frames are in the same method
    have hfound := LinkedClass.method?_of_mem hr.checked (List.mem_map_of_mem hr.mem)
    have hfound' := LinkedClass.method?_of_mem hr'.checked (List.mem_map_of_mem hr'.mem)
    have hm : (LinkedMethod.ofMethod m).method.name = (LinkedMethod.ofMethod m').method.name := hname
    rw [hsame, hm] at hfound
    rw [hr.method, hr'.method]
    exact Option.some.inj (hfound.symm.trans hfound')
  · -- and the lines are of the same file
    have hsource : c.sourceFile = c'.sourceFile := congrArg LinkedClass.sourceFile hsame
    exact Option.some.inj (hr.source.symm.trans (hsource.trans hr'.source))

/-- **Where numbers tell methods apart, lines only go on with equal lines.** -/
theorem LinesApart.repeats (hapart : u.LinesApart) {hooks : List HookAct}
    (hreports : ∀ e ∈ hooks, ∀ h, e.line? = some h → ∃ l c m, u.Reports e h l c m) (i : Nat) :
    LineTrace.Repeats (ofThread i (hooks.filterMap HookAct.line?)) := by
  have exists_of {h : LastLine × LineEvent} (hh : h ∈ ofThread i (hooks.filterMap HookAct.line?)) :
      h.2.thread = i ∧ ∃ e l c m, u.Reports e h l c m := by
    obtain ⟨hmem, hthread⟩ := List.mem_filter.1 hh
    obtain ⟨e, he, heh⟩ := List.mem_filterMap.1 hmem
    exact ⟨by simpa using hthread, e, hreports e he h heh⟩
  intro h hh k hk hgoes
  obtain ⟨hthread, e, l, c, m, hr⟩ := exists_of hh
  obtain ⟨hthread', e', l', c', m', hr'⟩ := exists_of hk
  obtain ⟨hmethod, hline⟩ := LineTrace.eq_of_goesOn hgoes
  obtain ⟨-, -, hsource⟩ := hapart.same hr hr' hmethod
  exact LineEvent.ext hsource.symm (hr'.line.trans (hline.symm.trans hr.line.symm)) (hthread'.trans hthread.symm)

end LoadingUnit

/-! ### Runs -/

/-- The last hook of a thread that reports a line. -/
def lastLineHook? (i : Nat) (hooks : List HookAct) : Option HookAct :=
  (hooks.filter fun e => e.thread == i && e.line?.isSome).getLast?

theorem exists_lastLineHook {i : Nat} {hooks : List HookAct} {line : LastLine}
    (h : lastLine (ofThread i (hooks.filterMap HookAct.line?)) = some line) :
    ∃ e p, lastLineHook? i hooks = some e ∧ e ∈ hooks ∧ e.thread = i ∧ e.line? = some p ∧ p.1 = line := by
  induction hooks using List.reverseRecOn with
  | nil => cases h
  | append_singleton hooks e ih =>
    have other (hno : (e.thread == i && e.line?.isSome) = false)
        (h : lastLine (ofThread i (hooks.filterMap HookAct.line?)) = some line) :
        ∃ e' p, lastLineHook? i (hooks ++ [e]) = some e' ∧ e' ∈ hooks ++ [e] ∧ e'.thread = i ∧ e'.line? = some p ∧
          p.1 = line := by
      obtain ⟨e', p, hlast, he', hp⟩ := ih h
      refine ⟨e', p, ?_, List.mem_append_left _ he', hp⟩
      rw [lastLineHook?, List.filter_append, List.filter_cons_of_neg (by simp [hno]), List.filter_nil, List.append_nil]
      exact hlast
    rw [List.filterMap_append] at h
    cases hp : e.line? with
    | none =>
      rw [List.filterMap_cons_none hp, List.filterMap_nil, List.append_nil] at h
      exact other (by simp [hp]) h
    | some p =>
      rw [List.filterMap_cons_some hp, List.filterMap_nil, LineTrace.ofThread_concat, HookAct.thread_line hp] at h
      split at h
      · next hi =>
        rw [LineTrace.lastLine_concat] at h
        refine ⟨e, p, ?_, by simp, hi, hp, Option.some.inj h⟩
        rw [lastLineHook?, List.filter_append, List.filter_cons_of_pos (by simp [hi, hp])]
        simp
      · next hi => exact other (by simp [hi]) h

namespace LineTrace.Recording

/-- The steps that are recorded of the hooks of a thread with coalescing or without, repetitions removed. -/
def collapsed (a : Arguments) (coalesce : Bool) (hooks : List HookAct) (i : Nat) : List LineEvent :=
  ((afterHooks { a with coalesce := coalesce } (hooks.filterMap HookAct.line?)).lines i).steps.toList.destutter (· ≠ ·)

/-- Coalescing removes repetitions from what is recorded of hooks, and nothing else. -/
structure Coalesces (hooks : List HookAct) (r : Recording) : Prop where
  /-- the steps of a thread are those that the hooks leave one after the other -/
  recorded : ∀ i, (r.lines i).steps = ((afterHooks r.arguments (hooks.filterMap HookAct.line?)).lines i).steps
  /-- with coalescing and without they differ in how often a line is repeated only, if there is room for all -/
  collapsed : ∀ i, (ofThread i (hooks.filterMap HookAct.line?)).length ≤ r.arguments.recordedStepLimit →
    collapsed r.arguments true hooks i = collapsed r.arguments false hooks i
  /-- a line is dropped only if the line before it, of the same thread, is the same and of the same method -/
  dropped : ∀ before e after h, hooks = before ++ e :: after → e.line? = some h →
    ((afterHooks r.arguments (before.filterMap HookAct.line?)).onLine h.1 h.2).1 = .coalesced →
      ∃ e' h', lastLineHook? e.thread before = some e' ∧ e'.line? = some h' ∧ h'.2 = h.2 ∧
        e'.frame.className = e.frame.className ∧ e'.frame.method = e.frame.method

/-- The steps of both recordings are the lines that count, and lines that go on are equal. -/
theorem coalesces {u : LoadingUnit} (hapart : u.LinesApart) {hooks : List HookAct} {r : Recording}
    (hreports : ∀ e ∈ hooks, ∀ h, e.line? = some h → ∃ l c m, u.Reports e h l c m)
    (hlimit : r.arguments.runLineLimit = none) (hr : r.Follows r.arguments (hooks.filterMap HookAct.line?)) :
    r.Coalesces hooks where
  recorded i := by
    refine Array.toList_inj.1 ?_
    rw [hr.steps, (follows_afterHooks hlimit _).steps]
  collapsed i hroom := by
    have all (coalesce : Bool) : ((afterHooks { r.arguments with coalesce := coalesce }
        (hooks.filterMap HookAct.line?)).lines i).steps.toList =
          countedLines coalesce none (ofThread i (hooks.filterMap HookAct.line?)) := by
      have hfollows := @follows_afterHooks { r.arguments with coalesce := coalesce } hlimit
      rw [(hfollows _).steps]
      exact List.take_of_length_le ((length_countedLines_le _ _ _).trans hroom)
    rw [collapsed, collapsed, all, all]
    exact destutter_countedLines (hapart.repeats hreports i)
  dropped before e after h hhooks he hdropped := by
    have hgoes := (follows_afterHooks hlimit _).goesOn hdropped
    rw [HookAct.thread_line he] at hgoes
    cases hlast : lastLine (ofThread e.thread (before.filterMap HookAct.line?)) with
    | none =>
      rw [hlast] at hgoes
      cases hgoes
    | some line =>
      rw [hlast] at hgoes
      obtain ⟨e', h', he', hmem, hthread, hh', rfl⟩ := exists_lastLineHook hlast
      obtain ⟨hmethod, hline⟩ := eq_of_goesOn hgoes
      obtain ⟨l', c', m', hr'⟩ := hreports e' (by simp [hhooks, hmem]) h' hh'
      obtain ⟨l, c, m, hr⟩ := hreports e (by simp [hhooks]) h he
      obtain ⟨hclass, hsame, hsource⟩ := hapart.same hr' hr hmethod
      refine ⟨e', h', he', hh', LineEvent.ext hsource (hr'.line.trans (hline.trans hr.line.symm)) ?_, hclass, hsame⟩
      rw [HookAct.thread_line hh', HookAct.thread_line he, hthread]

end LineTrace.Recording

namespace Sandbox

/-- **What coalescing does to a program that has been prepared.** -/
structure Prepared.Coalesces (P : Prepared) : Prop where
  /-- whatever its work is and however its threads are scheduled -/
  scheduled : ∀ {work : List WorkStep} {acts : List Act} {c : Scene} {r : LineTrace.Recording},
    P.task.Schedules P.state work acts c → c.shared.recordings.lineTrace? = some r →
      r.Coalesces (acts.filterMap Act.hookAct?)
  /-- a run on a host is such a schedule -/
  executed : ∀ {σ : Type} (host : Host (StateM σ)) (work : List WorkStep) (limit : Nat) (w : σ),
    ∃ acts c, P.task.Schedules P.state work acts c ∧
      c.shared = (RunState.run host P.task P.state work limit w).1.shared

/-- **Coalescing only removes repetitions**, where numbers tell methods apart and lines have no limit. A unit may have any
other tracers besides, and any layers below; only probes may not put in calls into the line trace, and no layer may have
more methods than there are numbers of 64 bits. -/
theorem coalesces_of_prepare {u : LoadingUnit} (hu : u.Built) (ho : ∀ l ∈ u.layers, l.Orderly)
    (hlimit : ∀ i, .lineTrace i ∈ u.own.instrumentation → i.arguments.runLineLimit = none) (hapart : u.LinesApart)
    {sb : Sandbox} {r : RegistryId} {sets : List LoadingUnit.ClassSets} {a : ExecutionArguments} {P : Prepared}
    (hP : sb.prepare r u sets a = .ok P) : P.Coalesces where
  scheduled := by
    intro work acts c rec hacts hrec
    have hprepares := prepare_eq_ok_iff.1 hP
    have hunit : P.task.unit = u := by rw [hprepares.task]
    obtain ⟨hnone, hfollows⟩ := hacts.follows (hunit.symm ▸ hprepares.started) (hunit.symm ▸ hlimit) hrec
    refine LineTrace.Recording.coalesces hapart (fun e he h hh => ?_) hnone hfollows
    obtain ⟨hfound, x, hx, hcall⟩ := hacts.hookAct_found (hunit.symm ▸ hu) he
    exact LoadingUnit.exists_reports hu ho (hunit ▸ hfound) hx hcall hh
  executed host work limit w := by
    obtain ⟨acts, c, hacts, hshared, -⟩ := (prepare_eq_ok_iff.1 hP).scheduled host work limit w
    exact ⟨acts, c, hacts, hshared⟩

/-! ### Programs of two classes -/

namespace TwoClasses

/-- A class of one method, which runs its first line before it calls `next`, and again in two pieces behind that. -/
def caller (name source method : String) (next : String × String) : ClassFile :=
  ⟨name, some source, [⟨method, true, [], 0, [.label ⟨0⟩, .lineNumber 1 ⟨0⟩, .invokeStatic next.1 next.2,
    .label ⟨1⟩, .lineNumber 1 ⟨1⟩, .label ⟨2⟩, .lineNumber 1 ⟨2⟩, .ret], []⟩]⟩

/-- A class of one method, whose first line starts at its second label. -/
def callee (name source method : String) : ClassFile :=
  ⟨name, some source, [⟨method, true, [], 0, [.label ⟨0⟩, .label ⟨1⟩, .lineNumber 1 ⟨1⟩, .ret], []⟩]⟩

def unit (cs : List ClassFile) : LoadingUnit := OfClass.unitOn none ⟨1⟩ .untrusted cs (some .default) none

/-- A class and a method on the one hand, and another class and another method. -/
def plain : List ClassFile := [caller "Main" "Main.java" "main" ("Lib", "run"), callee "Lib" "Lib.java" "run"]

/-- The same with other names: joined by a dot, those of the first class and its method are those of the other. -/
def joined : List ClassFile := [caller "A" "A.java" "b.c" ("A.b", "c"), callee "A.b" "B.java" "c"]

theorem built_unit {cs : List ClassFile} (hcs : ∀ c ∈ cs, Verifier.check .submitted c = .ok ())
    (hmade : ∀ c ∈ (LoadingUnit.weave .untrusted (some .default) none cs).classes,
      Verifier.check .instrumented c = .ok ()) : (unit cs).Built :=
  .build (fun _ h => by cases h) (@OfClass.build_on none _ _ _ _ _ hcs hmade)

theorem instrumentation_plain :
    (unit plain).own.instrumentation = [.lineTrace ⟨.default, ["Main.main", "Lib.run"]⟩] := by
  decide +kernel

theorem instrumentation_joined : (unit joined).own.instrumentation = [.lineTrace ⟨.default, ["A.b.c"]⟩] := by
  decide +kernel

theorem unlimited {cs : List ClassFile} {names : List String}
    (h : (unit cs).own.instrumentation = [.lineTrace ⟨.default, names⟩]) :
    ∀ i, .lineTrace i ∈ (unit cs).own.instrumentation → i.arguments.runLineLimit = none := by
  intro i hi
  rw [h, List.mem_singleton, Instrumentation.lineTrace.injEq] at hi
  rw [hi]
  rfl

theorem orderly_plain : ∀ l ∈ (unit plain).layers, l.Orderly := by
  intro l hl
  obtain rfl : l = (unit plain).own := List.mem_singleton.1 hl
  refine @Layer.orderly_of_traces _ (some ⟨.default, ["Main.main", "Lib.run"]⟩) none instrumentation_plain
    (fun i hi => ?_) (fun i hi => by cases hi)
  cases hi
  decide

theorem linesApart_plain : (unit plain).LinesApart where
  layers l hl l' hl' _ _ := (List.mem_singleton.1 hl).trans (List.mem_singleton.1 hl').symm
  names l hl := by
    obtain rfl : l = (unit plain).own := List.mem_singleton.1 hl
    decide +kernel

def executed (P : Prepared) (e : EntryPoint) (n : Nat) : List HookAct :=
  (e.playedAlone P.task P.state n).1.filterMap Act.hookAct?

def reached (P : Prepared) (e : EntryPoint) (n : Nat) : List (String × UInt32) :=
  ((executed P e n).filterMap HookAct.line?).map fun h => (h.2.source, h.2.line)

def recorded (P : Prepared) (e : EntryPoint) (n : Nat) : Option (List (String × UInt32)) :=
  (e.playedAlone P.task P.state n).2.recordings.lineTrace?.map fun r => r.report.steps.map fun e => (e.source, e.line)

end TwoClasses

/-- The line of the caller that the call splits is recorded twice, and only its last piece is dropped. -/
theorem coalesces_of_prepare_plain :
    ∃ P, empty.prepare ⟨0⟩ (TwoClasses.unit TwoClasses.plain) [] .default = .ok P ∧ P.Coalesces ∧
      TwoClasses.reached P .default 16 =
        [("Main.java", 1), ("Lib.java", 1), ("Main.java", 1), ("Main.java", 1)] ∧
      TwoClasses.recorded P .default 16 = some [("Main.java", 1), ("Lib.java", 1), ("Main.java", 1)] := by
  obtain ⟨P, hP⟩ : ∃ P, empty.prepare ⟨0⟩ (TwoClasses.unit TwoClasses.plain) [] .default = .ok P := ⟨_, rfl⟩
  refine ⟨P, hP, ?_, ?_, ?_⟩
  · exact coalesces_of_prepare (TwoClasses.built_unit (by decide) (by decide)) TwoClasses.orderly_plain
      (TwoClasses.unlimited TwoClasses.instrumentation_plain) TwoClasses.linesApart_plain hP
  · cases hP
    decide +kernel
  · cases hP
    decide +kernel

/-- **Where the joined names of two methods are the same, coalescing hides that a line of the other was reached.** -/
theorem not_coalesces_joined : ¬ ∀ (u : LoadingUnit) (P : Prepared) (work : List WorkStep) (acts : List Act) (c : Scene)
    (r : LineTrace.Recording) (i : Nat), u.Built →
      (∀ i, .lineTrace i ∈ u.own.instrumentation → i.arguments.runLineLimit = none) →
      empty.prepare ⟨0⟩ u [] .default = .ok P → P.task.Schedules P.state work acts c →
      c.shared.recordings.lineTrace? = some r →
      (ofThread i ((acts.filterMap Act.hookAct?).filterMap HookAct.line?)).length ≤ r.arguments.recordedStepLimit →
        LineTrace.Recording.collapsed r.arguments true (acts.filterMap Act.hookAct?) i =
          LineTrace.Recording.collapsed r.arguments false (acts.filterMap Act.hookAct?) i := by
  intro h
  obtain ⟨P, hP⟩ : ∃ P, empty.prepare ⟨0⟩ (TwoClasses.unit TwoClasses.joined) [] .default = .ok P := ⟨_, rfl⟩
  have harguments : (EntryPoint.playedAlone ⟨"A", "b.c"⟩ P.task P.state 16).2.recordings.lineTrace?.map (·.arguments) =
      some .default := by
    cases hP
    decide +kernel
  have hfew : (ofThread 0 ((TwoClasses.executed P ⟨"A", "b.c"⟩ 16).filterMap HookAct.line?)).length ≤
      LineTrace.Arguments.default.recordedStepLimit := by
    cases hP
    decide +kernel
  have hhidden : LineTrace.Recording.collapsed .default true (TwoClasses.executed P ⟨"A", "b.c"⟩ 16) 0 =
      [⟨"A.java", 1, 0⟩] := by
    cases hP
    decide +kernel
  have hreached : LineTrace.Recording.collapsed .default false (TwoClasses.executed P ⟨"A", "b.c"⟩ 16) 0 =
      [⟨"A.java", 1, 0⟩, ⟨"B.java", 1, 0⟩, ⟨"A.java", 1, 0⟩] := by
    cases hP
    decide +kernel
  -- the run that was played is one of the schedules
  obtain ⟨c, hacts, hc⟩ := EntryPoint.exists_playedAlone ⟨"A", "b.c"⟩ P.task P.state 16
  rw [← hc] at harguments
  obtain ⟨r, hr, hdefault⟩ := Option.map_eq_some_iff.1 harguments
  have hsame := h _ P _ _ c r 0 (TwoClasses.built_unit (by decide) (by decide))
    (TwoClasses.unlimited TwoClasses.instrumentation_joined) hP hacts hr (hdefault ▸ hfew)
  rw [hdefault] at hsame
  have hlists := hhidden.symm.trans (hsame.trans hreached)
  revert hlists
  decide

end Sandbox

end Confine
