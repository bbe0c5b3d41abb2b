import Confine.Proofs.Tracing.Around
import Confine.Proofs.Tracing.LineCounts

/-!
# One thread with a limit of lines

A thread that is alone never has lines of others to look at, so however often it looks, the limit is reached when it has
counted that many lines itself (`LineTrace.Recording.Within.onLine`).

* `LineTrace.Recording.Single.onLine` — what is recorded of one thread is the beginning of what will be;
* `LineTrace.Recording.Within` — two recordings of one thread, of which the second has a limit;
* `Recordings.Around` — the other tracers of a task.  They see nothing of the limit (`Recordings.Around.onHook_of_ne`).
-/

namespace Confine.LineTrace

/-! ### Results -/

namespace Result

def within (x : Result) (l : Limit) : Result := { x with arguments := x.arguments.within l }

/-- A result of an earlier moment, and one of a later moment. -/
structure Onward (x y : Result) : Prop where
  arguments : y.arguments = x.arguments
  steps : x.steps <+: y.steps
  linesRun : x.linesRun ≤ y.linesRun

theorem Onward.refl (x : Result) : x.Onward x := ⟨rfl, List.prefix_rfl, Nat.le_refl _⟩

theorem Onward.trans {x y z : Result} (h : x.Onward y) (h' : y.Onward z) : x.Onward z :=
  ⟨h'.arguments.trans h.arguments, h.steps.trans h'.steps, h.linesRun.trans h'.linesRun⟩

end Result

namespace Recording

/-! ### One thread -/

/-- **Only the main thread has reached lines**, and its first lines have been kept. -/
structure Single (r : Recording) : Prop where
  nodup : r.ids.Nodup
  alone : ∀ i ∈ r.ids, i = 0
  kept : (r.lines 0).steps.size = min (r.lines 0).linesRun r.arguments.recordedStepLimit

theorem single_start (a : Arguments) (subscribers : List Subscriber) :
    (Recording.mk a [] subscribers).Single :=
  ⟨List.nodup_nil, by simp [ids], by simp [lines, thread?, ThreadLines.start]⟩

namespace Single

variable {r : Recording} (h : r.Single)

include h

theorem threads_cases : r.threads = [] ∨ r.threads = [r.lines 0] := by
  obtain ⟨arguments, threads, subscribers⟩ := r
  match threads with
  | [] => exact .inl rfl
  | [t] =>
    have ht : t.thread = 0 := h.alone _ (by simp [ids])
    exact .inr (by simp [lines, thread?, ht])
  | t :: u :: rest =>
    have ht : t.thread = 0 := h.alone _ (by simp [ids])
    have hu : u.thread = 0 := h.alone _ (by simp [ids])
    have hnodup := h.nodup
    simp [ids, ht, hu] at hnodup

theorem report_eq :
    r.report = ⟨r.arguments, (r.lines 0).steps.toList, (r.lines 0).linesRun⟩ := by
  rcases h.threads_cases with hthreads | hthreads
  · have hlines : r.lines 0 = .start 0 := lines_of_notMem (by simp [ids, hthreads])
    rw [report, hthreads, hlines]
    simp [ThreadLines.start]
  · rw [report, hthreads]
    simp

theorem countedByOthers_eq_zero : r.countedByOthers 0 = 0 := by
  rw [countedByOthers_eq h.nodup, List.filter_eq_nil_iff.2 (by simpa using h.alone)]
  rfl

theorem put {t : ThreadLines} (ht : t.thread = 0)
    (hk : t.steps.size = min t.linesRun r.arguments.recordedStepLimit) : (r.put t).Single := by
  refine ⟨nodup_put h.nodup, fun i hi => ?_, ?_⟩
  · rcases mem_ids_put.1 hi with rfl | hi
    · exact ht
    · exact h.alone i hi
  · rwa [lines_put, if_pos ht.symm]

theorem put_onward {t : ThreadLines} (ht : t.thread = 0)
    (hk : t.steps.size = min t.linesRun r.arguments.recordedStepLimit)
    (hs : (r.lines 0).steps.toList <+: t.steps.toList) (hn : (r.lines 0).linesRun ≤ t.linesRun) :
    (r.put t).Single ∧ r.report.Onward (r.put t).report := by
  have hput := h.put ht hk
  have hlines : (r.put t).lines 0 = t := by rw [lines_put, if_pos ht.symm]
  refine ⟨hput, ?_⟩
  rw [h.report_eq, hput.report_eq, hlines]
  exact ⟨rfl, hs, hn⟩

/-- **What has been recorded stays the beginning of what is recorded.** -/
theorem onLine (line : LastLine) {e : LineEvent} (he : e.thread = 0) :
    (r.onLine line e).2.Single ∧ r.report.Onward (r.onLine line e).2.report := by
  have hreconcile : ∀ t : ThreadLines, (reconcile r.arguments (r.others 0) t).steps = t.steps ∧
      (reconcile r.arguments (r.others 0) t).linesRun = t.linesRun := by
    intro t
    unfold reconcile
    split <;> exact ⟨rfl, rfl⟩
  have hthread : ∀ q, reach r.arguments (r.others 0) (r.lines 0) line e = q → q.2.thread = 0 := by
    rintro q rfl
    rw [thread_reach, thread_lines]
  have hcases := reach_cases r.arguments (r.others 0) (r.lines 0) line e
  rw [onLine_eq, he]
  rcases hcases with ⟨-, heq⟩ | ⟨-, u, hu, ⟨limit, -, -, heq⟩ | ⟨-, heq⟩⟩
  · -- a piece of the line before
    rw [heq]
    exact h.put_onward (hthread _ heq) h.kept List.prefix_rfl (Nat.le_refl _)
  · -- refused: nothing is counted or kept
    obtain ⟨hsteps, hlines⟩ := hreconcile { r.lines 0 with last := some line }
    rw [← hu] at hsteps hlines
    rw [heq]
    refine h.put_onward (hthread _ heq) ?_ ?_ (Nat.le_of_eq hlines.symm)
    · rw [hsteps, hlines]
      exact h.kept
    · rw [hsteps]
  · -- counted, and kept if there is room
    obtain ⟨hsteps, hlines⟩ := hreconcile { r.lines 0 with last := some line }
    rw [← hu] at hsteps hlines
    rw [heq]
    have hkept := h.kept
    refine h.put_onward (hthread _ heq) ?_ ?_ ?_
    · simp only [count, hsteps, hlines]
      split
      · rw [Array.size_push]
        omega
      · omega
    · simp only [count, hsteps]
      split
      · rw [Array.toList_push]
        exact List.prefix_append _ _
      · exact List.prefix_rfl
    · simp only [count, hlines]
      omega

end Single

/-! ### A thread with a limit -/

/-- The lines of a thread without a limit, and with one: it has seen no lines of others. -/
structure Like (t t' : ThreadLines) : Prop where
  linesRun : t'.linesRun = t.linesRun
  steps : t'.steps = t.steps
  last : t'.last = t.last
  othersSeen : t'.othersSeen = 0

/-- **One thread without a limit of lines, and the same with one.** -/
structure Within (l : Limit) (r r' : Recording) : Prop where
  single : r.Single
  single' : r'.Single
  unlimited : r.arguments.runLineLimit = none
  arguments : r'.arguments = r.arguments.within l
  subscribers : r'.subscribers = r.subscribers
  lines : Like (r.lines 0) (r'.lines 0)

theorem within_start {a : Arguments} (ha : a.runLineLimit = none) (l : Limit)
    (subscribers : List Subscriber) :
    Within l ⟨a, [], subscribers⟩ ⟨a.within l, [], subscribers⟩ :=
  ⟨single_start _ _, single_start _ _, ha, rfl, rfl, ⟨rfl, rfl, rfl, rfl⟩⟩

theorem lines_onLine (r : Recording) (line : LastLine) (e : LineEvent) :
    (r.onLine line e).2.lines e.thread =
      (reach r.arguments (r.others e.thread) (r.lines e.thread) line e).2 := by
  rw [onLine_eq, lines_put, if_pos (by rw [thread_reach, thread_lines])]

namespace Within

variable {l : Limit} {r r' : Recording} (h : Within l r r')

include h

theorem report_eq : r'.report = r.report.within l := by
  rw [h.single.report_eq, h.single'.report_eq, h.arguments, h.lines.linesRun, h.lines.steps]
  rfl

theorem like_reconcile (last : Option LastLine) :
    Like { r.lines 0 with last := last }
      (reconcile r'.arguments (r'.others 0) { r'.lines 0 with last := last }) := by
  have hothers : r'.others 0 = 0 := by
    rw [others, h.single'.countedByOthers_eq_zero, ite_self]
  unfold reconcile
  split
  · exact ⟨h.lines.linesRun, h.lines.steps, rfl, hothers⟩
  · exact ⟨h.lines.linesRun, h.lines.steps, rfl, h.lines.othersSeen⟩

theorem reconcile_eq (t : ThreadLines) : reconcile r.arguments (r.others 0) t = t := by
  unfold reconcile
  rw [h.unlimited]
  rfl

/-- What becomes of the lines of the thread at a line. With the limit they go the same way, unless as
many lines have been counted as the limit allows. -/
theorem reach_alike (line : LastLine) (e : LineEvent) :
    let q := Recording.reach r.arguments (r.others 0) (r.lines 0) line e
    let q' := Recording.reach r'.arguments (r'.others 0) (r'.lines 0) line e
    (q'.1 = q.1 ∧ (∀ limit, q.1 ≠ .beyond limit) ∧ Like q.2 q'.2 ∧
        ((r.lines 0).linesRun ≤ l.lines → q.2.linesRun ≤ l.lines)) ∨
      (l.lines ≤ (r.lines 0).linesRun ∧ q.1 = .counted ∧
        q.2.linesRun = (r.lines 0).linesRun + 1 ∧ q'.1 = .beyond l.lines ∧
        q'.2.linesRun = (r.lines 0).linesRun ∧ q'.2.steps = (r.lines 0).steps) := by
  have hstutter : (r'.arguments.coalesce && isStutter (r'.lines 0) line) =
      (r.arguments.coalesce && isStutter (r.lines 0) line) := by
    rw [h.arguments, isStutter, isStutter, h.lines.last]
    rfl
  dsimp only
  rcases reach_cases r.arguments (r.others 0) (r.lines 0) line e with ⟨hs, heq⟩ | ⟨hs, u, hu, hreach⟩
  · -- the line is a piece of the one before
    obtain ⟨-, heq'⟩ := (reach_cases r'.arguments (r'.others 0) (r'.lines 0) line e).resolve_right
      fun hno => by simp [hstutter, hs] at hno
    rw [heq, heq']
    exact .inl ⟨rfl, by simp, ⟨h.lines.linesRun, h.lines.steps, rfl, h.lines.othersSeen⟩, fun hle => hle⟩
  · obtain ⟨-, u', hu', hreach'⟩ :=
      (reach_cases r'.arguments (r'.others 0) (r'.lines 0) line e).resolve_left
        fun hno => by simp [hstutter, hs] at hno
    obtain ⟨-, heq⟩ := hreach.resolve_left fun ⟨limit, hl, _⟩ => by simp [h.unlimited] at hl
    have hlike : Like u u' := by
      rw [hu, hu', h.reconcile_eq]
      exact h.like_reconcile (some line)
    have hu_lines : u.linesRun = (r.lines 0).linesRun := by rw [hu, h.reconcile_eq]
    have hu_steps : u.steps = (r.lines 0).steps := by rw [hu, h.reconcile_eq]
    have hlimit : r'.arguments.runLineLimit = some l.lines := by rw [h.arguments]; rfl
    rcases hreach' with ⟨limit, hl, hfull, heq'⟩ | ⟨hroom, heq'⟩
    · -- the limit is reached, and only the recording that has one refuses the line
      obtain rfl : limit = l.lines := Option.some.inj (hl.symm.trans hlimit)
      rw [hlike.othersSeen, hlike.linesRun, hu_lines] at hfull
      rw [heq, heq']
      exact .inr ⟨hfull, rfl, by rw [← hu_lines]; rfl, rfl, hlike.linesRun.trans hu_lines,
        hlike.steps.trans hu_steps⟩
    · -- there is room below it
      have hroom := hroom l.lines hlimit
      rw [hlike.othersSeen, hlike.linesRun, hu_lines] at hroom
      rw [heq, heq']
      refine .inl ⟨rfl, by simp, ⟨?_, ?_, hlike.last, hlike.othersSeen⟩, fun _ => ?_⟩
      · simp only [count, hlike.linesRun]
      · simp only [count, hlike.steps, h.arguments, Arguments.within]
      · simp only [count, hu_lines]
        omega

/-- **A line.** The thread with the limit does as the one without it, unless it has counted as many
lines as the limit allows. -/
theorem onLine (line : LastLine) {e : LineEvent} (he : e.thread = 0) :
    ((r'.onLine line e).1 = (r.onLine line e).1 ∧
        (∀ limit, (r.onLine line e).1 ≠ .beyond limit) ∧
        Within l (r.onLine line e).2 (r'.onLine line e).2 ∧
        (r.report.linesRun ≤ l.lines → (r.onLine line e).2.report.linesRun ≤ l.lines)) ∨
      (l.lines ≤ r.report.linesRun ∧ (r.onLine line e).1 = .counted ∧
        (r.onLine line e).2.report.linesRun = r.report.linesRun + 1 ∧
        (r'.onLine line e).1 = .beyond l.lines ∧
        (r'.onLine line e).2.report = r.report.within l) := by
  obtain ⟨hsingle, -⟩ := h.single.onLine line he
  obtain ⟨hsingle', -⟩ := h.single'.onLine line he
  have hlines := r.lines_onLine line e
  have hlines' := r'.lines_onLine line e
  have hfst : (r.onLine line e).1 = _ := congrArg Prod.fst (r.onLine_eq line e)
  have hfst' : (r'.onLine line e).1 = _ := congrArg Prod.fst (r'.onLine_eq line e)
  rw [he] at hlines hlines' hfst hfst'
  rw [hsingle.report_eq, hsingle'.report_eq, h.single.report_eq, hfst, hfst', hlines, hlines']
  rcases h.reach_alike line e with ⟨hsame, hno, hlike, hle⟩ | ⟨hfull, hcounted, hone, hbeyond, hn, hs⟩
  · refine .inl ⟨hsame, hno, ⟨hsingle, hsingle', h.unlimited, h.arguments, h.subscribers, ?_⟩, hle⟩
    rwa [hlines, hlines']
  · refine .inr ⟨hfull, hcounted, hone, hbeyond, ?_⟩
    rw [hn, hs, arguments_onLine, h.arguments]
    rfl

end Within

end Recording

end Confine.LineTrace

namespace Confine

open LineTrace (Limit LastLine)

namespace Recordings

/-! ### The line trace among the others -/

def traced (rs : Recordings) : LineTrace.Result :=
  (rs.lineTrace?.getD (.start .default)).report

@[simp] theorem traced_fill (c : Around) (r : LineTrace.Recording) :
    (c.fill r).traced = r.report := by
  rw [traced, c.lineTrace?_fill]
  rfl

/-- The line trace has recorded the main thread only. -/
def Single (rs : Recordings) : Prop := ∃ (c : Around) (r : LineTrace.Recording), rs = c.fill r ∧ r.Single

/-- **The tracers of a run without a limit of lines, and with one.** -/
def Within (l : Limit) (rs rs' : Recordings) : Prop :=
  ∃ (c : Around) (r r' : LineTrace.Recording), rs = c.fill r ∧ rs' = c.fill r' ∧ r.Within l r'

/-- The line trace with a limit of lines has found the same as the one without it. -/
def FoundWithin (l : Limit) (rs rs' : Recordings) : Prop :=
  ∃ (c : Around) (r r' : LineTrace.Recording), rs = c.fill r ∧ rs' = c.fill r' ∧
    r'.report = r.report.within l

theorem thread_line? {call : HookCall} {thread : Nat} {line : LastLine} {e : LineEvent}
    (h : LineTrace.Recording.line? call thread = some (line, e)) : e.thread = thread := by
  unfold LineTrace.Recording.line? at h
  split at h
  · cases h
  · split at h
    · simp only [Option.some.injEq, Prod.mk.injEq] at h
      rw [← h.2]
    · cases h

section Calls

variable {rs rs' : Recordings} {l : Limit}

theorem Within.single (h : rs.Within l rs') : rs.Single := by
  obtain ⟨c, r, r', rfl, -, h⟩ := h
  exact ⟨c, r, rfl, h.single⟩

theorem Within.found (h : rs.Within l rs') : rs.FoundWithin l rs' := by
  obtain ⟨c, r, r', rfl, rfl, h⟩ := h
  exact ⟨c, r, r', rfl, rfl, h.report_eq⟩

theorem FoundWithin.traced_eq (h : rs.FoundWithin l rs') : rs'.traced = rs.traced.within l := by
  obtain ⟨c, r, r', rfl, rfl, h⟩ := h
  rw [traced_fill, traced_fill, h]

/-- **After a call the line trace has found more, or the same.** -/
theorem Single.onHook (h : rs.Single) (id : String) (call : HookCall) :
    (rs.onHook id call 0).2.Single ∧ rs.traced.Onward (rs.onHook id call 0).2.traced := by
  obtain ⟨c, r, rfl, hr⟩ := h
  have stays : ∀ {c' : Around} {r' : LineTrace.Recording}, r'.Single → r.report.Onward r'.report →
      (c'.fill r').Single ∧ (c.fill r).traced.Onward (c'.fill r').traced := by
    intro c' r' hr' hon
    rw [traced_fill, traced_fill]
    exact ⟨⟨c', r', rfl, hr'⟩, hon⟩
  by_cases hid : id = LineTrace.id
  · subst hid
    rw [c.onHook_line]
    cases hline : LineTrace.Recording.line? call 0 with
    | none => exact stays hr (.refl _)
    | some p =>
      obtain ⟨hsingle, hon⟩ := hr.onLine p.1 (thread_line? hline)
      dsimp only
      generalize r.onLine p.1 p.2 = q at hsingle hon
      obtain ⟨reached, r'⟩ := q
      cases reached <;> exact stays hsingle hon
  · obtain ⟨signal, c', hcall⟩ := c.onHook_of_ne hid call 0
    rw [hcall]
    exact stays hr (.refl _)

/-- **A call with a limit of lines** does as it does without one, unless it reports the line behind
the limit. -/
theorem Within.onHook (h : rs.Within l rs') (id : String) (call : HookCall) :
    ((rs'.onHook id call 0).1 = (rs.onHook id call 0).1 ∧
        (rs.onHook id call 0).2.Within l (rs'.onHook id call 0).2 ∧
        (rs.traced.linesRun ≤ l.lines → (rs.onHook id call 0).2.traced.linesRun ≤ l.lines)) ∨
      (l.lines ≤ rs.traced.linesRun ∧ (rs.onHook id call 0).1 = Option.none ∧
        (rs.onHook id call 0).2.traced.linesRun = rs.traced.linesRun + 1 ∧
        (∃ a : LineTrace.Arguments, (rs'.onHook id call 0).1 =
          some (LineTrace.Recording.limitSignal (a.within l) l.lines)) ∧
        rs.FoundWithin l (rs'.onHook id call 0).2) := by
  obtain ⟨c, r, r', rfl, rfl, hr⟩ := h
  by_cases hid : id = LineTrace.id
  · subst hid
    rw [c.onHook_line, c.onHook_line, traced_fill]
    cases hline : LineTrace.Recording.line? call 0 with
    | none => exact .inl ⟨rfl, ⟨c, r, r', rfl, rfl, hr⟩, by rw [traced_fill]; exact fun h => h⟩
    | some p =>
      dsimp only
      have harguments : (r'.onLine p.1 p.2).2.arguments = r.arguments.within l := by
        rw [LineTrace.Recording.arguments_onLine, hr.arguments]
      rcases hr.onLine p.1 (thread_line? hline) with
        ⟨hsame, hno, hwithin, hle⟩ | ⟨hfull, hcounted, hone, hbeyond, hreport⟩
      · -- both recordings go on
        generalize r.onLine p.1 p.2 = q at hsame hno hwithin hle
        generalize r'.onLine p.1 p.2 = q' at hsame hwithin
        obtain ⟨reached, r₁⟩ := q
        obtain ⟨reached', r₁'⟩ := q'
        obtain rfl : reached' = reached := hsame
        cases reached' with
        | coalesced =>
          exact .inl ⟨rfl, ⟨c, r₁, r₁', rfl, rfl, hwithin⟩, by rw [traced_fill]; exact hle⟩
        | counted =>
          refine .inl ⟨rfl, ⟨_, r₁, r₁', rfl, ?_, hwithin⟩, by rw [traced_fill]; exact hle⟩
          exact congrArg (fun l => (l.foldl (Around.tell · p.2) c).fill r₁') hwithin.subscribers
        | beyond limit => exact absurd rfl (hno limit)
      · -- only one of the two counts the line
        generalize r.onLine p.1 p.2 = q at hcounted hone
        generalize r'.onLine p.1 p.2 = q' at harguments hbeyond hreport
        obtain ⟨reached, r₁⟩ := q
        obtain ⟨reached', r₁'⟩ := q'
        obtain rfl : reached = .counted := hcounted
        obtain rfl : reached' = .beyond l.lines := hbeyond
        refine .inr ⟨hfull, rfl, by rw [traced_fill]; exact hone, ⟨r.arguments, ?_⟩,
          ⟨c, r, r₁', rfl, rfl, hreport⟩⟩
        exact congrArg (fun a => some (LineTrace.Recording.limitSignal a l.lines)) harguments
  · -- the hook is another tracer's
    obtain ⟨signal, c', hcall⟩ := c.onHook_of_ne hid call 0
    rw [hcall, hcall, traced_fill]
    exact .inl ⟨rfl, ⟨c', r, r', rfl, rfl, hr⟩, by rw [traced_fill]; exact fun h => h⟩

end Calls

end Recordings

end Confine
