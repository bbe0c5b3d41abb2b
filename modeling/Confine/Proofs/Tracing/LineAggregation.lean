import Confine.Proofs.Tracing.LineRace
import Mathlib.Data.List.Sort

/-!
# What a result has of each thread

Without a limit of lines no thread looks at the others, so what a thread counts and keeps depends on its own hooks only,
wherever the hooks of others come in between.

* `LineTrace.countedLines` — the lines of a thread that count, which its own hooks determine;
* `LineTrace.Race.Fed` — the races of threads whose hooks have begun in a given order;
* `LineTrace.Race.Fed.keeps` — each thread has counted the lines of its own hooks, but for one that is on its way;
* `LineTrace.Recording.report_eq_of_ids_lt` — the result puts the threads in the order of their numbers;
* `LineTrace.report_scheduleIndependent` — **the result does not depend on the schedule, and loses nothing**.
-/

namespace Confine.LineTrace

open Recording

/-! ### The lines that count -/

/-- A line goes on with the line `last`: it is the same line of the same method, at the next label. -/
def goesOn (last : Option LastLine) (line : LastLine) : Bool :=
  last.any fun l => l.method == line.method && l.line == line.line && line.sequence == l.sequence + 1

theorem isStutter_eq_goesOn (t : ThreadLines) (line : LastLine) : isStutter t line = goesOn t.last line := by
  unfold isStutter goesOn
  cases t.last <;> rfl

/-- The lines that count of the hooks of a thread that reached the line `last` before. -/
def countedLines (coalesce : Bool) : Option LastLine → List (LastLine × LineEvent) → List LineEvent
  | _, [] => []
  | last, (line, e) :: rest =>
    if coalesce && goesOn last line then countedLines coalesce (some line) rest
    else e :: countedLines coalesce (some line) rest

def lastLine (hooks : List (LastLine × LineEvent)) : Option LastLine := hooks.getLast?.map (·.1)

@[simp] theorem lastLine_concat (hooks : List (LastLine × LineEvent)) (h : LastLine × LineEvent) :
    lastLine (hooks ++ [h]) = some h.1 := by
  simp [lastLine]

theorem countedLines_append_singleton (coalesce : Bool) (last : Option LastLine)
    (hooks : List (LastLine × LineEvent)) (h : LastLine × LineEvent) :
    countedLines coalesce last (hooks ++ [h]) = countedLines coalesce last hooks ++
      if coalesce && goesOn ((lastLine hooks).or last) h.1 then [] else [h.2] := by
  induction hooks generalizing last with
  | nil => simp [countedLines, lastLine]
  | cons g hooks ih =>
    have hlast : (lastLine (g :: hooks)).or last = (lastLine hooks).or (some g.1) := by
      rcases List.eq_nil_or_concat hooks with rfl | ⟨front, k, rfl⟩
      · simp [lastLine]
      · rw [List.concat_eq_append, ← List.cons_append, lastLine_concat, lastLine_concat]
        rfl
    rw [List.cons_append, countedLines, countedLines, ih, hlast]
    split <;> rfl

theorem countedLines_concat (coalesce : Bool) (hooks : List (LastLine × LineEvent)) (h : LastLine × LineEvent) :
    countedLines coalesce none (hooks ++ [h]) = countedLines coalesce none hooks ++
      if coalesce && goesOn (lastLine hooks) h.1 then [] else [h.2] := by
  rw [countedLines_append_singleton, Option.or_none]

theorem mem_of_mem_countedLines {coalesce : Bool} {last : Option LastLine} {hooks : List (LastLine × LineEvent)}
    {e : LineEvent} (h : e ∈ countedLines coalesce last hooks) : e ∈ hooks.map (·.2) := by
  induction hooks generalizing last with
  | nil => exact absurd h List.not_mem_nil
  | cons g hooks ih =>
    rw [countedLines] at h
    rw [List.map_cons, List.mem_cons]
    split at h
    · exact .inr (ih h)
    · exact (List.mem_cons.1 h).imp_right ih

def ofThread (i : Nat) (hooks : List (LastLine × LineEvent)) : List (LastLine × LineEvent) :=
  hooks.filter (·.2.thread == i)

theorem ofThread_concat (i : Nat) (hooks : List (LastLine × LineEvent)) (h : LastLine × LineEvent) :
    ofThread i (hooks ++ [h]) = if h.2.thread = i then ofThread i hooks ++ [h] else ofThread i hooks := by
  by_cases hi : h.2.thread = i <;> simp [ofThread, List.filter_append, hi]

/-! ### Threads whose hooks interrupt each other -/

def Phase.pending : Phase → List LineEvent
  | idle => []
  | looking e _ _ | checking e | counting e => [e]

def Phase.IsBlind : Phase → Prop
  | looking .. => False
  | idle | checking _ | counting _ => True

namespace Race

/-- The races in which the hooks `hooks` have begun, in this order. The hook of a thread may still be on its way, and
those of others come in between. -/
inductive Fed (a : Arguments) : List (LastLine × LineEvent) → Race → Prop where
  | start {x : Race} (ha : x.recording.arguments = a) (hthreads : x.recording.threads = [])
      (hidle : ∀ i, x.phase i = .idle) : Fed a [] x
  | coalesced {hooks : List (LastLine × LineEvent)} {x : Race} {h : LastLine × LineEvent} (hx : Fed a hooks x)
      (hidle : x.phase h.2.thread = .idle)
      (hs : (x.recording.arguments.coalesce && isStutter (x.lines h.2.thread) h.1) = true) :
      Fed a (hooks ++ [h]) (x.move { x.lines h.2.thread with last := some h.1 } .idle)
  | reached {hooks : List (LastLine × LineEvent)} {x : Race} {h : LastLine × LineEvent} (hx : Fed a hooks x)
      (hidle : x.phase h.2.thread = .idle)
      (hs : (x.recording.arguments.coalesce && isStutter (x.lines h.2.thread) h.1) = false) :
      Fed a (hooks ++ [h]) (x.move { x.lines h.2.thread with last := some h.1 } (x.begin h.2.thread h.2))
  | goes {hooks : List (LastLine × LineEvent)} {x y : Race} {i : Nat} {signal : Option HookSignal} (hx : Fed a hooks x)
      (hbusy : x.phase i ≠ .idle) (hstep : Step i x signal y) : Fed a hooks y

/-- Every race is one whose hooks have begun in some order. -/
theorem Fed.of_runs {a : Arguments} {x : Nat → Race} (hx : Runs a x) (n : Nat) : ∃ hooks, Fed a hooks (x n) := by
  induction n with
  | zero => exact ⟨[], .start hx.arguments hx.threads hx.idle⟩
  | succ n ih =>
    obtain ⟨hooks, hfed⟩ := ih
    rcases hx.next n with heq | ⟨i, signal, hstep⟩
    · exact ⟨hooks, heq ▸ hfed⟩
    · generalize x n = y, x (n + 1) = z at hfed hstep
      cases hstep with
      | @coalesced line e he h hs =>
        subst he
        exact ⟨_, .coalesced (h := (line, e)) hfed h hs⟩
      | @reached line e he h hs =>
        subst he
        exact ⟨_, .reached (h := (line, e)) hfed h hs⟩
      | looks h => exact ⟨hooks, hfed.goes (by rw [h]; nofun) (.looks h)⟩
      | looked h => exact ⟨hooks, hfed.goes (by rw [h]; nofun) (.looked h)⟩
      | passed h hroom => exact ⟨hooks, hfed.goes (by rw [h]; nofun) (.passed h hroom)⟩
      | refused h hl hfull => exact ⟨hooks, hfed.goes (by rw [h]; nofun) (.refused h hl hfull)⟩
      | counts h => exact ⟨hooks, hfed.goes (by rw [h]; nofun) (.counts h)⟩

/-- What the lines of a thread are after the hooks `hooks` of it, of which the lines `due` are still to count; so many
were counted before counting started again from zero. -/
structure Keeps (a : Arguments) (hooks : List (LastLine × LineEvent)) (due : List LineEvent) (forgotten : Nat)
    (t : ThreadLines) : Prop where
  last : t.last = lastLine hooks
  counted : ∃ done, countedLines a.coalesce none hooks = done ++ due ∧ forgotten + t.linesRun = done.length ∧
    t.steps.toList = done.take a.recordedStepLimit

section Keeps

variable {a : Arguments} {hooks : List (LastLine × LineEvent)} {t : ThreadLines} {h : LastLine × LineEvent}
  {forgotten : Nat}

theorem Keeps.start (i : Nat) : Keeps a [] [] 0 (.start i) := ⟨rfl, [], rfl, rfl, by simp [ThreadLines.start]⟩

theorem Keeps.coalesced (ht : Keeps a hooks [] forgotten t) (hs : (a.coalesce && isStutter t h.1) = true) :
    Keeps a (hooks ++ [h]) [] forgotten { t with last := some h.1 } := by
  rw [isStutter_eq_goesOn, ht.last] at hs
  obtain ⟨done, hdone, hlines, hsteps⟩ := ht.counted
  refine ⟨by simp, done, ?_, hlines, hsteps⟩
  rw [countedLines_concat, if_pos hs, List.append_nil, hdone]

theorem Keeps.reached (ht : Keeps a hooks [] forgotten t) (hs : (a.coalesce && isStutter t h.1) = false) :
    Keeps a (hooks ++ [h]) [h.2] forgotten { t with last := some h.1 } := by
  rw [isStutter_eq_goesOn, ht.last] at hs
  obtain ⟨done, hdone, hlines, hsteps⟩ := ht.counted
  rw [List.append_nil] at hdone
  refine ⟨by simp, done, ?_, hlines, hsteps⟩
  rw [countedLines_concat, hs, if_neg Bool.false_ne_true, hdone]

theorem Keeps.counts {e : LineEvent} (ht : Keeps a hooks [e] forgotten t) : Keeps a hooks [] forgotten (count a t e) := by
  obtain ⟨done, hdone, hlines, hsteps⟩ := ht.counted
  have hsize : t.steps.size = min a.recordedStepLimit done.length := by
    rw [← Array.length_toList, hsteps, List.length_take]
  refine ⟨ht.last, done ++ [e], by simpa using hdone, by simp [count, ← hlines, Nat.add_assoc], ?_⟩
  by_cases hroom : t.steps.size < a.recordedStepLimit
  · have hdone : (done ++ [e]).length ≤ a.recordedStepLimit := by
      simp only [List.length_append, List.length_singleton]
      omega
    simp only [count, if_pos hroom, Array.toList_push, hsteps]
    rw [List.take_of_length_le hdone, List.take_of_length_le (by simp at hdone; omega)]
  · have hfull : a.recordedStepLimit ≤ done.length := by omega
    simp only [count, if_neg hroom, hsteps]
    exact (List.take_append_of_le_length hfull).symm

end Keeps

theorem Step.mem_ids {x y : Race} {i j : Nat} {signal : Option HookSignal} (h : Step i x signal y)
    (hj : j ∈ y.recording.ids) : j = i ∨ j ∈ x.recording.ids := by
  cases h with
  | looks | passed | refused => exact .inr hj
  | coalesced | reached | looked | counts => exact (mem_ids_put.1 hj).imp_left (by simp [count])

theorem begin_of_unlimited {x : Race} (hx : x.recording.arguments.runLineLimit = none) (i : Nat) (e : LineEvent) :
    x.begin i e = .checking e := by
  rw [begin, hx]
  rfl

namespace Fed

variable {a : Arguments} {hooks : List (LastLine × LineEvent)} {x : Race}

theorem arguments_eq (hx : Fed a hooks x) : x.recording.arguments = a := by
  induction hx with
  | start ha _ _ => exact ha
  | coalesced _ _ _ ih | reached _ _ _ ih => exact ih
  | goes _ _ hstep ih => exact hstep.arguments_eq.trans ih

theorem nodup (hx : Fed a hooks x) : x.recording.ids.Nodup := by
  induction hx with
  | start _ hthreads _ => simp [ids, hthreads]
  | coalesced _ _ _ ih | reached _ _ _ ih => exact nodup_put ih
  | goes _ _ hstep ih => exact hstep.nodup ih

/-- Only threads with hooks are known, and only they can be in a hook. -/
theorem exists_mem (hx : Fed a hooks x) {i : Nat} (hi : i ∈ x.recording.ids ∨ x.phase i ≠ .idle) :
    ∃ h ∈ hooks, h.2.thread = i := by
  induction hx generalizing i with
  | start _ hthreads hidle =>
    rcases hi with hi | hi
    · simp [ids, hthreads] at hi
    · exact absurd (hidle i) hi
  | @coalesced hooks x h hx hidle _ ih | @reached hooks x h hx hidle _ ih =>
    have known : i = h.2.thread ∨ i ∈ x.recording.ids ∨ x.phase i ≠ .idle := by
      rcases hi with hi | hi
      · exact (mem_ids_put.1 hi).imp (by simp) .inl
      · rw [phase_move, thread_lines'] at hi
        exact or_iff_not_imp_left.2 fun hne => .inr (by rwa [if_neg hne] at hi)
    rcases known with rfl | hi
    · exact ⟨h, by simp, rfl⟩
    · obtain ⟨g, hg, hgi⟩ := ih hi
      exact ⟨g, List.mem_append_left _ hg, hgi⟩
  | @goes hooks x y j signal hx hbusy hstep ih =>
    by_cases hij : i = j
    · exact ih (.inr (hij ▸ hbusy))
    · refine ih (hi.imp (fun hi => ?_) fun hi => (hstep.of_ne hij).2 ▸ hi)
      exact (hstep.mem_ids hi).resolve_left hij

/-- **Each thread has counted the lines of its own hooks,** but for one that is on its way. -/
theorem keeps (ha : a.runLineLimit = none) (hx : Fed a hooks x) (i : Nat) :
    (x.phase i).IsBlind ∧ Keeps a (ofThread i hooks) (x.phase i).pending 0 (x.lines i) := by
  induction hx with
  | @start x _ hthreads hidle =>
    rw [hidle, Race.lines, lines_of_notMem (by simp [ids, hthreads])]
    exact ⟨trivial, Keeps.start i⟩
  | @coalesced hooks x h hx hidle hs ih =>
    rw [hx.arguments_eq] at hs
    rw [lines_move, phase_move, ofThread_concat, thread_lines']
    by_cases hi : i = h.2.thread
    · subst hi
      rw [hidle] at ih
      rw [if_pos rfl, if_pos rfl, if_pos rfl]
      exact ⟨trivial, ih.2.coalesced hs⟩
    · rwa [if_neg hi, if_neg hi, if_neg (Ne.symm hi)]
  | @reached hooks x h hx hidle hs ih =>
    rw [hx.arguments_eq] at hs
    rw [lines_move, phase_move, ofThread_concat, thread_lines', begin_of_unlimited (by rw [hx.arguments_eq, ha])]
    by_cases hi : i = h.2.thread
    · subst hi
      rw [hidle] at ih
      rw [if_pos rfl, if_pos rfl, if_pos rfl]
      exact ⟨trivial, ih.2.reached hs⟩
    · rwa [if_neg hi, if_neg hi, if_neg (Ne.symm hi)]
  | @goes hooks x y j signal hx hbusy hstep ih =>
    by_cases hij : i = j
    · subst hij
      cases hstep with
      | coalesced _ h _ | reached _ h _ => exact absurd h hbusy
      | looks h | looked h =>
        rw [h] at ih
        exact ih.1.elim
      | passed h hroom =>
        rw [h] at ih
        rw [phase_goTo, if_pos rfl]
        exact ⟨trivial, ih.2⟩
      | refused _ hl _ =>
        exact absurd ((hx.arguments_eq ▸ hl).symm.trans ha) (Option.some_ne_none _)
      | @counts e h =>
        rw [h] at ih
        have hi : i = (count a (x.lines i) e).thread := (thread_lines' (x := x)).symm
        rw [hx.arguments_eq, lines_move, phase_move, if_pos hi, if_pos hi]
        exact ⟨trivial, ih.2.counts⟩
    · rw [(hstep.of_ne hij).1, (hstep.of_ne hij).2]
      exact ih

theorem lines_of_idle (ha : a.runLineLimit = none) (hx : Fed a hooks x) {i : Nat} (hidle : x.phase i = .idle) :
    (x.lines i).linesRun = (countedLines a.coalesce none (ofThread i hooks)).length ∧
      (x.lines i).steps.toList = (countedLines a.coalesce none (ofThread i hooks)).take a.recordedStepLimit := by
  have hkeeps := (hx.keeps ha i).2
  rw [hidle] at hkeeps
  obtain ⟨done, hdone, hlines, hsteps⟩ := hkeeps.counted
  rw [Phase.pending, List.append_nil] at hdone
  rw [Nat.zero_add] at hlines
  exact ⟨hdone ▸ hlines, hdone ▸ hsteps⟩

end Fed

/-- **Hooks that do not interrupt each other are one of these races.** -/
theorem fed_afterHooks {a : Arguments} (ha : a.runLineLimit = none) (hooks : List (LastLine × LineEvent)) :
    Fed a hooks ⟨afterHooks a hooks, fun _ => .idle⟩ := by
  induction hooks using List.reverseRecOn with
  | nil => exact .start rfl rfl fun _ => rfl
  | append_singleton hooks h ih =>
    have hx := ih
    rw [afterHooks_concat, onLine_eq]
    generalize hr : afterHooks a hooks = r at ih hx ⊢
    obtain rfl : r.arguments = a := ih.arguments_eq
    set t : ThreadLines := { r.lines h.2.thread with last := some h.1 } with ht
    have hthread : t.thread = h.2.thread := thread_lines r h.2.thread
    have hidle : ∀ p, Function.update (Function.update (fun _ => Phase.idle) h.2.thread p) h.2.thread .idle =
        fun _ => Phase.idle := fun p => by rw [Function.update_idem, Function.update_eq_self]
    rcases reach_cases r.arguments (r.others h.2.thread) (r.lines h.2.thread) h.1 h.2 with
      ⟨hs, heq⟩ | ⟨hs, u, hu, ⟨limit, hl, -⟩ | ⟨hroom, heq⟩⟩
    · have hfed := Fed.coalesced (h := h) hx rfl hs
      rw [heq]
      rwa [move, Race.lines, ← ht, hthread, Function.update_eq_self] at hfed
    · exact absurd (hl.symm.trans ha) (Option.some_ne_none _)
    · obtain rfl : u = t := by rw [hu, reconcile, ha]; rfl
      have hreached := Fed.reached (h := h) hx rfl hs
      rw [begin_of_unlimited (by exact ha), move, Race.lines, ← ht, hthread] at hreached
      have hpassed := hreached.goes (i := h.2.thread) (by simp)
        (.passed (Function.update_self ..) fun _ hl => absurd (hl.symm.trans ha) (Option.some_ne_none _))
      rw [goTo, Function.update_idem] at hpassed
      have hcounts := hpassed.goes (i := h.2.thread) (by simp) (.counts (Function.update_self ..))
      rw [move, Race.lines, lines_put, if_pos hthread.symm, arguments_put, put_put (by rfl)] at hcounts
      rw [heq]
      have hdone : (count r.arguments t h.2).thread = h.2.thread := hthread
      rwa [hdone, hidle] at hcounts

end Race

/-! ### The result -/

namespace Recording

/-- The lines in the result, threads with smaller numbers first. -/
theorem sortedThreads_eq {r : Recording} (hr : r.ids.Nodup) {n : Nat} (hn : ∀ i ∈ r.ids, i < n) :
    (r.threads.mergeSort fun a b => a.thread ≤ b.thread) = ((List.range n).filter (· ∈ r.ids)).map r.lines := by
  have hperm : (r.threads.mergeSort fun a b => a.thread ≤ b.thread).Perm r.threads := List.mergeSort_perm _ _
  have hsorted : ((r.threads.mergeSort fun a b => a.thread ≤ b.thread).map (·.thread)).Pairwise (· ≤ ·) := by
    refine List.pairwise_map.2 ((List.pairwise_mergeSort ?_ ?_ r.threads).imp fun h => by simpa using h)
    · intro s t u hst htu
      simp only [decide_eq_true_eq] at hst htu ⊢
      omega
    · intro s t
      simp only [Bool.or_eq_true, decide_eq_true_eq]
      omega
  generalize r.threads.mergeSort _ = sorted at hperm hsorted
  have hids : sorted.map (·.thread) = (List.range n).filter (· ∈ r.ids) := by
    refine List.Perm.eq_of_pairwise' hsorted (List.pairwise_le_range.filter _) ?_
    refine (List.perm_ext_iff_of_nodup ?_ (List.nodup_range.filter _)).2 fun i => ?_
    · exact (hperm.map _).nodup_iff.2 hr
    · rw [(hperm.map _).mem_iff, List.mem_filter, List.mem_range, decide_eq_true_eq]
      exact ⟨fun hi => ⟨hn i hi, hi⟩, fun hi => hi.2⟩
  rw [← hids, List.map_map]
  refine (List.map_id _).symm.trans (List.map_congr_left fun t ht => ?_)
  exact (lines_of_mem hr (hperm.mem_iff.1 ht)).symm

/-- **The result puts the threads in the order of their numbers,** whoever of them was first. -/
theorem report_eq_of_ids_lt {r : Recording} (hr : r.ids.Nodup) {n : Nat} (hn : ∀ i ∈ r.ids, i < n) :
    r.report = ⟨r.arguments, (List.range n).flatMap fun i => (r.lines i).steps.toList,
      ∑ i ∈ Finset.range n, (r.lines i).linesRun⟩ := by
  have hsteps : r.report.steps = (List.range n).flatMap fun i => (r.lines i).steps.toList := by
    show (r.threads.mergeSort fun a b => a.thread ≤ b.thread).flatMap (fun t => t.steps.toList) = _
    rw [sortedThreads_eq hr hn, List.flatMap_map]
    generalize List.range n = l
    -- a thread that is not known has no steps
    induction l with
    | nil => rfl
    | cons i l ih =>
      by_cases hi : i ∈ r.ids
      · rw [List.filter_cons_of_pos (by simpa using hi), List.flatMap_cons, List.flatMap_cons, ih]
      · rw [List.filter_cons_of_neg (by simpa using hi), List.flatMap_cons, ih, lines_of_notMem hi]
        rfl
  have hlines : r.report.linesRun = ∑ i ∈ Finset.range n, (r.lines i).linesRun := by
    rw [report_linesRun, total_eq_sum hr]
    refine Finset.sum_subset (fun i hi => Finset.mem_range.2 (hn i (by simpa using hi))) fun i _ hi => ?_
    rw [lines_of_notMem (by simpa using hi)]
    rfl
  rw [← hsteps, ← hlines]
  rfl

end Recording

/-- **The result of the line trace does not depend on the schedule, and loses nothing.** The threads below `n` reach the
lines `reached`, each its own in order; `hooks` is any order in which their hooks may begin, and the hooks may also
interrupt each other (`Race.Fed`). The result is the same in all cases: thread after thread the lines that count, as
many as are to be kept, each with the number of its thread; and how many lines count altogether. -/
theorem report_scheduleIndependent {a : Arguments} (ha : a.runLineLimit = none) {n : Nat}
    {reached : Nat → List (LastLine × LineEvent)} (hreached : ∀ i, ∀ h ∈ reached i, h.2.thread = i ∧ i < n) :
    let result : Result := ⟨a,
      (List.range n).flatMap fun i => (countedLines a.coalesce none (reached i)).take a.recordedStepLimit,
      ∑ i ∈ Finset.range n, (countedLines a.coalesce none (reached i)).length⟩
    (∀ i, ∀ e ∈ countedLines a.coalesce none (reached i), e.thread = i) ∧
    ∀ hooks, (∀ i, ofThread i hooks = reached i) →
      (afterHooks a hooks).report = result ∧
      ∀ x, Race.Fed a hooks x → (∀ i, x.phase i = .idle) → x.recording.report = result := by
  intro result
  have races : ∀ hooks, (∀ i, ofThread i hooks = reached i) → ∀ x, Race.Fed a hooks x →
      (∀ i, x.phase i = .idle) → x.recording.report = result := by
    intro hooks hhooks x hx hidle
    have hids : ∀ i ∈ x.recording.ids, i < n := by
      intro i hi
      obtain ⟨h, hh, hhi⟩ := hx.exists_mem (.inl hi)
      exact (hreached i h (hhooks i ▸ List.mem_filter.2 ⟨hh, by simpa using hhi⟩)).2
    have hlines : ∀ i, _ := fun i => hhooks i ▸ hx.lines_of_idle ha (hidle i)
    rw [report_eq_of_ids_lt hx.nodup hids, hx.arguments_eq]
    exact congrArg₂ (Result.mk a) (List.flatMap_congr fun i _ => (hlines i).2)
      (Finset.sum_congr rfl fun i _ => (hlines i).1)
  refine ⟨fun i e he => ?_, fun hooks hhooks => ⟨?_, races hooks hhooks⟩⟩
  · obtain ⟨h, hh, rfl⟩ := List.mem_map.1 (mem_of_mem_countedLines he)
    exact (hreached i h hh).1
  · exact races hooks hhooks _ (Race.fed_afterHooks ha hooks) fun _ => rfl

/-- Two threads in two orders. The first one is at its last label of line 1 when the second one comes, which is first in
the other order; of its three lines that count, two are kept. -/
theorem report_scheduleIndependent_sample :
    let a : Arguments := ⟨2, none, .killSandbox, true, 1000⟩
    let first : List (LastLine × LineEvent) := [(⟨0, 0, 1⟩, ⟨"A", 1, 0⟩), (⟨0, 1, 1⟩, ⟨"A", 1, 0⟩)]
    let rest : List (LastLine × LineEvent) := [(⟨0, 2, 2⟩, ⟨"A", 2, 0⟩), (⟨0, 3, 3⟩, ⟨"A", 3, 0⟩)]
    let second : List (LastLine × LineEvent) := [(⟨0, 0, 1⟩, ⟨"A", 1, 1⟩)]
    let reached : Nat → List (LastLine × LineEvent) := fun
      | 0 => first ++ rest
      | 1 => second
      | _ => []
    a.runLineLimit = none ∧ (∀ i, ∀ h ∈ reached i, h.2.thread = i ∧ i < 2) ∧
      (∀ i, ofThread i (first ++ second ++ rest) = reached i) ∧ (∀ i, ofThread i (second ++ first ++ rest) = reached i) ∧
      (afterHooks a (first ++ second ++ rest)).report = (afterHooks a (second ++ first ++ rest)).report ∧
      (afterHooks a (first ++ second ++ rest)).report = ⟨a, [⟨"A", 1, 0⟩, ⟨"A", 2, 0⟩, ⟨"A", 1, 1⟩], 4⟩ := by
  intro a first rest second reached
  have hreached : ∀ i, ∀ h ∈ reached i, h.2.thread = i ∧ i < 2 := by
    rintro (_ | _ | i) <;> simp [reached, first, rest, second]
  have hforth : ∀ i, ofThread i (first ++ second ++ rest) = reached i := by rintro (_ | _ | i) <;> rfl
  have hback : ∀ i, ofThread i (second ++ first ++ rest) = reached i := by rintro (_ | _ | i) <;> rfl
  have hresult := (report_scheduleIndependent (a := a) rfl hreached).2
  exact ⟨rfl, hreached, hforth, hback, (hresult _ hforth).1.trans (hresult _ hback).1.symm, (hresult _ hforth).1⟩

end Confine.LineTrace
