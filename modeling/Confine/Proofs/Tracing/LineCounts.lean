import Confine.Tracing.LineTrace.Recording
import Mathlib.Algebra.BigOperators.Group.Finset.Basic
import Mathlib.Algebra.BigOperators.Group.List.Basic
import Mathlib.Algebra.GroupWithZero.Nat

/-!
# The lines that threads have counted

* `LineTrace.Recording.lines`, `LineTrace.Recording.put` — the lines of one thread, and the recording with other ones;
* `LineTrace.Recording.onLine_eq` — a thread that reaches a line changes its own lines only;
* `LineTrace.Recording.total` — how many lines all threads have counted, which is what a result says
  (`report_linesRun`);
* `LineTrace.Recording.total_onLine_le` — no line is counted beyond the limit if each thread looks at the others at
  each line, and they do not race.
-/

namespace Confine.LineTrace.Recording

/-! ### One thread -/

def lines (r : Recording) (i : Nat) : ThreadLines := (r.thread? i).getD (.start i)

def put (r : Recording) (t : ThreadLines) : Recording :=
  { r with threads :=
      (takeOut t.thread [] r.threads).1.reverseAux (t :: (takeOut t.thread [] r.threads).2.2) }

def ids (r : Recording) : List Nat := r.threads.map (·.thread)

theorem takeOut_of_notMem {i : Nat} {l : List ThreadLines} (h : ∀ t ∈ l, t.thread ≠ i)
    (before : List ThreadLines) :
    takeOut i before l = (l.reverse ++ before, ThreadLines.start i, []) := by
  induction l generalizing before with
  | nil => rfl
  | cons t l ih =>
    obtain ⟨ht, hl⟩ := List.forall_mem_cons.1 h
    simp [takeOut, ht, ih hl]

theorem takeOut_append {i : Nat} {front rest : List ThreadLines} {t : ThreadLines}
    (h : ∀ t ∈ front, t.thread ≠ i) (ht : t.thread = i) (before : List ThreadLines) :
    takeOut i before (front ++ t :: rest) = (front.reverse ++ before, t, rest) := by
  induction front generalizing before with
  | nil => simp [takeOut, ht]
  | cons u front ih =>
    obtain ⟨hu, hfront⟩ := List.forall_mem_cons.1 h
    simp [takeOut, hu, ih hfront]

/-- A thread has reached no line yet, and then its lines come last; or it stands between others. -/
theorem threads_cases (r : Recording) (i : Nat) :
    (i ∉ r.ids ∧ r.lines i = .start i ∧ takeOut i [] r.threads = (r.threads.reverse, .start i, [])) ∨
      ∃ front rest, r.threads = front ++ r.lines i :: rest ∧ i ∉ front.map (·.thread) ∧
        (r.lines i).thread = i ∧ takeOut i [] r.threads = (front.reverse, r.lines i, rest) := by
  cases hfind : r.thread? i with
  | none =>
    have hall : ∀ t ∈ r.threads, t.thread ≠ i := by
      simpa [thread?] using hfind
    have hids : i ∉ r.ids := by
      simpa [ids] using hall
    refine .inl ⟨hids, by rw [lines, hfind]; rfl, ?_⟩
    rw [takeOut_of_notMem hall, List.append_nil]
  | some t =>
    have hlines : r.lines i = t := by rw [lines, hfind]; rfl
    obtain ⟨ht, front, rest, hthreads, hfront⟩ := List.find?_eq_some_iff_append.1 hfind
    have ht : t.thread = i := by simpa using ht
    have hfront : ∀ u ∈ front, u.thread ≠ i := by simpa using hfront
    rw [hlines]
    refine .inr ⟨front, rest, hthreads, by simpa using hfront, ht, ?_⟩
    rw [hthreads, takeOut_append hfront ht, List.append_nil]

@[simp] theorem thread_lines (r : Recording) (i : Nat) : (r.lines i).thread = i := by
  rcases r.threads_cases i with ⟨-, h, -⟩ | ⟨_, _, -, -, h, -⟩
  · rw [h]
    rfl
  · exact h

theorem takeOut_snd (r : Recording) (i : Nat) : (takeOut i [] r.threads).2.1 = r.lines i := by
  rcases r.threads_cases i with ⟨-, hl, h⟩ | ⟨_, _, -, -, -, h⟩
  · rw [h, hl]
  · rw [h]

theorem lines_of_notMem {r : Recording} {i : Nat} (h : i ∉ r.ids) : r.lines i = .start i := by
  rcases r.threads_cases i with ⟨-, hl, -⟩ | ⟨front, rest, hthreads, -, hi, -⟩
  · exact hl
  · refine absurd ?_ h
    rw [ids, hthreads]
    simp

/-! ### Other lines -/

section Put

variable {r : Recording} {t : ThreadLines}

@[simp] theorem arguments_put : (r.put t).arguments = r.arguments := rfl

theorem threads_put (r : Recording) (t : ThreadLines) :
    (t.thread ∉ r.ids ∧ (r.put t).threads = r.threads ++ [t]) ∨
      ∃ front rest, r.threads = front ++ r.lines t.thread :: rest ∧
        t.thread ∉ front.map (·.thread) ∧ (r.put t).threads = front ++ t :: rest := by
  rcases r.threads_cases t.thread with ⟨hids, -, h⟩ | ⟨front, rest, hthreads, hfront, -, h⟩
  · refine .inl ⟨hids, ?_⟩
    simp [put, h, List.reverseAux_eq]
  · refine .inr ⟨front, rest, hthreads, hfront, ?_⟩
    simp [put, h, List.reverseAux_eq]

theorem mem_ids_put {j : Nat} : j ∈ (r.put t).ids ↔ j = t.thread ∨ j ∈ r.ids := by
  rcases threads_put r t with ⟨-, h⟩ | ⟨front, rest, hthreads, -, h⟩
  · simp [ids, h, or_comm]
  · simp only [ids, h, hthreads, List.map_append, List.map_cons, thread_lines, List.mem_append,
      List.mem_cons]
    tauto

theorem nodup_put (h : r.ids.Nodup) : (r.put t).ids.Nodup := by
  rcases threads_put r t with ⟨hids, hput⟩ | ⟨front, rest, hthreads, -, hput⟩
  · rw [ids, hput, List.map_append]
    exact List.Nodup.append h (List.nodup_singleton _) (by simpa [ids] using hids)
  · rw [ids, hthreads, List.map_append, List.map_cons, thread_lines] at h
    rw [ids, hput, List.map_append, List.map_cons]
    exact h

/-- Only the lines of one thread have changed. -/
theorem lines_put (r : Recording) (t : ThreadLines) (j : Nat) :
    (r.put t).lines j = if j = t.thread then t else r.lines j := by
  rcases threads_put r t with ⟨hids, h⟩ | ⟨front, rest, hthreads, hfront, h⟩
  · have hnone : ∀ u ∈ r.threads, u.thread ≠ t.thread := by simpa [ids] using hids
    by_cases hj : j = t.thread
    · subst hj
      have hfind : r.threads.find? (·.thread == t.thread) = none := by simpa using hnone
      simp [lines, thread?, h, List.find?_append, hfind]
    · have ht : (t.thread == j) = false := beq_false_of_ne (Ne.symm hj)
      simp [lines, thread?, h, List.find?_append, hj, ht]
  · by_cases hj : j = t.thread
    · subst hj
      have hfind : front.find? (·.thread == t.thread) = none := by simpa using hfront
      simp [lines, thread?, h, List.find?_append, hfind]
    · have hu : ((r.lines t.thread).thread == j) = false := by
        rw [thread_lines]
        exact beq_false_of_ne (Ne.symm hj)
      have ht : (t.thread == j) = false := beq_false_of_ne (Ne.symm hj)
      generalize r.lines t.thread = u at hthreads hu
      simp [lines, thread?, h, hthreads, List.find?_append, hj, ht, hu]

theorem takeOut_put (r : Recording) (t : ThreadLines) :
    takeOut t.thread [] (r.put t).threads =
      ((takeOut t.thread [] r.threads).1, t, (takeOut t.thread [] r.threads).2.2) := by
  rcases r.threads_cases t.thread with ⟨hids, -, hout⟩ | ⟨front, rest, -, hfront, -, hout⟩
  · have hnone : ∀ u ∈ r.threads, u.thread ≠ t.thread := by simpa [ids] using hids
    have hput : (r.put t).threads = r.threads ++ t :: [] := by simp [put, hout, List.reverseAux_eq]
    rw [hput, takeOut_append hnone rfl, hout, List.append_nil]
  · have hnone : ∀ u ∈ front, u.thread ≠ t.thread := by simpa using hfront
    have hput : (r.put t).threads = front ++ t :: rest := by simp [put, hout, List.reverseAux_eq]
    rw [hput, takeOut_append hnone rfl, hout, List.append_nil]

theorem put_put {t' : ThreadLines} (h : t'.thread = t.thread) : (r.put t).put t' = r.put t' := by
  have hout := takeOut_put r t
  rw [← h] at hout
  show Recording.mk r.arguments ((takeOut t'.thread [] (r.put t).threads).1.reverseAux
    (t' :: (takeOut t'.thread [] (r.put t).threads).2.2)) r.subscribers = _
  rw [hout]
  rfl

end Put

/-! ### Reaching a line -/

theorem thread_reconcile (a : Arguments) (others : Nat) (t : ThreadLines) :
    (reconcile a others t).thread = t.thread := by
  unfold reconcile
  split <;> rfl

theorem thread_reach (a : Arguments) (others : Nat) (t : ThreadLines) (line : LastLine)
    (e : LineEvent) : (reach a others t line e).2.thread = t.thread := by
  unfold reach
  dsimp only
  split
  · rfl
  · split
    · split
      · exact thread_reconcile a others _
      · exact thread_reconcile a others _
    · exact thread_reconcile a others _

/-- A line comes right after its predecessor in the same method; or there is no room for it any
more; or it is counted. -/
theorem reach_cases (a : Arguments) (others : Nat) (t : ThreadLines) (line : LastLine)
    (e : LineEvent) :
    ((a.coalesce && isStutter t line) = true ∧
        reach a others t line e = (.coalesced, { t with last := some line })) ∨
      ((a.coalesce && isStutter t line) = false ∧
        ∃ u, u = reconcile a others { t with last := some line } ∧
          ((∃ limit, a.runLineLimit = some limit ∧ limit ≤ u.linesRun + u.othersSeen ∧
              reach a others t line e = (.beyond limit, u)) ∨
            ((∀ limit, a.runLineLimit = some limit → u.linesRun + u.othersSeen < limit) ∧
              reach a others t line e = (.counted, count a u e)))) := by
  by_cases hs : (a.coalesce && isStutter t line) = true
  · exact .inl ⟨hs, by rw [reach, if_pos hs]⟩
  · refine .inr ⟨Bool.eq_false_of_not_eq_true hs, _, rfl, ?_⟩
    rw [reach, if_neg hs]
    dsimp only
    cases hl : a.runLineLimit with
    | none =>
      refine .inr ⟨fun _ h => ?_, rfl⟩
      nomatch h
    | some limit =>
      dsimp only
      split
      · next hfull => exact .inl ⟨limit, rfl, hfull, rfl⟩
      · next hroom => exact .inr ⟨fun _ h => Option.some.inj h ▸ Nat.lt_of_not_le hroom, rfl⟩

/-- What the others have counted, as far as that matters. -/
def others (r : Recording) (i : Nat) : Nat :=
  if r.arguments.runLineLimit.isSome then r.countedByOthers i else 0

/-- **A thread that reaches a line changes its own lines only.** -/
theorem onLine_eq (r : Recording) (line : LastLine) (e : LineEvent) :
    r.onLine line e =
      ((reach r.arguments (r.others e.thread) (r.lines e.thread) line e).1,
        r.put (reach r.arguments (r.others e.thread) (r.lines e.thread) line e).2) := by
  have hthread : (reach r.arguments (r.others e.thread) (r.lines e.thread) line e).2.thread =
      e.thread := by rw [thread_reach, thread_lines]
  have hlines := r.takeOut_snd e.thread
  rw [put, hthread, onLine]
  generalize takeOut e.thread [] r.threads = out at hlines ⊢
  obtain ⟨before, t, after⟩ := out
  obtain rfl : t = r.lines e.thread := hlines
  rfl

/-! ### All threads -/

def total (r : Recording) : Nat := (r.threads.map (·.linesRun)).sum

theorem foldl_linesRun (l : List ThreadLines) (n : Nat) :
    l.foldl (fun n t => n + t.linesRun) n = n + (l.map (·.linesRun)).sum := by
  induction l generalizing n with
  | nil => simp
  | cons t l ih => simp [ih, Nat.add_assoc]

def counters (r : Recording) : Nat := r.threads.countP (0 < ·.linesRun)

theorem report_linesRun (r : Recording) : r.report.linesRun = r.total := by
  have hperm : (r.threads.mergeSort fun a b => a.thread ≤ b.thread).Perm r.threads :=
    List.mergeSort_perm _ _
  show (r.threads.mergeSort fun a b => a.thread ≤ b.thread).foldl (fun n t => n + t.linesRun) 0 = _
  rw [foldl_linesRun, Nat.zero_add]
  exact (hperm.map _).sum_eq

theorem lines_of_mem {r : Recording} (hr : r.ids.Nodup) {t : ThreadLines} (ht : t ∈ r.threads) :
    r.lines t.thread = t := by
  rcases r.threads_cases t.thread with ⟨hids, -, -⟩ | ⟨front, rest, hthreads, hfront, -, -⟩
  · exact absurd (List.mem_map_of_mem ht) hids
  · have hmem : r.lines t.thread ∈ r.threads := by
      rw [hthreads]
      simp
    exact List.inj_on_of_nodup_map hr hmem ht (thread_lines r t.thread)

theorem total_eq_sum {r : Recording} (hr : r.ids.Nodup) :
    r.total = ∑ i ∈ r.ids.toFinset, (r.lines i).linesRun := by
  rw [List.sum_toFinset _ hr, ids, List.map_map, total]
  refine congrArg List.sum (List.map_congr_left fun t ht => ?_)
  rw [Function.comp_apply, lines_of_mem hr ht]

theorem total_put (r : Recording) (t : ThreadLines) :
    (r.put t).total + (r.lines t.thread).linesRun = r.total + t.linesRun := by
  rcases threads_put r t with ⟨hids, hput⟩ | ⟨front, rest, hthreads, -, hput⟩
  · rw [lines_of_notMem hids]
    simp [total, hput, ThreadLines.start]
  · rw [total, total, hput]
    conv_rhs => rw [hthreads]
    simp only [List.map_append, List.map_cons, List.sum_append, List.sum_cons]
    omega

theorem countedByOthers_eq {r : Recording} (hr : r.ids.Nodup) (i : Nat) :
    r.countedByOthers i =
      ((r.ids.filter (· != i)).map fun j => (r.lines j).linesRun).sum := by
  rw [countedByOthers, foldl_linesRun, Nat.zero_add, ids, List.filter_map, List.map_map]
  refine congrArg List.sum (List.map_congr_left fun t ht => ?_)
  rw [Function.comp_apply, lines_of_mem hr (List.mem_of_mem_filter ht)]

theorem total_eq_add {r : Recording} (hr : r.ids.Nodup) (i : Nat) :
    r.total = (r.lines i).linesRun + r.countedByOthers i := by
  rw [countedByOthers, foldl_linesRun, Nat.zero_add, total]
  rcases threads_cases r i with ⟨hids, hlines, -⟩ | ⟨front, rest, hthreads, hfront, -, -⟩
  · have hall : r.threads.filter (·.thread != i) = r.threads := by
      refine List.filter_eq_self.2 fun t ht => ?_
      exact bne_iff_ne.2 fun heq => hids (heq ▸ List.mem_map_of_mem ht)
    rw [hall, hlines]
    simp [ThreadLines.start]
  · rw [ids, hthreads, List.map_append, List.map_cons, thread_lines] at hr
    have hrest : i ∉ rest.map (·.thread) := (List.nodup_cons.1 (List.nodup_append.1 hr).2.1).1
    have keep : ∀ l : List ThreadLines, i ∉ l.map (·.thread) →
        l.filter (·.thread != i) = l := fun l hl => by
      refine List.filter_eq_self.2 fun t ht => ?_
      exact bne_iff_ne.2 fun heq => hl (heq ▸ List.mem_map_of_mem ht)
    generalize hu : r.lines i = u at hthreads
    have hui : (u.thread != i) = false := by simp [← hu]
    rw [hthreads, List.filter_append, List.filter_cons, hui, keep _ hfront, if_neg (by simp),
      keep _ hrest]
    simp only [List.map_append, List.map_cons, List.sum_append, List.sum_cons]
    omega

/-! ### Hooks that do not race -/

theorem nodup_onLine {r : Recording} (hr : r.ids.Nodup) (line : LastLine) (e : LineEvent) :
    (r.onLine line e).2.ids.Nodup := by
  rw [onLine_eq]
  exact nodup_put hr

@[simp] theorem arguments_onLine (r : Recording) (line : LastLine) (e : LineEvent) :
    (r.onLine line e).2.arguments = r.arguments := by
  rw [onLine_eq, arguments_put]

/-- A line that is coalesced changes nothing but where its thread is. -/
theorem lines_of_coalesced {r : Recording} {line : LastLine} {e : LineEvent}
    (h : (r.onLine line e).1 = .coalesced) (j : Nat) :
    (r.onLine line e).2.lines j =
      if j = e.thread then { r.lines j with last := some line } else r.lines j := by
  rw [onLine_eq] at h ⊢
  have hreach := reach_cases r.arguments (r.others e.thread) (r.lines e.thread) line e
  rcases hreach with ⟨-, heq⟩ | ⟨-, u, -, ⟨limit, -, -, heq⟩ | ⟨-, heq⟩⟩
  · rw [heq, lines_put]
    dsimp only
    rw [thread_lines]
    split
    · next hj =>
      subst hj
      exact congrArg (fun i => { r.lines e.thread with thread := i, last := some line })
        (thread_lines r e.thread).symm
    · rfl
  · rw [heq] at h
    nomatch h
  · rw [heq] at h
    nomatch h

theorem total_of_coalesced {r : Recording} {line : LastLine} {e : LineEvent}
    (h : (r.onLine line e).1 = .coalesced) : (r.onLine line e).2.total = r.total := by
  have hlines := lines_of_coalesced h e.thread
  rw [onLine_eq] at hlines ⊢
  rw [if_pos rfl, lines_put, if_pos (by rw [thread_reach, thread_lines])] at hlines
  have hput := total_put r (reach r.arguments (r.others e.thread) (r.lines e.thread) line e).2
  rw [thread_reach, thread_lines, hlines] at hput
  rw [hlines]
  exact Nat.add_right_cancel hput

/-- **A thread that always looks at the others counts no line beyond the limit.** -/
theorem total_onLine_le {r : Recording} {L : Nat} (hr : r.ids.Nodup)
    (hL : r.arguments.runLineLimit = some L) (hM : r.arguments.maxUnsynchronized = 0)
    (h : r.total ≤ L) (line : LastLine) (e : LineEvent) : (r.onLine line e).2.total ≤ L := by
  have hput := total_put r (reach r.arguments (r.others e.thread) (r.lines e.thread) line e).2
  rw [thread_reach, thread_lines] at hput
  rw [onLine_eq]
  have hreach := reach_cases r.arguments (r.others e.thread) (r.lines e.thread) line e
  rcases hreach with ⟨-, heq⟩ | ⟨-, u, hu, hreach⟩
  · rw [heq] at hput ⊢
    dsimp only at hput ⊢
    omega
  · have hlooked : u.linesRun = (r.lines e.thread).linesRun ∧
        u.othersSeen = r.countedByOthers e.thread := by
      rw [hu, reconcile, others, hL, hM]
      exact ⟨rfl, rfl⟩
    have htotal := total_eq_add hr e.thread
    rcases hreach with ⟨limit, -, -, heq⟩ | ⟨hroom, heq⟩
    · rw [heq] at hput ⊢
      dsimp only at hput ⊢
      omega
    · have hroom := hroom L hL
      rw [heq] at hput ⊢
      dsimp only [count] at hput ⊢
      omega

def afterHooks (a : Arguments) (hooks : List (LastLine × LineEvent)) : Recording :=
  hooks.foldl (fun r h => (r.onLine h.1 h.2).2) (.start a)

section AfterHooks

variable {a : Arguments} {L : Nat}

theorem afterHooks_concat (a : Arguments) (hooks : List (LastLine × LineEvent))
    (h : LastLine × LineEvent) :
    afterHooks a (hooks ++ [h]) = ((afterHooks a hooks).onLine h.1 h.2).2 := by
  rw [afterHooks, List.foldl_append]
  rfl

theorem arguments_afterHooks (a : Arguments) (hooks : List (LastLine × LineEvent)) :
    (afterHooks a hooks).arguments = a := by
  induction hooks using List.reverseRecOn with
  | nil => rfl
  | append_singleton hooks h ih => rw [afterHooks_concat, arguments_onLine, ih]

theorem nodup_afterHooks (a : Arguments) (hooks : List (LastLine × LineEvent)) :
    (afterHooks a hooks).ids.Nodup := by
  induction hooks using List.reverseRecOn with
  | nil => exact List.nodup_nil
  | append_singleton hooks h ih =>
    rw [afterHooks_concat]
    exact nodup_onLine ih _ _

theorem total_afterHooks_le (hL : a.runLineLimit = some L) (hM : a.maxUnsynchronized = 0)
    (hooks : List (LastLine × LineEvent)) : (afterHooks a hooks).total ≤ L := by
  induction hooks using List.reverseRecOn with
  | nil => exact Nat.zero_le L
  | append_singleton hooks h ih =>
    have ha := arguments_afterHooks a hooks
    rw [afterHooks_concat]
    exact total_onLine_le (nodup_afterHooks a hooks) (by rw [ha, hL]) (by rw [ha, hM]) ih _ _

end AfterHooks

end Confine.LineTrace.Recording
