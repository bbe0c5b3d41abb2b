import Confine.Proofs.Tracing.LineCounts
import Mathlib.Data.Finset.Max
import Mathlib.Algebra.Order.BigOperators.Group.Finset
import Mathlib.Logic.Function.Basic
import Mathlib.Algebra.Group.Action.Defs

/-!
# The limit of lines when threads race

A thread that reaches a line looks at the counts of the others one by one, checks the limit against what it has seen,
and counts; other threads may do the same between any two of these steps (`LineTrace.Race.Step`).

* `LineTrace.Race.Inv` — what a thread has seen of the others was there at some moment not before it had counted
  all but its unsynchronized lines, and is there still;
* `LineTrace.Race.Runs.total_le` — so all threads together count no more than the limit, and a batch of unsynchronized
  lines for each thread but one;
* `LineTrace.Race.steps_onLine`, `LineTrace.Race.exists_runs` — hooks that run without interruption are one of these
  races;
* `LineTrace.lineLimit_bounds` — **the limit of lines across threads**.
-/

namespace Confine.LineTrace

open Recording

/-- How far a thread has come in its hook. -/
inductive Phase where
  /-- it is in no hook -/
  | idle
  /-- it looks at the counts of the threads `left`, and has seen `seen` lines of the others -/
  | looking (e : LineEvent) (left : List Nat) (seen : Nat)
  /-- it is to check the limit -/
  | checking (e : LineEvent)
  /-- it is to count the line -/
  | counting (e : LineEvent)

/-- Threads that reach lines at the same time. -/
structure Race where
  recording : Recording
  phase : Nat → Phase

namespace Race

def lines (x : Race) (i : Nat) : ThreadLines := x.recording.lines i

def counted (x : Race) (i : Nat) : Nat := (x.lines i).linesRun

def goTo (x : Race) (i : Nat) (p : Phase) : Race := ⟨x.recording, Function.update x.phase i p⟩

def move (x : Race) (t : ThreadLines) (p : Phase) : Race :=
  ⟨x.recording.put t, Function.update x.phase t.thread p⟩

/-- Where a thread begins that has reached a line: it looks at the others, if it has counted enough
lines since it last did. -/
def begin (x : Race) (i : Nat) (e : LineEvent) : Phase :=
  if x.recording.arguments.runLineLimit.isSome &&
      x.recording.arguments.maxUnsynchronized ≤ (x.lines i).unsynchronized then
    .looking e (x.recording.ids.filter (· != i)) 0
  else .checking e

/-- **One step of the thread `i`.** It may come to the signal that the limit is reached. -/
inductive Step (i : Nat) : Race → Option HookSignal → Race → Prop where
  | coalesced {x : Race} {line : LastLine} {e : LineEvent} (he : e.thread = i)
      (h : x.phase i = .idle)
      (hs : (x.recording.arguments.coalesce && isStutter (x.lines i) line) = true) :
      Step i x none (x.move { x.lines i with last := some line } .idle)
  | reached {x : Race} {line : LastLine} {e : LineEvent} (he : e.thread = i) (h : x.phase i = .idle)
      (hs : (x.recording.arguments.coalesce && isStutter (x.lines i) line) = false) :
      Step i x none (x.move { x.lines i with last := some line } (x.begin i e))
  | looks {x : Race} {j : Nat} {e : LineEvent} {left : List Nat} {seen : Nat}
      (h : x.phase i = .looking e (j :: left) seen) :
      Step i x none (x.goTo i (.looking e left (seen + x.counted j)))
  | looked {x : Race} {e : LineEvent} {seen : Nat} (h : x.phase i = .looking e [] seen) :
      Step i x none (x.move { x.lines i with othersSeen := seen, unsynchronized := 0 } (.checking e))
  | passed {x : Race} {e : LineEvent} (h : x.phase i = .checking e)
      (hroom : ∀ limit, x.recording.arguments.runLineLimit = some limit →
        x.counted i + (x.lines i).othersSeen < limit) :
      Step i x none (x.goTo i (.counting e))
  | refused {x : Race} {limit : Nat} {e : LineEvent} (h : x.phase i = .checking e)
      (hl : x.recording.arguments.runLineLimit = some limit)
      (hfull : limit ≤ x.counted i + (x.lines i).othersSeen) :
      Step i x (some (limitSignal x.recording.arguments limit)) (x.goTo i .idle)
  | counts {x : Race} {e : LineEvent} (h : x.phase i = .counting e) :
      Step i x none (x.move (count x.recording.arguments (x.lines i) e) .idle)

/-- The race from the start of a recording, moment by moment. Nothing needs to happen between two
moments. -/
structure Runs (a : Arguments) (x : Nat → Race) : Prop where
  arguments : (x 0).recording.arguments = a
  threads : (x 0).recording.threads = []
  idle : ∀ i, (x 0).phase i = .idle
  next : ∀ n, x (n + 1) = x n ∨ ∃ i signal, Step i (x n) signal (x (n + 1))

section Moves

variable {x : Race} {t : ThreadLines} {i j : Nat} {p : Phase}

@[simp] theorem lines_goTo : (x.goTo i p).lines j = x.lines j := rfl

@[simp] theorem counted_goTo : (x.goTo i p).counted j = x.counted j := rfl

theorem phase_goTo : (x.goTo i p).phase j = if j = i then p else x.phase j := by
  simp [goTo, Function.update_apply]

theorem lines_move : (x.move t p).lines j = if j = t.thread then t else x.lines j :=
  lines_put _ _ _

theorem phase_move : (x.move t p).phase j = if j = t.thread then p else x.phase j := by
  simp [move, Function.update_apply]

@[simp] theorem thread_lines' : (x.lines i).thread = i := thread_lines _ _

end Moves

/-- **A step changes nothing of another thread.** -/
theorem Step.of_ne {x y : Race} {i j : Nat} {signal : Option HookSignal} (h : Step i x signal y)
    (hj : j ≠ i) : y.lines j = x.lines j ∧ y.phase j = x.phase j := by
  cases h with
  | looks | passed | refused => exact ⟨rfl, phase_goTo.trans (if_neg hj)⟩
  | coalesced | reached | looked | counts =>
    exact ⟨lines_move.trans (if_neg (by simpa [count] using hj)),
      phase_move.trans (if_neg (by simpa [count] using hj))⟩

/-! ### What a step keeps -/

theorem Step.arguments_eq {x y : Race} {i : Nat} {signal : Option HookSignal} (h : Step i x signal y) :
    y.recording.arguments = x.recording.arguments := by
  cases h <;> rfl

theorem Step.nodup {x y : Race} {i : Nat} {signal : Option HookSignal} (h : Step i x signal y)
    (hx : x.recording.ids.Nodup) : y.recording.ids.Nodup := by
  cases h with
  | looks | passed | refused => exact hx
  | coalesced | reached | looked | counts => exact nodup_put hx

theorem Step.counted_le {x y : Race} {i : Nat} {signal : Option HookSignal} (h : Step i x signal y) (j : Nat) :
    x.counted j ≤ y.counted j := by
  have put : ∀ {t : ThreadLines} {p : Phase}, (x.lines t.thread).linesRun ≤ t.linesRun →
      x.counted j ≤ (x.move t p).counted j := by
    intro t p ht
    rw [counted, counted, lines_move]
    split
    · next heq => rwa [heq]
    · exact Nat.le_refl _
  cases h with
  | looks | passed | refused => exact Nat.le_refl _
  | coalesced | reached | looked => exact put (by simp)
  | counts => exact put (by simp [count])

namespace Runs

variable {a : Arguments} {x : Nat → Race} (hx : Runs a x)

include hx

theorem arguments_eq (n : Nat) : (x n).recording.arguments = a := by
  induction n with
  | zero => exact hx.arguments
  | succ n ih =>
    rcases hx.next n with heq | ⟨i, signal, hstep⟩
    · rw [heq, ih]
    · rw [hstep.arguments_eq, ih]

theorem nodup (n : Nat) : (x n).recording.ids.Nodup := by
  induction n with
  | zero => simp [ids, hx.threads]
  | succ n ih =>
    rcases hx.next n with heq | ⟨i, signal, hstep⟩
    · rwa [heq]
    · exact hstep.nodup ih

theorem counted_succ_le (n j : Nat) : (x n).counted j ≤ (x (n + 1)).counted j := by
  rcases hx.next n with heq | ⟨i, signal, hstep⟩
  · rw [heq]
  · exact hstep.counted_le j

theorem counted_le {m n : Nat} (h : m ≤ n) (j : Nat) : (x m).counted j ≤ (x n).counted j := by
  induction h with
  | refl => exact Nat.le_refl _
  | step _ ih => exact Nat.le_trans ih (hx.counted_succ_le _ j)

theorem lines_zero (i : Nat) : (x 0).lines i = .start i :=
  lines_of_notMem (by simp [ids, hx.threads])

end Runs

/-! ### The invariant -/

def batch (a : Arguments) : Nat := max a.maxUnsynchronized 1

/-- What holds of the counts of a thread at a moment. -/
structure Inv (a : Arguments) (L : Nat) (x : Nat → Race) (n i : Nat) : Prop where
  /-- what it has seen of the others was there when it had counted all but its unsynchronized lines -/
  synchronized : ∃ q ≤ n, (x n).counted i = (x q).counted i + ((x n).lines i).unsynchronized ∧
    ∀ S : Finset Nat, i ∉ S → ∑ j ∈ S, (x q).counted j ≤ ((x n).lines i).othersSeen
  /-- what it has seen of the others is there -/
  seen : ∃ T : Finset Nat, i ∉ T ∧ ((x n).lines i).othersSeen ≤ ∑ j ∈ T, (x n).counted j
  /-- when it had counted all but a batch, its lines and those of the others were within the limit -/
  within : (x n).counted i = 0 ∨ ∃ b ≤ n, (x n).counted i ≤ (x b).counted i + batch a ∧
    ∀ S : Finset Nat, i ∉ S → (x n).counted i + ∑ j ∈ S, (x b).counted j ≤ L

/-- What holds of the hook that a thread is in. -/
def InPhase (a : Arguments) (L : Nat) (x : Nat → Race) (n i : Nat) : Phase → Prop
  | .idle => True
  -- what it has seen was there when it began to look, and is there
  | .looking _ left seen => left.Nodup ∧ i ∉ left ∧
    (∃ q ≤ n, (x q).counted i = (x n).counted i ∧
      ∀ S : Finset Nat, i ∉ S → (∀ j ∈ S, j ∉ left) → ∑ j ∈ S, (x q).counted j ≤ seen) ∧
    ∃ T : Finset Nat, i ∉ T ∧ (∀ j ∈ T, j ∉ left) ∧ seen ≤ ∑ j ∈ T, (x n).counted j
  -- its batch is not full
  | .checking _ => ((x n).lines i).unsynchronized < batch a
  -- and there is room for the line
  | .counting _ => ((x n).lines i).unsynchronized < batch a ∧
    (x n).counted i + ((x n).lines i).othersSeen < L

section Inv

variable {a : Arguments} {L : Nat} {x : Nat → Race} {n i : Nat} (hx : Runs a x)

include hx

theorem Runs.sum_le {m n : Nat} (h : m ≤ n) (S : Finset Nat) :
    ∑ j ∈ S, (x m).counted j ≤ ∑ j ∈ S, (x n).counted j :=
  Finset.sum_le_sum fun j _ => hx.counted_le h j

theorem Inv.start (i : Nat) : Inv a L x 0 i := by
  have hzero : ∀ j, (x 0).counted j = 0 := fun j => by rw [counted, hx.lines_zero]; rfl
  have hlines := hx.lines_zero i
  exact ⟨⟨0, Nat.le_refl 0, by rw [hlines]; rfl, by simp [hzero]⟩,
    ⟨∅, by simp, by rw [hlines]; exact Nat.zero_le _⟩, .inl (hzero i)⟩

theorem Inv.keep (h : Inv a L x n i) (hc : (x (n + 1)).counted i = (x n).counted i)
    (hu : ((x (n + 1)).lines i).unsynchronized = ((x n).lines i).unsynchronized)
    (ho : ((x (n + 1)).lines i).othersSeen = ((x n).lines i).othersSeen) : Inv a L x (n + 1) i := by
  have hsucc : n ≤ n + 1 := Nat.le_succ n
  obtain ⟨q, hq, hcq, hsq⟩ := h.synchronized
  obtain ⟨T, hT, hseen⟩ := h.seen
  refine ⟨⟨q, Nat.le_trans hq hsucc, by rw [hc, hu, hcq], by rw [ho]; exact hsq⟩,
    ⟨T, hT, by rw [ho]; exact Nat.le_trans hseen (hx.sum_le hsucc T)⟩, ?_⟩
  rw [hc]
  exact h.within.imp_right fun ⟨b, hb, hcb⟩ => ⟨b, Nat.le_trans hb hsucc, hcb⟩

theorem InPhase.keep {p : Phase} (h : InPhase a L x n i p)
    (hl : (x (n + 1)).lines i = (x n).lines i) : InPhase a L x (n + 1) i p := by
  have hc : (x (n + 1)).counted i = (x n).counted i := by rw [counted, counted, hl]
  have hsucc : n ≤ n + 1 := Nat.le_succ n
  cases p with
  | idle => trivial
  | looking e left seen =>
    obtain ⟨hnodup, hi, ⟨q, hq, hcq, hsq⟩, T, hT, hleft, hsum⟩ := h
    exact ⟨hnodup, hi, ⟨q, Nat.le_trans hq hsucc, by rw [hc, hcq], hsq⟩, T, hT, hleft,
      Nat.le_trans hsum (hx.sum_le hsucc T)⟩
  | checking e => rwa [InPhase, hl]
  | counting e => rwa [InPhase, hl, hc]

/-- A thread that has looked at all others has seen what was there when it began. -/
theorem Inv.looked {seen : Nat} {e : LineEvent} (h : Inv a L x n i)
    (hp : InPhase a L x n i (.looking e [] seen))
    (hy : x (n + 1) =
      (x n).move { (x n).lines i with othersSeen := seen, unsynchronized := 0 } (.checking e)) :
    Inv a L x (n + 1) i := by
  have hlines : (x (n + 1)).lines i =
      { (x n).lines i with othersSeen := seen, unsynchronized := 0 } := by
    rw [hy, lines_move, if_pos (by simp)]
  have hc : (x (n + 1)).counted i = (x n).counted i := by rw [counted, hlines]; rfl
  have hsucc : n ≤ n + 1 := Nat.le_succ n
  obtain ⟨-, -, ⟨q, hq, hcq, hsq⟩, T, hT, -, hsum⟩ := hp
  refine ⟨⟨q, Nat.le_trans hq hsucc, by rw [hlines, hc, hcq]; rfl, fun S hS => ?_⟩,
    ⟨T, hT, ?_⟩, ?_⟩
  · -- what was seen was there when it began to look
    rw [hlines]
    exact hsq S hS (by simp)
  · -- and is there now, as counters do not go down
    rw [hlines]
    exact Nat.le_trans hsum (hx.sum_le hsucc T)
  · rw [hc]
    exact h.within.imp_right fun ⟨b, hb, hcb⟩ => ⟨b, Nat.le_trans hb hsucc, hcb⟩

/-- **A thread that counts a line was within the limit when it last looked**, and has counted no more
than a batch since. -/
theorem Inv.counts {e : LineEvent} {p : Phase} (h : Inv a L x n i)
    (hp : InPhase a L x n i (.counting e))
    (hy : x (n + 1) = (x n).move (count (x n).recording.arguments ((x n).lines i) e) p) :
    Inv a L x (n + 1) i := by
  have hlines : (x (n + 1)).lines i = count (x n).recording.arguments ((x n).lines i) e := by
    rw [hy, lines_move, if_pos (by simp [count])]
  have hc : (x (n + 1)).counted i = (x n).counted i + 1 := by rw [counted, hlines]; rfl
  have hu : ((x (n + 1)).lines i).unsynchronized = ((x n).lines i).unsynchronized + 1 := by
    rw [hlines]
    rfl
  have ho : ((x (n + 1)).lines i).othersSeen = ((x n).lines i).othersSeen := by
    rw [hlines]
    rfl
  have hsucc : n ≤ n + 1 := Nat.le_succ n
  obtain ⟨hfresh, hroom⟩ := hp
  obtain ⟨q, hq, hcq, hsq⟩ := h.synchronized
  obtain ⟨T, hT, hseen⟩ := h.seen
  refine ⟨⟨q, Nat.le_trans hq hsucc, by omega, by rw [ho]; exact hsq⟩,
    ⟨T, hT, by rw [ho]; exact Nat.le_trans hseen (hx.sum_le hsucc T)⟩,
    .inr ⟨q, Nat.le_trans hq hsucc, by omega, fun S hS => ?_⟩⟩
  have := hsq S hS
  omega

/-- A thread that begins to look at the others has seen nothing of those that have reached a line. -/
theorem InPhase.begin (hL : a.runLineLimit = some L) {line : LastLine} {e : LineEvent}
    (hy : x (n + 1) = (x n).move { (x n).lines i with last := some line } ((x n).begin i e)) :
    InPhase a L x (n + 1) i ((x n).begin i e) := by
  have hlines : (x (n + 1)).lines i = { (x n).lines i with last := some line } := by
    rw [hy, lines_move, if_pos (by simp)]
  have hc : (x (n + 1)).counted i = (x n).counted i := by rw [counted, hlines]; rfl
  rw [Race.begin, hx.arguments_eq, hL]
  by_cases hfull : a.maxUnsynchronized ≤ ((x n).lines i).unsynchronized
  · simp only [Option.isSome_some, hfull, decide_true, Bool.and_self, if_true]
    refine ⟨(hx.nodup n).filter _, by simp, ⟨n, Nat.le_succ n, hc.symm, fun S hS hout => ?_⟩,
      ∅, by simp, by simp, Nat.zero_le _⟩
    refine Nat.le_of_eq (Finset.sum_eq_zero fun j hj => ?_)
    have hji : j ≠ i := fun heq => hS (heq ▸ hj)
    have hids : j ∉ (x n).recording.ids := by
      have := hout j hj
      simpa [hji] using this
    rw [counted, Race.lines, lines_of_notMem hids]
    rfl
  · simp only [Option.isSome_some, hfull, decide_false, Bool.and_false, Bool.false_eq_true, if_false]
    show ((x (n + 1)).lines i).unsynchronized < batch a
    rw [hlines]
    exact Nat.lt_of_lt_of_le (Nat.lt_of_not_le hfull) (Nat.le_max_left _ _)

/-- A thread looks at the count of another one. -/
theorem InPhase.looks {j seen : Nat} {left : List Nat} {e : LineEvent}
    (h : InPhase a L x n i (.looking e (j :: left) seen))
    (hy : x (n + 1) = (x n).goTo i (.looking e left (seen + (x n).counted j))) :
    InPhase a L x (n + 1) i (.looking e left (seen + (x n).counted j)) := by
  have hc : ∀ k, (x (n + 1)).counted k = (x n).counted k := fun k => by rw [hy, counted_goTo]
  obtain ⟨hnodup, hi, ⟨q, hq, hcq, hsq⟩, T, hT, hleft, hsum⟩ := h
  obtain ⟨hj, hnodup⟩ := List.nodup_cons.1 hnodup
  obtain ⟨hij, hi⟩ := not_or.1 (List.mem_cons.not.1 hi)
  refine ⟨hnodup, hi, ⟨q, Nat.le_trans hq (Nat.le_succ n), by rw [hc, hcq], fun S hS hout => ?_⟩,
    insert j T, ?_, fun k hk => ?_, ?_⟩
  · -- what it sees of `j` now is no less than what was there when it began
    have herase : ∑ k ∈ S.erase j, (x q).counted k ≤ seen := by
      refine hsq _ (fun h => hS (Finset.mem_of_mem_erase h)) fun k hk => ?_
      obtain ⟨hkj, hk⟩ := Finset.mem_erase.1 hk
      exact List.mem_cons.not.2 (not_or.2 ⟨hkj, hout k hk⟩)
    have hnow : (x q).counted j ≤ (x n).counted j := hx.counted_le hq j
    by_cases hjS : j ∈ S
    · rw [← Finset.sum_erase_add S _ hjS]
      omega
    · rw [Finset.erase_eq_of_notMem hjS] at herase
      omega
  · simp [hij, hT]
  · rcases Finset.mem_insert.1 hk with rfl | hk
    · exact hj
    · exact fun hmem => hleft k hk (List.mem_cons_of_mem _ hmem)
  · have hjT : j ∉ T := fun hjT => hleft j hjT List.mem_cons_self
    have hsame : ∑ k ∈ T, (x (n + 1)).counted k = ∑ k ∈ T, (x n).counted k :=
      Finset.sum_congr rfl fun k _ => hc k
    rw [Finset.sum_insert hjT, hc, hsame]
    omega

end Inv

/-- **The invariant holds after every step of the thread.** -/
theorem Step.inv {a : Arguments} {L : Nat} {x : Nat → Race} {n i : Nat} {signal : Option HookSignal}
    {y : Race} (hx : Runs a x) (hL : a.runLineLimit = some L) (hy : x (n + 1) = y)
    (hstep : Step i (x n) signal y) (hinv : Inv a L x n i)
    (hphase : InPhase a L x n i ((x n).phase i)) :
    Inv a L x (n + 1) i ∧ InPhase a L x (n + 1) i (y.phase i) := by
  cases hstep with
  | @coalesced line e he h hs =>
    -- the thread goes on with the line as its last
    have hlines : (x (n + 1)).lines i = { (x n).lines i with last := some line } := by
      rw [hy, lines_move, if_pos (by simp)]
    refine ⟨hinv.keep hx (by rw [counted, counted, hlines]) (by rw [hlines]) (by rw [hlines]), ?_⟩
    rw [phase_move, if_pos (by simp)]
    trivial
  | @reached line e he h hs =>
    have hlines : (x (n + 1)).lines i = { (x n).lines i with last := some line } := by
      rw [hy, lines_move, if_pos (by simp)]
    refine ⟨hinv.keep hx (by rw [counted, counted, hlines]) (by rw [hlines]) (by rw [hlines]), ?_⟩
    rw [phase_move, if_pos (by simp)]
    exact InPhase.begin hx hL hy
  | @looks j e left seen h =>
    -- it looks at another thread's counter, and its own lines stay
    have hlines : (x (n + 1)).lines i = (x n).lines i := by rw [hy, lines_goTo]
    refine ⟨hinv.keep hx (by rw [counted, counted, hlines]) (by rw [hlines]) (by rw [hlines]), ?_⟩
    rw [phase_goTo, if_pos rfl]
    rw [h] at hphase
    exact hphase.looks hx hy
  | @looked e seen h =>
    rw [h] at hphase
    refine ⟨hinv.looked hx hphase hy, ?_⟩
    rw [phase_move, if_pos (by simp)]
    show ((x (n + 1)).lines i).unsynchronized < batch a
    rw [hy, lines_move, if_pos (by simp)]
    exact Nat.lt_of_lt_of_le Nat.zero_lt_one (Nat.le_max_right _ _)
  | @passed e h hroom =>
    have hlines : (x (n + 1)).lines i = (x n).lines i := by rw [hy, lines_goTo]
    -- what it has seen lets it pass
    have hc : (x (n + 1)).counted i = (x n).counted i := by rw [counted, counted, hlines]
    rw [h] at hphase
    refine ⟨hinv.keep hx hc (by rw [hlines]) (by rw [hlines]), ?_⟩
    rw [phase_goTo, if_pos rfl]
    refine ⟨by rw [hlines]; exact hphase, ?_⟩
    rw [hc, hlines]
    exact hroom L (by rw [hx.arguments_eq, hL])
  | @refused limit e h hl hfull =>
    have hlines : (x (n + 1)).lines i = (x n).lines i := by rw [hy, lines_goTo]
    refine ⟨hinv.keep hx (by rw [counted, counted, hlines]) (by rw [hlines]) (by rw [hlines]), ?_⟩
    rw [phase_goTo, if_pos rfl]
    trivial
  | @counts e h =>
    rw [h] at hphase
    refine ⟨hinv.counts hx hphase hy, ?_⟩
    rw [phase_move, if_pos (by simp [count])]
    trivial

theorem Runs.inv_succ {a : Arguments} {L : Nat} {x : Nat → Race} {n : Nat} (hx : Runs a x)
    (hL : a.runLineLimit = some L)
    (ih : ∀ i, Inv a L x n i ∧ InPhase a L x n i ((x n).phase i)) (i : Nat) :
    Inv a L x (n + 1) i ∧ InPhase a L x (n + 1) i ((x (n + 1)).phase i) := by
  obtain ⟨hinv, hphase⟩ := ih i
  rcases hx.next n with heq | ⟨k, signal, hstep⟩
  · exact ⟨hinv.keep hx (by rw [heq]) (by rw [heq]) (by rw [heq]),
      heq ▸ hphase.keep hx (by rw [heq])⟩
  · by_cases hik : i = k
    · subst hik
      exact hstep.inv hx hL rfl hinv hphase
    · obtain ⟨hl, hp⟩ := hstep.of_ne hik
      have hc : (x (n + 1)).counted i = (x n).counted i := by rw [counted, counted, hl]
      exact ⟨hinv.keep hx hc (by rw [hl]) (by rw [hl]), hp ▸ hphase.keep hx hl⟩

section Bounds

variable {a : Arguments} {L : Nat} {x : Nat → Race} (hx : Runs a x)

include hx

theorem Runs.sum_le_total (n : Nat) (S : Finset Nat) :
    ∑ j ∈ S, (x n).counted j ≤ (x n).recording.total := by
  rw [total_eq_sum (hx.nodup n)]
  have hout : ∀ j ∈ S, j ∉ (x n).recording.ids.toFinset → (x n).counted j = 0 := by
    intro j _ hj
    rw [counted, Race.lines, lines_of_notMem (by simpa using hj)]
    rfl
  calc ∑ j ∈ S, (x n).counted j
      = ∑ j ∈ S ∩ (x n).recording.ids.toFinset, (x n).counted j := by
        refine (Finset.sum_subset Finset.inter_subset_left fun j hj hnot => hout j hj ?_).symm
        exact fun hmem => hnot (Finset.mem_inter.2 ⟨hj, hmem⟩)
    _ ≤ ∑ j ∈ (x n).recording.ids.toFinset, (x n).counted j :=
        Finset.sum_le_sum_of_subset Finset.inter_subset_right

/-- The threads that have counted lines, and what they have counted. -/
theorem Runs.exists_counters (n : Nat) :
    ∃ A : Finset Nat, (∀ j ∈ A, 0 < (x n).counted j) ∧
      A.card = (x n).recording.counters ∧
      (x n).recording.total = ∑ j ∈ A, (x n).counted j := by
  have hnodup := hx.nodup n
  refine ⟨(x n).recording.ids.toFinset.filter fun j => 0 < (x n).counted j, by simp, ?_, ?_⟩
  · have hcount : ∀ t ∈ (x n).recording.threads,
        (x n).counted t.thread = t.linesRun := fun t ht => by
      rw [counted, Race.lines, lines_of_mem hnodup ht]
    have hfilter : ((x n).recording.ids.toFinset.filter fun j => 0 < (x n).counted j) =
        ((x n).recording.ids.filter fun j => 0 < (x n).counted j).toFinset := by
      ext j
      simp
    rw [hfilter, List.toFinset_card_of_nodup (hnodup.filter _), ids, counters,
      ← List.countP_eq_length_filter, List.countP_map]
    refine List.countP_congr fun t ht => ?_
    simp [hcount t ht]
  · rw [total_eq_sum hnodup]
    exact (Finset.sum_filter_of_ne fun j _ hj => Nat.pos_of_ne_zero hj).symm

variable (hL : a.runLineLimit = some L)

include hL

/-- **The invariant holds all along a race.** -/
theorem Runs.inv (n i : Nat) : Inv a L x n i ∧ InPhase a L x n i ((x n).phase i) := by
  induction n generalizing i with
  | zero =>
    refine ⟨Inv.start hx i, ?_⟩
    rw [hx.idle]
    trivial
  | succ n ih => exact hx.inv_succ hL ih i

/-- **All threads together count no more than the limit, and a batch for each thread but one.** The
thread that was checked last when the counts were within the limit is the one. -/
theorem Runs.total_le (n : Nat) :
    (x n).recording.total ≤
      L + ((x n).recording.counters - 1) * batch a := by
  obtain ⟨A, hpos, hcard, htotal⟩ := hx.exists_counters n
  rw [← hcard, htotal]
  rcases A.eq_empty_or_nonempty with rfl | hne
  · simp
  · have hwithin : ∀ i ∈ A, ∃ b, (x n).counted i ≤ (x b).counted i + batch a ∧
        ∀ S : Finset Nat, i ∉ S → (x n).counted i + ∑ j ∈ S, (x b).counted j ≤ L := by
      intro i hi
      rcases (hx.inv hL n i).1.within with hzero | ⟨b, -, hb⟩
      · exact absurd hzero (Nat.ne_of_gt (hpos i hi))
      · exact ⟨b, hb⟩
    choose! b hbatch hroom using hwithin
    obtain ⟨k, hk, hlast⟩ := A.exists_max_image b hne
    have hothers : ∑ j ∈ A.erase k, (x n).counted j ≤
        ∑ j ∈ A.erase k, ((x (b k)).counted j + batch a) := by
      refine Finset.sum_le_sum fun j hj => ?_
      have hjA := Finset.mem_of_mem_erase hj
      exact Nat.le_trans (hbatch j hjA) (Nat.add_le_add_right (hx.counted_le (hlast j hjA) j) _)
    rw [Finset.sum_add_distrib, Finset.sum_const, Finset.card_erase_of_mem hk,
      smul_eq_mul] at hothers
    have hk_room := hroom k hk (A.erase k) (Finset.notMem_erase k A)
    rw [← Finset.sum_erase_add A _ hk]
    omega

/-- **A thread is refused only when all together have counted as many lines as the limit allows.** -/
theorem Runs.le_total_of_signal {n i : Nat} {signal : HookSignal} {y : Race}
    (h : Step i (x n) (some signal) y) :
    signal = limitSignal a L ∧ L ≤ (x n).recording.total := by
  cases h with
  | @refused limit e h hl hfull =>
    rw [hx.arguments_eq] at hl ⊢
    obtain rfl : limit = L := Option.some.inj (hl.symm.trans hL)
    obtain ⟨T, hT, hseen⟩ := (hx.inv hL n i).1.seen
    have hsum := hx.sum_le_total n (insert i T)
    rw [Finset.sum_insert hT] at hsum
    exact ⟨rfl, by omega⟩

end Bounds

/-! ### Hooks that run without interruption -/

/-- A thread takes steps, the last of which may come to a signal. -/
inductive Steps (i : Nat) : Race → Option HookSignal → Race → Prop where
  | last {x y : Race} {signal : Option HookSignal} (h : Step i x signal y) : Steps i x signal y
  | step {x y z : Race} {signal : Option HookSignal} (h : Step i x none y)
      (rest : Steps i y signal z) : Steps i x signal z

/-- A thread that looks at the others without interruption sees what they have counted by then. -/
theorem Steps.of_looking {x z : Race} {i : Nat} {e : LineEvent} {left : List Nat} {seen : Nat}
    {signal : Option HookSignal} (h : x.phase i = .looking e left seen)
    (rest : Steps i (x.goTo i (.looking e [] (seen + (left.map x.counted).sum))) signal z) :
    Steps i x signal z := by
  induction left generalizing x seen with
  | nil =>
    have hx : x.goTo i (.looking e [] seen) = x := by
      rw [goTo, ← h, Function.update_eq_self]
    rwa [List.map_nil, List.sum_nil, Nat.add_zero, hx] at rest
  | cons j left ih =>
    refine .step (.looks h) (ih (by rw [phase_goTo, if_pos rfl]) ?_)
    rw [goTo, goTo, Function.update_idem]
    rwa [goTo, List.map_cons, List.sum_cons, ← Nat.add_assoc] at rest

/-- The signal of a hook. -/
def signal? (a : Arguments) : Reached → Option HookSignal
  | .beyond limit => some (limitSignal a limit)
  | .coalesced | .counted => none

theorem update_idle {phase : Nat → Phase} {i : Nat} (h : phase i = .idle) (p : Phase) :
    Function.update (Function.update phase i p) i .idle = phase := by
  rw [Function.update_idem, ← h, Function.update_eq_self]

/-- A thread that has looked at the others comes to the end of its hook. -/
theorem Steps.of_checking {r : Recording} {phase : Nat → Phase} {t : ThreadLines} {e : LineEvent}
    {i : Nat} (ht : t.thread = i) (h : phase i = .idle) :
    (∀ limit, r.arguments.runLineLimit = some limit → limit ≤ t.linesRun + t.othersSeen →
      Steps i ⟨r.put t, Function.update phase i (.checking e)⟩
        (some (limitSignal r.arguments limit)) ⟨r.put t, phase⟩) ∧
    ((∀ limit, r.arguments.runLineLimit = some limit → t.linesRun + t.othersSeen < limit) →
      Steps i ⟨r.put t, Function.update phase i (.checking e)⟩ none
        ⟨r.put (count r.arguments t e), phase⟩) := by
  subst ht
  have hlines : (r.put t).lines t.thread = t := by rw [lines_put, if_pos rfl]
  have hchecking : Function.update phase t.thread (.checking e) t.thread = .checking e :=
    Function.update_self ..
  constructor
  · intro limit hl hfull
    have hstep := Step.refused (x := ⟨r.put t, Function.update phase t.thread (.checking e)⟩)
      hchecking hl (by rwa [counted, Race.lines, hlines])
    rw [goTo, update_idle h] at hstep
    exact .last hstep
  · intro hroom
    have hpassed := Step.passed (x := ⟨r.put t, Function.update phase t.thread (.checking e)⟩)
      hchecking (by rwa [counted, Race.lines, hlines])
    rw [goTo, Function.update_idem] at hpassed
    have hcounts := Step.counts (x := ⟨r.put t, Function.update phase t.thread (.counting e)⟩)
      (Function.update_self ..)
    rw [move, Race.lines, hlines, arguments_put, put_put (by rfl)] at hcounts
    have hdone : Function.update (Function.update phase t.thread (.counting e))
        (count r.arguments t e).thread .idle = phase := update_idle h _
    rw [hdone] at hcounts
    exact .step hpassed (.last hcounts)

/-- A thread that has to count a line comes to the check of the limit, and has seen what the others
have counted by then if it had to look at them. -/
theorem Steps.of_begin {x z : Race} {t : ThreadLines} {e : LineEvent} {signal : Option HookSignal}
    {i : Nat} (ht : t.thread = i) (hnodup : x.recording.ids.Nodup) 
    (hu : t.unsynchronized = (x.lines i).unsynchronized)
    (rest : Steps i ⟨x.recording.put (reconcile x.recording.arguments (x.recording.others i) t),
      Function.update x.phase i (.checking e)⟩ signal z) :
    Steps i (x.move t (x.begin i e)) signal z := by
  subst ht
  have hcase : x.begin t.thread e = .checking e ∧
        reconcile x.recording.arguments (x.recording.others t.thread) t = t ∨
      x.begin t.thread e = .looking e (x.recording.ids.filter (· != t.thread)) 0 ∧
        reconcile x.recording.arguments (x.recording.others t.thread) t =
          { t with othersSeen := x.recording.countedByOthers t.thread, unsynchronized := 0 } := by
    rw [begin, reconcile, others, ← hu]
    -- it looks around only with a limit, and only if it has not for too long
    by_cases hlimit : x.recording.arguments.runLineLimit.isSome = true
    · by_cases hfull : x.recording.arguments.maxUnsynchronized ≤ t.unsynchronized
      · exact .inr (by simp [hlimit, hfull])
      · exact .inl (by simp [hfull])
    · exact .inl (by simp [hlimit])
  rcases hcase with ⟨hbegin, heq⟩ | ⟨hbegin, heq⟩
  · rw [heq] at rest
    rwa [hbegin]
  · rw [hbegin]
    -- one look at each of the others, and then what was seen is stored
    refine .of_looking (by rw [phase_move, if_pos rfl]) ?_
    have hseen : ((x.recording.ids.filter (· != t.thread)).map (x.move t (.looking e
        (x.recording.ids.filter (· != t.thread)) 0)).counted).sum =
        x.recording.countedByOthers t.thread := by
      rw [countedByOthers_eq hnodup]
      refine congrArg List.sum (List.map_congr_left fun j hj => ?_)
      have hj : j ≠ t.thread := by simpa using (List.mem_filter.1 hj).2
      rw [counted, lines_move, if_neg hj]
      rfl
    rw [hseen, Nat.zero_add]
    refine .step (.looked (by rw [phase_goTo, if_pos rfl])) ?_
    rw [goTo, move, move, Race.lines, lines_put, if_pos rfl, put_put (by rfl)]
    dsimp only
    rw [Function.update_idem, Function.update_idem, ← heq]
    exact rest

/-- **A hook that runs without interruption is one of these races.** -/
theorem steps_onLine {r : Recording} {phase : Nat → Phase} (hr : r.ids.Nodup) (line : LastLine)
    {e : LineEvent} (h : phase e.thread = .idle) :
    Steps e.thread ⟨r, phase⟩ (signal? r.arguments (r.onLine line e).1)
      ⟨(r.onLine line e).2, phase⟩ := by
  have hcases := reach_cases r.arguments (r.others e.thread) (r.lines e.thread) line e
  have hthread : ({ r.lines e.thread with last := some line } : ThreadLines).thread = e.thread :=
    thread_lines r e.thread
  rw [onLine_eq]
  rcases hcases with ⟨hs, heq⟩ | ⟨hs, u, hu, hreach⟩
  · rw [heq]
    have hstep := Step.coalesced (x := ⟨r, phase⟩) rfl h hs
    have hdone : Function.update phase (r.lines e.thread).thread .idle = phase := by
      rw [thread_lines, ← h, Function.update_eq_self]
    rw [move, Race.lines, hdone] at hstep
    exact .last hstep
  · refine .step (.reached rfl h hs) (.of_begin hthread hr rfl ?_)
    have huthread : u.thread = e.thread := by rw [hu, thread_reconcile, hthread]
    obtain ⟨hrefused, hcounts⟩ := Steps.of_checking (r := r) (e := e) huthread h
    show Steps e.thread ⟨r.put (reconcile r.arguments (r.others e.thread)
      { r.lines e.thread with last := some line }), _⟩ _ _
    rw [← hu]
    rcases hreach with ⟨limit, hl, hfull, heq⟩ | ⟨hroom, heq⟩
    · rw [heq]
      exact hrefused limit hl hfull
    · rw [heq]
      exact hcounts hroom

/-- A race goes on by the steps of a thread. -/
theorem Runs.append {a : Arguments} {x : Nat → Race} {n i : Nat} {signal : Option HookSignal}
    {y z : Race} (hx : Runs a x) (hy : x n = y) (h : Steps i y signal z) :
    ∃ x' m, Runs a x' ∧ x' m = z := by
  have one : ∀ {x : Nat → Race} {n : Nat} {signal : Option HookSignal} {z : Race}, Runs a x →
      Step i (x n) signal z → Runs a (fun m => if m ≤ n then x m else z) := by
    intro x n signal z hx h
    refine ⟨hx.arguments, hx.threads, hx.idle, fun m => ?_⟩
    rcases Nat.lt_trichotomy m n with hm | rfl | hm
    · rw [if_pos hm.le, if_pos (Nat.succ_le_of_lt hm)]
      exact hx.next m
    · rw [if_pos (Nat.le_refl m), if_neg (by omega)]
      exact .inr ⟨i, signal, h⟩
    · rw [if_neg (by omega), if_neg (by omega)]
      exact .inl rfl
  induction h generalizing x n with
  | last h =>
    subst hy
    exact ⟨_, n + 1, one hx h, if_neg (by omega)⟩
  | step h _ ih =>
    subst hy
    exact ih (one hx h) (n := n + 1) (if_neg (by omega))

theorem exists_runs (a : Arguments) (hooks : List (LastLine × LineEvent)) :
    ∃ x n, Runs a x ∧ x n = ⟨afterHooks a hooks, fun _ => .idle⟩ := by
  induction hooks using List.reverseRecOn with
  | nil =>
    refine ⟨fun _ => ⟨.start a, fun _ => .idle⟩, 0, ⟨rfl, rfl, fun _ => rfl, fun _ => .inl rfl⟩, rfl⟩
  | append_singleton hooks h ih =>
    obtain ⟨x, n, hx, hn⟩ := ih
    rw [afterHooks_concat]
    exact hx.append hn (steps_onLine (nodup_afterHooks a hooks) h.1 rfl)

end Race

/-- **The limit of lines across threads.** All threads together count at most a batch for each thread
but one beyond the limit, however their hooks interrupt each other, and a hook is refused only when
they have counted as many lines as the limit allows. Hooks that do not interrupt each other are one
case of it; they count no line beyond the limit if a batch has no lines. A line that is coalesced is
not counted, whoever else is there. -/
theorem lineLimit_bounds {a : Arguments} {L : Nat} (hL : a.runLineLimit = some L) :
    (∀ x, Race.Runs a x → ∀ n,
      (x n).recording.total ≤ L + ((x n).recording.counters - 1) * max a.maxUnsynchronized 1 ∧
      ∀ i signal y, Race.Step i (x n) (some signal) y →
        signal = limitSignal a L ∧ L ≤ (x n).recording.total) ∧
    (∀ hooks, (∃ x n, Race.Runs a x ∧ (x n).recording = afterHooks a hooks) ∧
      (a.maxUnsynchronized = 0 → (afterHooks a hooks).total ≤ L)) ∧
    ∀ (r : Recording) (line : LastLine) (e : LineEvent), (r.onLine line e).1 = .coalesced →
      (r.onLine line e).2.total = r.total ∧
      ∀ j, (r.onLine line e).2.lines j =
        if j = e.thread then { r.lines j with last := some line } else r.lines j := by
  refine ⟨fun x hx n => ⟨hx.total_le hL n, fun i signal y h => hx.le_total_of_signal hL h⟩,
    fun hooks => ⟨?_, fun hM => total_afterHooks_le hL hM hooks⟩,
    fun r line e h => ⟨total_of_coalesced h, lines_of_coalesced h⟩⟩
  obtain ⟨x, n, hx, hn⟩ := Race.exists_runs a hooks
  exact ⟨x, n, hx, by rw [hn]⟩

/-- Two threads come to three lines, of which the limit allows two. -/
theorem lineLimit_bounds_sample :
    let a : Arguments := ⟨10, some 2, .killSandbox, true, 0⟩
    let hooks : List (LastLine × LineEvent) :=
      [(⟨0, 0, 1⟩, ⟨"A", 1, 0⟩), (⟨0, 0, 1⟩, ⟨"A", 1, 1⟩), (⟨0, 1, 2⟩, ⟨"A", 2, 0⟩)]
    a.runLineLimit = some 2 ∧ (∃ x n, Race.Runs a x ∧ (x n).recording = afterHooks a hooks) ∧
      (afterHooks a hooks).total ≤ 2 ∧ (afterHooks a hooks).total = 2 :=
  ⟨rfl, ((lineLimit_bounds rfl).2.1 _).1, ((lineLimit_bounds rfl).2.1 _).2 rfl, by decide⟩

end Confine.LineTrace
