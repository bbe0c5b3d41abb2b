import Confine.Proofs.Program.Relabelled
import Confine.Proofs.Tracing.Coalescing
import Confine.Proofs.Tracing.LabelPlaces
import Confine.Proofs.Tracing.LineLimit

/-!
# Chains of coalesced lines

A line that is coalesced is at the next place behind the one before it. So a chain of them climbs the labels of a
method, and is over when these are: between two lines that count there are fewer lines than a method has labels.

* `LineTrace.length_le_of_below` — of lines at places below `n`, at most `n` come on one that counts;
* `LineTrace.Recording.Counts` — the line trace has counted the lines of a thread that is alone, and has not gone beyond
  its limit;
* `Recordings.Counts.behind` — a call keeps it so, unless it is the line behind the limit.
-/

namespace Confine

open LineTrace (LastLine Arguments countedLines lastLine goesOn)

namespace LineTrace

/-! ### Chains -/

/-- The line starts at a label whose place among those of its method is below `n`. -/
def LastLine.Below (n : Nat) (line : LastLine) : Prop :=
  ∃ place, line.sequence = Int64.ofNat place ∧ place < n ∧ place < UInt32.size

theorem place_of_goesOn {last line : LastLine} {p q : Nat} (h : goesOn (some last) line = true)
    (hp : last.sequence = Int64.ofNat p) (hpsize : p < UInt32.size) (hq : line.sequence = Int64.ofNat q)
    (hqsize : q < UInt32.size) : q = p + 1 := by
  simp only [goesOn, Option.any_some, Bool.and_eq_true, beq_iff_eq] at h
  have hnext : Int64.ofNat q = Int64.ofNat (p + 1) := by rw [← hq, h.2, hp, Int64.ofNat_add]; rfl
  have hint := congrArg Int64.toInt hnext
  -- places are too small for the numbers to wrap around
  have hsize : UInt32.size = 2 ^ 32 := rfl
  rw [Int64.toInt_ofNat_of_lt (by omega), Int64.toInt_ofNat_of_lt (by omega)] at hint
  omega

/-- What is left of the labels behind the last line is still to be had of the last line that counts. -/
theorem length_add_le_of_lastLine {coalesce : Bool} {n : Nat} {hooks : List (LastLine × LineEvent)}
    (h : ∀ k ∈ hooks, k.1.Below n) {line : LastLine} (hline : lastLine hooks = some line) {place : Nat}
    (hplace : line.sequence = Int64.ofNat place) (hsize : place < UInt32.size) :
    hooks.length + (n - (place + 1)) ≤ n * (countedLines coalesce none hooks).length := by
  induction hooks using List.reverseRecOn generalizing line place with
  | nil => cases hline
  | append_singleton hooks k ih =>
    rw [lastLine_concat] at hline
    obtain rfl := Option.some.inj hline
    have hrest : ∀ k ∈ hooks, k.1.Below n := fun k hk => h k (List.mem_append_left _ hk)
    obtain ⟨p, hp, hpn, hpsize⟩ := h k (by simp)
    obtain rfl : p = place := by
      have hint := congrArg Int64.toInt (hp.symm.trans hplace)
      have hsize' : UInt32.size = 2 ^ 32 := rfl
      rw [Int64.toInt_ofNat_of_lt (by omega), Int64.toInt_ofNat_of_lt (by omega)] at hint
      omega
    rw [countedLines_concat, List.length_append, List.length_append, List.length_singleton]
    cases hlast : lastLine hooks with
    | none =>
      -- the first line counts
      obtain rfl : hooks = [] := by simpa [lastLine] using hlast
      simp [goesOn, countedLines]
      omega
    | some last =>
      obtain ⟨before, hmem⟩ : ∃ before, before ∈ hooks ∧ before.1 = last := by
        obtain ⟨b, hb, rfl⟩ := Option.map_eq_some_iff.1 hlast
        exact ⟨b, List.mem_of_getLast? hb, rfl⟩
      obtain ⟨q, hq, hqn, hqsize⟩ := hrest before hmem.1
      rw [hmem.2] at hq
      have hbound := ih hrest hlast hq hqsize
      cases hgoes : coalesce && goesOn (some last) k.1 with
      | true =>
        have hnext := place_of_goesOn (Bool.and_eq_true_iff.1 hgoes).2 hq hqsize hp hpsize
        simp only [if_true, List.length_nil, Nat.add_zero]
        omega
      | false =>
        simp only [Bool.false_eq_true, if_false, List.length_singleton, Nat.mul_add]
        omega

/-- **At most `n` lines come on one that counts**, if all are at places below `n`. -/
theorem length_le_of_below {coalesce : Bool} {n : Nat} {hooks : List (LastLine × LineEvent)}
    (h : ∀ k ∈ hooks, k.1.Below n) : hooks.length ≤ n * (countedLines coalesce none hooks).length := by
  cases hline : lastLine hooks with
  | none =>
    obtain rfl : hooks = [] := by simpa [lastLine] using hline
    exact Nat.zero_le _
  | some line =>
    obtain ⟨k, hk, rfl⟩ := Option.map_eq_some_iff.1 hline
    obtain ⟨place, hplace, -, hsize⟩ := h k (List.mem_of_getLast? hk)
    exact (Nat.le_add_right _ _).trans (length_add_le_of_lastLine h hline hplace hsize)

/-! ### A thread that is alone -/

theorem Race.Keeps.reconcile {a : Arguments} {hooks : List (LastLine × LineEvent)} {due : List LineEvent}
    {forgotten : Nat} {t : ThreadLines} (h : Race.Keeps a hooks due forgotten t) (others : Nat) :
    Race.Keeps a hooks due forgotten (Recording.reconcile a others t) := by
  unfold Recording.reconcile
  split
  · exact ⟨h.last, h.counted⟩
  · exact h

namespace Recording

/-- **The line trace has counted the lines of the main thread**, which is alone, and not more of them than its limit
allows. -/
structure Counts (a : Arguments) (hooks : List (LastLine × LineEvent)) (r : Recording) : Prop where
  single : r.Single
  arguments : r.arguments = a
  seen : (r.lines 0).othersSeen = 0
  keeps : Race.Keeps a hooks [] 0 (r.lines 0)
  room : ∀ limit, a.runLineLimit = some limit → (r.lines 0).linesRun ≤ limit

variable {a : Arguments} {hooks : List (LastLine × LineEvent)} {r : Recording}

theorem counts_start (a : Arguments) (subscribers : List Subscriber) :
    Counts a [] (Recording.mk a [] subscribers) := by
  have hlines : (Recording.mk a [] subscribers).lines 0 = .start 0 := lines_of_notMem (by simp [ids])
  refine ⟨single_start a subscribers, rfl, ?_, ?_, fun limit _ => ?_⟩
  · rw [hlines]
    rfl
  · rw [hlines]
    exact .start 0
  · rw [hlines]
    exact Nat.zero_le limit

namespace Counts

theorem linesRun (h : r.Counts a hooks) : (r.lines 0).linesRun = (countedLines a.coalesce none hooks).length := by
  obtain ⟨done, hdone, hlines, -⟩ := h.keeps.counted
  rw [List.append_nil] at hdone
  rw [hdone, ← hlines, Nat.zero_add]

/-- **A line is counted or coalesced**, unless it is the one behind the limit. -/
theorem onLine (h : r.Counts a hooks) {k : LastLine × LineEvent} (hk : k.2.thread = 0) :
    (r.onLine k.1 k.2).2.Counts a (hooks ++ [k]) ∨
      ∃ limit, a.runLineLimit = some limit ∧ (r.onLine k.1 k.2).1 = .beyond limit := by
  obtain ⟨hsingle, -⟩ := h.single.onLine k.1 hk
  have harguments :=
        (LineTrace.Recording.arguments_onLine r k.1 k.2).trans h.arguments
  have hothers : r.others 0 = 0 := by rw [others, h.single.countedByOthers_eq_zero, ite_self]
  have hlines := r.lines_onLine k.1 k.2
  have hfst : (r.onLine k.1 k.2).1 = _ := congrArg Prod.fst (r.onLine_eq k.1 k.2)
  rw [hk, h.arguments, hothers] at hlines hfst
  rcases reach_cases a 0 (r.lines 0) k.1 k.2 with
    ⟨hs, heq⟩ | ⟨hs, u, hu, ⟨limit, hl, -, heq⟩ | ⟨hroom, heq⟩⟩
  · rw [heq] at hlines
    refine .inl ⟨hsingle, harguments, ?_, ?_, fun limit hl => ?_⟩
    · rw [hlines]
      exact h.seen
    · rw [hlines]
      exact h.keeps.coalesced hs
    · rw [hlines]
      exact h.room limit hl
  · exact .inr ⟨limit, hl, by rw [hfst, heq]⟩
  · rw [heq] at hlines
    have hkeeps := (h.keeps.reached hs).reconcile 0
    have hseen : u.othersSeen = 0 := by
      rw [hu, reconcile]
      split
      · rfl
      · exact h.seen
    rw [← hu] at hkeeps
    refine .inl ⟨hsingle, harguments, ?_, ?_, fun limit hl => ?_⟩
    · rw [hlines]
      exact hseen
    · rw [hlines]
      exact hkeeps.counts
    · have hlt := hroom limit hl
      rw [hlines]
      show u.linesRun + 1 ≤ limit
      omega

end Counts

end Recording

end LineTrace

/-! ### All tracers -/

def HookAct.lines (hooks : List HookAct) : List (LastLine × LineEvent) := hooks.filterMap HookAct.line?

namespace Recordings

/-- The line trace of a task has counted the lines of the main thread, which is alone. -/
def Counts (a : Arguments) (hooks : List HookAct) (rs : Recordings) : Prop :=
  ∃ (c : Around) (r : LineTrace.Recording), rs = c.fill r ∧ r.Counts a (HookAct.lines hooks)

namespace Counts

variable {a : Arguments} {hooks : List HookAct} {rs : Recordings} {e : HookAct}

/-- **A call leaves the lines counted**, or it is that of the line behind the limit. -/
theorem behind (h : rs.Counts a hooks) (he : e.thread = 0) :
    (rs.behind e).Counts a (hooks ++ [e]) ∨ ∃ limit, a.runLineLimit = some limit ∧
      (rs.onHook e.tracer e.call 0).1 = some (LineTrace.Recording.limitSignal a limit) := by
  obtain ⟨c, r, rfl, hr⟩ := h
  have hlines : HookAct.lines (hooks ++ [e]) = HookAct.lines hooks ++ e.line?.toList := by
    rw [HookAct.lines, List.filterMap_append]
    cases hline : e.line? <;> simp [HookAct.lines, hline]
  unfold Counts Recordings.behind
  rw [hlines, he]
  by_cases hid : e.tracer = LineTrace.id
  · have hline : e.line? = LineTrace.Recording.line? e.call 0 := by rw [HookAct.line?, if_pos hid, he]
    rw [hid, c.onHook_line, hline]
    cases hk : LineTrace.Recording.line? e.call 0 with
    | none => exact .inl ⟨c, r, rfl, by simpa using hr⟩
    | some k =>
      have hon := hr.onLine (@thread_line? e.call 0 k.1 k.2 hk)
      have harguments : (r.onLine k.1 k.2).2.arguments = a :=
        (LineTrace.Recording.arguments_onLine r k.1 k.2).trans hr.arguments
      dsimp only
      generalize r.onLine k.1 k.2 = q at hon harguments
      obtain ⟨reached, r'⟩ := q
      cases reached with
      | coalesced =>
        refine .inl ⟨c, r', rfl, hon.resolve_right ?_⟩
        rintro ⟨limit, -, hno⟩
        cases hno
      | counted =>
        refine .inl ⟨_, r', rfl, hon.resolve_right ?_⟩
        rintro ⟨limit, -, hno⟩
        cases hno
      | beyond limit =>
        refine hon.imp (fun hon => ⟨c, r', rfl, hon⟩) ?_
        rintro ⟨limit', hlimit, heq⟩
        obtain rfl := LineTrace.Recording.Reached.beyond.inj heq
        exact ⟨limit, hlimit, by rw [← harguments]⟩
  · have hline : e.line? = Option.none := by rw [HookAct.line?, if_neg hid]
    obtain ⟨signal, c', hcall⟩ := c.onHook_of_ne hid e.call 0
    rw [hcall, hline]
    exact .inl ⟨c', r, rfl, by simpa using hr⟩

theorem linesRun_traced (h : rs.Counts a hooks) :
    rs.traced.linesRun = (countedLines a.coalesce Option.none (HookAct.lines hooks)).length := by
  obtain ⟨c, r, rfl, hr⟩ := h
  rw [traced_fill, hr.single.report_eq, ← hr.linesRun]

theorem counted_le (h : rs.Counts a hooks) {limit : Nat} (hl : a.runLineLimit = some limit) :
    (countedLines a.coalesce Option.none (HookAct.lines hooks)).length ≤ limit := by
  obtain ⟨c, r, rfl, hr⟩ := h
  exact hr.linesRun ▸ hr.room limit hl

end Counts

end Recordings

end Confine
