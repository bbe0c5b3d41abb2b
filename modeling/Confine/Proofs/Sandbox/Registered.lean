import Confine.Proofs.Machine.Depths
import Confine.Proofs.Sandbox.Audited
import Confine.Proofs.Sandbox.Endings

/-!
# How extra threads are registered

A task hands out an index to each thread that one of its threads starts. From then on the thread waits to begin, has
begun, or counts as finished: it is one of these, once, and so the task knows how many are live.

* `Turn.Spawns`, `Turn.Joins` — what becomes of a thread that starts another one, or waits for its end;
* `Task.Schedules.tracked` — the invariant of the indexes, under any scheduler;
* `Sandbox.registers_of_prepare` — **the protocol**, for every program and every schedule.
-/

namespace Confine

/-! ### Acts -/

namespace Act

def thread? : Act → Option Nat
  | turn thread _ _ _ _ _ => some thread
  | call _ _ _ _ => none

def spawn? (t : Task) : Act → Option ThreadStart
  | turn _ _ s a _ _ => a.spawn? t s
  | call _ _ _ _ => none

/-- The extra thread that executes its last instruction in this act. -/
def ended? : Act → Option Nat
  | turn thread _ _ _ _ (.ended _ _) => if thread = 0 then none else some thread
  | _ => none

/-- The indexes that some acts have handed out, in order. -/
def handedOut (t : Task) (acts : List Act) : List Nat :=
  (acts.filterMap (spawn? t)).map (·.index)

theorem handedOut_append (t : Task) (acts more : List Act) :
    handedOut t (acts ++ more) = handedOut t acts ++ handedOut t more := by
  simp only [handedOut, List.filterMap_append, List.map_append]

theorem handedOut_concat (t : Task) (acts : List Act) (x : Act) :
    handedOut t (acts ++ [x]) = handedOut t acts ++ (x.spawn? t).toList.map (·.index) := by
  rw [handedOut_append]
  cases hx : x.spawn? t <;> simp [handedOut, hx]

theorem mem_ended_concat {acts : List Act} {x : Act} {i : Nat} :
    i ∈ (acts ++ [x]).filterMap ended? ↔ i ∈ acts.filterMap ended? ∨ x.ended? = some i := by
  rw [List.filterMap_append, List.mem_append]
  cases hx : x.ended? <;> simp [hx, eq_comm]

theorem ended?_eq_some_iff {x : Act} {i : Nat} : x.ended? = some i ↔
    i ≠ 0 ∧ ∃ now s a asked s' r, x = .turn i now s a asked (.ended s' r) := by
  constructor
  · intro h
    unfold ended? at h
    split at h
    · next thread now s a asked s' r =>
      split at h <;> cases h
      exact ⟨‹_›, now, s, a, asked, s', r, rfl⟩
    · cases h
  · rintro ⟨hi, now, s, a, asked, s', r, rfl⟩
    exact if_neg hi

end Act

theorem Activity.spawn?_eq_some {t : Task} {s : TaskState} {a : Activity} {b : ThreadStart}
    (h : a.spawn? t s = some b) : b.index = s.nextThread ∧ s.liveThreads < t.maxExtraThreads := by
  obtain ⟨x, -, hx⟩ := Option.bind_eq_some_iff.1 h
  unfold Instruction.spawn? at hx
  split at hx
  · split at hx <;> cases hx
    next hroom => exact ⟨rfl, hroom.2⟩
  · cases hx

/-! ### Turns that start a thread, or wait for one -/

namespace TaskState

/-- The extra threads that have been registered and do not count as finished. -/
def live (s : TaskState) : List Nat := (List.range' 1 (s.nextThread - 1)).filter (· ∉ s.finished)

/-- A thread more is registered, and the decision is logged. -/
def registered (s : TaskState) (t : Task) (className methodName : String) : TaskState :=
  { s.record t .createThread true with
    nextThread := s.nextThread + 1
    starting := ⟨s.nextThread, className, methodName⟩ :: s.starting }

end TaskState

section

variable (t : Task) (now : Nat) (s : TaskState) (f : Frame) (outer : List Frame)

/-- **What becomes of a thread that starts another one.** -/
inductive Turn.Spawns (className methodName : String) : Turn → Prop where
  /-- the next index is handed out, and goes onto the stack -/
  | granted (hroom : s.live.length < t.maxExtraThreads)
      (hstack : f.stack.size < OperandStack.maxDepth) :
      Spawns className methodName (.moved (s.registered t className methodName)
        (.running ({ f with
          next := f.next + 1
          stack := f.stack.add (.int (Int64.ofNat s.nextThread)) } :: outer)))
  /-- the next index is handed out, and there is no place for it on the stack -/
  | exhausted (hroom : s.live.length < t.maxExtraThreads)
      (hstack : OperandStack.maxDepth ≤ f.stack.size) :
      Spawns className methodName (.ofProgress now
        (Activation.unwind t (s.registered t className methodName)
          ({ f with next := f.next + 1 } :: outer) (.fresh (.outOfMemory "operand stack exhausted"))))
  /-- there are as many live threads as there may be: that is logged, and ends the thread -/
  | denied (hfull : s.live.length = t.maxExtraThreads) :
      Spawns className methodName
        (.ended (s.record t .createThread false) (.error (.security .createThread)))

/-- **What becomes of a thread that waits for the end of the thread `n`**, after these indexes have been handed out. Its
stack below `n` is `stack`. -/
inductive Turn.Joins (handedOut : List Nat) (n : Int64) (stack : OperandStack) : Turn → Prop where
  | waits {i : Nat} (hn : n.toInt = i) (hi : 0 < i) (hout : i ∈ handedOut) :
      Joins handedOut n stack
        (.moved s (.joining ({ f with next := f.next + 1, stack := stack } :: outer) i))
  | negative (hn : n.toInt < 0) :
      Joins handedOut n stack (.ofProgress now
        (Activation.unwind t s ({ f with next := f.next + 1 } :: outer)
          (.fresh (.of "IllegalArgumentException" "negative thread index"))))
  | unknown {i : Nat} (hn : n.toInt = i) (hi : i = 0 ∨ i ∉ handedOut) :
      Joins handedOut n stack (.ofProgress now
        (Activation.unwind t s ({ f with next := f.next + 1 } :: outer)
          (.fresh (.of "IllegalArgumentException" ("no joinable thread " ++ toString i)))))

end

section

variable {t : Task} {thread now : Nat} {s : TaskState} {f : Frame} {outer : List Frame} {u : Turn}

/-- The turn of a thread that is about to start another one. -/
theorem Turn.spawns_of_mayCome {className methodName : String}
    (hlive : s.liveThreads = s.live.length) (hbounded : s.live.length ≤ t.maxExtraThreads)
    (hc : s.cancelled = false)
    (hi : f.method.code[f.next]? = some (.host (.spawn className methodName)))
    (hu : ((Activity.running (f :: outer)).turn t thread now s).MayCome u) :
    Turn.Spawns t now s f outer className methodName u := by
  rw [Activity.turn_running hc, Step.frame, hi] at hu
  obtain ⟨o, ho, rfl⟩ := Query.mayCome_map_iff.1 hu
  simp only [Step.instruction, Step.host, Step.spawn, TaskState.spawn, hc, Bool.false_eq_true,
    if_false, hlive] at ho
  by_cases hroom : s.live.length < t.maxExtraThreads
  · simp only [hroom, decide_true, if_true, Step.push, OperandStack.push] at ho
    by_cases hstack : OperandStack.maxDepth ≤ f.stack.size
    · rw [if_pos hstack] at ho
      rw [Query.mayCome_done_iff.1 ho]
      exact .exhausted hroom hstack
    · rw [if_neg hstack] at ho
      rw [Query.mayCome_done_iff.1 ho]
      exact .granted hroom (by omega)
  · simp only [hroom, decide_false] at ho
    rw [Query.mayCome_done_iff.1 ho]
    exact .denied (by omega)

/-- The turn of a thread that is about to wait for another one. -/
theorem Turn.joins_of_mayCome {handedOut : List Nat} {n : Int64} {stack : OperandStack}
    (hout : ∀ i, i ∈ handedOut ↔ 0 < i ∧ i < s.nextThread) (hc : s.cancelled = false)
    (hi : f.method.code[f.next]? = some (.host .join)) (hn : f.stack = stack.add (.int n))
    (hu : ((Activity.running (f :: outer)).turn t thread now s).MayCome u) :
    Turn.Joins t now s f outer handedOut n stack u := by
  rw [Activity.turn_running hc, Step.frame, hi] at hu
  obtain ⟨o, ho, rfl⟩ := Query.mayCome_map_iff.1 hu
  simp only [Step.instruction, Step.host, Step.join,
    OperandStack.popInt_eq_ok_iff.2 hn, Step.attempt] at ho
  cases hint : n.toInt with
  | negSucc k =>
    rw [hint] at ho
    rw [Query.mayCome_done_iff.1 ho]
    exact .negative (by omega)
  | ofNat i =>
    rw [hint] at ho
    dsimp only at ho
    by_cases hj : s.joinable i = true
    · rw [if_pos hj] at ho
      rw [Query.mayCome_done_iff.1 ho]
      have hindex : 0 < i ∧ i < s.nextThread := by
        simpa [TaskState.joinable, Nat.pos_iff_ne_zero] using hj
      exact .waits hint hindex.1 ((hout i).2 hindex)
    · rw [if_neg hj] at ho
      rw [Query.mayCome_done_iff.1 ho]
      refine .unknown hint ?_
      rw [hout]
      simp only [TaskState.joinable, Bool.and_eq_true, bne_iff_ne, decide_eq_true_eq] at hj
      omega

/-- A thread goes on behind a thread that it has waited for only if that counts as finished. -/
theorem Activity.finished_of_joining {frames : List Frame} {index : Nat} {s' : TaskState}
    {a' : Activity} (hu : ((joining frames index).turn t thread now s).MayCome (.moved s' a')) :
    index ∈ s.finished ∧ s' = s ∧ a' = .running frames := by
  simp only [turn] at hu
  split at hu
  · next hfinished =>
    cases Query.mayCome_done_iff.1 hu
    exact ⟨List.contains_iff_mem.1 hfinished, rfl, rfl⟩
  · split at hu <;> cases Query.mayCome_done_iff.1 hu

end

/-! ### The invariant -/

/-- **What a task knows of its threads.** Every index that has been handed out belongs to a thread that waits to begin,
has begun or counts as finished, to one of them and once. -/
structure Scene.Tracked (t : Task) (acts : List Act) (c : Scene) : Prop where
  positive : 0 < c.shared.nextThread
  indexes : (c.extras.map Prod.fst ++ c.shared.starting.map (·.index) ++ c.shared.finished).Perm
    (List.range' 1 (c.shared.nextThread - 1))
  handedOut : Act.handedOut t acts = List.range' 1 (c.shared.nextThread - 1)
  bounded : c.shared.liveThreads ≤ t.maxExtraThreads
  /-- the threads that have executed their last instruction -/
  ended : ∀ i, i ∈ acts.filterMap Act.ended? ↔
    (∃ r, (i, .ended r) ∈ c.extras) ∨ i ∈ c.shared.finished

theorem Scene.active_of_mem_threads (c : Scene) {i : Nat} {a : Activity} (hi : i ≠ 0)
    (ha : (i, a) ∈ c.crowd.threads) : (i, .active a) ∈ c.extras := by
  rcases List.mem_append.1 ha with hmain | hextra
  · cases hm : c.main with
    | calling main =>
      rw [hm] at hmain
      exact absurd (Prod.mk.inj (List.mem_singleton.1 hmain)).1 hi
    | _ => rw [hm] at hmain; cases hmain
  · obtain ⟨⟨j, x⟩, hx, hactivity⟩ := List.mem_filterMap.1 hextra
    cases x with
    | ended r => cases hactivity
    | active b => cases hactivity; exact hx

namespace Scene.Tracked

variable {t : Task} {acts : List Act} {s s' : TaskState} {main main' : MainStand}
  {extras extras' : List (Nat × ExtraStand)} {verdict verdict' : Option (Option WorkEnd)} {c : Scene}

theorem of_same (h : Tracked t acts ⟨s, main, extras, verdict⟩) (hnext : s'.nextThread = s.nextThread)
    (hfinished : s'.finished = s.finished) (hstarting : s'.starting = s.starting) :
    Tracked t acts ⟨s', main', extras, verdict'⟩ := by
  obtain ⟨hpositive, hindexes, hout, hbounded, hended⟩ := h
  refine ⟨?_, ?_, ?_, ?_, fun i => ?_⟩
  · rwa [hnext]
  · rwa [hnext, hstarting, hfinished]
  · rwa [hnext]
  · rwa [TaskState.liveThreads, hnext, hfinished]
  · rw [hfinished]
    exact hended i

/-- Acts that are no turns. -/
theorem append (h : Tracked t acts c) {more : List Act} (hmore : ∀ x ∈ more, x.thread? = none) :
    Tracked t (acts ++ more) c := by
  have hcall : ∀ x ∈ more, x.spawn? t = none ∧ x.ended? = none := by
    intro x hx
    cases x with
    | turn => cases hmore _ hx
    | call => exact ⟨rfl, rfl⟩
  have hspawn : Act.handedOut t more = [] :=
    List.map_eq_nil_iff.2 (List.filterMap_eq_nil_iff.2 fun x hx => (hcall x hx).1)
  have hended : more.filterMap Act.ended? = [] :=
    List.filterMap_eq_nil_iff.2 fun x hx => (hcall x hx).2
  refine ⟨h.positive, h.indexes, ?_, h.bounded, fun i => ?_⟩
  · rw [Act.handedOut_append, hspawn, List.append_nil, h.handedOut]
  · rw [List.filterMap_append, hended, List.append_nil]
    exact h.ended i

/-- The index that a turn hands out comes behind those that have been. -/
theorem range'_of_turns {kill? : Option String} {spawn? : Option ThreadStart}
    (hs : s.Turns kill? spawn? s') (hpositive : 0 < s.nextThread)
    (hspawn : ∀ b, spawn? = some b → b.index = s.nextThread) :
    List.range' 1 (s'.nextThread - 1) =
      List.range' 1 (s.nextThread - 1) ++ spawn?.toList.map (·.index) := by
  rw [hs.nextThread]
  cases hb : spawn? with
  | none => simp
  | some b =>
    have hconcat : List.range' 1 (s.nextThread - 1 + 1) =
        List.range' 1 (s.nextThread - 1) ++ [1 + (s.nextThread - 1)] := List.range'_1_concat
    rw [Nat.add_comm 1, Nat.sub_add_cancel hpositive] at hconcat
    simpa [hspawn b hb] using hconcat

/-- A turn. It may register a thread, and it may be the last one of its thread. -/
theorem of_turn (h : Tracked t acts ⟨s, main, extras, verdict⟩) {x : Act} {kill? : Option String}
    (hs : s.Turns kill? (x.spawn? t) s')
    (hspawn : ∀ b, x.spawn? t = some b →
      b.index = s.nextThread ∧ s.liveThreads < t.maxExtraThreads)
    (hextras : extras'.map Prod.fst = extras.map Prod.fst)
    (hended : ∀ i, (∃ r, (i, .ended r) ∈ extras') ↔
      (∃ r, (i, .ended r) ∈ extras) ∨ x.ended? = some i) :
    Tracked t (acts ++ [x]) ⟨s', main', extras', verdict⟩ := by
  have hrange := range'_of_turns hs h.positive fun b hb => (hspawn b hb).1
  obtain ⟨hpositive, hindexes, hout, hbounded, hold⟩ := h
  refine ⟨?_, ?_, ?_, ?_, fun i => ?_⟩
  · rw [hs.nextThread]
    exact Nat.lt_add_right _ hpositive
  · rw [hextras, hs.starting, hs.finished, hrange, List.map_append]
    -- the new index moves from the middle to the end
    generalize (x.spawn? t).toList.map (·.index) = new
    calc (extras.map Prod.fst ++ (new ++ s.starting.map (·.index)) ++ s.finished).Perm
          (new ++ (extras.map Prod.fst ++ s.starting.map (·.index)) ++ s.finished) :=
          (List.perm_append_comm_assoc _ _ _).append_right _
      _ = new ++ (extras.map Prod.fst ++ s.starting.map (·.index) ++ s.finished) :=
          List.append_assoc _ _ _
      List.Perm _ (extras.map Prod.fst ++ s.starting.map (·.index) ++ s.finished ++ new) :=
          List.perm_append_comm
      List.Perm _ (List.range' 1 (s.nextThread - 1) ++ new) := hindexes.append_right _
  · rw [Act.handedOut_concat, hout, hrange]
  · cases hx : x.spawn? t with
    | none => rwa [TaskState.liveThreads, hs.nextThread, hs.finished, hx]
    | some b =>
      have hroom := (hspawn b hx).2
      rw [TaskState.liveThreads] at hroom ⊢
      rw [hs.nextThread, hs.finished, hx, Option.toList_some, List.length_singleton]
      omega
  · rw [Act.mem_ended_concat, hold, hended, hs.finished, or_right_comm]

theorem mainTurn {main : MainThread} {now : Nat} {asked : List Exchange} {u : Turn}
    (h : Tracked t acts ⟨s, .calling main, extras, verdict⟩)
    (hu : (main.activity.turn t 0 now s).Comes asked u) :
    Tracked t (acts ++ [.turn 0 now s main.activity asked u])
      ⟨u.shared, main.behind u, extras, verdict⟩ := by
  have hturn := (main.activity.turn_course t 0 now s).of_mayCome hu.mayCome
  refine h.of_turn hturn.course (fun b => Activity.spawn?_eq_some) rfl fun i => ?_
  have hmain : (Act.turn 0 now s main.activity asked u).ended? ≠ some i := by
    intro hended
    obtain ⟨hi, now, s, a, asked, s', r, hx⟩ := Act.ended?_eq_some_iff.1 hended
    cases hx
    exact hi rfl
  exact (or_iff_left hmain).symm

theorem extraTurn {front back : List (Nat × ExtraStand)} {index now : Nat} {a : Activity}
    {asked : List Exchange} {u : Turn}
    (h : Tracked t acts ⟨s, main, front ++ (index, .active a) :: back, verdict⟩)
    (hu : (a.turn t index now s).Comes asked u) :
    Tracked t (acts ++ [.turn index now s a asked u])
      ⟨u.shared, main, front ++ (index, .behind u) :: back, verdict⟩ := by
  have hturn := (a.turn_course t index now s).of_mayCome hu.mayCome
  have hindex : index ≠ 0 := by
    have hmem : index ∈ List.range' 1 (s.nextThread - 1) := h.indexes.mem_iff.1 (by simp)
    rw [List.mem_range'_1] at hmem
    omega
  refine h.of_turn hturn.course (fun b => Activity.spawn?_eq_some) (by simp) fun i => ?_
  cases u with
  | moved s' a' => simp [Act.ended?, ExtraStand.behind]
  | blocked s' a' wake => simp [Act.ended?, ExtraStand.behind]
  | ended s' r =>
    simp only [Act.ended?, hindex, if_false, ExtraStand.behind, List.mem_append, List.mem_cons,
      Prod.mk.injEq, reduceCtorEq, and_false, false_or, exists_or, ExtraStand.ended.injEq,
      exists_and_left, exists_eq, and_true, Option.some.injEq]
    tauto

theorem begun (h : Tracked t acts ⟨s, main, extras, verdict⟩) :
    Tracked t acts ⟨s.takeStarting.2, main,
      extras ++ ExtraStand.ofThreads s.takeStarting.1, verdict⟩ := by
  obtain ⟨hpositive, hindexes, hout, hbounded, hended⟩ := h
  have hindex : (ExtraStand.ofThreads s.takeStarting.1).map Prod.fst =
      (s.starting.map (·.index)).reverse := by
    simp [s.takeStarting_eq, ExtraStand.ofThreads, Function.comp_def]
  have hnone : s.takeStarting.2 = { s with starting := [] } := by rw [s.takeStarting_eq]
  rw [hnone]
  refine ⟨hpositive, .trans ?_ hindexes, hout, hbounded, fun i => ?_⟩
  · rw [List.map_append, hindex, List.map_nil, List.append_nil]
    exact ((List.reverse_perm _).append_left _).append_right _
  · rw [hended]
    simp [ExtraStand.ofThreads]

/-- A thread that has ended is counted as finished. -/
theorem finished {front back : List (Nat × ExtraStand)} {index : Nat} {r : Except Fault Value}
    (h : Tracked t acts ⟨s, main, front ++ (index, .ended r) :: back, verdict⟩) (sink : OutputSink) :
    Tracked t acts ⟨{ s with sink := sink }.finish index, main, front ++ back, verdict⟩ := by
  obtain ⟨hpositive, hindexes, hout, hbounded, hended⟩ := h
  refine ⟨hpositive, .trans ?_ hindexes, hout, ?_, fun i => ?_⟩
  · -- the index moves from the threads to the finished ones
    simp only [TaskState.finish, List.map_append, List.map_cons, List.append_assoc, List.cons_append]
    refine .trans ?_ List.perm_middle.symm
    simp only [← List.append_assoc]
    exact List.perm_middle
  · -- a finished thread is no live one
    simp only [TaskState.liveThreads, TaskState.finish, List.length_cons] at hbounded ⊢
    omega
  · -- a thread that has ended is finished now, or ended still
    rw [hended]
    simp only [TaskState.finish, List.mem_append, List.mem_cons, Prod.mk.injEq]
    constructor
    · rintro (⟨r', hf | ⟨rfl, -⟩ | hb⟩ | hi)
      · exact .inl ⟨r', .inl hf⟩
      · exact .inr (.inl rfl)
      · exact .inl ⟨r', .inr hb⟩
      · exact .inr (.inr hi)
    · rintro (⟨r', hf | hb⟩ | rfl | hi)
      · exact .inl ⟨r', .inl hf⟩
      · exact .inl ⟨r', .inr (.inr hb)⟩
      · exact .inl ⟨r, .inr (.inl ⟨rfl, rfl⟩)⟩
      · exact .inr hi

/-! #### What follows from it -/

theorem live_perm (h : Tracked t acts c) :
    c.shared.live.Perm (c.extras.map Prod.fst ++ c.shared.starting.map (·.index)) := by
  have hnodup := h.indexes.nodup_iff.2 List.nodup_range'
  have hdisjoint := List.disjoint_of_nodup_append hnodup
  refine (h.indexes.symm.filter _).trans (.of_eq ?_)
  have hlive : ∀ i ∈ c.extras.map Prod.fst ++ c.shared.starting.map (·.index),
      i ∉ c.shared.finished := fun i hi hf => hdisjoint hi hf
  rw [List.filter_append, List.filter_eq_self.2 (by simpa using hlive),
    List.filter_eq_nil_iff.2 (by simp), List.append_nil]

theorem liveThreads_eq (h : Tracked t acts c) : c.shared.liveThreads = c.shared.live.length := by
  have hlength := h.indexes.length_eq
  rw [List.length_append, ← h.live_perm.length_eq, List.length_range'] at hlength
  rw [TaskState.liveThreads]
  omega

theorem mem_handedOut_iff (h : Tracked t acts c) {i : Nat} :
    i ∈ Act.handedOut t acts ↔ 0 < i ∧ i < c.shared.nextThread := by
  have hpositive := h.positive
  rw [h.handedOut, List.mem_range'_1]
  omega

theorem not_ended (h : Tracked t acts c) {i : Nat} {a : Activity} (hi : i ≠ 0)
    (ha : (i, a) ∈ c.crowd.threads) : i ∉ acts.filterMap Act.ended? := by
  have hnodup := h.indexes.nodup_iff.2 List.nodup_range'
  have hactive := c.active_of_mem_threads hi ha
  rw [h.ended]
  rintro (⟨r, hended⟩ | hfinished)
  · have hextras := hnodup.of_append_left.of_append_left
    cases List.inj_on_of_nodup_map hextras hactive hended rfl
  · exact List.disjoint_of_nodup_append hnodup
      (List.mem_append_left _ (List.mem_map_of_mem hactive)) hfinished

theorem freed (h : Tracked t acts c) {i : Nat} {r : Except Fault Value} (hi : (i, .ended r) ∈ c.extras)
    (now : Time.Timestamp) :
    i ∈ c.shared.live ∧ (c.shared.buried i r now).live = c.shared.live.erase i := by
  have hnodup : c.shared.live.Nodup := List.Nodup.filter _ List.nodup_range'
  refine ⟨h.live_perm.mem_iff.2 (List.mem_append_left _ (List.mem_map_of_mem hi)), ?_⟩
  obtain ⟨sink, hburied⟩ := c.shared.buried_eq i r now
  rw [hburied, hnodup.erase_eq_filter, TaskState.live, TaskState.live, List.filter_filter]
  refine List.filter_congr fun j _ => ?_
  simp [TaskState.finish, bne, beq_eq_decide]

end Scene.Tracked

/-! ### Schedules -/

namespace Task.Schedules

variable {t : Task} {s₀ : TaskState} {work : List WorkStep} {acts before after : List Act} {c : Scene}

/-- **The invariant holds under every scheduler.** -/
theorem tracked (hnext : s₀.nextThread = 1) (hfinished : s₀.finished = [])
    (hstarting : s₀.starting = []) (h : t.Schedules s₀ work acts c) : c.Tracked t acts := by
  induction h with
  | start =>
    refine ⟨by simp [hnext], by simp [hnext, hfinished, hstarting], by simp [Act.handedOut, hnext], ?_,
      by simp [hfinished]⟩
    simp [TaskState.liveThreads, hnext]
  | @step acts s w step rest extras verdict _ ih =>
    have hsame := step.sameCourse_perform t s w
    refine (ih.append fun x hx => ?_).of_same hsame.nextThread hsame.finished hsame.starting
    cases step with
    | invoke => rw [List.mem_singleton.1 hx]; rfl
    | _ => cases hx
  | exhausted _ ih => exact ih.of_same rfl rfl rfl
  | mainTurn _ hu ih => exact ih.mainTurn hu
  | extraTurn _ hu ih => exact ih.extraTurn hu
  | begun _ ih => exact ih.begun
  | @finished acts s main front back index result verdict now _ ih =>
    obtain ⟨sink, hburied⟩ := s.buried_eq index result now
    rw [hburied]
    exact ih.finished sink
  | heard _ ih => exact ih.of_same rfl rfl rfl
  | late _ ih => exact ih.of_same rfl rfl rfl
  | cancelled _ ih => exact ih.of_same rfl rfl rfl

/-- **Behind its last instruction an extra thread has no turn.** -/
theorem thread?_ne_of_ended (hnext : s₀.nextThread = 1) (hfinished : s₀.finished = [])
    (hstarting : s₀.starting = []) {x : Act} {i : Nat}
    (h : t.Schedules s₀ work (before ++ x :: after) c) (hx : x.ended? = some i) :
    ∀ y ∈ after, y.thread? ≠ some i := by
  intro y hy hthread
  obtain ⟨mid, tail, rfl⟩ := List.append_of_mem hy
  cases y with
  | call => cases hthread
  | turn thread now s a asked u =>
    obtain rfl := Option.some.inj hthread
    rw [← List.cons_append, ← List.append_assoc] at h
    obtain ⟨c', hbefore, -, hturn, -⟩ := h.at_turn
    have htracked := hbefore.tracked hnext hfinished hstarting
    refine htracked.not_ended (Act.ended?_eq_some_iff.1 hx).1 hturn ?_
    exact List.mem_filterMap.2 ⟨x, by simp, hx⟩

end Task.Schedules

/-! ### Decisions -/

section

variable {t : Task} {g : GrantSet} {s : TaskState}

/-- Only the instruction that starts a thread needs that permission. -/
theorem Instruction.exists_spawn_of_decision? {stack : OperandStack} {i : Instruction}
    {granted : Bool} (h : i.decision? t g s stack = some ⟨.createThread, granted⟩) :
    ∃ className methodName, i = .host (.spawn className methodName) := by
  rcases decision?_cases h with ⟨-, hp⟩ | ⟨name, hp, -⟩ | ⟨path, hp⟩ | ⟨c, m, hi, -⟩
  · exact absurd rfl hp
  · cases hp
  · cases hp
  · exact ⟨c, m, hi⟩

/-- A thread is registered where the log says that it may be. -/
theorem Instruction.isSome_spawn?_iff {stack : OperandStack} {i : Instruction} :
    (i.spawn? t s).isSome = true ↔ i.decision? t g s stack = some ⟨.createThread, true⟩ := by
  by_cases hspawn : ∃ c m, i = .host (.spawn c m)
  · obtain ⟨c, m, rfl⟩ := hspawn
    cases hc : s.cancelled <;> simp [spawn?, decision?, hc]
  · refine iff_of_false (fun h => hspawn ?_) fun h => hspawn (exists_spawn_of_decision? h)
    unfold spawn? at h
    split at h
    · exact ⟨_, _, rfl⟩
    · cases h

theorem Activity.isSome_spawn?_iff {a : Activity} :
    (a.spawn? t s).isSome = true ↔ a.decision? t g s = some ⟨.createThread, true⟩ := by
  cases a with
  | starting c m =>
    refine iff_of_false Bool.false_ne_true fun h => ?_
    cases (Step.refusal?_eq_some h).1
  | running frames =>
    cases frames with
    | nil => simp [spawn?, decision?, instruction?]
    | cons f outer =>
      simp only [spawn?, decision?, instruction?]
      split
      · simp
      · cases f.method.code[f.next]? with
        | none => simp
        | some i => exact Instruction.isSome_spawn?_iff
  | sleeping frames wake => simp [spawn?, decision?, instruction?]
  | joining frames index => simp [spawn?, decision?, instruction?]

theorem Act.isSome_spawn?_iff {x : Act} :
    (x.spawn? t).isSome = true ↔ x.decision? t g = some ⟨.createThread, true⟩ := by
  cases x with
  | turn thread now s a asked u => exact Activity.isSome_spawn?_iff
  | call s c m arguments =>
    refine iff_of_false Bool.false_ne_true fun h => ?_
    cases (Step.refusal?_eq_some h).1

theorem Act.length_handedOut (g : GrantSet) (acts : List Act) : (handedOut t acts).length =
    (acts.filterMap (·.decision? t g)).count ⟨.createThread, true⟩ := by
  rw [handedOut, List.length_map, List.length_filterMap_eq_countP, List.count,
    List.countP_filterMap]
  refine List.countP_congr fun x _ => ?_
  rw [isSome_spawn?_iff (g := g)]
  cases x.decision? t g <;> simp

end

/-! ### The protocol -/

/-- **How the threads of a task are registered**, in a schedule that has come to the scene `c`. -/
structure Scene.Registers (t : Task) (acts : List Act) (c : Scene) : Prop where
  /-- there are never more live threads than there may be -/
  bounded : c.shared.live.length ≤ t.maxExtraThreads
  /-- and that is how many the task counts -/
  counted : c.shared.liveThreads = c.shared.live.length
  /-- indexes are handed out in order, and none is used again -/
  indexes : Act.handedOut t acts = List.range' 1 (c.shared.nextThread - 1)
  /-- for each of them the log has a decision -/
  granted : (c.shared.confinements.decisions t.capability).count ⟨.createThread, true⟩ + 1 =
    c.shared.nextThread
  /-- a thread is registered if there is room for it; else nothing but the log changes -/
  spawn : ∀ {before after thread now s f outer asked u className methodName},
    acts = before ++ .turn thread now s (.running (f :: outer)) asked u :: after →
    s.cancelled = false → f.method.code[f.next]? = some (.host (.spawn className methodName)) →
      s.nextThread = (Act.handedOut t before).length + 1 ∧
        Turn.Spawns t now s f outer className methodName u
  /-- a thread waits for one that has been registered, and for no other one -/
  join : ∀ {before after thread now s f outer asked u n stack},
    acts = before ++ .turn thread now s (.running (f :: outer)) asked u :: after →
    s.cancelled = false → f.method.code[f.next]? = some (.host .join) →
    f.stack = stack.add (.int n) →
      Turn.Joins t now s f outer (Act.handedOut t before) n stack u
  /-- it goes on only after that one has executed its last instruction -/
  joined : ∀ {before after thread now s s' frames i asked a'},
    acts = before ++ .turn thread now s (.joining frames i) asked (.moved s' a') :: after →
      i ∈ before.filterMap Act.ended? ∧ s' = s ∧ a' = .running frames
  /-- behind which there is no turn of it -/
  last : ∀ {before after x i}, acts = before ++ x :: after → x.ended? = some i →
    ∀ y ∈ after, y.thread? ≠ some i
  /-- a thread that has ended is live until it counts as finished; then it is not, and the others are -/
  freed : ∀ {i r}, (i, .ended r) ∈ c.extras → ∀ now,
    i ∈ c.shared.live ∧ (c.shared.buried i r now).live = c.shared.live.erase i
  /-- no thread counts as finished twice -/
  once : c.shared.finished.Nodup

namespace Sandbox

variable {sb : Sandbox} {r : RegistryId} {u : LoadingUnit} {sets : List LoadingUnit.ClassSets}
  {a : ExecutionArguments} {P : Prepared}

/-- **Threads are registered as they should be** in every schedule of a run. -/
theorem Prepares.registers (h : Prepares sb r u sets a P) {work : List WorkStep} {acts : List Act}
    {c : Scene} (hacts : P.task.Schedules P.state work acts c) : c.Registers P.task acts := by
  have hnext : P.state.nextThread = 1 := by rw [h.state]
  have hfinished : P.state.finished = [] := by rw [h.state]
  have hstarting : P.state.starting = [] := by rw [h.state]
  have tracked {acts : List Act} {c : Scene} (hacts : P.task.Schedules P.state work acts c) :
      c.Tracked P.task acts := hacts.tracked hnext hfinished hstarting
  have htracked := tracked hacts
  refine ⟨htracked.liveThreads_eq ▸ htracked.bounded, htracked.liveThreads_eq, htracked.handedOut, ?_,
    ?_, ?_, ?_, ?_, htracked.freed, (htracked.indexes.nodup_iff.2 List.nodup_range').of_append_right⟩
  · have hlog := hacts.interleaves.log h.grants
    have hpositive := htracked.positive
    rw [show c.shared.confinements = _ from hlog, Confinements.decisions_recordAll h.nonce_lt,
      h.decisions_eq_nil, List.nil_append, ← Act.length_handedOut, htracked.handedOut,
      List.length_range']
    omega
  · rintro before after thread now s f outer asked u className methodName rfl hc hi
    obtain ⟨c', hbefore, rfl, -, hu⟩ := hacts.at_turn
    have htracked := tracked hbefore
    have hpositive := htracked.positive
    refine ⟨by rw [htracked.handedOut, List.length_range']; omega, ?_⟩
    exact Turn.spawns_of_mayCome htracked.liveThreads_eq (htracked.liveThreads_eq ▸ htracked.bounded)
      hc hi hu.mayCome
  · rintro before after thread now s f outer asked u n stack rfl hc hi hn
    obtain ⟨c', hbefore, rfl, -, hu⟩ := hacts.at_turn
    exact Turn.joins_of_mayCome (fun i => (tracked hbefore).mem_handedOut_iff) hc hi hn hu.mayCome
  · rintro before after thread now s s' frames i asked a' rfl
    obtain ⟨c', hbefore, rfl, -, hu⟩ := hacts.at_turn
    obtain ⟨hi, hmoved⟩ := Activity.finished_of_joining hu.mayCome
    exact ⟨((tracked hbefore).ended i).2 (.inr hi), hmoved⟩
  · rintro before after x i rfl hx
    exact hacts.thread?_ne_of_ended hnext hfinished hstarting hx

/-- **The threads of a program that has been prepared.** -/
structure Prepared.Registers (a : ExecutionArguments) (P : Prepared) : Prop where
  limit : P.task.maxExtraThreads = a.maxExtraThreads
  /-- however its threads are scheduled, and whatever its work is -/
  scheduled : ∀ {work : List WorkStep} {acts : List Act} {c : Scene},
    P.task.Schedules P.state work acts c → c.Registers P.task acts
  /-- a run on a host is such a schedule -/
  executed : ∀ {σ : Type} (host : Host (StateM σ)) (work : List WorkStep) (limit : Nat) (w : σ),
    ∃ acts c, P.task.Schedules P.state work acts c ∧
      c.shared = (RunState.run host P.task P.state work limit w).1.shared

/-- **Threads are registered, waited for and counted as they should be.** -/
theorem registers_of_prepare (hP : sb.prepare r u sets a = .ok P) : P.Registers a where
  limit := by rw [(prepare_eq_ok_iff.1 hP).task]
  scheduled hacts := (prepare_eq_ok_iff.1 hP).registers hacts
  executed host work limit w := by
    obtain ⟨acts, c, hacts, hshared, -⟩ := (prepare_eq_ok_iff.1 hP).scheduled host work limit w
    exact ⟨acts, c, hacts, hshared⟩

/-! ### A thread that is waited for -/

namespace Joined

def main : Method := ⟨"main", true, [], 0, [.host (.spawn "Main" "work"), .host .join, .ret], []⟩

def work : Method := ⟨"work", true, [], 0, [.ret], []⟩

def unit : LoadingUnit := .ofClass ⟨"Main", none, [main, work]⟩

def arguments : ExecutionArguments := { ExecutionArguments.default with maxExtraThreads := 1 }

end Joined

/-- The thread is registered and ends, and the main thread goes on. -/
theorem registers_of_prepare_joined :
    ∃ P acts c, empty.prepare ⟨0⟩ Joined.unit [] Joined.arguments = .ok P ∧
      P.Registers Joined.arguments ∧ P.task.Schedules P.state EntryPoint.default.work acts c ∧
      c.shared.nextThread = 2 ∧ c.shared.finished = [1] ∧ c.shared.live = [] := by
  obtain ⟨P, hP, hnext, hfinished⟩ : ∃ P, empty.prepare ⟨0⟩ Joined.unit [] Joined.arguments = .ok P ∧
      (RunState.run World.host P.task P.state EntryPoint.default.work 1000000000
        (keyedWorld .empty "1")).1.shared.nextThread = 2 ∧
      (RunState.run World.host P.task P.state EntryPoint.default.work 1000000000
        (keyedWorld .empty "1")).1.shared.finished = [1] :=
    ⟨_, rfl, by decide +kernel, by decide +kernel⟩
  have hregisters := registers_of_prepare hP
  obtain ⟨acts, c, hacts, hc⟩ := hregisters.executed World.host EntryPoint.default.work 1000000000
    (keyedWorld .empty "1")
  rw [← hc] at hnext hfinished
  refine ⟨P, acts, c, hP, hregisters, hacts, hnext, hfinished, ?_⟩
  rw [TaskState.live, hnext, hfinished]
  rfl

end Sandbox

end Confine
