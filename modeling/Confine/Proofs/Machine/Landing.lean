import Confine.Proofs.Machine.Handled
import Confine.Proofs.Program.WellFormed

/-!
# Where control lands, the depth of the stack is checked

Behind a jump that is taken, and behind the entry of a handler, a frame says how deep the stack is, before anything
else is executed.

* `Transfers` — a turn in which control goes elsewhere within a method;
* `Task.Runs` — the frames in front of the instructions that a thread executes, turn by turn;
* `Transfers.frameFollows` — verified code has a frame where control lands;
* `Task.Runs.behind_marks` — what holds when a thread has executed the labels, lines and frames in front of it;
* `Task.Reaches.depthChecked` — **control never lands without a check of the depth, and a check that fails ends the
  thread**.
-/

namespace Confine

/-! ### Transfers of control -/

/-- The instruction jumps to the label with this stack. -/
inductive Instruction.JumpsTo (l : Label) (stack : OperandStack) : Instruction → Prop where
  | jump : JumpsTo l stack (.jump l)
  | jumpIf {rest : OperandStack} (h : stack = rest.add (.bool true)) : JumpsTo l stack (.jumpIf l)
  | jumpIfNot {rest : OperandStack} (h : stack = rest.add (.bool false)) :
      JumpsTo l stack (.jumpIfNot l)

/-- **Control goes elsewhere** in a turn of a thread that runs. -/
inductive Transfers (t : Task) (thread now : Nat) (s : TaskState) : List Frame → Activity → Prop where
  /-- the next instruction jumps -/
  | jumped {f : Frame} {outer : List Frame} {i : Instruction} {l : Label} {s' : TaskState} {a : Activity}
      (hc : s.cancelled = false) (hi : f.method.code[f.next]? = some i) (hl : i.JumpsTo l f.stack)
      (h : ((Activity.running (f :: outer)).turn t thread now s).MayCome (.moved s' a)) :
      Transfers t thread now s (f :: outer) a
  /-- the next instruction raises an exception, and a handler takes it -/
  | caught {f : Frame} {outer : List Frame} {o : Outcome} {s' s'' : TaskState} {r : Raised}
      {a : Activity} (hc : s.cancelled = false) (ho : (Step.frame t thread s f).MayCome o)
      (hr : o.raised? (f :: outer).length = some (s', r))
      (h : Turn.ofProgress now (Activation.finish t outer o) = .moved s'' a) :
      Transfers t thread now s (f :: outer) a

/-! ### Runs -/

/-- The frame in front of the instruction that the next turn of a thread executes, or behind the last one of its
method. A thread that has been cancelled executes none. -/
def Activity.executed (s : TaskState) : Activity → List Frame
  | running (f :: _) => if s.cancelled then [] else [f]
  | _ => []

/-- **A run of a thread**, for some turns, with the frames in front of the instructions that it executes. The other
threads may change the shared state between the turns. -/
inductive Task.Runs (t : Task) : Activity → List Frame → Prop where
  | rests (a : Activity) : Runs t a []
  | turned {a a' : Activity} {thread now : Nat} {s : TaskState} {u : Turn} {fs : List Frame}
      (h : (a.turn t thread now s).MayCome u) (hu : u.activity? = some a') (ha : Runs t a' fs) :
      Runs t a (a.executed s ++ fs)
  | ended {a : Activity} {thread now : Nat} {s : TaskState} {u : Turn}
      (h : (a.turn t thread now s).MayCome u) (hu : u.activity? = none) : Runs t a (a.executed s)

namespace Frame

def AtMark (f : Frame) : Prop := ∃ i, f.method.code[f.next]? = some i ∧ i.isMark = true

def Declares (f : Frame) (depth : UInt16) : Prop := f.method.code[f.next]? = some (.frame depth)

/-- Control has landed: a frame comes before the next real instruction. -/
def Landed (f : Frame) : Prop := LineTrace.frameFollows (f.method.code.toList.drop f.next) = true

end Frame

/-- **How the depth of the stack is checked** in what a thread has come to. -/
structure Activity.DepthChecked (t : Task) (a : Activity) : Prop where
  /-- a jump that is taken leads to where its label stands -/
  jumps : ∀ {f outer s i l} (thread now : Nat), a = .running (f :: outer) → s.cancelled = false →
    f.method.code[f.next]? = some i → i.JumpsTo l f.stack → ∃ place stack, f.method.Stands l place ∧
      a.turn t thread now s =
        .done (.moved s (.running ({ f with next := place, stack := stack } :: outer)))
  /-- when control has gone elsewhere, a frame is executed before a real instruction of the method is, and before
  the method returns; and the stack is then as deep as each of these frames says -/
  lands : ∀ {frames thread now s a'}, a = .running frames → Transfers t thread now s frames a' →
    ∃ g outer, a' = .running (g :: outer) ∧ ∀ {marks x rest}, t.Runs a' (marks ++ x :: rest) →
      (∀ d ∈ marks, d.AtMark) → ¬ x.AtMark →
        x = { g with next := x.next } ∧ (∃ d ∈ marks, ∃ depth, d.Declares depth) ∧
          ∀ d ∈ marks, ∀ depth, d.Declares depth → x.stack.size = depth.toNat
  /-- a frame that says something else ends the thread, whatever handlers there are: the exception is uncatchable -/
  mismatch : ∀ {f outer s depth} (thread now : Nat), a = .running (f :: outer) → s.cancelled = false →
    f.Declares depth → f.stack.size ≠ depth.toNat →
      a.turn t thread now s = .done (.ended s (.error (.threw ⟨"VerifyError",
        "stack depth " ++ toString f.stack.size ++ " at frame expecting " ++ toString depth.toNat, true⟩)))

/-! ### Landing -/

theorem Instruction.JumpsTo.jumpTarget?_eq {i : Instruction} {l : Label} {stack : OperandStack}
    (h : i.JumpsTo l stack) : i.jumpTarget? = some l := by
  cases h <;> rfl

/-- A jump that is taken goes to the place of its label. -/
theorem Instruction.JumpsTo.instruction_eq {f : Frame} {i : Instruction} {l : Label} {place : Nat}
    (h : i.JumpsTo l f.stack) (hplace : f.method.place? l = some place) (t : Task) (thread : Nat)
    (s : TaskState) :
    ∃ stack, Step.instruction t thread s f i =
      .done (.next s { f with next := place, stack := stack }) := by
  have hjump : ∀ stack, (f.withStack stack).jump l =
      .ok { f with next := place, stack := stack } := fun stack => by
    simp only [Frame.jump, Frame.withStack, hplace]
  cases h with
  | jump =>
    have hjump : f.jump l = .ok { f with next := place } := hjump f.stack
    refine ⟨f.stack, ?_⟩
    simp only [Step.instruction, hjump, Step.attempt, Step.next]
  | @jumpIf rest h | @jumpIfNot rest h =>
    refine ⟨rest, ?_⟩
    simp only [Step.instruction, Step.jumpOn, OperandStack.popBool_eq_ok_iff.2 h, hjump,
      Step.attempt, Step.next, if_true]

theorem Activity.turn_of_jump {t : Task} {f : Frame} {outer : List Frame} {s : TaskState} {i : Instruction}
    {l : Label} (hf : f.Sound t.unit) (hc : s.cancelled = false) (hi : f.method.code[f.next]? = some i)
    (hl : i.JumpsTo l f.stack) (thread now : Nat) : ∃ place stack, f.method.Stands l place ∧
      (running (f :: outer)).turn t thread now s =
        .done (.moved s (.running ({ f with next := place, stack := stack } :: outer))) := by
  obtain ⟨place, hplace, -⟩ := hf.jump i (Array.mem_of_getElem? hi) l hl.jumpTarget?_eq
  have hl : i.JumpsTo l { f with next := f.next + 1 }.stack := hl
  obtain ⟨stack, heq⟩ := hl.instruction_eq hplace.known t thread s
  refine ⟨place, stack, hplace, ?_⟩
  rw [turn_running hc, Step.frame, hi]
  dsimp only
  rw [heq]
  rfl

/-- **Where control goes in verified code, a frame follows.** -/
theorem Transfers.landed {t : Task} {thread now : Nat} {s : TaskState} {frames : List Frame} {a : Activity}
    (hproper : ∀ f ∈ frames, ∃ m, f.Proper t.unit m) (h : Transfers t thread now s frames a) :
    ∃ g outer, a = .running (g :: outer) ∧ g.Landed := by
  cases h with
  | @jumped f outer i l s' a hc hi hl h =>
    -- a jump: the target is one of the method's jump targets, so a frame follows
    obtain ⟨m, hm⟩ := hproper f (by simp)
    obtain ⟨place, stack, hplace, hturn⟩ := Activity.turn_of_jump hm.sound hc hi hl thread now
    rw [hturn] at h
    cases Query.mayCome_done_iff.1 h
    exact ⟨_, outer, rfl, hm.frameFollows (hm.target_of_jump hi hl.jumpTarget?_eq) hplace.known⟩
  | @caught f outer o s' s'' r a hc ho hr h =>
    have hconcludes := Activity.concludes_of_mayCome hproper ho now
    rw [h] at hconcludes
    cases hconcludes with
    | raised _ hu =>
      cases hu with
      | @caught inner outer' g place target id e _ _ hframes _ hfirst htarget _ =>
        -- a handler: the frame that takes the exception is one of the activation's own
        have hg : g ∈ f :: outer := by
          rw [eq_append_of_executing hframes]
          simp
        obtain ⟨m, hm⟩ := hproper g hg
        have he : e ∈ m.handlers := by
          obtain ⟨-, before, after, hsplit, -⟩ := hfirst
          rw [hm.linked] at hsplit
          have hsplit : m.handlers = before ++ e :: after := hsplit
          simp [hsplit]
        have htargets : e.target ∈ Verifier.targets m :=
          Verifier.mem_targets.2 (.inr ⟨e, he, rfl⟩)
        exact ⟨_, _, rfl, hm.frameFollows htargets htarget.known⟩
    | call _ _ _ hlt =>
      rw [Outcome.raised?, if_neg (Nat.not_le.2 hlt)] at hr
      cases hr
    | next | returned | sleep | join => cases hr

/-! ### Through the marks -/

namespace Frame

variable {f : Frame}

theorem Landed.atMark (h : f.Landed) : f.AtMark := by
  obtain ⟨i, hi, hmark, -⟩ := frameFollows_drop h
  exact ⟨i, hi, hmark⟩

theorem Landed.succ (h : f.Landed) :
    (∃ depth, f.Declares depth) ∨ Frame.Landed { f with next := f.next + 1 } := by
  obtain ⟨i, hi, -, ⟨depth, rfl⟩ | hrest⟩ := frameFollows_drop h
  · exact .inl ⟨depth, hi⟩
  · exact .inr hrest

/-- A mark leaves everything as it is, unless it is a frame that says something else than the stack. -/
theorem AtMark.step (h : f.AtMark) (t : Task) (thread : Nat) (s : TaskState) :
    (∃ depth, f.Declares depth ∧ f.stack.size ≠ depth.toNat) ∨
      (∀ depth, f.Declares depth → f.stack.size = depth.toNat) ∧
        Step.frame t thread s f = .done (.next s { f with next := f.next + 1 }) := by
  obtain ⟨i, hi, hmark⟩ := h
  by_cases hd : ∃ depth, f.Declares depth ∧ f.stack.size ≠ depth.toNat
  · exact .inl hd
  refine .inr ⟨fun depth hdepth => Decidable.byContradiction fun hne => hd ⟨depth, hdepth, hne⟩, ?_⟩
  cases i with
  | label l | lineNumber n l => simp only [Step.frame, hi, Step.instruction, Step.next]
  | frame depth =>
    have hsize : f.stack.size = depth.toNat :=
      Decidable.byContradiction fun hne => hd ⟨depth, hi, hne⟩
    simp only [Step.frame, hi, Step.instruction, hsize, if_true, Step.next]
  | _ => cases hmark

end Frame

theorem Activity.turn_of_mismatch {t : Task} {f : Frame} {outer : List Frame} {s : TaskState}
    {depth : UInt16} (hc : s.cancelled = false) (hf : f.Declares depth)
    (hsize : f.stack.size ≠ depth.toNat) (thread now : Nat) :
    (running (f :: outer)).turn t thread now s =
      .done (.ended s (.error (.threw ⟨"VerifyError",
        "stack depth " ++ toString f.stack.size ++ " at frame expecting " ++ toString depth.toNat, true⟩))) := by
  unfold Frame.Declares at hf
  rw [turn_running hc]
  simp only [Step.frame, hf, Step.instruction, hsize, if_false]
  rfl

namespace Task.Runs

variable {t : Task} {f x : Frame} {outer fs : List Frame}

/-- What a run executes first, and how it goes on. -/
theorem uncons (h : t.Runs (.running (f :: outer)) (x :: fs)) :
    x = f ∧ (fs = [] ∨ ∃ thread now s u a, s.cancelled = false ∧
      ((Activity.running (f :: outer)).turn t thread now s).MayCome u ∧ u.activity? = some a ∧
        t.Runs a fs) := by
  generalize ha : Activity.running (f :: outer) = a at h
  generalize hfs : x :: fs = l at h
  cases h with
  | rests => cases hfs
  | @turned _ a' thread now s u rest hturn hu hrest =>
    subst ha
    cases hc : s.cancelled with
    | true =>
      -- a cancelled thread has no further activity
      rw [Activity.turn_of_cancelled hc] at hturn
      rw [Query.mayCome_done_iff.1 hturn] at hu
      cases hu
    | false =>
      rw [Activity.executed, hc] at hfs
      obtain ⟨rfl, rfl⟩ := List.cons.inj hfs
      exact ⟨rfl, .inr ⟨thread, now, s, u, a', hc, hturn, hu, hrest⟩⟩
  | @ended _ thread now s u hturn hu =>
    subst ha
    cases hc : s.cancelled with
    | true =>
      rw [Activity.executed, hc] at hfs
      cases hfs
    | false =>
      rw [Activity.executed, hc] at hfs
      obtain ⟨rfl, rfl⟩ := List.cons.inj hfs
      exact ⟨rfl, .inl rfl⟩

/-- A run goes through a mark as if it were not there. -/
theorem succ (hf : f.AtMark) (h : t.Runs (.running (f :: outer)) (x :: fs)) :
    fs = [] ∨ (∀ depth, f.Declares depth → f.stack.size = depth.toNat) ∧
      t.Runs (.running ({ f with next := f.next + 1 } :: outer)) fs := by
  obtain ⟨-, hnil | ⟨thread, now, s, u, a, hc, hturn, hu, hrest⟩⟩ := h.uncons
  · exact .inl hnil
  rcases hf.step t thread s with ⟨depth, hdepth, hne⟩ | ⟨hsizes, hstep⟩
  · rw [Activity.turn_of_mismatch hc hdepth hne] at hturn
    rw [Query.mayCome_done_iff.1 hturn] at hu
    cases hu
  · rw [Activity.turn_running hc, hstep] at hturn
    rw [Query.mayCome_done_iff.1 hturn] at hu
    cases hu
    exact .inr ⟨hsizes, hrest⟩

/-- **What a run comes to behind labels, line numbers and frames.** -/
theorem behind_marks {marks rest : List Frame} (h : t.Runs (.running (f :: outer)) (marks ++ x :: rest))
    (hmarks : ∀ d ∈ marks, d.AtMark) (hx : ¬ x.AtMark) :
    x = { f with next := x.next } ∧ (f.Landed → ∃ d ∈ marks, ∃ depth, d.Declares depth) ∧
      ∀ d ∈ marks, ∀ depth, d.Declares depth → x.stack.size = depth.toNat := by
  -- the frame goes from mark to mark and stays what it is, so each depth is checked against the same stack
  induction marks generalizing f with
  | nil =>
    obtain ⟨rfl, -⟩ := h.uncons
    exact ⟨rfl, fun hl => absurd hl.atMark hx, by simp⟩
  | cons d marks ih =>
    obtain ⟨rfl, -⟩ := h.uncons
    obtain ⟨hd, hmarks⟩ := List.forall_mem_cons.1 hmarks
    rcases h.succ hd with hnil | ⟨hsizes, hrest⟩
    · simp at hnil
    obtain ⟨hframe, hlanded, hdepths⟩ := ih hrest hmarks
    have hstack : x.stack = d.stack := by rw [hframe]
    refine ⟨hframe, fun hl => ?_, List.forall_mem_cons.2 ⟨fun depth hdepth => ?_, hdepths⟩⟩
    · rcases hl.succ with hdeclares | hl
      · exact ⟨d, List.mem_cons_self, hdeclares⟩
      · obtain ⟨e, he, hdeclares⟩ := hlanded hl
        exact ⟨e, List.mem_cons_of_mem _ he, hdeclares⟩
    · rw [hstack]
      exact hsizes depth hdepth

end Task.Runs

/-! ### Every thread -/

/-- **Where control lands, the depth of the stack is checked**, in whatever a thread of a built unit may come to. -/
theorem Task.Reaches.depthChecked {t : Task} (hu : t.unit.Built) {a : Activity} (h : t.Reaches a) :
    a.DepthChecked t where
  jumps := by
    rintro f outer s i l thread now rfl hc hi hl
    obtain ⟨m, hm⟩ := h.proper hu f (by simp [Activity.frames])
    exact Activity.turn_of_jump hm.sound hc hi hl thread now
  lands := by
    rintro frames thread now s a' rfl htransfers
    obtain ⟨g, outer, rfl, hlanded⟩ := htransfers.landed (h.proper hu)
    refine ⟨g, outer, rfl, fun hruns hmarks hx => ?_⟩
    obtain ⟨hframe, hdeclares, hdepths⟩ := hruns.behind_marks hmarks hx
    exact ⟨hframe, hdeclares hlanded, hdepths⟩
  mismatch := by
    rintro f outer s depth thread now rfl hc hf hsize
    exact Activity.turn_of_mismatch hc hf hsize thread now

/-! ### A handler that is entered -/

namespace Caught

def thrown : OperandStack := .single (.exception 0 (.of "NullPointerException" "throw null"))

theorem runs_of_turn {f g : Frame} {fs : List Frame}
    (h : (Activity.running [f]).turn task 0 0 default = .done (.moved default (.running [g])))
    (hg : task.Runs (.running [g]) fs) : task.Runs (.running [f]) (f :: fs) := by
  have hturn : ((Activity.running [f]).turn task 0 0 default).MayCome (.moved default (.running [g])) := by
    rw [h]
    exact .done _
  exact .turned hturn rfl hg

theorem runs_handler : task.Runs (.running [frame main 4 thrown])
    ([frame main 4 thrown, frame main 5 thrown] ++ [frame main 6 thrown]) := by
  have hreturn : ((Activity.running [frame main 6 thrown]).turn task 0 0 default).MayCome
      (.ended default (.ok (.exception 0 (.of "NullPointerException" "throw null")))) := .done _
  exact runs_of_turn rfl (runs_of_turn rfl (.ended hreturn rfl))

theorem transfers_handler : Transfers task 0 0 default
    [frame fail 2 (.single .null), frame main 2 .empty] (.running [frame main 4 thrown]) :=
  .caught rfl (.done _) rfl rfl

end Caught

/-- Behind the frame in front of it, the handler of the caller has the exception on its stack, and nothing else. -/
theorem Task.Reaches.depthChecked_caught : ∃ a, Caught.task.Reaches a ∧ a.DepthChecked Caught.task ∧
    ∃ x : Frame, x.method.code[x.next]? = some .retValue ∧ x.stack.size = 1 := by
  have hchecked := Task.Reaches.depthChecked Caught.built_unit Caught.reaches_throw
  refine ⟨_, Caught.reaches_throw, hchecked, Caught.frame Caught.main 6 Caught.thrown, rfl, ?_⟩
  obtain ⟨g, outer, -, hlands⟩ := hchecked.lands rfl Caught.transfers_handler
  have hmarks : ∀ d ∈ [Caught.frame Caught.main 4 Caught.thrown, Caught.frame Caught.main 5 Caught.thrown],
      d.AtMark := by
    simp only [List.forall_mem_cons]
    exact ⟨⟨_, rfl, rfl⟩, ⟨_, rfl, rfl⟩, by simp⟩
  obtain ⟨-, -, hdepths⟩ := hlands Caught.runs_handler hmarks (by
    rintro ⟨i, hi, hmark⟩
    cases hi
    cases hmark)
  exact hdepths _ (List.mem_cons_of_mem _ List.mem_cons_self) 1 rfl

end Confine
