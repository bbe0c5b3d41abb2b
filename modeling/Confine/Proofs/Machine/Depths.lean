import Confine.Proofs.Machine.Reachable
import Confine.Proofs.Program.Codec
import Confine.Proofs.Tracing.Reverified

/-!
# How many frames there are, and how much they hold

An instruction that pushes is refused when the stack is full; the value of a call that returns is not.  So a stack
may grow beyond `OperandStack.maxDepth`, by one value for each call that the method makes on its way.  It makes none
twice without coming to a frame that says how deep the stack is, and no frame says more than the limit.

* `Step.frame_sized` — what one instruction makes of the stack of its frame;
* `Frame.Fits`, `Frame.Waits` — the bound for the frame that runs, and for one that waits for a call to return;
* `Task.Reaches.depths_bounded` — **a thread has at most `Frame.maxDepth` frames, and a stack holds at most
  `OperandStack.maxDepth` values and one for each call of its method**.
-/

namespace Confine

open LineTrace (frameFollows)

def Instruction.isCall : Instruction → Bool
  | .invokeStatic _ _ | .invokeVirtual _ _ => true
  | _ => false

/-! ### Frames in front of which control lands -/

/-- A target of a jump has a frame before the next real instruction. -/
theorem Verifier.frameFollows_of_framesOk {targets : List Label} {pending : List Pending}
    {code : List Instruction} (h : FramesOk targets pending code) {l : Label} (hl : l ∈ targets)
    {place : Nat} (hp : code[place]? = some (.label l)) :
    frameFollows (code.drop place) = true := by
  induction code generalizing pending place with
  | nil => simp at hp
  | cons i rest ih =>
    cases place with
    | zero =>
      obtain rfl : i = .label l := by simpa using hp
      cases hf : frameFollows rest with
      | true => exact hf
      | false =>
        have hrest : FramesOk targets (⟨l, false⟩ :: pending) rest := h
        have hsettled := LineTrace.settled_of_no_frame hrest hf
        exact absurd hl (hsettled ⟨l, false⟩ List.mem_cons_self rfl)
    | succ place =>
      rw [List.getElem?_cons_succ] at hp
      rw [List.drop_succ_cons]
      cases i with
      | label l' => exact ih h hp
      | lineNumber n l' => exact ih h hp
      | frame n => exact ih h.2 hp
      | _ => exact ih h.2 hp

/-- Where a frame is to come, it comes next, or a label or a line number does. -/
theorem frameFollows_drop {code : Array Instruction} {place : Nat}
    (h : frameFollows (code.toList.drop place) = true) :
    ∃ i, code[place]? = some i ∧ i.isMark = true ∧
      ((∃ depth, i = .frame depth) ∨ frameFollows (code.toList.drop (place + 1)) = true) := by
  rw [← Array.getElem?_toList]
  cases hi : code.toList[place]? with
  | none =>
    rw [List.drop_eq_nil_of_le (List.getElem?_eq_none_iff.1 hi)] at h
    cases h
  | some i =>
    obtain ⟨hlt, hget⟩ := List.getElem?_eq_some_iff.1 hi
    rw [List.drop_eq_getElem_cons hlt, hget] at h
    refine ⟨i, rfl, ?_⟩
    cases i with
    | label l => exact ⟨rfl, .inr h⟩
    | lineNumber n l => exact ⟨rfl, .inr h⟩
    | frame depth => exact ⟨rfl, .inl ⟨depth, rfl⟩⟩
    | _ => cases h

namespace Frame

variable {f g : Frame}

/-- The calls of the method in front of the next instruction. -/
def callsBehind (f : Frame) : Nat := (f.method.code.toList.take f.next).countP (·.isCall)

def calls (f : Frame) : Nat := f.method.code.toList.countP (·.isCall)

theorem callsBehind_le (f : Frame) : f.callsBehind ≤ f.calls :=
  (List.take_sublist _ _).countP_le

theorem callsBehind_succ {i : Instruction} (hi : f.method.code[f.next]? = some i)
    (hm : g.method = f.method) (hn : g.next = f.next + 1) :
    g.callsBehind = f.callsBehind + if i.isCall then 1 else 0 := by
  rw [← Array.getElem?_toList] at hi
  rw [callsBehind, hm, hn, List.take_add_one, hi, List.countP_append]
  simp [callsBehind, List.countP_cons]

/-- The frame may run: its stack holds one value more than the limit for each call behind it, or
control has just landed in front of a frame. -/
def Fits (f : Frame) : Prop :=
  f.stack.size ≤ OperandStack.maxDepth + f.callsBehind ∨
    f.stack.size ≤ OperandStack.maxDepth + f.calls ∧
      frameFollows (f.method.code.toList.drop f.next) = true

/-- The frame may wait for a call to return: there is room for its value. -/
def Waits (f : Frame) : Prop := f.stack.size < OperandStack.maxDepth + f.callsBehind

theorem Fits.size_le (h : f.Fits) : f.stack.size ≤ OperandStack.maxDepth + f.calls := by
  have := f.callsBehind_le
  rcases h with h | h <;> omega

theorem Waits.fits (h : f.Waits) : f.Fits := .inl (Nat.le_of_lt h)

theorem Waits.fits_add (h : f.Waits) (v : Value) : (f.withStack (f.stack.add v)).Fits :=
  .inl (Nat.succ_le_of_lt h)

theorem fits_of_size_le_one (h : f.stack.size ≤ 1) : f.Fits :=
  .inl (by have : OperandStack.maxDepth = 65536 := rfl; omega)

end Frame

/-! ### One instruction -/

/-- A frame has gone on, in the same place, and its stack has not grown beyond the limit. -/
structure Frame.Moves (f g : Frame) : Prop where
  method : g.method = f.method
  next : g.next = f.next
  size : g.stack.size ≤ max OperandStack.maxDepth f.stack.size

/-- What an instruction `i` makes of its frame, which is `f` with control behind the instruction. -/
inductive Outcome.Sized (i : Instruction) (f : Frame) : Outcome → Prop where
  | next {s : TaskState} {g : Frame} (h : f.Moves g)
      (hframe : ∀ depth, i = .frame depth → g.stack.size = depth.toNat) : Sized i f (.next s g)
  | jumped {s : TaskState} {g : Frame} {l : Label} (hl : i.jumpTarget? = some l)
      (hm : g.method = f.method) (hp : f.method.place? l = some g.next)
      (hs : g.stack.size ≤ f.stack.size) : Sized i f (.next s g)
  | call {s : TaskState} {g callee : Frame} (hi : i.isCall = true) (h : f.Moves g)
      (hcallee : callee.stack = .empty) : Sized i f (.call s g callee)
  | ret {s : TaskState} {v : Option Value} : Sized i f (.ret s v)
  | raise {s : TaskState} {g : Frame} {r : Raised} : Sized i f (.raise s g r)
  | fault {s : TaskState} {e : Fault} : Sized i f (.fault s e)
  | wait {s : TaskState} {g : Frame} {w : Wait} (hi : i.isMark = false) (h : f.Moves g) :
      Sized i f (.wait s g w)

namespace Step

variable {α : Type} {t : Task} {s : TaskState} {i : Instruction} {f g : Frame}

def Sized (i : Instruction) (f : Frame) (q : Query Outcome) : Prop :=
  q.All (fun _ => True) (Outcome.Sized i f)

theorem sized_raise (r : Raised) : Sized i f (raise s g r) := .done .raise

theorem sized_fault (e : Fault) : Sized i f (fault s e) := .done .fault

theorem sized_attempt {r : Except Exception α} {k : α → Query Outcome}
    (hk : ∀ a, r = .ok a → Sized i f (k a)) : Sized i f (attempt s g r k) := by
  cases r with
  | ok a => exact hk a rfl
  | error e => exact sized_raise _

theorem sized_require {p : Permission} {k : TaskState → Query Outcome}
    (hk : ∀ s, Sized i f (k s)) : Sized i f (require t s p k) := by
  unfold require
  dsimp only
  split
  · exact hk _
  · exact sized_fault _

theorem sized_withClass {name : String} {k : TaskState → LinkedClass → Query Outcome}
    (hk : ∀ s c, Sized i f (k s c)) : Sized i f (withClass t s g name k) :=
  sized_attempt fun c _ => hk _ c

section Unframed

variable (hi : ∀ depth, i ≠ .frame depth)

include hi

theorem sized_next (h : f.Moves g) : Sized i f (next s g) :=
  .done (.next h fun depth heq => absurd heq (hi depth))

theorem sized_push (stack : OperandStack) (v : Value) : Sized i f (push s f stack v) := by
  refine sized_attempt fun stack' h => sized_next hi ⟨rfl, rfl, ?_⟩
  unfold OperandStack.push at h
  split at h
  · cases h
  · next hlt =>
    obtain rfl := Except.ok.inj h
    simp only [Frame.withStack, OperandStack.size_add]
    omega

theorem sized_pop {stack : OperandStack} (h : stack.size ≤ f.stack.size) :
    Sized i f (next s (f.withStack stack)) :=
  sized_next hi ⟨rfl, rfl, Nat.le_trans h (Nat.le_max_right _ _)⟩

end Unframed

/-! ### Operands that are popped -/

theorem size_le_of_pop {stack rest : OperandStack} {v : Value} (h : stack.pop = .ok (v, rest)) :
    rest.size ≤ stack.size := by
  rw [OperandStack.pop_eq_ok_iff.1 h]
  simp

theorem size_le_of_popText {stack rest : OperandStack} {x : String}
    (h : stack.popText = .ok (x, rest)) : rest.size ≤ stack.size := by
  rw [OperandStack.popText_eq_ok_iff.1 h]
  simp

theorem size_le_of_popInt {stack rest : OperandStack} {n : Int64}
    (h : stack.popInt = .ok (n, rest)) : rest.size ≤ stack.size := by
  rw [OperandStack.popInt_eq_ok_iff.1 h]
  simp

theorem size_le_of_popBool {stack rest : OperandStack} {b : Bool}
    (h : stack.popBool = .ok (b, rest)) : rest.size ≤ stack.size := by
  rw [OperandStack.popBool_eq_ok_iff.1 h]
  simp

theorem size_le_of_popObject {stack rest : OperandStack} {o : Nat × String}
    (h : stack.popObject = .ok (o, rest)) : rest.size ≤ stack.size := by
  rw [OperandStack.popObject_eq_ok_iff.1 h]
  simp

/-! ### Host calls and the other instructions -/

theorem writeText_sized (hi : ∀ depth, i ≠ .frame depth) (thread : Nat) (c : Console)
    (newline : Bool) : Sized i f (writeText s f thread c newline) := by
  refine sized_attempt fun p hp => .ask trivial fun now => ?_
  exact sized_pop hi (size_le_of_pop hp)

theorem host_sized (thread : Nat) (call : HostCall) :
    Sized (.host call) f (host t thread s f call) := by
  have hi : ∀ depth, Instruction.host call ≠ .frame depth := by simp
  cases call with
  | print => exact writeText_sized hi thread _ _
  | println => exact writeText_sized hi thread _ _
  | eprint => exact writeText_sized hi thread _ _
  | eprintln => exact writeText_sized hi thread _ _
  | readFile =>
    refine sized_attempt fun p hp => ?_
    dsimp only
    split
    · exact sized_push hi _ _
    · exact sized_fault _
  | writeFile =>
    refine sized_attempt fun p hp => sized_attempt fun q hq => sized_require fun s => ?_
    refine .ask trivial fun answer => ?_
    cases answer with
    | ok u => exact sized_pop hi (Nat.le_trans (size_le_of_popText hq) (size_le_of_pop hp))
    | error message => exact sized_raise _
  | getEnv =>
    exact sized_attempt fun p hp => sized_require fun s => .ask trivial fun text => sized_push hi _ _
  | getProperty =>
    refine sized_attempt fun p hp => sized_require fun s => ?_
    split
    · exact .ask trivial fun dir => sized_push hi _ _
    · exact sized_push hi _ _
  | exit =>
    exact sized_attempt fun p hp => sized_require fun s => sized_pop hi (size_le_of_popInt hp)
  | setStreams => exact sized_require fun s => sized_next hi ⟨rfl, rfl, Nat.le_max_right _ _⟩
  | spawn c m =>
    simp only [host, spawn]
    split
    · exact sized_push hi _ _
    · exact sized_fault _
  | join =>
    refine sized_attempt fun p hp => ?_
    dsimp only
    split
    · exact sized_raise _
    · split
      · exact .done (.wait rfl ⟨rfl, rfl, Nat.le_trans (size_le_of_popInt hp) (Nat.le_max_right _ _)⟩)
      · exact sized_raise _
  | sleep =>
    refine sized_attempt fun p hp => ?_
    dsimp only
    split
    · exact sized_raise _
    · exact .done (.wait rfl ⟨rfl, rfl, Nat.le_trans (size_le_of_popInt hp) (Nat.le_max_right _ _)⟩)
  | time => exact .ask trivial fun now => sized_push hi _ _
  | loadClass => exact sized_attempt fun p hp => sized_withClass fun s c => sized_push hi _ _

theorem jump_sized {l : Label} (hl : i.jumpTarget? = some l) (hg : f.Keeps g)
    (hs : g.stack.size ≤ f.stack.size) : Sized i f (attempt s g (g.jump l) (next s)) := by
  refine sized_attempt fun g' hg' => .done (.jumped hl ?_ ?_ ?_)
  all_goals
    unfold Frame.jump at hg'
    split at hg'
    · next place hp =>
      obtain rfl := Except.ok.inj hg'
      first | exact hg.method | exact hg.method ▸ hp | exact hs
    · cases hg'

theorem jumpOn_sized {l : Label} (hl : i.jumpTarget? = some l) (hi : ∀ depth, i ≠ .frame depth)
    (wanted : Bool) : Sized i f (jumpOn s f wanted l) := by
  refine sized_attempt fun p hp => ?_
  have hsize := size_le_of_popBool hp
  dsimp only
  split
  · exact jump_sized hl (f.keeps_withStack _) hsize
  · exact sized_pop hi hsize

theorem invokeStatic_sized (c m : String) :
    Sized (.invokeStatic c m) f (invokeStatic t s f c m) := by
  refine sized_withClass fun s c => ?_
  dsimp only
  split
  · exact sized_raise _
  · refine sized_attempt fun p hp => sized_attempt fun callee hcallee => .done (.call rfl ?_ ?_)
    · have hsize := (OperandStack.length_of_popMany hp).2
      refine ⟨rfl, rfl, Nat.le_trans ?_ (Nat.le_max_right _ _)⟩
      simp only [Frame.withStack]
      omega
    · obtain ⟨m, -, rfl⟩ := Frame.forCall_eq_ok hcallee
      rfl

theorem invokeVirtual_sized (m : String) (n : UInt16) :
    Sized (.invokeVirtual m n) f (invokeVirtual t s f m n.toNat) := by
  refine sized_attempt fun p hp => sized_attempt fun q hq => sized_withClass fun s c => ?_
  refine sized_attempt fun callee hcallee => .done (.call rfl ?_ ?_)
  · have hmany := (OperandStack.length_of_popMany hp).2
    have hobject := size_le_of_popObject hq
    refine ⟨rfl, rfl, Nat.le_trans ?_ (Nat.le_max_right _ _)⟩
    simp only [Frame.withStack]
    omega
  · obtain ⟨m, -, rfl⟩ := Frame.forCall_eq_ok hcallee
    rfl

/-- **What one instruction makes of the stack of its frame.** -/
theorem instruction_sized (thread : Nat) (i : Instruction) :
    Sized i f (instruction t thread s f i) := by
  have same : f.Moves f := ⟨rfl, rfl, Nat.le_max_right _ _⟩
  cases i with
  | label l => exact sized_next (by simp) same
  | lineNumber n l => exact sized_next (by simp) same
  | frame depth =>
    by_cases hd : f.stack.size = depth.toNat
    · simp only [instruction, hd, if_true]
      refine .done (.next same fun depth' heq => ?_)
      rw [Instruction.frame.injEq] at heq
      exact heq ▸ hd
    · simp only [instruction, hd, if_false]
      exact sized_raise _
  | push c => exact sized_push (by simp) _ _
  | load n => exact sized_attempt fun v hv => sized_push (by simp) _ _
  | store n =>
    refine sized_attempt fun p hp => sized_attempt fun g hg => ?_
    unfold Frame.store at hg
    split at hg
    · obtain rfl := Except.ok.inj hg
      exact sized_next (by simp) ⟨rfl, rfl, Nat.le_trans (size_le_of_pop hp) (Nat.le_max_right _ _)⟩
    · cases hg
  | binary op =>
    exact sized_attempt fun _ _ => sized_attempt fun _ _ => sized_attempt fun _ _ =>
      sized_push (by simp) _ _
  | neg => exact sized_attempt fun _ _ => sized_push (by simp) _ _
  | not => exact sized_attempt fun _ _ => sized_push (by simp) _ _
  | dup => exact sized_attempt fun _ _ => sized_attempt fun _ _ => sized_push (by simp) _ _
  | pop => exact sized_attempt fun p hp => sized_pop (by simp) (size_le_of_pop hp)
  | swap =>
    exact sized_attempt fun _ _ => sized_attempt fun _ _ => sized_attempt fun _ _ =>
      sized_push (by simp) _ _
  | jump l => exact jump_sized rfl (.refl f) (Nat.le_refl _)
  | jumpIf l => exact jumpOn_sized rfl (by simp) true
  | jumpIfNot l => exact jumpOn_sized rfl (by simp) false
  | invokeStatic c m => exact invokeStatic_sized c m
  | invokeVirtual m n => exact invokeVirtual_sized m n
  | new c =>
    simp only [instruction, Heap.newObject]
    exact sized_withClass fun s c => sized_push (by simp) _ _
  | getField field => exact sized_attempt fun _ _ => sized_push (by simp) _ _
  | putField field =>
    refine sized_attempt fun p hp => sized_attempt fun q hq => ?_
    exact sized_pop (by simp) (Nat.le_trans (size_le_of_popObject hq) (size_le_of_pop hp))
  | newException kind => exact sized_attempt fun _ _ => sized_push (by simp) _ _
  | throw =>
    refine sized_attempt fun p _ => ?_
    dsimp only
    split <;> exact sized_raise _
  | ret => exact .done .ret
  | retValue => exact sized_attempt fun _ _ => .done .ret
  | host call => exact host_sized thread call
  | hook tracer name operands =>
    simp only [instruction, hook]
    split
    · exact sized_next (by simp) same
    · exact sized_raise _
    · exact sized_fault _

end Step

/-! ### The frames of a thread -/

/-- The frames fit: there are no more than a thread may have, and the outer ones wait. -/
def FramesFit : List Frame → Prop
  | [] => True
  | f :: outer => outer.length < Frame.maxDepth ∧ f.Fits ∧ ∀ g ∈ outer, g.Waits

def Progress.Fit : Progress → Prop
  | running _ frames | waiting _ frames _ => FramesFit frames
  | ended _ _ => True

theorem Frame.Fits.moves {f g : Frame} {i : Instruction} (hi : f.method.code[f.next]? = some i)
    (h : f.Fits) (hg : Frame.Moves { f with next := f.next + 1 } g)
    (hframe : ∀ depth, i = .frame depth → g.stack.size = depth.toNat) : g.Fits := by
  have hbehind := callsBehind_succ hi hg.method hg.next
  have hsize : g.stack.size ≤ max OperandStack.maxDepth f.stack.size := hg.size
  have hcalls : g.calls = f.calls := by rw [calls, calls, hg.method]
  rcases h with h | ⟨h, hf⟩
  · exact .inl (by omega)
  · obtain ⟨j, hj, -, ⟨depth, rfl⟩ | hrest⟩ := frameFollows_drop hf
    · have hdepth : depth.toNat < 65536 := depth.toNat_lt
      have hmax : OperandStack.maxDepth = 65536 := rfl
      have hi : i = .frame depth := Option.some.inj (hi.symm.trans hj)
      exact .inl (by rw [hframe depth hi]; omega)
    · exact .inr ⟨by omega, by rw [hg.method, hg.next]; exact hrest⟩

theorem Frame.Fits.size_le_of_real {f : Frame} {i : Instruction}
    (hi : f.method.code[f.next]? = some i) (hreal : i.isMark = false) (h : f.Fits) :
    f.stack.size ≤ OperandStack.maxDepth + f.callsBehind := by
  rcases h with h | ⟨-, hf⟩
  · exact h
  · obtain ⟨j, hj, hmark, -⟩ := frameFollows_drop hf
    obtain rfl : i = j := Option.some.inj (hi.symm.trans hj)
    rw [hreal] at hmark
    cases hmark

theorem Frame.Fits.waits {f g : Frame} {i : Instruction} (hi : f.method.code[f.next]? = some i)
    (hcall : i.isCall = true) (h : f.Fits) (hg : Frame.Moves { f with next := f.next + 1 } g) :
    g.Waits := by
  have hreal : i.isMark = false := by
    cases i <;> first | rfl | cases hcall
  have hbehind := callsBehind_succ hi hg.method hg.next
  have hsize : g.stack.size ≤ max OperandStack.maxDepth f.stack.size := hg.size
  have := h.size_le_of_real hi hreal
  rw [hcall, if_pos rfl] at hbehind
  show g.stack.size < OperandStack.maxDepth + g.callsBehind
  omega

theorem Frame.Proper.frameFollows {u : LoadingUnit} {f : Frame} {m : Method} (hp : f.Proper u m)
    {l : Label} (hl : l ∈ Verifier.targets m) {place : Nat} (hplace : f.method.place? l = some place) :
    frameFollows (f.method.code.toList.drop place) = true := by
  have hcode : f.method.code.toList = m.code := by rw [hp.linked]; rfl
  rw [hp.linked] at hplace
  rw [hcode]
  exact Verifier.frameFollows_of_framesOk (Verifier.checkFrames_eq_ok_iff.1 hp.verified.frames) hl
    ((LinkedMethod.place?_ofMethod hp.verified.nodup).1 hplace)

theorem Frame.Proper.target_of_jump {u : LoadingUnit} {f : Frame} {m : Method} (hp : f.Proper u m)
    {i : Instruction} (hi : f.method.code[f.next]? = some i) {l : Label}
    (hl : i.jumpTarget? = some l) : l ∈ Verifier.targets m := by
  have hcode : f.method.code.toList = m.code := by rw [hp.linked]; rfl
  rw [← Array.getElem?_toList, hcode] at hi
  exact List.mem_append_left _ (List.mem_filterMap.2 ⟨i, List.mem_of_getElem? hi, hl⟩)

/-- Where a jump of verified code lands, a frame follows. -/
theorem Frame.Fits.jumped {u : LoadingUnit} {f g : Frame} {m : Method} {i : Instruction} {l : Label}
    (hp : f.Proper u m) (hi : f.method.code[f.next]? = some i) (hl : i.jumpTarget? = some l)
    (h : f.Fits) (hm : g.method = f.method) (hplace : f.method.place? l = some g.next)
    (hs : g.stack.size ≤ f.stack.size) : g.Fits := by
  have hcalls : g.calls = f.calls := by rw [calls, calls, hm]
  have hle := h.size_le
  exact .inr ⟨by omega, hm ▸ hp.frameFollows (hp.target_of_jump hi hl) hplace⟩

namespace Activation

variable {t : Task} {s : TaskState}

theorem findHandler?_suffix {kind : String} {frames outer : List Frame} {f : Frame}
    {h : LinkedHandler} (hh : findHandler? kind frames = some (f, h, outer)) :
    f :: outer <:+ frames := by
  induction frames with
  | nil => simp [findHandler?] at hh
  | cons g rest ih =>
    unfold findHandler? at hh
    split at hh
    · simp only [Option.some.injEq, Prod.mk.injEq] at hh
      obtain ⟨rfl, -, rfl⟩ := hh
      exact List.suffix_refl _
    · exact (ih hh).trans (List.suffix_cons _ _)

/-- An exception leaves a frame with nothing but the exception, and those outside. -/
theorem unwind_fit {f : Frame} {outer : List Frame} (hlen : outer.length < Frame.maxDepth)
    (hwaits : ∀ g ∈ outer, g.Waits) (r : Raised) : (unwind t s (f :: outer) r).Fit := by
  unfold unwind
  dsimp only
  split
  · trivial
  · split
    · next g h outer' hh =>
      have hsuffix : outer' <:+ outer := by
        rcases List.suffix_cons_iff.1 (findHandler?_suffix hh) with heq | hs
        · rw [(List.cons.inj heq).2]
        · exact (List.suffix_cons _ _).trans hs
      refine ⟨Nat.lt_of_le_of_lt hsuffix.length_le hlen, ?_, fun e he => hwaits e (hsuffix.subset he)⟩
      exact Frame.fits_of_size_le_one (Nat.le_refl 1)
    · trivial

theorem leave_fit {outer : List Frame} (hlen : outer.length < Frame.maxDepth)
    (hwaits : ∀ g ∈ outer, g.Waits) (v : Option Value) : (leave s v outer).Fit := by
  cases outer with
  | nil => trivial
  | cons g outer =>
    obtain ⟨hg, houter⟩ := List.forall_mem_cons.1 hwaits
    have hlen : outer.length < Frame.maxDepth := Nat.lt_of_succ_lt hlen
    cases v with
    | none => exact ⟨hlen, hg.fits, houter⟩
    | some v => exact ⟨hlen, hg.fits_add v, houter⟩

/-- **What an instruction makes of the frames of its thread.** -/
theorem finish_fit {f : Frame} {outer : List Frame} {i : Instruction} {m : Method} {o : Outcome}
    (hp : f.Proper t.unit m) (hi : f.method.code[f.next]? = some i) (h : FramesFit (f :: outer))
    (ho : Outcome.Sized i { f with next := f.next + 1 } o) : (finish t outer o).Fit := by
  obtain ⟨hlen, hf, hwaits⟩ := h
  cases ho with
  | next hg hframe => exact ⟨hlen, hf.moves hi hg hframe, hwaits⟩
  | jumped hl hm hplace hs => exact ⟨hlen, hf.jumped hp hi hl hm hplace hs, hwaits⟩
  | @call s g callee hcall hg hcallee =>
    have hg := hf.waits hi hcall hg
    have houter : ∀ e ∈ g :: outer, e.Waits := List.forall_mem_cons.2 ⟨hg, hwaits⟩
    show (enter t s callee (g :: outer)).Fit
    unfold enter
    split
    · exact unwind_fit hlen hwaits _
    · next hdepth =>
      refine ⟨Nat.lt_of_not_le hdepth, Frame.fits_of_size_le_one ?_, houter⟩
      rw [hcallee]
      exact Nat.zero_le 1
  | ret => exact leave_fit hlen hwaits _
  | raise => exact unwind_fit hlen hwaits _
  | fault => trivial
  | wait hreal hg =>
    refine ⟨hlen, hf.moves hi hg ?_, hwaits⟩
    rintro depth rfl
    cases hreal

/-- **What one step of a thread makes of its frames.** -/
theorem step_fit {frames : List Frame} (hp : ∀ f ∈ frames, ∃ m, f.Proper t.unit m)
    (h : FramesFit frames) (thread : Nat) : (step t thread s frames).All (fun _ => True) Progress.Fit := by
  unfold step
  split
  · exact .done trivial
  · cases frames with
    | nil => exact .done trivial
    | cons f outer =>
      obtain ⟨m, hm⟩ := hp f (by simp)
      cases hi : f.method.code[f.next]? with
      | none =>
        simp only [Step.frame, hi]
        exact .done (leave_fit h.1 h.2.2 none)
      | some i =>
        simp only [Step.frame, hi]
        exact (Step.instruction_sized thread i).map fun o ho => finish_fit hm hi h ho

end Activation

/-! ### The frames of every thread -/

theorem Task.Calls.framesFit {t : Task} {f : Frame} (h : t.Calls f) : FramesFit [f] := by
  obtain ⟨c, name, arguments, want, -, hf⟩ := h
  obtain ⟨m, -, rfl⟩ := Frame.forCall_eq_ok hf
  exact ⟨by decide, Frame.fits_of_size_le_one (Nat.zero_le 1), by simp⟩

/-- **What one turn of a thread makes of its frames.** -/
theorem Activity.turn_fit {t : Task} {a : Activity} (hp : ∀ f ∈ a.frames, ∃ m, f.Proper t.unit m)
    (h : FramesFit a.frames) (thread now : Nat) (s : TaskState) :
    (a.turn t thread now s).All (fun _ => True) fun u => FramesFit u.frames := by
  cases a with
  | starting c m =>
    have hcalls := (Activation.start_within t s c m []).2
    simp only [turn]
    split
    · next f hf => exact .done (hcalls f hf).framesFit
    · exact .done trivial
  | running frames =>
    refine (Activation.step_fit hp h thread).map fun p hfit => ?_
    cases p with
    | running s frames => exact hfit
    | waiting s frames w => cases w <;> exact hfit
    | ended s r => trivial
  | sleeping frames wake =>
    simp only [turn]
    split
    · exact .done trivial
    · split <;> exact .done h
  | joining frames index =>
    simp only [turn]
    -- the thread it waits for has ended, or it is cancelled, or it goes on waiting
    split
    · exact .done h
    · split
      · exact .done trivial
      · exact .done h

theorem Task.Reaches.framesFit {t : Task} (hu : t.unit.Built) {a : Activity} (h : t.Reaches a) :
    FramesFit a.frames := by
  induction h with
  | spawned c m => trivial
  | @called s c m arguments f h =>
    exact ((Activation.start_within t s c m arguments).2 f h).framesFit
  | @moved a a' thread now s s' ha hturn ih =>
    exact (a.turn_fit (ha.proper hu) ih thread now s).of_mayCome hturn
  | @blocked a a' thread now s s' wake ha hturn ih =>
    exact (a.turn_fit (ha.proper hu) ih thread now s).of_mayCome hturn

/-- **A thread has at most `Frame.maxDepth` frames, and a stack holds at most `OperandStack.maxDepth`
values and one for each call of its method.** -/
theorem Task.Reaches.depths_bounded {t : Task} (hu : t.unit.Built) {a : Activity}
    (h : t.Reaches a) :
    a.frames.length ≤ Frame.maxDepth ∧
      ∀ f ∈ a.frames, f.stack.size ≤ OperandStack.maxDepth + f.calls := by
  have hfit := h.framesFit hu
  generalize a.frames = frames at hfit
  cases frames with
  | nil => exact ⟨Nat.zero_le _, by simp⟩
  | cons f outer =>
    obtain ⟨hlen, hf, hwaits⟩ := hfit
    exact ⟨hlen, List.forall_mem_cons.2 ⟨hf.size_le, fun g hg => (hwaits g hg).fits.size_le⟩⟩

/-! ### Units of one class -/

def LoadingUnit.ofClass (c : ClassFile) : LoadingUnit :=
  ⟨⟨⟨1⟩, "", .default, [], [(c.name, definedClass c)]⟩, []⟩

theorem LoadingUnit.built_ofClass {c : ClassFile} (hc : ∀ mode, Verifier.check mode c = .ok ()) :
    (ofClass c).Built := by
  have hd : define .untrusted [] c.name c.encode.toUTF8 = .ok (definedClass c, []) :=
    define_eq_ok_iff.2 ⟨c, c, ⟨ClassFile.decodeBytes?_encode _, rfl, hc _, rfl, hc _⟩, rfl⟩
  have hall : defineAll .untrusted [] [] [(c.name, c.encode.toUTF8)] =
      .ok ([(c.name, definedClass c)], []) := defineAll_cons_eq_ok_iff.2 ⟨_, [], hd, rfl⟩
  have hbuild : build (.ofProgram ⟨[(c.name, c.encode.toUTF8)], ""⟩) ⟨1⟩ = .ok (ofClass c) :=
    build_eq_ok_iff.2 ⟨rfl, _, _, hall, rfl⟩
  exact .build (fun _ h => by cases h) hbuild

/-- A method without labels and handlers passes the checks if its locals and operands are in range. -/
theorem Verifier.verified_of_unlabelled {mode : Mode} {m : Method}
    (hlocals : m.requiredSlots ≤ m.maxLocals.toNat) (hhandlers : m.handlers = [])
    (hcode : ∀ i ∈ m.code, i.isMark = false ∧ mentions i = [] ∧
      checkOperands mode m.maxLocals i = .ok ()) : Verified mode m := by
  have hlabels : m.labels = [] := by
    refine List.filterMap_eq_nil_iff.2 fun i hi => ?_
    have hreal := (hcode i hi).1
    cases i <;> first | rfl | cases hreal
  have hreferenced : referenced m = [] := by
    rw [referenced, hhandlers, List.flatMap_eq_nil_iff.2 fun i hi => (hcode i hi).2.1]
    rfl
  have hframes : ∀ code, (∀ i ∈ code, i.isMark = false) → FramesOk (targets m) [] code := by
    intro code hreal
    induction code with
    | nil => exact settled_nil
    | cons i rest ih =>
      obtain ⟨hi, hrest⟩ := List.forall_mem_cons.1 hreal
      cases i <;> first | exact ⟨settled_nil, ih hrest⟩ | cases hi
  exact ⟨hlocals, by simp [hlabels], by simp [hreferenced],
    checkFrames_eq_ok_iff.2 (hframes _ fun i hi => (hcode i hi).1), fun i hi => (hcode i hi).2.2⟩

/-- **A thread goes on** with the next instruction of its innermost frame. -/
theorem Task.Reaches.step {t : Task} {f : Frame} {outer frames : List Frame} {i : Instruction}
    {s u : TaskState} (h : t.Reaches (.running (f :: outer))) (hc : s.cancelled = false)
    (hi : f.method.code[f.next]? = some i)
    (hstep : (Step.instruction t 0 s { f with next := f.next + 1 } i).map (Activation.finish t outer) =
      .done (.running u frames)) : t.Reaches (.running frames) := by
  have hturn : (Activity.running (f :: outer)).turn t 0 0 s = .done (.moved u (.running frames)) := by
    simp only [Activity.turn, Activation.step, Step.frame, hc, hi, Bool.false_eq_true, if_false, hstep]
    rfl
  have hcome := Query.MayCome.done (Turn.moved u (.running frames))
  rw [← hturn] at hcome
  exact .moved h hcome

/-! ### A stack that holds more than the limit -/

namespace Crowded

open LoadingUnit Verifier

/-- A method that pushes `n` values and calls another. -/
def main (n : Nat) : Method :=
  ⟨"main", true, [], 0, List.replicate n (.push .null) ++ [.invokeStatic "Main" "one", .ret], []⟩

def one : Method := ⟨"one", true, [], 0, [.push .null, .retValue], []⟩

def classFile (n : Nat) : ClassFile := ⟨"Main", none, [main n, one]⟩

def unit (n : Nat) : LoadingUnit :=
  ⟨⟨⟨1⟩, "", .default, [], [("Main", definedClass (classFile n))]⟩, []⟩

theorem verified_main (mode : Mode) (n : Nat) : Verified mode (main n) := by
  refine verified_of_unlabelled (Nat.le_refl 0) rfl fun i hi => ?_
  rcases List.mem_append.1 hi with hi | hi
  · rw [List.eq_of_mem_replicate hi]
    exact ⟨rfl, rfl, rfl⟩
  · obtain rfl | rfl : i = .invokeStatic "Main" "one" ∨ i = .ret := by simpa using hi
    all_goals exact ⟨rfl, rfl, rfl⟩

theorem check_classFile (mode : Mode) (n : Nat) : check mode (classFile n) = .ok () := by
  have hone : Verified mode one := checkMethod_eq_ok_iff.1 (by cases mode <;> rfl)
  refine check_eq_ok_iff.2 ⟨by simp [classFile, main, one], ?_⟩
  exact List.forall_mem_cons.2 ⟨verified_main mode n, by simpa using hone⟩

theorem built_unit (n : Nat) : (unit n).Built := built_ofClass fun mode => check_classFile mode n

def task (n : Nat) : Task := ⟨unit n, ⟨0⟩, 0⟩

def nulls : Nat → OperandStack
  | 0 => .empty
  | k + 1 => (nulls k).add .null

@[simp] theorem size_nulls (k : Nat) : (nulls k).size = k := by
  induction k with
  | zero => rfl
  | succ k ih => simp [nulls, ih]

def frame (n next size : Nat) : Frame :=
  ⟨"Main", .ofMethod (main n), next, #[], nulls size⟩

theorem start_eq (n : Nat) :
    (Activation.start (task n) default "Main" "main" []).1 = .ok (frame n 0 0) := rfl

theorem push_nulls {k : Nat} (hk : k < OperandStack.maxDepth) :
    (nulls k).push .null = .ok (nulls (k + 1)) :=
  OperandStack.push_of_lt _ (by rwa [size_nulls])

theorem reaches_nulls {t : Task} {m : LinkedMethod} {n : Nat} (hn : n ≤ OperandStack.maxDepth)
    (hcode : ∀ k < n, m.code[k]? = some (.push .null))
    (h : t.Reaches (.running [⟨"Main", m, 0, #[], .empty⟩])) :
    ∀ k ≤ n, t.Reaches (.running [⟨"Main", m, k, #[], nulls k⟩]) := by
  intro k
  induction k with
  | zero => exact fun _ => h
  | succ k ih =>
    intro hk
    refine (ih (Nat.le_of_lt hk)).step (s := default) (u := default) rfl (hcode k hk) ?_
    simp only [Step.instruction, Value.ofConstant, Step.push, push_nulls (Nat.lt_of_lt_of_le hk hn)]
    rfl

theorem reaches_pushed {n : Nat} (hn : n ≤ OperandStack.maxDepth) :
    (task n).Reaches (.running [frame n n n]) := by
  refine reaches_nulls hn (fun k hk => ?_) (.called (start_eq n)) n (Nat.le_refl n)
  show (main n).code.toArray[k]? = _
  simp [main, List.getElem?_append, hk]

def callee (next size : Nat) : Frame := ⟨"Main", .ofMethod one, next, #[], nulls size⟩

/-- The value of the call goes onto the stack, full or not. -/
theorem reaches_returned {n : Nat} (hn : n ≤ OperandStack.maxDepth) :
    (task n).Reaches (.running [frame n (n + 1) (n + 1)]) := by
  have hcall : (frame n n n).method.code[(frame n n n).next]? = some (.invokeStatic "Main" "one") := by
    show (main n).code.toArray[n]? = _
    simp [main]
  have hcalled : (task n).Reaches (.running [callee 0 0, frame n (n + 1) n]) :=
    (reaches_pushed hn).step (s := default) rfl hcall rfl
  have hpushed : (task n).Reaches (.running [callee 1 1, frame n (n + 1) n]) :=
    hcalled.step (s := default) (i := .push .null) rfl rfl rfl
  exact hpushed.step (s := default) (i := .retValue) rfl rfl rfl

theorem calls_frame (n next size : Nat) : (frame n next size).calls = 1 := by
  show (main n).code.countP (·.isCall) = 1
  rw [main, List.countP_append, List.countP_replicate]
  rfl

end Crowded

/-- A method that fills its stack and makes one call comes to hold one value more than the limit. -/
theorem Task.Reaches.depths_bounded_crowded :
    ∃ f, (Crowded.task OperandStack.maxDepth).Reaches (.running [f]) ∧ f.calls = 1 ∧
      f.stack.size = OperandStack.maxDepth + 1 ∧
      f.stack.size ≤ OperandStack.maxDepth + f.calls := by
  have h := Crowded.reaches_returned (Nat.le_refl OperandStack.maxDepth)
  obtain ⟨-, hbound⟩ := Task.Reaches.depths_bounded (Crowded.built_unit OperandStack.maxDepth) h
  exact ⟨_, h, Crowded.calls_frame _ _ _, Crowded.size_nulls _, hbound _ (List.mem_singleton_self _)⟩

/-- So the limit for what instructions push is none for what stacks hold. -/
theorem not_stacks_bounded :
    ¬ ∀ (t : Task) (a : Activity), t.unit.Built → t.Reaches a →
      a.frames.length ≤ Frame.maxDepth ∧
        ∀ f ∈ a.frames, f.stack.size ≤ OperandStack.maxDepth := by
  intro hall
  have h := Crowded.reaches_returned (Nat.le_refl OperandStack.maxDepth)
  obtain ⟨-, hbound⟩ := hall _ _ (Crowded.built_unit OperandStack.maxDepth) h
  have hsize := hbound _ (List.mem_singleton_self _)
  rw [show (Crowded.frame OperandStack.maxDepth _ _).stack.size = OperandStack.maxDepth + 1 from
    Crowded.size_nulls _] at hsize
  exact Nat.not_succ_le_self _ hsize

end Confine
