import Confine.Proofs.Loading.HandedOut
import Confine.Proofs.Machine.Solo
import Confine.Proofs.Tracing.CutShort
import Confine.Proofs.Tracing.LineSites
import Confine.Proofs.Tracing.Quiet

/-!
# Which calls into tracers a thread makes

Hooks stand behind marks, in front of the next real instruction. A step that ends there has the calls of these hooks still
ahead of it, so what has been recorded lags behind by the hooks that are ahead.

* `LoadingUnit.passing` — the calls that belong to an instruction, and `LoadingUnit.ahead` — those at the start of a method;
* `Solo.calls` — the calls that belong to a step of a thread, and `Solo.callsUpTo` — those of its first steps;
* `Solo.exists_recorded` — what one step records, with what is ahead behind it, are the calls that belong to it;
* `Solo.exists_recorded_iterate` — **so are all calls that have been recorded, of all steps up to there**.

What belongs to a step is read off a unit `u` with the same classes, whose hooks need not be those of the thread's own code.
-/

namespace Confine

/-! ### Hooks of a frame -/

namespace Frame

/-- The call that a hook makes in a frame, with the name of its tracer. -/
def hookCall? (f : Frame) : Instruction → Option (String × HookCall)
  | .hook tracer name operands => some (tracer, ⟨name, operands.map f.operand⟩)
  | _ => none

/-- The next instruction of the frame is executed without an error, and control goes on. -/
def executes (t : Task) (s : TaskState) (f : Frame) : Bool :=
  match Step.frame t 0 s f with
  | .done (.next _ _) => true
  | _ => false

/-- Control has just got to a label, or behind a real instruction that is no hook. -/
def Settled (f : Frame) : Prop :=
  (∃ l, f.method.code[f.next]? = some (.label l)) ∨
    ∃ k i, f.next = k + 1 ∧ f.method.code[k]? = some i ∧ i.isMark = false ∧ i.isHook = false

theorem InCall.settled {f : Frame} (h : f.InCall) : f.Settled := by
  obtain ⟨hpos, i, hi, hcall⟩ := h
  refine .inr ⟨f.next - 1, i, by omega, hi, ?_⟩
  cases i <;> simp_all [Instruction.isCall, Instruction.isMark, Instruction.isHook]

end Frame

/-- Hooks stand behind marks and other hooks only. -/
def LinkedMethod.Tidy (m : LinkedMethod) : Prop :=
  ∀ (k : Nat) i, m.code[k]? = some i → i.isMark = false → i.isHook = false →
    hookAt m.code.toList (k + 1) = false

theorem Frame.Settled.not_hookAt {f : Frame} (h : f.Settled) (hm : f.method.Tidy) :
    hookAt f.method.code.toList f.next = false := by
  rcases h with ⟨l, hl⟩ | ⟨k, i, hk, hi, hmark, hhook⟩
  · simp [hookAt, hl, Instruction.isHook]
  · exact hk ▸ hm k i hi hmark hhook

theorem hooksAt_of_not_hookAt {code : List Instruction} {k : Nat} (h : hookAt code k = false) :
    hooksAt code k = [] := by
  unfold hooksAt
  cases hd : code.drop k with
  | nil => rfl
  | cons i rest =>
    have hi : code[k]? = some i := by
      rw [← List.head?_drop, hd]
      rfl
    rw [hookAt, hi] at h
    exact List.takeWhile_cons_of_neg (by simpa using h)

theorem hooksAt_of_hook {code : List Instruction} {k : Nat} {i : Instruction} (hi : code[k]? = some i)
    (hhook : i.isHook = true) : hooksAt code k = i :: hooksAt code (k + 1) := by
  obtain ⟨hk, rfl⟩ := List.getElem?_eq_some_iff.1 hi
  rw [hooksAt, List.drop_eq_getElem_cons hk, List.takeWhile_cons_of_pos hhook]
  rfl

@[simp] theorem hooksAt_nil (k : Nat) : hooksAt [] k = [] := by simp [hooksAt]

namespace LoadingUnit

/-- The method of the unit's own classes with the names that a frame says. -/
def methodOf? (u : LoadingUnit) (f : Frame) : Option LinkedMethod :=
  (u.own.class? f.className).bind (·.method? f.method.method.name)

/-- The code of that method; there is none if the class is not the unit's own. -/
def codeOf (u : LoadingUnit) (f : Frame) : List Instruction :=
  ((u.methodOf? f).map (·.code.toList)).getD []

/-- The calls of the hooks that are ahead of a frame of the unit's own classes. -/
def ahead (u : LoadingUnit) (f : Frame) : List (String × HookCall) :=
  (hooksAt (u.codeOf f) f.next).filterMap f.hookCall?

/-- The calls that belong to the next instruction of a frame: those of the hooks that the unit has behind it, if it is
executed without an error; and its own call, if it is a hook of another unit. -/
def passing (u : LoadingUnit) (t : Task) (s : TaskState) (f : Frame) : List (String × HookCall) :=
  match f.method.code[f.next]?.bind f.hookCall? with
  | some c => if (u.methodOf? f).isSome then [] else [c]
  | none =>
    if f.executes t s then
      (hooksBehind (u.codeOf f) (keptBefore f.method.code.toList f.next)).filterMap f.hookCall?
    else []

/-- Hooks stand behind marks only, in the unit's own classes. -/
def Tidy (u : LoadingUnit) : Prop := ∀ name c, u.own.class? name = some c → ∀ m ∈ c.methods, m.Tidy

end LoadingUnit

def Recordings.after (rs : Recordings) (calls : List (String × HookCall)) : Recordings :=
  calls.foldl (fun rs c => (rs.onHook c.1 c.2 0).2) rs

namespace Recordings

theorem after_append (rs : Recordings) (l l' : List (String × HookCall)) :
    rs.after (l ++ l') = (rs.after l).after l' := List.foldl_append ..

theorem Quiet.after {rs : Recordings} (h : rs.Quiet) (l : List (String × HookCall)) :
    (rs.after l).Quiet := by
  induction l generalizing rs with
  | nil => exact h
  | cons c l ih => exact ih (h.onHook c.1 c.2 0).2

end Recordings

/-! ### Frames of the unit's own classes -/

theorem LinkedClass.method?_of_mem {mode : Verifier.Mode} {c : ClassFile}
    (hc : Verifier.check mode c = .ok ()) {m : LinkedMethod} (hm : m ∈ (ofClassFile c).methods) :
    (ofClassFile c).method? m.method.name = some m := by
  obtain ⟨n, hn, rfl⟩ := List.mem_map.1 hm
  have hsome : ((ofClassFile c).method? n.name).isSome :=
    List.find?_isSome.2 ⟨_, hm, beq_self_eq_true n.name⟩
  obtain ⟨m', hm'⟩ := Option.isSome_iff_exists.1 hsome
  obtain ⟨n', hn', rfl⟩ := List.mem_map.1 (method?_eq_some hm').1
  have hfound := List.find?_some hm'
  have hname : n'.name = n.name := eq_of_beq hfound
  obtain rfl := List.inj_on_of_nodup_map (Verifier.check_eq_ok_iff.1 hc).1 hn' hn hname
  exact hm'

theorem LoadingUnit.Built.findClass_made {u : LoadingUnit} (hu : u.Built) {name : String}
    {c : LinkedClass} (h : u.findClass name = some c) :
    ∃ cf, c = .ofClassFile cf ∧ cf.name = name ∧ Verifier.check .instrumented cf = .ok () := by
  obtain ⟨k, hk⟩ := findIn_eq_some_iff.1 h
  obtain ⟨l, hl, hclass⟩ := hk.defined
  obtain ⟨e, he, rfl⟩ := Option.map_eq_some_iff.1 hclass
  obtain ⟨_, _, _, _, c, c', hdefines, rfl⟩ := hu.made l (List.mem_of_getElem? hl) _ (getNamed?_mem he)
  exact ⟨c', rfl, (Instrumentation.name_instrumentAll hdefines.instrumented).trans hdefines.name_eq,
    hdefines.checked⟩

/-- **What a frame runs that belongs to the unit's own classes.** -/
theorem Frame.Found.method?_eq {u : LoadingUnit} (hu : u.Built) {f : Frame} (h : f.Found u)
    {c : LinkedClass} (hc : u.own.class? f.className = some c) :
    f.method ∈ c.methods ∧ c.method? f.method.method.name = some f.method := by
  obtain ⟨name, d, hfind, hname, hm⟩ := h
  obtain ⟨cf, rfl, rfl, hchecked⟩ := hu.findClass_made hfind
  have hname : cf.name = f.className := hname
  have hown : u.findClass cf.name = some c := by
    rw [hname, LoadingUnit.findClass, LoadingUnit.layers, LoadingUnit.findIn, hc]
  obtain rfl : LinkedClass.ofClassFile cf = c := Option.some.inj (hfind.symm.trans hown)
  exact ⟨hm, LinkedClass.method?_of_mem hchecked hm⟩

theorem Frame.Found.methodOf_eq {u : LoadingUnit} (hu : u.Built) {f : Frame} (h : f.Found u) :
    u.methodOf? f = if (u.own.class? f.className).isSome then some f.method else none := by
  unfold LoadingUnit.methodOf?
  cases hc : u.own.class? f.className with
  | none => rfl
  | some c => exact (h.method?_eq hu hc).2

/-- Behind an instruction that is no hook, control is in a frame that has been called, or has settled. -/
theorem Concludes.settled {t : Task} {now : Nat} {f : Frame} {outer : List Frame} {o : Outcome} {u : Turn}
    (h : Concludes t now f outer o u) (hnext : ∀ s g, o = .next s g → g.Settled)
    (hwait : ∀ s g w, o = .wait s g w → g.Settled) (houter : ∀ g ∈ outer, g.InCall) {g : Frame}
    {rest : List Frame} (hu : u.frames = g :: rest) :
    (rest.length = (f :: outer).length ∧ ∃ s f', o = .call s f' g) ∨
      (rest.length ≤ outer.length ∧ g.Settled) := by
  cases h with
  | raised _ hunwinds =>
    -- a frame that goes on behind a handler stands at the handler's label
    cases hunwinds with
    | uncatchable _ => cases hu
    | uncaught _ _ => cases hu
    | @caught inner outer' g' place target id h s' _ hframes _ _ htarget _ =>
      obtain ⟨rfl, rfl⟩ := List.cons.inj hu
      refine .inr ⟨?_, .inl ⟨_, htarget.stands⟩⟩
      have hlength := congrArg List.length (eq_append_of_executing hframes)
      simp only [List.length_cons, List.length_append, List.length_map] at hlength ⊢
      omega
  | fault s e => cases hu
  | next s g' =>
    obtain ⟨rfl, rfl⟩ := List.cons.inj hu
    exact .inr ⟨Nat.le_refl _, hnext s _ rfl⟩
  | call s g' callee _ =>
    obtain ⟨rfl, rfl⟩ := List.cons.inj hu
    exact .inl ⟨rfl, s, g', rfl⟩
  | finished s v _ => cases hu
  | returned s v g' rest' hrest =>
    -- a caller stands behind its call
    subst hrest
    obtain ⟨rfl, rfl⟩ := List.cons.inj hu
    refine .inr ⟨Nat.le_succ _, ?_⟩
    have hcall : g'.Settled := (houter g' (by simp)).settled
    cases v with
    | none => exact hcall
    | some v => exact hcall
  | sleep s g' millis =>
    obtain ⟨rfl, rfl⟩ := List.cons.inj hu
    exact .inr ⟨Nat.le_refl _, hwait s _ _ rfl⟩
  | join s g' index =>
    obtain ⟨rfl, rfl⟩ := List.cons.inj hu
    exact .inr ⟨Nat.le_refl _, hwait s _ _ rfl⟩

/-- The frames become one more by a call only. -/
theorem Concludes.entered {t : Task} {now : Nat} {f : Frame} {outer : List Frame} {o : Outcome} {u : Turn}
    (h : Concludes t now f outer o u) {g : Frame} {rest : List Frame} (hu : u.frames = g :: rest)
    (hlength : rest.length = (f :: outer).length) : ∃ s f', o = .call s f' g ∧ rest = f' :: outer := by
  cases h with
  | raised _ hunwinds =>
    cases hunwinds with
    | uncatchable _ => cases hu
    | uncaught _ _ => cases hu
    | @caught inner outer' g' place target id h s' _ hframes _ _ _ _ =>
      obtain ⟨rfl, rfl⟩ := List.cons.inj hu
      have hframes := congrArg List.length (eq_append_of_executing hframes)
      simp only [List.length_cons, List.length_append, List.length_map] at hframes hlength
      omega
  | fault s e => cases hu
  | next s g' | sleep s g' _ | join s g' _ =>
    obtain ⟨rfl, rfl⟩ := List.cons.inj hu
    simp at hlength
  | call s g' callee _ =>
    obtain ⟨rfl, rfl⟩ := List.cons.inj hu
    exact ⟨s, g', rfl, rfl⟩
  | finished s v _ => cases hu
  | returned s v g' rest' hrest =>
    subst hrest
    obtain ⟨rfl, rfl⟩ := List.cons.inj hu
    simp only [List.length_cons] at hlength
    omega

/-- A real instruction that is no hook settles its frame, if control stays in it. -/
theorem Outcome.Sized.settled {i : Instruction} {f : Frame} {o : Outcome}
    (h : o.Sized i { f with next := f.next + 1 }) (hi : f.method.code[f.next]? = some i)
    (hmark : i.isMark = false) (hhook : i.isHook = false) {u : LoadingUnit} (hf : f.Sound u) :
    (∀ s g, o = .next s g → g.Settled) ∧ ∀ s g w, o = .wait s g w → g.Settled := by
  have moves : ∀ {g : Frame}, Frame.Moves { f with next := f.next + 1 } g → g.Settled := by
    intro g hg
    exact .inr ⟨f.next, i, hg.next, by rw [hg.method]; exact hi, hmark, hhook⟩
  constructor
  · rintro s g rfl
    cases h with
    | next h _ => exact moves h
    | jumped hl hm hp _ =>
      obtain ⟨place, hplace, -⟩ := hf.jump i (Array.mem_of_getElem? hi) _ hl
      have hnext : f.method.place? _ = some g.next := hp
      obtain rfl := Option.some.inj (hplace.known.symm.trans hnext)
      exact .inl ⟨_, by rw [hm]; exact hplace.stands⟩
  · rintro s g w rfl
    cases h with
    | wait _ h => exact moves h

/-! ### A thread that runs alone -/

theorem Activity.kill?_of_not_hook {f : Frame} {outer : List Frame} {s : TaskState} (thread : Nat)
    (hi : ∀ i, f.method.code[f.next]? = some i → i.isHook = false) :
    (running (f :: outer)).kill? thread s = none := by
  refine Option.bind_eq_none_iff.2 fun x hx => ?_
  simp only [instruction?] at hx
  split at hx
  · cases hx
  · obtain ⟨i, hcode, rfl⟩ := Option.map_eq_some_iff.1 hx
    have hhook := hi i hcode
    cases i <;> first | rfl | cases hhook

namespace Solo

variable {σ : Type}

def frames (x : Solo σ) : List Frame :=
  match x.stand with
  | .running frames => frames
  | .ended _ => []

variable (t : Task) (answer : (r : HostRequest) → StateM σ r.Answer)

/-- The frame of the method that the next step enters, if it enters one. -/
def entered? (x : Solo σ) : Option Frame :=
  match (x.step t answer).frames with
  | [] => none
  | g :: rest => if rest.length = x.frames.length then some g else none

/-- The calls that belong to the next step of the thread: those that belong to its instruction, and those of the hooks at
the start of a method that it enters. -/
def calls (u : LoadingUnit) (x : Solo σ) : List (String × HookCall) :=
  match x.frames with
  | [] => []
  | f :: _ => u.passing t x.shared f ++ ((x.entered? t answer).map u.ahead).getD []

def ahead (u : LoadingUnit) (x : Solo σ) : List (String × HookCall) :=
  ((x.frames.head?).map u.ahead).getD []

/-- What a step comes to is what a turn may come to. -/
theorem exists_turn {x : Solo σ} {f : Frame} {outer : List Frame} (hx : x.stand = .running (f :: outer))
    (hc : x.shared.cancelled = false) :
    ∃ o, (Step.frame t 0 x.shared f).MayCome o ∧
      (x.step t answer).frames = (Turn.ofProgress 0 (Activation.finish t outer o)).frames ∧
      (x.step t answer).shared = (Turn.ofProgress 0 (Activation.finish t outer o)).shared := by
  have hstep : Activation.step t 0 x.shared (f :: outer) =
      (Step.frame t 0 x.shared f).map (Activation.finish t outer) := by
    simp [Activation.step, hc]
  rw [step_of_running t answer hx, hstep, Query.answered_map]
  refine ⟨_, Query.mayCome_answered answer (Step.frame t 0 x.shared f) x.host, ?_⟩
  generalize Activation.finish t outer _ = p
  cases p with
  | running s fs => exact ⟨rfl, rfl⟩
  | waiting s fs w => cases w <;> exact ⟨rfl, rfl⟩
  | ended s r => exact ⟨rfl, rfl⟩

variable {t answer} {u : LoadingUnit} {x : Solo σ} {f : Frame} {outer : List Frame}

theorem frames_of_stand {fs : List Frame} (h : x.stand = .running fs) : x.frames = fs := by
  rw [frames, h]

theorem Reaches.found (hu : t.unit.Built) (hx : x.Reaches t) : ∀ g ∈ x.frames, g.Found t.unit := by
  unfold frames
  cases hstand : x.stand with
  | running fs => exact (hx fs hstand).found hu
  | ended r => simp

theorem ahead_of_frames {rest : List Frame} (h : x.frames = f :: rest) : x.ahead u = u.ahead f := by
  rw [ahead, h]
  rfl

theorem ahead_of_nil (h : x.frames = []) : x.ahead u = [] := by
  rw [ahead, h]
  rfl

theorem calls_of_frames (h : x.frames = f :: outer) : x.calls t answer u =
    u.passing t x.shared f ++ ((x.entered? t answer).map u.ahead).getD [] := by
  rw [calls, h]

theorem calls_of_nil (h : x.frames = []) : x.calls t answer u = [] := by
  rw [calls, h]

theorem entered?_of_frames {g : Frame} {rest : List Frame} (h : (x.step t answer).frames = g :: rest) :
    x.entered? t answer = if rest.length = x.frames.length then some g else none := by
  rw [entered?, h]

end Solo

theorem Frame.Found.codeOf_eq {u : LoadingUnit} (hu : u.Built) {f : Frame} (hf : f.Found u) :
    u.codeOf f = if (u.own.class? f.className).isSome then f.method.code.toList else [] := by
  rw [LoadingUnit.codeOf, hf.methodOf_eq hu]
  split <;> rfl

theorem Frame.Settled.ahead_eq {u : LoadingUnit} (hu : u.Built) (htidy : u.Tidy) {f : Frame}
    (hf : f.Found u) (h : f.Settled) : u.ahead f = [] := by
  rw [LoadingUnit.ahead, hf.codeOf_eq hu]
  cases hc : u.own.class? f.className with
  | none => simp
  | some c =>
    have hmethod := htidy f.className c hc f.method (hf.method?_eq hu hc).1
    simp [hooksAt_of_not_hookAt (h.not_hookAt hmethod)]

/-- At an instruction that is no hook, the calls behind it are ahead as soon as it is executed. -/
theorem LoadingUnit.passing_eq {u : LoadingUnit} (hu : u.Built) {t : Task} {s : TaskState} {f : Frame}
    (hf : f.Found u) {i : Instruction} (hi : f.method.code[f.next]? = some i) (hhook : i.isHook = false) :
    u.passing t s f =
      if f.executes t s then u.ahead { f with next := f.next + 1 } else [] := by
  have hnone : f.method.code[f.next]?.bind f.hookCall? = none := by
    rw [hi]
    cases i <;> first | rfl | cases hhook
  have hcall : Frame.hookCall? { f with next := f.next + 1 } = f.hookCall? := rfl
  have hf' : Frame.Found u { f with next := f.next + 1 } := hf
  rw [passing, hnone, ahead, hf'.codeOf_eq hu, hf.codeOf_eq hu, hcall]
  dsimp only
  split
  · split
    · have hi' : f.method.code.toList[f.next]? = some i := by rw [Array.getElem?_toList]; exact hi
      rw [hooksAt_succ (List.getElem?_eq_some_iff.1 hi').1 (by simp [hookAt, hi', hhook])]
    · simp [hooksBehind]
  · rfl

namespace Solo

variable {σ : Type} {t : Task} {answer : (r : HostRequest) → StateM σ r.Answer} {x : Solo σ} {f : Frame}
  {outer : List Frame}

theorem step_of_no_frames (hx : x.stand = .running []) (hc : x.shared.cancelled = false) :
    (x.step t answer).frames = [] ∧ (x.step t answer).shared = x.shared := by
  have hended : Activation.step t 0 x.shared [] = .done (.ended x.shared (.ok .null)) := by
    simp [Activation.step, hc]
  rw [step_of_running t answer hx, hended]
  exact ⟨rfl, rfl⟩

theorem entered?_of_nil (hc : x.shared.cancelled = false) (h : x.frames = []) : x.entered? t answer = none := by
  have hnew : (x.step t answer).frames = [] := by
    cases hx : x.stand with
    | ended r => rw [step_of_ended t answer hx, h]
    | running fs =>
      obtain rfl : fs = [] := (frames_of_stand hx).symm.trans h
      exact (step_of_no_frames hx hc).1
  rw [entered?, hnew]

/-- A method is entered by a call. -/
theorem call_of_entered (hu : t.unit.Built) (hr : x.Reaches t) (hc : x.shared.cancelled = false) {g : Frame}
    (h : x.entered? t answer = some g) : ∃ f outer s f', x.frames = f :: outer ∧
      (Step.frame t 0 x.shared f).MayCome (.call s f' g) ∧ (x.step t answer).frames = g :: f' :: outer := by
  have hne : x.frames ≠ [] := fun hnil => by simp [entered?_of_nil hc hnil] at h
  cases hx : x.stand with
  | ended r => exact absurd (by rw [frames, hx]) hne
  | running fs =>
    have hold := frames_of_stand hx
    cases fs with
    | nil => exact absurd hold hne
    | cons f outer =>
      obtain ⟨o, ho, hframes, -⟩ := exists_turn t answer hx hc
      have hconcludes := Activity.concludes_of_mayCome ((hr _ hx).proper hu) ho 0
      cases hnew : (x.step t answer).frames with
      | nil => simp [entered?, hnew] at h
      | cons g' rest =>
        rw [entered?_of_frames hnew, hold] at h
        split at h
        · next hlength =>
          obtain rfl := Option.some.inj h
          obtain ⟨s, f', rfl, rfl⟩ := hconcludes.entered (hframes ▸ hnew) hlength
          exact ⟨f, outer, s, f', hold, ho, rfl⟩
        · cases h

theorem next_of_call {s s' : TaskState} {f' g : Frame} {thread : Nat}
    (h : (Step.frame t thread s f).MayCome (.call s' f' g)) : g.next = 0 := by
  have hwithin := (Step.frame_bounded t thread s f).of_mayCome h
  generalize f.nextWrites = writes at hwithin
  cases hwithin with
  | call _ _ hg =>
    obtain ⟨c, name, arguments, want, -, hcall⟩ := hg
    obtain ⟨m, -, rfl⟩ := Frame.forCall_eq_ok hcall
    rfl

theorem found_of_entered (hu : t.unit.Built) (hr : x.Reaches t) (hc : x.shared.cancelled = false) {g : Frame}
    (h : x.entered? t answer = some g) : g.Found t.unit ∧ g.next = 0 := by
  obtain ⟨f, outer, s, f', -, hcall, hnew⟩ := call_of_entered hu hr hc h
  exact ⟨(reaches_step t answer hr).found hu g (by simp [hnew]), next_of_call hcall⟩

/-- **A hook makes its call**, and control goes on behind it. -/
theorem step_hook (hx : x.stand = .running (f :: outer)) (hc : x.shared.cancelled = false)
    (hq : x.shared.recordings.Quiet) {tracer name : String} {operands : List HookOperand}
    (hi : f.method.code[f.next]? = some (.hook tracer name operands)) :
    (x.step t answer).frames = { f with next := f.next + 1 } :: outer ∧
      (x.step t answer).shared = { x.shared with
        recordings := (x.shared.recordings.onHook tracer ⟨name, operands.map f.operand⟩ 0).2 } := by
  obtain ⟨o, ho, hframes, hshared⟩ := exists_turn t answer hx hc
  have hframe : Step.frame t 0 x.shared f = .done (.next { x.shared with
      recordings := (x.shared.recordings.onHook tracer ⟨name, operands.map f.operand⟩ 0).2 }
      { f with next := f.next + 1 }) := by
    have hoperands : operands.map (Frame.operand { f with next := f.next + 1 }) =
        operands.map f.operand := rfl
    simp only [Step.frame, hi, Step.instruction, Step.hook, hoperands, (hq.onHook tracer _ 0).1]
    rfl
  rw [hframe] at ho
  obtain rfl := Query.mayCome_done_iff.1 ho
  exact ⟨hframes, hshared⟩

/-- **Another instruction records nothing.** -/
theorem recordings_of_not_hook (hx : x.stand = .running (f :: outer)) (hc : x.shared.cancelled = false)
    (hi : ∀ i, f.method.code[f.next]? = some i → i.isHook = false) :
    (x.step t answer).shared.recordings = x.shared.recordings ∧ (x.step t answer).shared.cancelled = false := by
  have hno : ¬ Activation.AtHook (f :: outer) := by
    rintro ⟨f', outer', tracer, name, operands, heq, hhook⟩
    obtain ⟨rfl, rfl⟩ := List.cons.inj heq
    cases hi _ hhook
  obtain ⟨o, ho, -, hshared⟩ := exists_turn t answer hx hc
  have hturn : (Activity.turn t 0 0 x.shared (.running (f :: outer))).MayCome
      (Turn.ofProgress 0 (Activation.finish t outer o)) := by
    rw [Activity.turn_running hc]
    exact ho.map _
  have hcourse := ((Activity.turn_course t 0 0 x.shared _).of_mayCome hturn).course.cancelled
  refine ⟨(told_step_self (step_told t answer hx fun _ => hno)).1, ?_⟩
  rw [hshared, hcourse, hc, Activity.kill?_of_not_hook 0 hi]
  rfl

section Ahead

variable (hu : t.unit.Built) (hr : x.Reaches t) (hx : x.stand = .running (f :: outer))
  (hc : x.shared.cancelled = false)

include hu hr hx

/-- A step that passes no hooks and settles the frame leaves none ahead, unless it enters a method. -/
theorem calls_of_settled (htidy : t.unit.Tidy) {o : Outcome} (ho : (Step.frame t 0 x.shared f).MayCome o)
    (hframes : (x.step t answer).frames = (Turn.ofProgress 0 (Activation.finish t outer o)).frames)
    (hpass : t.unit.passing t x.shared f = [])
    (hsettled : (∀ s g, o = .next s g → g.Settled) ∧ ∀ s g w, o = .wait s g w → g.Settled) :
    x.calls t answer t.unit = (x.step t answer).ahead t.unit := by
  have hreach := hr _ hx
  have hold := frames_of_stand hx
  rw [calls_of_frames hold, hpass, List.nil_append]
  cases hnew : (x.step t answer).frames with
  | nil => simp [entered?, ahead, hnew]
  | cons g rest =>
    have hfound := (reaches_step t answer hr).found hu g (by simp [hnew])
    have hconcludes := Activity.concludes_of_mayCome (hreach.proper hu) ho 0
    rw [entered?_of_frames hnew, ahead_of_frames hnew, hold]
    rcases hconcludes.settled hsettled.1 hsettled.2 (hreach.inCall hu) (hframes ▸ hnew) with
      ⟨hcalled, -⟩ | ⟨hrest, hg⟩
    · simp [hcalled]
    · have hne : rest.length ≠ (f :: outer).length := by
        simp only [List.length_cons]
        omega
      rw [if_neg hne, hg.ahead_eq hu htidy hfound]
      rfl

include hc

theorem calls_of_passed {i : Instruction} (hcode : f.method.code[f.next]? = some i) (hhook : i.isHook = false)
    (hdone : Step.frame t 0 x.shared f = .done (.next x.shared { f with next := f.next + 1 })) :
    x.calls t answer t.unit = (x.step t answer).ahead t.unit := by
  have hold := frames_of_stand hx
  have hf : f.Found t.unit := hr.found hu f (by simp [hold])
  obtain ⟨o, ho, hframes, -⟩ := exists_turn t answer hx hc
  rw [hdone] at ho
  obtain rfl := Query.mayCome_done_iff.1 ho
  have hnew : (x.step t answer).frames = { f with next := f.next + 1 } :: outer := hframes
  have hexecutes : f.executes t x.shared = true := by simp [Frame.executes, hdone]
  rw [calls_of_frames hold, LoadingUnit.passing_eq hu hf hcode hhook, if_pos hexecutes,
    entered?_of_frames hnew, ahead_of_frames hnew, hold]
  simp

theorem calls_of_real (htidy : t.unit.Tidy) {i : Instruction} (hcode : f.method.code[f.next]? = some i)
    (hhook : i.isHook = false) (hmark : i.isMark = false) :
    x.calls t answer t.unit = (x.step t answer).ahead t.unit := by
  have hf : f.Found t.unit := hr.found hu f (by simp [frames_of_stand hx])
  obtain ⟨m, hm⟩ := (hr _ hx).proper hu f (by simp [Activity.frames])
  obtain ⟨o, ho, hframes, -⟩ := exists_turn t answer hx hc
  have hinstruction : (Step.instruction t 0 x.shared { f with next := f.next + 1 } i).MayCome o := by
    rw [Step.frame, hcode] at ho
    exact ho
  refine calls_of_settled hu hr hx htidy ho hframes ?_
    (((Step.instruction_sized 0 i).of_mayCome hinstruction).settled hcode hmark hhook hm.sound)
  have hbehind : Frame.Settled { f with next := f.next + 1 } := .inr ⟨f.next, i, rfl, hcode, hmark, hhook⟩
  have hf' : Frame.Found t.unit { f with next := f.next + 1 } := hf
  rw [LoadingUnit.passing_eq hu hf hcode hhook, hbehind.ahead_eq hu htidy hf', ite_self]

/-- **What is ahead of a thread behind an instruction that is no hook** belongs to the step. -/
theorem calls_of_not_hook (htidy : t.unit.Tidy) (hi : ∀ i, f.method.code[f.next]? = some i → i.isHook = false) :
    x.calls t answer t.unit = (x.step t answer).ahead t.unit := by
  have hf : f.Found t.unit := hr.found hu f (by simp [frames_of_stand hx])
  obtain ⟨o, ho, hframes, -⟩ := exists_turn t answer hx hc
  cases hcode : f.method.code[f.next]? with
  | none =>
    have hframe : Step.frame t 0 x.shared f = .done (.ret x.shared none) := by
      rw [Step.frame, hcode]
      rfl
    obtain rfl := Query.mayCome_done_iff.1 (hframe ▸ ho)
    refine calls_of_settled hu hr hx htidy ho hframes ?_ ⟨by simp, by simp⟩
    simp [LoadingUnit.passing, hcode, Frame.executes, hframe]
  | some i =>
    have hhook := hi i hcode
    have hframe : Step.frame t 0 x.shared f = Step.instruction t 0 x.shared { f with next := f.next + 1 } i := by
      rw [Step.frame, hcode]
    cases i with
    | label l => exact calls_of_passed hu hr hx hc hcode hhook hframe
    | lineNumber n l => exact calls_of_passed hu hr hx hc hcode hhook hframe
    | frame depth =>
      by_cases hdepth : f.stack.size = depth.toNat
      · refine calls_of_passed hu hr hx hc hcode hhook (hframe.trans ?_)
        simp [Step.instruction, hdepth, Step.next]
      · have hraise : Step.frame t 0 x.shared f = _ := hframe.trans (if_neg hdepth)
        obtain rfl := Query.mayCome_done_iff.1 (hraise ▸ ho)
        refine calls_of_settled hu hr hx htidy ho hframes ?_ ⟨by simp, by simp⟩
        rw [LoadingUnit.passing_eq hu hf hcode hhook]
        simp [Frame.executes, hraise, Step.raise]
    | _ => exact calls_of_real hu hr hx hc htidy hcode hhook rfl

end Ahead

/-- A hook belongs to the step if it is of a class that is not the unit's own. -/
theorem calls_at_hook (hu : t.unit.Built) (hr : x.Reaches t) (hx : x.stand = .running (f :: outer))
    (hc : x.shared.cancelled = false) (hq : x.shared.recordings.Quiet) {tracer name : String}
    {operands : List HookOperand} (hi : f.method.code[f.next]? = some (.hook tracer name operands)) :
    x.calls t answer t.unit = if (t.unit.own.class? f.className).isSome then []
      else [(tracer, ⟨name, operands.map f.operand⟩)] := by
  obtain ⟨hnew, -⟩ := @step_hook _ t answer _ _ _ hx hc hq _ _ _ hi
  have hframes := frames_of_stand hx
  have hf : f.Found t.unit := hr.found hu f (by simp [hframes])
  have hlength : ¬ outer.length = x.frames.length := by simp [hframes]
  rw [calls_of_frames hframes, entered?_of_frames hnew, if_neg hlength, LoadingUnit.passing, hi,
    hf.methodOf_eq hu]
  cases t.unit.own.class? f.className <;> simp [Frame.hookCall?]

/-- A hook of one of the unit's own classes is ahead of its frame. -/
theorem calls_of_hook (hu : t.unit.Built) (hr : x.Reaches t) (hx : x.stand = .running (f :: outer))
    (hc : x.shared.cancelled = false) (hq : x.shared.recordings.Quiet) {tracer name : String}
    {operands : List HookOperand} (hi : f.method.code[f.next]? = some (.hook tracer name operands)) :
    x.ahead t.unit ++ x.calls t answer t.unit =
      (tracer, ⟨name, operands.map f.operand⟩) :: (x.step t answer).ahead t.unit := by
  obtain ⟨hnew, -⟩ := @step_hook _ t answer _ _ _ hx hc hq _ _ _ hi
  have hframes := frames_of_stand hx
  have hf : f.Found t.unit := hr.found hu f (by simp [hframes])
  have hf' : Frame.Found t.unit { f with next := f.next + 1 } := hf
  have hhook : hooksAt f.method.code.toList f.next =
      .hook tracer name operands :: hooksAt f.method.code.toList (f.next + 1) :=
    hooksAt_of_hook (by rw [Array.getElem?_toList]; exact hi) rfl
  have hcall : Frame.hookCall? { f with next := f.next + 1 } = f.hookCall? := rfl
  rw [calls_at_hook hu hr hx hc hq hi, ahead_of_frames hframes, ahead_of_frames hnew, LoadingUnit.ahead,
    LoadingUnit.ahead, hf.codeOf_eq hu, hf'.codeOf_eq hu, hcall]
  cases t.unit.own.class? f.className with
  | none => simp
  | some c => simp [hhook, Frame.hookCall?]

/-- **What a step records** is what is ahead of the thread and what belongs to the step, but for what is still ahead
then. -/
theorem exists_recorded (hu : t.unit.Built) (htidy : t.unit.Tidy) (hr : x.Reaches t)
    (hc : x.shared.cancelled = false) (hq : x.shared.recordings.Quiet) :
    ∃ now, (x.step t answer).shared.recordings = x.shared.recordings.after now ∧
      x.ahead t.unit ++ x.calls t answer t.unit = now ++ (x.step t answer).ahead t.unit ∧
      (x.step t answer).shared.cancelled = false := by
  cases hx : x.stand with
  | ended r =>
    have hframes : x.frames = [] := by rw [frames, hx]
    rw [step_of_ended t answer hx]
    exact ⟨[], rfl, by rw [calls_of_nil hframes, List.append_nil]; rfl, hc⟩
  | running fs =>
    cases fs with
    | nil =>
      obtain ⟨hnew, hshared⟩ := @step_of_no_frames _ t answer _ hx hc
      have hframes := frames_of_stand hx
      rw [ahead_of_nil hframes, calls_of_nil hframes, ahead_of_nil hnew, hshared]
      exact ⟨[], rfl, rfl, hc⟩
    | cons f outer =>
      by_cases hhook : ∃ i, f.method.code[f.next]? = some i ∧ i.isHook = true
      · obtain ⟨i, hi, hhook⟩ := hhook
        cases i with
        | hook tracer name operands =>
          obtain ⟨-, hshared⟩ := @step_hook _ t answer _ _ _ hx hc hq _ _ _ hi
          rw [calls_of_hook hu hr hx hc hq hi, hshared]
          exact ⟨[_], rfl, rfl, hc⟩
        | _ => cases hhook
      · have hi : ∀ i, f.method.code[f.next]? = some i → i.isHook = false := by
          simpa using hhook
        obtain ⟨hrecordings, hcancelled⟩ := @recordings_of_not_hook _ t answer _ _ _ hx hc hi
        have hnone : x.ahead t.unit = [] := by
          have hf : f.Found t.unit := hr.found hu f (by simp [frames_of_stand hx])
          have hat : hookAt f.method.code.toList f.next = false := by
            cases hcode : f.method.code[f.next]? with
            | none => simp [hookAt, hcode]
            | some i => simp [hookAt, hcode, hi i hcode]
          rw [ahead_of_frames (frames_of_stand hx), LoadingUnit.ahead, hf.codeOf_eq hu]
          split
          · simp [hooksAt_of_not_hookAt hat]
          · simp
        rw [hnone, calls_of_not_hook hu hr hx hc htidy hi]
        exact ⟨[], hrecordings, rfl, hcancelled⟩

variable (t answer) in
/-- The calls that belong to the first steps of a thread, and those that are ahead of it when it starts. -/
def callsUpTo (u : LoadingUnit) (n : Nat) (x : Solo σ) : List (String × HookCall) :=
  x.ahead u ++ (List.range n).flatMap fun k => ((step t answer)^[k] x).calls t answer u

theorem callsUpTo_succ (u : LoadingUnit) (n : Nat) (x : Solo σ) : x.callsUpTo t answer u (n + 1) =
    x.callsUpTo t answer u n ++ ((step t answer)^[n] x).calls t answer u := by
  simp [callsUpTo, List.range_succ]

/-- **What has been recorded** after some steps, but for what is ahead of the thread, is what belongs to these steps. -/
theorem exists_recorded_iterate (hu : t.unit.Built) (htidy : t.unit.Tidy) (hr : x.Reaches t)
    (hc : x.shared.cancelled = false) (hq : x.shared.recordings.Quiet) (n : Nat) :
    ∃ done, ((step t answer)^[n] x).shared.recordings = x.shared.recordings.after done ∧
      done ++ ((step t answer)^[n] x).ahead t.unit = x.callsUpTo t answer t.unit n ∧
      ((step t answer)^[n] x).shared.cancelled = false := by
  induction n with
  | zero => exact ⟨[], rfl, by simp [callsUpTo], hc⟩
  | succ n ih =>
    obtain ⟨done, hrecordings, hdone, hcancelled⟩ := ih
    have hquiet := hrecordings ▸ hq.after done
    obtain ⟨now, hnow, hahead, hgoes⟩ := @exists_recorded _ t answer _ hu htidy
      (reaches_iterate t answer hr n) hcancelled hquiet
    rw [Function.iterate_succ_apply']
    refine ⟨done ++ now, ?_, ?_, hgoes⟩
    · rw [hnow, hrecordings, Recordings.after_append]
    · rw [callsUpTo_succ, ← hdone, List.append_assoc, List.append_assoc, ← hahead]

theorem live_iterate (hu : t.unit.Built) (htidy : t.unit.Tidy) (hr : x.Reaches t)
    (hc : x.shared.cancelled = false) (hq : x.shared.recordings.Quiet) (n : Nat) :
    ((step t answer)^[n] x).shared.cancelled = false := by
  obtain ⟨-, -, -, hgoes⟩ := @exists_recorded_iterate _ t answer _ hu htidy hr hc hq n
  exact hgoes

end Solo

end Confine
