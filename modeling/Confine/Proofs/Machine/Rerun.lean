import Confine.Machine.Thread
import Confine.Proofs.Machine.Renumbered

/-!
# The same instruction in two runs

Two runs of the same unit (`Rerun`) that agree but for the numbers of objects and exceptions, for the logs of others, and
for the classes that were loaded before them (`TaskState.Match`, `Frame.Match`), ask the host the same, and given
the same answers they agree again.  The only way to tell them apart is to turn an object into text: what may not be an
object is listed by `Frame.shown`.

Main statement: `Step.instruction_match`.
-/

namespace Confine

variable {z : Rerun}

/-! ### Lists in step -/

section Lists

variable {α β : Type} {R : α → β → Prop} {l : List α} {l' : List β}

theorem forall₂_getElem? (h : List.Forall₂ R l l') (i : Nat) : Option.Rel R l[i]? l'[i]? := by
  induction h generalizing i with
  | nil => exact .none
  | cons hr _ ih =>
    cases i with
    | zero => exact .some hr
    | succ i => exact ih i

theorem forall₂_set (h : List.Forall₂ R l l') (i : Nat) {a : α} {b : β} (hab : R a b) :
    List.Forall₂ R (l.set i a) (l'.set i b) := by
  induction h generalizing i with
  | nil => exact .nil
  | cons hr h ih =>
    cases i with
    | zero => exact .cons hab h
    | succ i => exact .cons hr (ih i)

end Lists

/-! ### Frames -/

/-- The frames are at the same place of the same method, and hold the same. -/
structure Frame.Match (z : Rerun) (f f' : Frame) : Prop where
  className : f'.className = f.className
  method : f'.method = f.method
  next : f'.next = f.next
  locals : List.Forall₂ (Value.Match z) f.locals.toList f'.locals.toList
  stack : f.stack.Match z f'.stack

namespace Frame.Match

variable {f f' : Frame} (h : f.Match z f')

include h

theorem withStack {s s' : OperandStack} (hs : s.Match z s') :
    (f.withStack s).Match z (f'.withStack s') := { h with stack := hs }

theorem at_ (n : Nat) : Frame.Match z { f with next := n } { f' with next := n } :=
  { h with next := rfl }

theorem load (i : UInt16) : Agree (Value.Match z) (f.load i) (f'.load i) := by
  have hrel := forall₂_getElem? h.locals i.toNat
  rw [Array.getElem?_toList, Array.getElem?_toList] at hrel
  unfold Frame.load
  generalize f.locals[i.toNat]? = o at hrel
  generalize f'.locals[i.toNat]? = o' at hrel
  cases hrel with
  | none => exact .error _
  | some hv => exact .ok hv

theorem store (i : UInt16) {v v' : Value} (hv : v.Match z v') :
    Agree (Frame.Match z) (f.store i v) (f'.store i v') := by
  have hsize : f'.locals.size = f.locals.size := by
    simpa using (List.Forall₂.length_eq h.locals).symm
  unfold Frame.store
  rw [hsize]
  split
  · refine .ok { h with locals := ?_ }
    rw [Array.toList_setIfInBounds, Array.toList_setIfInBounds]
    exact forall₂_set h.locals _ hv
  · exact .error _

theorem jump (l : Label) : Agree (Frame.Match z) (f.jump l) (f'.jump l) := by
  unfold Frame.jump
  rw [h.method]
  cases f.method.place? l with
  | none => exact .error _
  | some place => exact .ok { h with next := rfl, method := rfl }

theorem operand (o : HookOperand) : (f.operand o).Match z (f'.operand o) := by
  cases o with
  | constant c => exact .ofConstant c
  | slot i =>
    have hrel := forall₂_getElem? h.locals i.toNat
    rw [Array.getElem?_toList, Array.getElem?_toList] at hrel
    dsimp only [Frame.operand]
    generalize f.locals[i.toNat]? = o at hrel
    generalize f'.locals[i.toNat]? = o' at hrel
    cases hrel with
    | none => exact .null
    | some hv => exact hv

theorem handler? (kind : String) : f'.handler? kind = f.handler? kind := by
  unfold Frame.handler? Frame.place
  rw [h.method, h.next]

theorem enter (e : LinkedHandler) {v v' : Value} (hv : v.Match z v') :
    (f.enter e v).Match z (f'.enter e v') :=
  ⟨h.className, h.method, rfl, h.locals, .cons hv .nil⟩

end Frame.Match

theorem Frame.forCall_match (c : LinkedClass) (name : String) {arguments arguments' : List Value}
    (h : List.Forall₂ (Value.Match z) arguments arguments') (want : Option Bool) :
    Agree (Frame.Match z) (forCall c name arguments want) (forCall c name arguments' want) := by
  have hlength := h.length_eq
  unfold forCall
  cases c.method? name with
  | none => exact .error _
  | some m =>
    have hlocals : List.Forall₂ (Value.Match z) (localsFor m.method arguments).toList
        (localsFor m.method arguments').toList := by
      unfold localsFor
      rw [← hlength]
      refine List.forall₂_take _ (List.rel_append h ?_)
      exact List.forall₂_same.2 fun v hv => List.eq_of_mem_replicate hv ▸ .null
    dsimp only
    rw [← hlength]
    exact .guarded _ ⟨rfl, rfl, rfl, hlocals, .nil⟩

/-! ### Shared states -/

/-- The states agree, but for numbers, for the logs of others and for classes that were loaded before. -/
structure TaskState.Match (z : Rerun) (s s' : TaskState) : Prop where
  heap : s.heap.Match z s'.heap
  log : ∃ ds, s.confinements = z.confinements.recordAll z.task.capability ds ∧
    s'.confinements = z.confinements'.recordAll z.task'.capability ds
  sink : s'.sink = s.sink
  recordings : s.recordings.Match s'.recordings
  cancelled : s'.cancelled = s.cancelled
  killReason : s'.killReason = s.killReason
  nextThread : s'.nextThread = s.nextThread
  finished : s'.finished = s.finished
  starting : s'.starting = s.starting

/-- Which classes were loaded before does not matter to who loads one. -/
theorem LoadingUnit.loadIn_agree (name : String) (ls : List Layer) (sets sets' : List ClassSets) :
    Agree (fun p p' => p'.1 = p.1) (loadIn name ls sets) (loadIn name ls sets') := by
  induction ls generalizing sets sets' with
  | nil => exact .error _
  | cons l ls ih =>
    unfold loadIn
    dsimp only
    cases l.class? name with
    | some c => exact .ok rfl
    | none =>
      dsimp only
      split
      · have hrest := ih sets.tail sets'.tail
        generalize loadIn name ls sets.tail = q at hrest
        generalize loadIn name ls sets'.tail = q' at hrest
        cases hrest with
        | ok h => exact .ok h
        | error e => exact .error e
      · exact .error _

namespace TaskState.Match

variable {s s' : TaskState} (h : s.Match z s')

include h

theorem withHeap {heap heap' : Heap} (hh : heap.Match z heap') :
    TaskState.Match z { s with heap := heap } { s' with heap := heap' } := { h with heap := hh }

theorem record (p : Permission) (granted : Bool) :
    (s.record z.task p granted).Match z (s'.record z.task' p granted) := by
  obtain ⟨ds, hs, hs'⟩ := h.log
  refine { h with log := ⟨ds ++ [⟨p, granted⟩], ?_, ?_⟩ }
  · rw [Confinements.recordAll_append, ← hs]
    rfl
  · rw [Confinements.recordAll_append, ← hs']
    rfl

theorem check (hz : z.Fair) (p : Permission) : (s'.check z.task' p).1 = (s.check z.task p).1 ∧
    (s.check z.task p).2.Match z (s'.check z.task' p).2 := by
  obtain ⟨ds, hs, hs'⟩ := h.log
  have hallows : s'.confinements.allows z.task'.capability p =
      s.confinements.allows z.task.capability p := by
    rw [hs, hs', Confinements.allows_recordAll, Confinements.allows_recordAll, hz.allows]
  refine ⟨hallows, ?_⟩
  have hrecord := h.record p (s.confinements.allows z.task.capability p)
  unfold TaskState.check Confinements.check
  dsimp only
  rw [hallows]
  exact hrecord

theorem load (hz : z.Fair) (name : String) :
    Agree Eq (s.load z.task name).1 (s'.load z.task' name).1 ∧
      (s.load z.task name).2.Match z (s'.load z.task' name).2 := by
  have hloaded := LoadingUnit.loadIn_agree name z.task.unit.layers s.classSets s'.classSets
  have hrecorded : TaskState.Match z
      { s with confinements := (z.task.unit.loadClass s.classSets name
        (some z.task.capability) s.confinements).2 }
      { s' with confinements := (z.task.unit.loadClass s'.classSets name
        (some z.task'.capability) s'.confinements).2 } := by
    unfold LoadingUnit.loadClass
    dsimp only
    split
    · exact h.record (.loadClass name) false
    · exact h
  unfold TaskState.load
  rw [hz.unit]
  unfold LoadingUnit.loadClass at hrecorded ⊢
  dsimp only at hrecorded ⊢
  generalize LoadingUnit.loadIn name z.task.unit.layers s.classSets = q at hloaded
  generalize LoadingUnit.loadIn name z.task.unit.layers s'.classSets = q' at hloaded
  cases hloaded with
  | ok hc => exact ⟨.ok hc.symm, { hrecorded with }⟩
  | error e => exact ⟨.error _, hrecorded⟩

theorem write (c : Console) (text : String) (thread : Nat) (now : Time.Timestamp) :
    (s.write c text thread now).Match z (s'.write c text thread now) :=
  { h with sink := by simp only [TaskState.write, h.sink] }

theorem spawn (hz : z.Fair) (className methodName : String) :
    (s'.spawn z.task' className methodName).1 = (s.spawn z.task className methodName).1 ∧
      (s.spawn z.task className methodName).2.Match z
        (s'.spawn z.task' className methodName).2 := by
  have hlive : s'.liveThreads = s.liveThreads := by
    unfold liveThreads
    rw [h.nextThread, h.finished]
  unfold TaskState.spawn
  rw [h.cancelled, hlive, hz.maxExtraThreads]
  split
  · exact ⟨rfl, h⟩
  · have hrecord := h.record .createThread (s.liveThreads < z.task.maxExtraThreads)
    dsimp only
    split
    · exact ⟨by rw [hrecord.nextThread], { hrecord with
        nextThread := by dsimp only; rw [hrecord.nextThread]
        starting := by dsimp only; rw [hrecord.nextThread, hrecord.starting] }⟩
    · exact ⟨rfl, hrecord⟩

theorem kill (reason : String) : (s.kill reason).Match z (s'.kill reason) :=
  { h with cancelled := rfl, killReason := by simp only [TaskState.kill, h.killReason] }

theorem joinable (index : Nat) : s'.joinable index = s.joinable index := by
  unfold TaskState.joinable
  rw [h.nextThread]

end TaskState.Match

/-! ### Ends of instructions -/

/-- The values that an instruction turns into text. What the outermost frame returns, which is the `last`, is
shown in the result. -/
def Frame.shown (last : Bool) (f : Frame) : Instruction → List Value
  | .binary .concat => f.stack.values.take 2
  | .newException _ => f.stack.values.take 1
  | .retValue => if last then f.stack.values.take 1 else []
  | .host .print | .host .println | .host .eprint | .host .eprintln | .host .writeFile =>
    f.stack.values.take 1
  | .hook _ _ operands => operands.map f.operand
  | _ => []

inductive Raised.Match (z : Rerun) : Raised → Raised → Prop where
  | fresh (e : Exception) : Match z (.fresh e) (.fresh e)
  | value (i : Nat) (e : Exception) :
      Match z (.value (z.exceptions + i) e) (.value (z.exceptions' + i) e)

/-- What two instructions come to agrees. -/
inductive Outcome.Match (z : Rerun) (last : Bool) : Outcome → Outcome → Prop where
  | next {s s' : TaskState} {f f' : Frame} (hs : s.Match z s') (hf : f.Match z f') :
      Match z last (.next s f) (.next s' f')
  | call {s s' : TaskState} {f f' g g' : Frame} (hs : s.Match z s') (hf : f.Match z f')
      (hg : g.Match z g') : Match z last (.call s f g) (.call s' f' g')
  | ret {s s' : TaskState} {v v' : Option Value} (hs : s.Match z s')
      (hv : Option.Rel (Value.Match z) v v') (hshow : last = true → ∀ w ∈ v, z.CanShow w) :
      Match z last (.ret s v) (.ret s' v')
  | raise {s s' : TaskState} {f f' : Frame} {r r' : Raised} (hs : s.Match z s')
      (hf : f.Match z f') (hr : r.Match z r') : Match z last (.raise s f r) (.raise s' f' r')
  | fault {s s' : TaskState} (hs : s.Match z s') (e : Fault) :
      Match z last (.fault s e) (.fault s' e)
  | wait {s s' : TaskState} {f f' : Frame} (hs : s.Match z s') (hf : f.Match z f') (w : Wait) :
      Match z last (.wait s f w) (.wait s' f' w)

theorem OperandStack.mem_take_of_pop {s rest : OperandStack} {v : Value}
    (h : s.pop = .ok (v, rest)) : v ∈ s.values.take 1 := by
  rw [pop_eq_ok_iff.1 h]
  exact List.mem_cons_self

namespace Step

/-- The rest of two instructions asks the same, and given the same answers it comes to ends that agree. -/
abbrev Match (z : Rerun) (last : Bool) (q q' : Query Outcome) : Prop :=
  Query.Rel (Outcome.Match z last) q q'

variable {α β : Type} {last : Bool} {s s' : TaskState} {f f' : Frame}

section Parts

variable (hs : s.Match z s') (hf : f.Match z f')

include hs hf

theorem match_next : Match z last (next s f) (next s' f') := .done (.next hs hf)

theorem match_raise (e : Exception) : Match z last (raise s f (.fresh e)) (raise s' f' (.fresh e)) :=
  .done (.raise hs hf (.fresh e))

theorem match_attempt {R : α → β → Prop} {r : Except Exception α} {r' : Except Exception β}
    (hr : Agree R r r') {k : α → Query Outcome} {k' : β → Query Outcome}
    (hk : ∀ a b, r = .ok a → R a b → Match z last (k a) (k' b)) :
    Match z last (attempt s f r k) (attempt s' f' r' k') := by
  cases hr with
  | ok h => exact hk _ _ rfl h
  | error e => exact match_raise hs hf e

theorem match_push {stack stack' : OperandStack} (hstack : stack.Match z stack') {v v' : Value}
    (hv : v.Match z v') : Match z last (push s f stack v) (push s' f' stack' v') :=
  match_attempt hs hf (hstack.push hv) fun _ _ _ h => match_next hs (hf.withStack h)

theorem match_withClass (hz : z.Fair) (name : String)
    {k k' : TaskState → LinkedClass → Query Outcome}
    (hk : ∀ s s' c, s.Match z s' → Match z last (k s c) (k' s' c)) :
    Match z last (withClass z.task s f name k) (withClass z.task' s' f' name k') := by
  obtain ⟨hc, hs⟩ := hs.load hz name
  refine match_attempt hs hf hc fun c c' _ heq => ?_
  subst heq
  exact hk _ _ c hs

omit hf in
theorem match_fault (e : Fault) : Match z last (fault s e) (fault s' e) := .done (.fault hs e)

omit hf in
theorem match_require (hz : z.Fair) (p : Permission) {k k' : TaskState → Query Outcome}
    (hk : ∀ s s', s.Match z s' → Match z last (k s) (k' s')) :
    Match z last (require z.task s p k) (require z.task' s' p k') := by
  obtain ⟨hgranted, hs⟩ := hs.check hz p
  unfold require
  dsimp only
  rw [hgranted]
  split
  · exact hk _ _ hs
  · exact match_fault hs _

end Parts

/-! ### Host calls -/

section HostCalls

variable (hz : z.Fair) (hs : s.Match z s') (hf : f.Match z f')

include hs hf

theorem match_writeText (thread : Nat) (c : Console) (newline : Bool)
    (hshow : ∀ v ∈ f.stack.values.take 1, z.CanShow v) :
    Match z last (writeText s f thread c newline) (writeText s' f' thread c newline) := by
  refine match_attempt hs hf hf.stack.pop ?_
  rintro ⟨v, stack⟩ ⟨v', stack'⟩ hpop ⟨hv, hstack⟩
  have hshown : v'.shown = v.shown := hv.shown (hshow v (OperandStack.mem_take_of_pop hpop))
  dsimp only
  rw [hshown]
  exact .ask fun now => match_next (hs.write _ _ _ _) (hf.withStack hstack)

include hz

theorem match_readFile : Match z last (readFile z.task s f) (readFile z.task' s' f') := by
  refine match_attempt hs hf hf.stack.popText ?_
  rintro ⟨_, stack⟩ ⟨path, stack'⟩ - ⟨rfl, hstack⟩
  dsimp only
  rw [hz.unit]
  split
  · exact match_push (hs.record _ _) hf hstack (.text _)
  · exact match_fault (hs.record _ _) _

theorem match_writeFile (hshow : ∀ v ∈ f.stack.values.take 1, z.CanShow v) :
    Match z last (writeFile z.task s f) (writeFile z.task' s' f') := by
  refine match_attempt hs hf hf.stack.pop ?_
  rintro ⟨v, stack⟩ ⟨v', stack'⟩ hpop ⟨hv, hstack⟩
  have hshown : v'.shown = v.shown := hv.shown (hshow v (OperandStack.mem_take_of_pop hpop))
  refine match_attempt hs hf hstack.popText ?_
  rintro ⟨_, stack⟩ ⟨path, stack'⟩ - ⟨rfl, hstack⟩
  refine match_require hs hz _ fun s s' hs => ?_
  dsimp only
  rw [hshown]
  exact .ask fun
    | .ok () => match_next hs (hf.withStack hstack)
    | .error message => match_raise hs hf _

omit hz in
theorem match_pushText {stack stack' : OperandStack} (hstack : stack.Match z stack')
    (text : Option String) : Match z last (pushText s f stack text) (pushText s' f' stack' text) := by
  cases text with
  | none => exact match_push hs hf hstack .null
  | some x => exact match_push hs hf hstack (.text x)

theorem match_getEnv : Match z last (getEnv z.task s f) (getEnv z.task' s' f') := by
  refine match_attempt hs hf hf.stack.popText ?_
  rintro ⟨_, stack⟩ ⟨name, stack'⟩ - ⟨rfl, hstack⟩
  exact match_require hs hz _ fun s s' hs => .ask fun text => match_pushText hs hf hstack text

theorem match_getProperty : Match z last (getProperty z.task s f) (getProperty z.task' s' f') := by
  refine match_attempt hs hf hf.stack.popText ?_
  rintro ⟨_, stack⟩ ⟨name, stack'⟩ - ⟨rfl, hstack⟩
  refine match_require hs hz _ fun s s' hs => ?_
  by_cases hname : name = "user.dir"
  · simp only [hname, if_true]
    exact .ask fun dir => match_pushText hs hf hstack dir
  · simp only [hname, if_false]
    exact match_pushText hs hf hstack _

theorem match_exit : Match z last (exit z.task s f) (exit z.task' s' f') := by
  refine match_attempt hs hf hf.stack.popInt ?_
  rintro ⟨_, stack⟩ ⟨n, stack'⟩ - ⟨rfl, hstack⟩
  exact match_require hs hz _ fun s s' hs => match_next hs (hf.withStack hstack)

theorem match_spawn (className methodName : String) :
    Match z last (spawn z.task s f className methodName)
      (spawn z.task' s' f' className methodName) := by
  obtain ⟨hstarted, hs⟩ := hs.spawn hz className methodName
  unfold spawn
  dsimp only
  rw [hstarted]
  split
  · exact match_push hs hf hf.stack (.int _)
  · exact match_fault hs _

omit hz in
theorem match_join : Match z last (join s f) (join s' f') := by
  refine match_attempt hs hf hf.stack.popInt ?_
  rintro ⟨_, stack⟩ ⟨n, stack'⟩ - ⟨rfl, hstack⟩
  dsimp only
  split
  · exact match_raise hs hf _
  · rw [hs.joinable]
    split
    · exact .done (.wait hs (hf.withStack hstack) _)
    · exact match_raise hs hf _

omit hz in
theorem match_sleep : Match z last (sleep s f) (sleep s' f') := by
  refine match_attempt hs hf hf.stack.popInt ?_
  rintro ⟨_, stack⟩ ⟨n, stack'⟩ - ⟨rfl, hstack⟩
  dsimp only
  split
  · exact match_raise hs hf _
  · exact .done (.wait hs (hf.withStack hstack) _)

theorem match_loadClass : Match z last (loadClass z.task s f) (loadClass z.task' s' f') := by
  refine match_attempt hs hf hf.stack.popText ?_
  rintro ⟨_, stack⟩ ⟨name, stack'⟩ - ⟨rfl, hstack⟩
  exact match_withClass hs hf hz name fun s s' c hs => match_push hs hf hstack (.text _)

theorem match_host (thread : Nat) (call : HostCall)
    (hshow : ∀ v ∈ f.shown last (.host call), z.CanShow v) :
    Match z last (host z.task thread s f call) (host z.task' thread s' f' call) := by
  cases call with
  | print => exact match_writeText hs hf thread _ _ hshow
  | println => exact match_writeText hs hf thread _ _ hshow
  | eprint => exact match_writeText hs hf thread _ _ hshow
  | eprintln => exact match_writeText hs hf thread _ _ hshow
  | readFile => exact match_readFile hz hs hf
  | writeFile => exact match_writeFile hz hs hf hshow
  | getEnv => exact match_getEnv hz hs hf
  | getProperty => exact match_getProperty hz hs hf
  | exit => exact match_exit hz hs hf
  | setStreams => exact match_require hs hz _ fun s s' hs => match_next hs hf
  | spawn c m => exact match_spawn hz hs hf c m
  | join => exact match_join hs hf
  | sleep => exact match_sleep hs hf
  | time => exact .ask fun now => match_push hs hf hf.stack (.int _)
  | loadClass => exact match_loadClass hz hs hf

end HostCalls

/-! ### Other instructions -/

section Instructions

variable (hz : z.Fair) (hs : s.Match z s') (hf : f.Match z f')

include hs hf

theorem match_hook (thread : Nat) (tracer name : String) (operands : List HookOperand)
    (hshow : ∀ v ∈ operands.map f.operand, z.CanShow v) :
    Match z last (hook thread s f tracer name operands)
      (hook thread s' f' tracer name operands) := by
  have hsimilar : List.Forall₂ Value.Similar (operands.map f.operand)
      (operands.map f'.operand) := by
    refine List.forall₂_map_left_iff.2 (List.forall₂_map_right_iff.2 ?_)
    refine List.forall₂_same.2 fun o ho => (hf.operand o).similar (hshow _ ?_)
    exact List.mem_map_of_mem ho
  obtain ⟨hsignal, hrecordings⟩ := hs.recordings.onHook hsimilar tracer name thread
  have hs₁ : TaskState.Match z
      { s with recordings :=
        (s.recordings.onHook tracer ⟨name, operands.map f.operand⟩ thread).2 }
      { s' with recordings :=
        (s'.recordings.onHook tracer ⟨name, operands.map f'.operand⟩ thread).2 } :=
    { hs with recordings := hrecordings }
  unfold hook
  dsimp only
  rw [hsignal]
  split
  · exact match_next hs₁ hf
  · exact match_raise hs₁ hf _
  · exact match_fault (hs₁.kill _) _

include hz in
theorem match_invokeStatic (className name : String) :
    Match z last (invokeStatic z.task s f className name)
      (invokeStatic z.task' s' f' className name) := by
  refine match_withClass hs hf hz className fun s s' c hs => ?_
  dsimp only
  split
  · exact match_raise hs hf _
  · refine match_attempt hs hf (hf.stack.popMany _) fun p p' _ hp => ?_
    refine match_attempt hs hf (Frame.forCall_match c name hp.1 _) fun g g' _ hg => ?_
    exact .done (.call hs (hf.withStack hp.2) hg)

include hz in
theorem match_invokeVirtual (name : String) (arity : Nat) :
    Match z last (invokeVirtual z.task s f name arity)
      (invokeVirtual z.task' s' f' name arity) := by
  refine match_attempt hs hf (hf.stack.popMany arity) ?_
  rintro ⟨arguments, stack⟩ ⟨arguments', stack'⟩ - ⟨harguments, hstack⟩
  refine match_attempt hs hf hstack.popObject ?_
  rintro ⟨⟨id, c⟩, stack⟩ ⟨⟨id', c'⟩, stack'⟩ - ⟨⟨i, hid, hid'⟩, hc, hstack⟩
  dsimp only at hid hid' hc hstack ⊢
  subst hid hid' hc
  refine match_withClass hs hf hz _ fun s s' c hs => ?_
  refine match_attempt hs hf (Frame.forCall_match c name (.cons (.object i _) harguments) _)
    fun g g' _ hg => ?_
  exact .done (.call hs (hf.withStack hstack) hg)

theorem match_throw : Match z last (throw s f) (throw s' f') := by
  refine match_attempt hs hf hf.stack.pop ?_
  rintro ⟨v, stack⟩ ⟨v', stack'⟩ - ⟨hv, hstack⟩
  cases hv with
  | exception i e => exact .done (.raise hs hf (.value i e))
  | _ => exact match_raise hs hf _

theorem match_jumpOn (wanted : Bool) (l : Label) :
    Match z last (jumpOn s f wanted l) (jumpOn s' f' wanted l) := by
  refine match_attempt hs hf hf.stack.popBool ?_
  rintro ⟨_, stack⟩ ⟨b, stack'⟩ - ⟨rfl, hstack⟩
  have hf' := hf.withStack hstack
  dsimp only
  split
  · exact match_attempt hs hf' (hf'.jump l) fun g g' _ hg => match_next hs hg
  · exact match_next hs hf'

theorem match_binary (thread : Nat) (op : BinaryOp)
    (hshow : ∀ v ∈ f.shown last (.binary op), z.CanShow v) :
    Match z last (instruction z.task thread s f (.binary op))
      (instruction z.task' thread s' f' (.binary op)) := by
  refine match_attempt hs hf hf.stack.pop ?_
  rintro ⟨right, stack⟩ ⟨right', stack'⟩ hpop ⟨hright, hstack⟩
  refine match_attempt hs hf hstack.pop ?_
  rintro ⟨left, below⟩ ⟨left', below'⟩ hpop' ⟨hleft, hbelow⟩
  refine match_attempt hs hf (BinaryOp.apply_match op hleft hright ?_) fun v v' _ hv =>
    match_push hs hf hbelow hv
  rintro rfl
  have htop : f.stack.values.take 2 = [right, left] := by
    obtain rfl := OperandStack.pop_eq_ok_iff.1 hpop'
    rw [OperandStack.pop_eq_ok_iff.1 hpop]
    rfl
  simp only [Frame.shown, htop] at hshow
  exact ⟨hshow left (by simp), hshow right (by simp)⟩

include hz in
/-- **The same instruction in two runs.** -/
theorem instruction_match (thread : Nat) (i : Instruction)
    (hshow : ∀ v ∈ f.shown last i, z.CanShow v) :
    Match z last (instruction z.task thread s f i) (instruction z.task' thread s' f' i) := by
  have pushes {stack stack' : OperandStack} (hstack : stack.Match z stack') {v v' : Value}
      (hv : v.Match z v') : Match z last (push s f stack v) (push s' f' stack' v') :=
    match_push hs hf hstack hv
  have tries {α β : Type} {R : α → β → Prop} {r : Except Exception α} {r' : Except Exception β}
      (hr : Agree R r r') {k : α → Query Outcome} {k' : β → Query Outcome}
      (hk : ∀ a b, r = .ok a → R a b → Match z last (k a) (k' b)) :
      Match z last (attempt s f r k) (attempt s' f' r' k') := match_attempt hs hf hr hk
  cases i with
  | label l => exact match_next hs hf
  | lineNumber n l => exact match_next hs hf
  | frame depth =>
    unfold instruction
    dsimp only
    rw [hf.stack.size]
    split
    · exact match_next hs hf
    · exact match_raise hs hf _
  | push c => exact pushes hf.stack (.ofConstant c)
  | load i => exact tries (hf.load i) fun v v' _ hv => pushes hf.stack hv
  | store i =>
    refine tries hf.stack.pop fun p p' _ hp => ?_
    exact tries ((hf.withStack hp.2).store i hp.1) fun g g' _ hg => match_next hs hg
  | binary op => exact match_binary hs hf thread op hshow
  | neg =>
    refine tries hf.stack.popInt ?_
    rintro ⟨_, stack⟩ ⟨n, stack'⟩ - ⟨rfl, hstack⟩
    exact pushes hstack (.int _)
  | not =>
    refine tries hf.stack.popBool ?_
    rintro ⟨_, stack⟩ ⟨b, stack'⟩ - ⟨rfl, hstack⟩
    exact pushes hstack (.bool _)
  | dup =>
    refine tries hf.stack.pop fun p p' _ hp => ?_
    exact tries (hp.2.push hp.1) fun stack stack' _ hstack => pushes hstack hp.1
  | pop => exact tries hf.stack.pop fun p p' _ hp => match_next hs (hf.withStack hp.2)
  | swap =>
    refine tries hf.stack.pop fun top top' _ htop => tries htop.2.pop fun p p' _ hp => ?_
    exact tries (hp.2.push htop.1) fun stack stack' _ hstack => pushes hstack hp.1
  | jump l => exact tries (hf.jump l) fun g g' _ hg => match_next hs hg
  | jumpIf l => exact match_jumpOn hs hf true l
  | jumpIfNot l => exact match_jumpOn hs hf false l
  | invokeStatic c m => exact match_invokeStatic hz hs hf c m
  | invokeVirtual m n => exact match_invokeVirtual hz hs hf m n.toNat
  | new c =>
    unfold instruction
    refine match_withClass hs hf hz c fun s s' c hs => ?_
    obtain ⟨hv, hheap⟩ := hs.heap.newObject c.name
    exact match_push (hs.withHeap hheap) hf hf.stack hv
  | getField field =>
    refine tries hf.stack.popObject ?_
    rintro ⟨⟨id, c⟩, stack⟩ ⟨⟨id', c'⟩, stack'⟩ - ⟨⟨i, hid, hid'⟩, -, hstack⟩
    dsimp only at hid hid' hstack ⊢
    rw [hid, hid']
    exact pushes hstack (hs.heap.get i field)
  | putField field =>
    refine tries hf.stack.pop fun p p' _ hp => tries hp.2.popObject ?_
    rintro ⟨⟨id, c⟩, stack⟩ ⟨⟨id', c'⟩, stack'⟩ - ⟨⟨i, hid, hid'⟩, -, hstack⟩
    dsimp only at hid hid' hstack ⊢
    rw [hid, hid']
    exact match_next (hs.withHeap (hs.heap.set i field hp.1)) (hf.withStack hstack)
  | newException kind =>
    refine tries hf.stack.pop ?_
    rintro ⟨v, stack⟩ ⟨v', stack'⟩ hpop ⟨hv, hstack⟩
    -- the message is the value as it is shown, and the value may be shown
    have hshown : v'.shown = v.shown := hv.shown (hshow v (OperandStack.mem_take_of_pop hpop))
    have hmessage : (if v' = .null then "" else v'.shown) = if v = .null then "" else v.shown := by
      rw [if_congr hv.eq_null_iff rfl hshown]
    dsimp only
    rw [hmessage]
    obtain ⟨hv, hheap⟩ := hs.heap.newException (.of kind (if v = .null then "" else v.shown))
    exact match_push (hs.withHeap hheap) hf hstack hv
  | throw => exact match_throw hs hf
  | ret => exact .done (.ret hs .none (by simp))
  | retValue =>
    refine tries hf.stack.pop ?_
    rintro ⟨v, stack⟩ ⟨v', stack'⟩ hpop ⟨hv, hstack⟩
    -- the value of the last frame is the result, which the host shows
    refine .done (.ret hs (.some hv) fun hlast w hw => ?_)
    obtain rfl := Option.some.inj hw
    subst hlast
    exact hshow _ (OperandStack.mem_take_of_pop hpop)
  | host call => exact match_host hz hs hf thread call hshow
  | hook tracer name operands => exact match_hook hs hf thread tracer name operands hshow

end Instructions

end Step

end Confine
