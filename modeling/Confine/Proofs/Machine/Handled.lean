import Confine.Proofs.Machine.Course
import Confine.Proofs.Machine.Depths

/-!
# Which handler an exception comes to

* `LinkedMethod.Takes` — a handler, as its method declares it, takes exceptions of a kind at a place of the code;
* `Unwinds` — what becomes of the frames of a thread in which an exception is raised;
* `Concludes` — what becomes of them in each turn.

Main statement: `Task.Reaches.handled`.  In a unit that has been built, whatever a thread may come to, an exception goes to
the first handler of the innermost frame that has one for it, where control is; what must not be caught is not; and
faults and cancellation come to no handler.
-/

namespace Confine

/-! ### Handlers of a method -/

/-- The handler takes exceptions of a kind at a place: its labels stand around the place, and it is for all kinds, or
for this one. -/
def LinkedMethod.Takes (m : LinkedMethod) (kind : String) (place : Nat) (h : Handler) : Prop :=
  (∃ start stop, m.Stands h.start start ∧ m.Stands h.stop stop ∧ start ≤ place ∧ place < stop) ∧
    (h.kind = none ∨ h.kind = some kind)

/-- The handler is the first, in the order of declaration, that takes exceptions of a kind at a place. -/
def LinkedMethod.TakesFirst (m : LinkedMethod) (kind : String) (place : Nat) (h : Handler) : Prop :=
  m.Takes kind place h ∧ ∃ before after, m.method.handlers = before ++ h :: after ∧
    ∀ e ∈ before, ¬ m.Takes kind place e

section Handlers

variable {m : LinkedMethod} {kind : String} {place : Nat}

theorem LinkedMethod.Stands.unique {l : Label} {p q : Nat} (hp : m.Stands l p) (hq : m.Stands l q) :
    p = q := Option.some.inj (hp.known.symm.trans hq.known)

/-- A handler is resolved to the places where its labels stand. -/
def LinkedMethod.Resolves (m : LinkedMethod) (h : Handler) (r : LinkedHandler) : Prop :=
  m.Stands h.start r.start ∧ m.Stands h.stop r.stop ∧ m.Stands h.target r.target ∧ r.kind = h.kind

theorem LinkedMethod.Resolves.takes_iff {h : Handler} {r : LinkedHandler} (hr : m.Resolves h r) :
    m.Takes kind place h ↔ (decide (r.start ≤ place) && decide (place < r.stop) &&
      (match r.kind with
        | some k => k == kind
        | none => true)) = true := by
  obtain ⟨hstart, hstop, -, hkind⟩ := hr
  have hrange : (∃ start stop, m.Stands h.start start ∧ m.Stands h.stop stop ∧ start ≤ place ∧
      place < stop) ↔ r.start ≤ place ∧ place < r.stop := by
    constructor
    · rintro ⟨start, stop, hs, he, hle, hlt⟩
      obtain rfl := hs.unique hstart
      obtain rfl := he.unique hstop
      exact ⟨hle, hlt⟩
    · rintro ⟨hle, hlt⟩
      exact ⟨_, _, hstart, hstop, hle, hlt⟩
  rw [LinkedMethod.Takes, hrange, hkind]
  cases h.kind <;> simp

/-- What a search among the resolved handlers finds. -/
theorem LinkedMethod.find?_of_resolves {p : LinkedHandler → Bool} {handlers : List Handler}
    {resolved : List LinkedHandler}
    (hp : ∀ h r, m.Resolves h r → (m.Takes kind place h ↔ p r = true))
    (h : List.Forall₂ m.Resolves handlers resolved) :
    match resolved.find? p with
    | none => ∀ h ∈ handlers, ¬ m.Takes kind place h
    | some r => ∃ before h after, handlers = before ++ h :: after ∧ m.Resolves h r ∧
        m.Takes kind place h ∧ ∀ e ∈ before, ¬ m.Takes kind place e := by
  induction h with
  | nil => simp
  | @cons h r handlers resolved hr hrest ih =>
    by_cases ht : m.Takes kind place h
    · rw [List.find?_cons_of_pos ((hp h r hr).1 ht)]
      exact ⟨[], h, handlers, rfl, hr, ht, by simp⟩
    · rw [List.find?_cons_of_neg fun hc => ht ((hp h r hr).2 hc)]
      cases hfind : resolved.find? p with
      | none =>
        rw [hfind] at ih
        exact List.forall_mem_cons.2 ⟨ht, ih⟩
      | some r' =>
        rw [hfind] at ih
        obtain ⟨before, h', after, rfl, hr', ht', hbefore⟩ := ih
        exact ⟨h :: before, h', after, rfl, hr', ht', List.forall_mem_cons.2 ⟨ht, hbefore⟩⟩

end Handlers

namespace Frame

variable {u : LoadingUnit} {f : Frame} {kind : String}

/-- What the search of a frame of verified code finds. -/
theorem Sound.handler? (hf : f.Sound u) (kind : String) :
    match f.handler? kind with
    | none => ∀ e ∈ f.method.method.handlers, ¬ f.method.Takes kind f.place e
    | some r => ∃ e, f.method.TakesFirst kind f.place e ∧ f.method.Stands e.target r.target := by
  have hfind : match f.handler? kind with
    | none => ∀ e ∈ f.method.method.handlers, ¬ f.method.Takes kind f.place e
    | some r => ∃ before e after, f.method.method.handlers = before ++ e :: after ∧
        f.method.Resolves e r ∧ f.method.Takes kind f.place e ∧
          ∀ e ∈ before, ¬ f.method.Takes kind f.place e :=
    LinkedMethod.find?_of_resolves (fun e r hr => hr.takes_iff) hf.handlers
  cases h : f.handler? kind with
  | none => rwa [h] at hfind
  | some r =>
    rw [h] at hfind
    obtain ⟨before, e, after, hsplit, hr, ht, hbefore⟩ := hfind
    exact ⟨e, ⟨ht, before, after, hsplit, hbefore⟩, hr.2.2.1⟩

end Frame

/-! ### Frames of a thread -/

/-- The frames of a thread, innermost first, each with the place of the instruction that it executes. The innermost one
is about to execute its next instruction; those outside execute the call from which they wait. -/
def executing : List Frame → List (Frame × Nat)
  | [] => []
  | f :: outer => (f, f.next) :: outer.map fun g => (g, g.next - 1)

/-- The exception may not be caught in a unit: it says so, or the policy of the unit does. -/
def LoadingUnit.Protects (u : LoadingUnit) (e : Exception) : Prop :=
  e.uncatchable = true ∨ e.kind ∈ u.own.policy.fatalExceptions

/-- **What becomes of a thread in which an exception is raised** in the state `s`. -/
inductive Unwinds (t : Task) (s : TaskState) (r : Raised) (frames : List (Frame × Nat)) : Turn → Prop where
  /-- it may not be caught: it ends the thread -/
  | uncatchable (h : t.unit.Protects r.exception) :
      Unwinds t s r frames (.ended s (.error (.threw r.exception)))
  /-- the first handler of the innermost frame that has one takes it -/
  | caught {inner outer : List (Frame × Nat)} {g : Frame} {place target id : Nat} {h : Handler}
      {s' : TaskState} (hcatchable : ¬ t.unit.Protects r.exception)
      (hframes : frames = inner ++ (g, place) :: outer)
      (hinner : ∀ x ∈ inner, ∀ e ∈ x.1.method.method.handlers,
        ¬ x.1.method.Takes r.exception.kind x.2 e)
      (hfirst : g.method.TakesFirst r.exception.kind place h)
      (htarget : g.method.Stands h.target target)
      (hvalue : Activation.raisedValue s r = (.exception id r.exception, s')) :
      Unwinds t s r frames (.moved s' (.running
        ({ g with next := target, stack := .single (.exception id r.exception) } ::
          outer.map Prod.fst)))
  /-- no frame has a handler for it: it ends the thread -/
  | uncaught (hcatchable : ¬ t.unit.Protects r.exception)
      (hnone : ∀ x ∈ frames, ∀ e ∈ x.1.method.method.handlers,
        ¬ x.1.method.Takes r.exception.kind x.2 e) :
      Unwinds t s r frames (.ended s (.error (.threw r.exception)))

/-- The exception that an instruction raises in a thread of so many frames, and the state. One frame more than there
may be is an exception too. -/
def Outcome.raised? (depth : Nat) : Outcome → Option (TaskState × Raised)
  | raise s _ r => some (s, r)
  | call s _ _ =>
    if Frame.maxDepth ≤ depth then some (s, .fresh (.of "StackOverflowError" "")) else none
  | _ => none

/-- **What a turn at the time `now` makes of the frames of its thread**, after the instruction of the innermost frame
`f` has ended. -/
inductive Concludes (t : Task) (now : Nat) (f : Frame) (outer : List Frame) : Outcome → Turn → Prop where
  /-- an exception has been raised -/
  | raised {o : Outcome} {u : Turn} {s : TaskState} {r : Raised}
      (ho : o.raised? (f :: outer).length = some (s, r))
      (hu : Unwinds t s r (executing (f :: outer)) u) : Concludes t now f outer o u
  /-- a fault ends the thread -/
  | fault (s : TaskState) (e : Fault) :
      Concludes t now f outer (.fault s e) (.ended s (.error e))
  | next (s : TaskState) (g : Frame) :
      Concludes t now f outer (.next s g) (.moved s (.running (g :: outer)))
  | call (s : TaskState) (g callee : Frame) (h : (f :: outer).length < Frame.maxDepth) :
      Concludes t now f outer (.call s g callee) (.moved s (.running (callee :: g :: outer)))
  /-- the outermost method returns -/
  | finished (s : TaskState) (v : Option Value) (h : outer = []) :
      Concludes t now f outer (.ret s v) (.ended s (.ok (v.getD .null)))
  /-- a method returns to the one that has called it -/
  | returned (s : TaskState) (v : Option Value) (g : Frame) (rest : List Frame)
      (h : outer = g :: rest) : Concludes t now f outer (.ret s v)
        (.moved s (.running ((v.elim g fun v => g.withStack (g.stack.add v)) :: rest)))
  | sleep (s : TaskState) (g : Frame) (millis : Nat) :
      Concludes t now f outer (.wait s g (.sleep millis))
        (.moved s (.sleeping (g :: outer) (now + millis * 1000000)))
  | join (s : TaskState) (g : Frame) (index : Nat) :
      Concludes t now f outer (.wait s g (.join index)) (.moved s (.joining (g :: outer) index))

/-! ### Unwinding -/

namespace Activation

variable {t : Task}

theorem isFatal_iff {e : Exception} : isFatal t e = true ↔ t.unit.Protects e := by
  rw [isFatal, Bool.or_eq_true, LoadingPolicy.isFatal, List.contains_iff_mem, LoadingUnit.Protects]

/-- What a search for a handler finds in frames of verified code. -/
theorem findHandler?_spec {frames : List Frame} (hsound : ∀ f ∈ frames, f.Sound t.unit)
    (kind : String) :
    match findHandler? kind frames with
    | none => ∀ f ∈ frames, ∀ e ∈ f.method.method.handlers, ¬ f.method.Takes kind f.place e
    | some (g, r, outer) => ∃ inner e, frames = inner ++ g :: outer ∧
        (∀ f ∈ inner, ∀ e ∈ f.method.method.handlers, ¬ f.method.Takes kind f.place e) ∧
        g.method.TakesFirst kind g.place e ∧ g.method.Stands e.target r.target := by
  induction frames with
  | nil => simp [findHandler?]
  | cons f rest ih =>
    obtain ⟨hf, hrest⟩ := List.forall_mem_cons.1 hsound
    have hhandler := hf.handler? kind
    have ih := ih hrest
    unfold findHandler?
    cases h : f.handler? kind with
    | some r =>
      rw [h] at hhandler
      obtain ⟨e, hfirst, htarget⟩ := hhandler
      exact ⟨[], e, rfl, by simp, hfirst, htarget⟩
    | none =>
      rw [h] at hhandler
      cases hr : findHandler? kind rest with
      | none =>
        rw [hr] at ih
        exact List.forall_mem_cons.2 ⟨hhandler, ih⟩
      | some found =>
        rw [hr] at ih
        obtain ⟨inner, e, rfl, hinner, hfirst, htarget⟩ := ih
        -- an outer frame takes it, and those within it do not
        exact ⟨f :: inner, e, rfl, List.forall_mem_cons.2 ⟨hhandler, hinner⟩, hfirst, htarget⟩

/-- **Unwinding finds the handler that it should.** -/
theorem unwind_unwinds {frames : List Frame} (hsound : ∀ f ∈ frames, f.Sound t.unit) (now : Nat)
    (s : TaskState) (r : Raised) : Unwinds t s r (frames.map fun g => (g, g.place))
      (Turn.ofProgress now (unwind t s frames r)) := by
  have hfound := findHandler?_spec hsound r.exception.kind
  unfold unwind
  dsimp only
  by_cases hfatal : isFatal t r.exception = true
  · -- uncatchable: the frames are left without looking at them
    rw [if_pos hfatal]
    exact .uncatchable (isFatal_iff.1 hfatal)
  rw [if_neg hfatal]
  have hcatchable : ¬ t.unit.Protects r.exception := fun h => hfatal (isFatal_iff.2 h)
  cases hh : findHandler? r.exception.kind frames with
  | none =>
    rw [hh] at hfound
    exact .uncaught hcatchable (by simpa using hfound)
  | some found =>
    obtain ⟨g, h, outer⟩ := found
    rw [hh] at hfound
    obtain ⟨inner, e, rfl, hinner, hfirst, htarget⟩ := hfound
    have hsplit : (inner ++ g :: outer).map (fun g => (g, g.place)) =
        inner.map (fun g => (g, g.place)) ++ (g, g.place) :: outer.map fun g => (g, g.place) :=
      List.map_append
    have houter : (outer.map fun g => (g, g.place)).map Prod.fst = outer := by
      simp [Function.comp_def]
    obtain ⟨id, s', hvalue⟩ : ∃ id s', raisedValue s r = (.exception id r.exception, s') := by
      cases r <;> exact ⟨_, _, rfl⟩
    have hcaught := Unwinds.caught hcatchable hsplit (by simpa using hinner) hfirst htarget hvalue
    rw [houter] at hcaught
    dsimp only
    rw [hvalue]
    exact hcaught

end Activation

/-! ### Turns -/

/-- Only the method, the locals and the place of a frame matter for an exception. -/
theorem Unwinds.of_head {t : Task} {s : TaskState} {r : Raised} {f g : Frame} {place : Nat}
    {rest : List (Frame × Nat)} {u : Turn} (hg : g = { f with next := g.next, stack := g.stack })
    (h : Unwinds t s r ((g, place) :: rest) u) : Unwinds t s r ((f, place) :: rest) u := by
  have hmethod : g.method = f.method := by rw [hg]
  cases h with
  | uncatchable h => exact .uncatchable h
  | uncaught hcatchable hnone =>
    obtain ⟨hhead, hrest⟩ := List.forall_mem_cons.1 hnone
    exact .uncaught hcatchable (List.forall_mem_cons.2 ⟨by rwa [hmethod] at hhead, hrest⟩)
  | @caught inner outer g' place' target id h s' hcatchable hframes hinner hfirst htarget hvalue =>
    cases inner with
    | nil =>
      obtain ⟨hhead, rfl⟩ := List.cons.inj hframes
      obtain ⟨rfl, rfl⟩ := Prod.mk.inj hhead
      have hframe : ({ g with next := target, stack := .single (.exception id r.exception) } : Frame) =
          { f with next := target, stack := .single (.exception id r.exception) } := by rw [hg]
      rw [hmethod] at hfirst htarget
      rw [hframe]
      have hframes : (f, place) :: rest = [] ++ (f, place) :: rest := rfl
      exact .caught hcatchable hframes (by simp) hfirst htarget hvalue
    | cons x inner =>
      obtain ⟨rfl, rfl⟩ := List.cons.inj hframes
      obtain ⟨hhead, hrest⟩ := List.forall_mem_cons.1 hinner
      have hframes : (f, place) :: (inner ++ (g', place') :: outer) =
        ((f, place) :: inner) ++ (g', place') :: outer := rfl
      exact .caught hcatchable hframes
        (List.forall_mem_cons.2 ⟨by rwa [hmethod] at hhead, hrest⟩) hfirst htarget hvalue

namespace Activation

variable {t : Task} {f : Frame} {outer : List Frame}

/-- An exception in the frames behind an instruction goes where it should. -/
theorem unwind_executing (hproper : ∀ g ∈ f :: outer, ∃ m, g.Proper t.unit m) {g : Frame}
    (hg : g = ({ f with next := f.next + 1 } : Frame).withStack g.stack) (now : Nat) (s : TaskState)
    (r : Raised) : Unwinds t s r (executing (f :: outer))
      (Turn.ofProgress now (unwind t s (g :: outer) r)) := by
  have hnext : g.next = f.next + 1 := by rw [hg]; rfl
  have hsound : ∀ e ∈ g :: outer, e.Sound t.unit := by
    refine List.forall_mem_cons.2 ⟨?_, fun e he => ?_⟩
    · obtain ⟨m, hm⟩ := hproper f (by simp)
      have hkeeps : f.Keeps g := by
        rw [hg]
        exact ⟨rfl, rfl, rfl⟩
      exact (hm.of_keeps hkeeps).sound
    · obtain ⟨m, hm⟩ := hproper e (by simp [he])
      exact hm.sound
  have hunwinds := unwind_unwinds hsound now s r
  rw [List.map_cons, Frame.place, hnext] at hunwinds
  refine Unwinds.of_head (f := f) ?_ hunwinds
  rw [hg]
  rfl

/-- **The thread goes on as it should** behind an instruction. -/
theorem finish_concludes (hproper : ∀ g ∈ f :: outer, ∃ m, g.Proper t.unit m) {s : TaskState}
    {C : TaskState → Prop} {o : Outcome} (ho : o.Orderly t s { f with next := f.next + 1 } C)
    (now : Nat) : Concludes t now f outer o (Turn.ofProgress now (finish t outer o)) := by
  cases ho with
  | @next s' g _ => exact .next s' g
  | @call s' g callee _ hg =>
    have hlength : (g :: outer).length = (f :: outer).length := rfl
    unfold finish enter
    dsimp only
    by_cases hdepth : Frame.maxDepth ≤ (g :: outer).length
    · rw [if_pos hdepth]
      exact .raised (if_pos (hlength ▸ hdepth)) (unwind_executing hproper hg now s' _)
    · rw [if_neg hdepth]
      exact .call s' g callee (Nat.lt_of_not_le hdepth)
  | @ret s' v _ =>
    cases outer with
    | nil => exact .finished s' v rfl
    | cons g rest => cases v <;> exact .returned s' _ g rest rfl
  | @raise s' g r _ hg => exact .raised rfl (unwind_executing hproper hg now s' r)
  | @denied p _ => exact .fault _ _
  | @cancelled s' _ _ => exact .fault _ _
  | @wait s' g w _ =>
    cases w with
    | sleep millis => exact .sleep s' g millis
    | join index => exact .join s' g index

end Activation

/-! ### Frames that wait for a call -/

/-- The instruction in front of the next one of the frame is a call. -/
def Frame.InCall (g : Frame) : Prop :=
  0 < g.next ∧ ∃ i, g.method.code[g.next - 1]? = some i ∧ i.isCall = true

@[simp] theorem map_fst_executing (frames : List Frame) : (executing frames).map Prod.fst = frames := by
  cases frames with
  | nil => rfl
  | cons f outer => simp [executing, Function.comp_def]

theorem eq_append_of_executing {frames : List Frame} {inner outer : List (Frame × Nat)} {g : Frame}
    {place : Nat} (h : executing frames = inner ++ (g, place) :: outer) :
    frames = inner.map Prod.fst ++ g :: outer.map Prod.fst := by
  rw [← map_fst_executing frames, h, List.map_append, List.map_cons]

theorem Unwinds.tail_frames {t : Task} {s : TaskState} {r : Raised} {frames : List Frame} {u : Turn}
    (h : Unwinds t s r (executing frames) u) : ∀ g ∈ u.frames.tail, g ∈ frames.tail := by
  cases h with
  | uncatchable _ => simp [Turn.frames]
  | uncaught _ _ => simp [Turn.frames]
  | @caught inner outer g place target id h s' _ hframes _ _ _ _ =>
    intro e he
    have he : e ∈ outer.map Prod.fst := he
    rw [eq_append_of_executing hframes]
    cases inner with
    | nil => exact he
    | cons x inner => exact List.mem_append_right _ (List.mem_cons_of_mem _ he)

/-- Behind a turn, the frames outside still wait for a call. -/
theorem Concludes.inCall {t : Task} {now : Nat} {f : Frame} {outer : List Frame} {o : Outcome}
    {u : Turn} {i : Instruction} (h : Concludes t now f outer o u)
    (hi : f.method.code[f.next]? = some i) (ho : o.Sized i { f with next := f.next + 1 })
    (houter : ∀ g ∈ outer, g.InCall) : ∀ g ∈ u.frames.tail, g.InCall := by
  cases h with
  | raised _ hu => exact fun g hg => houter g (hu.tail_frames g hg)
  | fault s e => simp [Turn.frames]
  | next s g => exact houter
  | call s g callee _ =>
    cases ho with
    | call hcall hmoves _ =>
      have hg : g.InCall := by
        refine ⟨by rw [hmoves.next]; exact Nat.succ_pos _, i, ?_, hcall⟩
        rw [hmoves.method, hmoves.next]
        exact hi
      exact List.forall_mem_cons.2 ⟨hg, houter⟩
  | finished s v _ => simp [Turn.frames]
  | returned s v g rest hrest =>
    subst hrest
    exact (List.forall_mem_cons.1 houter).2
  | sleep s g millis => exact houter
  | join s g index => exact houter

/-! ### Every thread -/

/-- **Exceptions, faults and cancellation in what a thread has come to.** -/
structure Activity.Handled (t : Task) (a : Activity) : Prop where
  /-- the frames outside execute a call, from which they wait -/
  inCall : ∀ g ∈ a.frames.tail, g.InCall
  /-- whatever the instruction of the innermost frame comes to, there is a turn that concludes so -/
  outcome : ∀ {f outer thread now s o}, a = .running (f :: outer) → s.cancelled = false →
    (Step.frame t thread s f).MayCome o →
      ∃ u, (a.turn t thread now s).MayCome u ∧ Concludes t now f outer o u
  /-- and every turn does -/
  turn : ∀ {f outer thread now s u}, a = .running (f :: outer) → s.cancelled = false →
    (a.turn t thread now s).MayCome u →
      ∃ o, (Step.frame t thread s f).MayCome o ∧ Concludes t now f outer o u
  /-- a thread that has been cancelled ends, or goes on behind a thread that has ended and then does -/
  cancelled : ∀ {thread now s u}, (∀ c m, a ≠ .starting c m) → s.cancelled = true →
    (a.turn t thread now s).MayCome u → u = .ended s (.error .cancelled) ∨
      ∃ frames index, a = .joining frames index ∧ s.hasFinished index = true ∧
        u = .moved s (.running frames)

namespace Activity

variable {t : Task} {thread now : Nat} {s : TaskState} {f : Frame} {outer : List Frame}

theorem concludes_of_mayCome (hproper : ∀ g ∈ f :: outer, ∃ m, g.Proper t.unit m) {o : Outcome}
    (ho : (Step.frame t thread s f).MayCome o) (now : Nat) :
    Concludes t now f outer o (Turn.ofProgress now (Activation.finish t outer o)) := by
  unfold Step.frame at ho
  cases hi : f.method.code[f.next]? with
  | none =>
    rw [hi] at ho
    rw [Query.mayCome_done_iff.1 ho]
    exact Activation.finish_concludes hproper (.ret (.refl s) : Outcome.Orderly t s _ s.SameCourse _) now
  | some i =>
    rw [hi] at ho
    have hcourse := Step.instruction_course t thread s { f with next := f.next + 1 } i
    exact Activation.finish_concludes hproper (hcourse.of_mayCome ho) now

/-- The frames outside wait for a call before a turn, and after it. -/
theorem inCall_of_mayCome {a : Activity} {u : Turn} (hproper : ∀ g ∈ a.frames, ∃ m, g.Proper t.unit m)
    (h : ∀ g ∈ a.frames.tail, g.InCall) (hu : (a.turn t thread now s).MayCome u) :
    ∀ g ∈ u.frames.tail, g.InCall := by
  rcases turn_cases hu with ⟨f, outer, o, rfl, ho, rfl⟩ | ⟨c, m, f, -, hf⟩ | hf | hf
  · -- the frame executes an instruction
    have hconcludes := concludes_of_mayCome hproper ho now
    unfold Step.frame at ho
    cases hi : f.method.code[f.next]? with
    | none =>
      rw [hi] at ho
      rw [Query.mayCome_done_iff.1 ho]
      cases outer with
      | nil => simp [Activation.finish, Activation.leave, Turn.ofProgress, Turn.frames]
      | cons g rest => exact fun e he => h e (List.mem_cons_of_mem _ he)
    | some i =>
      rw [hi] at ho
      exact hconcludes.inCall hi ((Step.instruction_sized thread i).of_mayCome ho) h
  · simp [hf]
  · rwa [hf]
  · simp [hf]

end Activity

theorem Task.Reaches.inCall {t : Task} (hu : t.unit.Built) {a : Activity} (h : t.Reaches a) :
    ∀ g ∈ a.frames.tail, g.InCall := by
  induction h with
  | spawned c m => simp [Activity.frames]
  | called h => simp [Activity.frames]
  | moved ha hturn ih => exact Activity.inCall_of_mayCome (ha.proper hu) ih hturn
  | blocked ha hturn ih => exact Activity.inCall_of_mayCome (ha.proper hu) ih hturn

/-- **An exception comes to the right handler, or to none**, in whatever a thread of a built unit may come to. -/
theorem Task.Reaches.handled {t : Task} (hu : t.unit.Built) {a : Activity} (h : t.Reaches a) :
    a.Handled t where
  inCall := h.inCall hu
  outcome := by
    rintro f outer thread now s o rfl hc ho
    refine ⟨_, ?_, Activity.concludes_of_mayCome (h.proper hu) ho now⟩
    rw [Activity.turn_running hc]
    exact ho.map _
  turn := by
    rintro f outer thread now s u rfl hc hturn
    rw [Activity.turn_running hc] at hturn
    obtain ⟨o, ho, rfl⟩ := Query.mayCome_map_iff.1 hturn
    exact ⟨o, ho, Activity.concludes_of_mayCome (h.proper hu) ho now⟩
  cancelled := by
    intro thread now s u hstarting hc hturn
    cases a with
    | starting c m => exact absurd rfl (hstarting c m)
    | running frames =>
      simp only [Activity.turn, Activation.step, hc, if_true] at hturn
      exact .inl (Query.mayCome_done_iff.1 hturn)
    | sleeping frames wake =>
      simp only [Activity.turn, hc, if_true] at hturn
      exact .inl (Query.mayCome_done_iff.1 hturn)
    | joining frames index =>
      simp only [Activity.turn, hc, if_true] at hturn
      split at hturn
      · next hfinished =>
        -- a join ends although the thread is cancelled, if the other one has ended by then
        exact .inr ⟨frames, index, rfl, hfinished, Query.mayCome_done_iff.1 hturn⟩
      · exact .inl (Query.mayCome_done_iff.1 hturn)

/-! ### An exception that the caller catches -/

namespace Caught

/-- A method that calls another, in the range of a handler for what that throws. -/
def main : Method :=
  ⟨"main", true, [], 0,
    [.label ⟨0⟩, .invokeStatic "Main" "fail", .label ⟨1⟩, .ret, .label ⟨2⟩, .frame 1, .retValue],
    [⟨⟨0⟩, ⟨1⟩, ⟨2⟩, some "NullPointerException"⟩]⟩

/-- A method that throws, in the range of a handler for something else. -/
def fail : Method :=
  ⟨"fail", true, [], 0, [.label ⟨0⟩, .push .null, .throw, .label ⟨1⟩, .frame 1, .retValue],
    [⟨⟨0⟩, ⟨1⟩, ⟨1⟩, some "IOException"⟩]⟩

def unit : LoadingUnit := .ofClass ⟨"Main", none, [main, fail]⟩

theorem built_unit : unit.Built := LoadingUnit.built_ofClass fun mode => by cases mode <;> rfl

def task : Task := ⟨unit, ⟨0⟩, 0⟩

def frame (m : Method) (next : Nat) (stack : OperandStack) : Frame :=
  ⟨"Main", .ofMethod m, next, #[], stack⟩

theorem reaches_throw : task.Reaches
    (.running [frame fail 2 (.single .null), frame main 2 .empty]) := by
  have hstart : (Activation.start task default "Main" "main" []).1 = .ok (frame main 0 .empty) := rfl
  have hlabel : task.Reaches (.running [frame main 1 .empty]) :=
    Task.Reaches.step (s := default) (i := .label ⟨0⟩) (.called hstart) rfl rfl rfl
  have hcall : task.Reaches (.running [frame fail 0 .empty, frame main 2 .empty]) :=
    hlabel.step (s := default) (i := .invokeStatic "Main" "fail") rfl rfl rfl
  have hlabel : task.Reaches (.running [frame fail 1 .empty, frame main 2 .empty]) :=
    hcall.step (s := default) (i := .label ⟨0⟩) rfl rfl rfl
  exact hlabel.step (s := default) (i := .push .null) rfl rfl rfl

end Caught

/-- The exception passes the handler of the method that throws it, and comes to that of the caller. -/
theorem Task.Reaches.handled_caught : ∃ a, Caught.task.Reaches a ∧ a.Handled Caught.task ∧
    ∃ s u, (a.turn Caught.task 0 0 s).MayCome u ∧ u.frames = [Caught.frame Caught.main 4
      (.single (.exception 0 (.of "NullPointerException" "throw null")))] :=
  ⟨_, Caught.reaches_throw, Task.Reaches.handled Caught.built_unit Caught.reaches_throw, default, _,
    .done _, rfl⟩

end Confine
