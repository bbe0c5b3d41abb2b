import Confine.Proofs.Machine.Rerun

/-!
# The same turn in two runs

What `Step.instruction_match` says of one instruction, for all frames of a thread: handlers are found in the same frames,
calls and returns agree, and a thread that ends in one run ends in the other with a result that shows the same.

Main statement: `Activity.turn_match`.
-/

namespace Confine

variable {z : Rerun}

/-- The results show the same. -/
abbrev ShowsSame : Except Fault Value → Except Fault Value → Prop :=
  Agree fun v v' => v'.toJson = v.toJson

inductive Progress.Match (z : Rerun) : Progress → Progress → Prop where
  | running {s s' : TaskState} {frames frames' : List Frame} (hs : s.Match z s')
      (hf : List.Forall₂ (Frame.Match z) frames frames') :
      Match z (.running s frames) (.running s' frames')
  | waiting {s s' : TaskState} {frames frames' : List Frame} (hs : s.Match z s')
      (hf : List.Forall₂ (Frame.Match z) frames frames') (w : Wait) :
      Match z (.waiting s frames w) (.waiting s' frames' w)
  | ended {s s' : TaskState} {r r' : Except Fault Value} (hs : s.Match z s')
      (hr : ShowsSame r r') : Match z (.ended s r) (.ended s' r')

namespace Activation

variable {s s' : TaskState} {frames frames' : List Frame} (hz : z.Fair) (hs : s.Match z s')
  (hf : List.Forall₂ (Frame.Match z) frames frames')

include hf in
theorem findHandler?_match (kind : String) :
    Option.Rel (fun x x' : Frame × LinkedHandler × List Frame => x.1.Match z x'.1 ∧
        x'.2.1 = x.2.1 ∧ List.Forall₂ (Frame.Match z) x.2.2 x'.2.2)
      (findHandler? kind frames) (findHandler? kind frames') := by
  induction hf with
  | nil => exact .none
  | @cons f f' outer outer' hf ho ih =>
    unfold findHandler?
    rw [hf.handler?]
    cases f.handler? kind with
    | none => exact ih
    | some e => exact .some ⟨hf, rfl, ho⟩

include hs in
theorem raisedValue_match {r r' : Raised} (hr : r.Match z r') :
    (raisedValue s r).1.Match z (raisedValue s' r').1 ∧
      (raisedValue s r).2.Match z (raisedValue s' r').2 := by
  cases hr with
  | value i e => exact ⟨.exception i e, hs⟩
  | fresh e =>
    obtain ⟨hv, hheap⟩ := hs.heap.newException e
    exact ⟨hv, hs.withHeap hheap⟩

include hz hs hf

theorem unwind_match {r r' : Raised} (hr : r.Match z r') :
    (unwind z.task s frames r).Match z (unwind z.task' s' frames' r') := by
  have hexception : r'.exception = r.exception := by cases hr <;> rfl
  have hfatal : isFatal z.task' r.exception = isFatal z.task r.exception := by
    unfold isFatal
    rw [hz.unit]
  have hrel := findHandler?_match hf r.exception.kind
  obtain ⟨hv, hs₁⟩ := raisedValue_match hs hr
  unfold unwind
  dsimp only
  rw [hexception, hfatal]
  generalize findHandler? r.exception.kind frames = o at hrel
  generalize findHandler? r.exception.kind frames' = o' at hrel
  split
  · exact .ended hs (.error _)
  · cases hrel with
    | none => exact .ended hs (.error _)
    | @some x x' h =>
      obtain ⟨f, e, outer⟩ := x
      obtain ⟨f', e', outer'⟩ := x'
      obtain ⟨hf, rfl, ho⟩ := h
      exact .running hs₁ (.cons (hf.enter _ hv) ho)

theorem enter_match {g g' : Frame} (hg : g.Match z g') :
    (enter z.task s g frames).Match z (enter z.task' s' g' frames') := by
  unfold enter
  rw [← hf.length_eq]
  split
  · exact unwind_match hz hs hf (.fresh _)
  · exact .running hs (.cons hg hf)

omit hz in
theorem leave_match {v v' : Option Value} (hv : Option.Rel (Value.Match z) v v')
    (hshow : frames.isEmpty = true → ∀ w ∈ v, z.CanShow w) :
    (leave s v frames).Match z (leave s' v' frames') := by
  cases hf with
  | nil =>
    refine .ended hs (.ok ?_)
    cases hv with
    | none => rfl
    | some hv => exact (hv.similar (hshow rfl _ rfl)).toJson
  | @cons f f' outer outer' hf ho =>
    cases hv with
    | none => exact .running hs (.cons hf ho)
    | some hv => exact .running hs (.cons (hf.withStack (hf.stack.add hv)) ho)

omit hs in
theorem finish_match {o o' : Outcome} (ho : o.Match z frames.isEmpty o') :
    (finish z.task frames o).Match z (finish z.task' frames' o') := by
  have hframes := hf
  cases ho with
  | next hs hf => exact .running hs (.cons hf hframes)
  | call hs hf hg => exact enter_match hz hs (.cons hf hframes) hg
  | ret hs hv hshow => exact leave_match hs hframes hv hshow
  | raise hs hf hr => exact unwind_match hz hs (.cons hf hframes) hr
  | fault hs e => exact .ended hs (.error e)
  | wait hs hf w => exact .waiting hs (.cons hf hframes) w

end Activation

/-! ### Turns -/

/-- The values that the next turn of a thread turns into text. -/
def Activity.shown : Activity → List Value
  | .running (f :: outer) =>
    match f.method.code[f.next]? with
    | some i => f.shown outer.isEmpty i
    | none => []
  | _ => []

inductive Activity.Match (z : Rerun) : Activity → Activity → Prop where
  | starting (className methodName : String) :
      Match z (.starting className methodName) (.starting className methodName)
  | running {frames frames' : List Frame} (hf : List.Forall₂ (Frame.Match z) frames frames') :
      Match z (.running frames) (.running frames')
  | sleeping {frames frames' : List Frame} (hf : List.Forall₂ (Frame.Match z) frames frames')
      (wake : Nat) : Match z (.sleeping frames wake) (.sleeping frames' wake)
  | joining {frames frames' : List Frame} (hf : List.Forall₂ (Frame.Match z) frames frames')
      (index : Nat) : Match z (.joining frames index) (.joining frames' index)

inductive Turn.Match (z : Rerun) : Turn → Turn → Prop where
  | moved {s s' : TaskState} {a a' : Activity} (hs : s.Match z s') (ha : a.Match z a') :
      Match z (.moved s a) (.moved s' a')
  | blocked {s s' : TaskState} {a a' : Activity} (hs : s.Match z s') (ha : a.Match z a')
      (wake : Option Nat) : Match z (.blocked s a wake) (.blocked s' a' wake)
  | ended {s s' : TaskState} {r r' : Except Fault Value} (hs : s.Match z s')
      (hr : ShowsSame r r') : Match z (.ended s r) (.ended s' r')

variable {s s' : TaskState}

theorem Activation.step_match (hz : z.Fair) (hs : s.Match z s') {frames frames' : List Frame}
    (hf : List.Forall₂ (Frame.Match z) frames frames')
    (hshow : ∀ v ∈ (Activity.running frames).shown, z.CanShow v) (thread : Nat) :
    Query.Rel (Progress.Match z) (step z.task thread s frames)
      (step z.task' thread s' frames') := by
  unfold step
  rw [hs.cancelled]
  split
  · exact .done (.ended hs (.error _))
  · cases hf with
    | nil => exact .done (.ended hs (.ok rfl))
    | @cons f f' outer outer' hf ho =>
      refine Query.Rel.map (R := Outcome.Match z outer.isEmpty) ?_ fun o o' h =>
        finish_match hz ho h
      unfold Step.frame
      rw [hf.method, hf.next]
      dsimp only [Activity.shown] at hshow
      cases hi : f.method.code[f.next]? with
      | none => exact .done (.ret hs .none (by simp))
      | some i =>
        rw [hi] at hshow
        have h := Step.instruction_match hz hs (hf.at_ (f.next + 1)) thread i hshow
        rw [hf.method] at h
        exact h

theorem Activation.start_match (hz : z.Fair) (hs : s.Match z s') (className methodName : String)
    {arguments arguments' : List Value}
    (ha : List.Forall₂ (Value.Match z) arguments arguments') :
    Agree (Frame.Match z) (start z.task s className methodName arguments).1
        (start z.task' s' className methodName arguments').1 ∧
      (start z.task s className methodName arguments).2.Match z
        (start z.task' s' className methodName arguments').2 := by
  obtain ⟨hloaded, hs⟩ := hs.load hz className
  refine ⟨?_, hs⟩
  unfold start
  dsimp only
  generalize (s.load z.task className).1 = r at hloaded
  generalize (s'.load z.task' className).1 = r' at hloaded
  cases hloaded with
  | error e => exact .error _
  | @ok c c' hc =>
    subst hc
    have hcall := Frame.forCall_match c methodName ha none
    dsimp only [Except.mapError, bind, Except.bind]
    generalize Frame.forCall c methodName arguments none = q at hcall
    generalize Frame.forCall c methodName arguments' none = q' at hcall
    cases hcall with
    | error e => exact .error _
    | ok hg => exact .ok hg

theorem Turn.match_ofProgress (now : Nat) {p p' : Progress} (h : p.Match z p') :
    (ofProgress now p).Match z (ofProgress now p') := by
  cases h with
  | running hs hf => exact .moved hs (.running hf)
  | waiting hs hf w =>
    cases w with
    | sleep millis => exact .moved hs (.sleeping hf _)
    | join index => exact .moved hs (.joining hf _)
  | ended hs hr => exact .ended hs hr

/-- **The same turn in two runs.** -/
theorem Activity.turn_match (hz : z.Fair) (hs : s.Match z s') {a a' : Activity}
    (ha : a.Match z a') (hshow : ∀ v ∈ a.shown, z.CanShow v) (thread now : Nat) :
    Query.Rel (Turn.Match z) (a.turn z.task thread now s) (a'.turn z.task' thread now s') := by
  cases ha with
  | starting c m =>
    obtain ⟨hframe, hs⟩ := Activation.start_match hz hs c m .nil
    simp only [turn]
    generalize Activation.start z.task s c m [] = q at hframe hs
    generalize Activation.start z.task' s' c m [] = q' at hframe hs
    obtain ⟨r, s⟩ := q
    obtain ⟨r', s'⟩ := q'
    cases hframe with
    | ok hf => exact .done (.moved hs (.running (.cons hf .nil)))
    | error e => exact .done (.ended hs (.error e))
  | running hf =>
    exact (Activation.step_match hz hs hf hshow thread).map fun p p' hp =>
      Turn.match_ofProgress now hp
  | sleeping hf wake =>
    simp only [turn]
    rw [hs.cancelled]
    split
    · exact .done (.ended hs (.error _))
    · split
      · exact .done (.moved hs (.running hf))
      · exact .done (.blocked hs (.sleeping hf wake) _)
  | joining hf index =>
    have hfinished : s'.hasFinished index = s.hasFinished index := by
      unfold TaskState.hasFinished
      rw [hs.finished]
    simp only [turn]
    rw [hs.cancelled, hfinished]
    split
    · exact .done (.moved hs (.running hf))
    · split
      · exact .done (.ended hs (.error _))
      · exact .done (.blocked hs (.joining hf index) _)

end Confine
