import Confine.Machine.Thread
import Confine.Proofs.Loading.Built
import Confine.Proofs.Machine.Footprint

/-!
# What verification means for running code

`Task.Reaches t a` — a thread of the task `t` may come to the activity `a`: turn by turn, from a call from outside
or from its start, whatever the other threads have done to the shared state in between.

Main statement: `Task.Reaches.frames_sound`.  If the unit of the task has been built, every frame that a thread may come
to has as many locals as its method says; each label that its code or its handlers name stands in exactly one
place, and that is where control goes; and the slots that its instructions name are in range.
-/

namespace Confine

def Activity.frames : Activity → List Frame
  | starting _ _ => []
  | running frames | sleeping frames _ | joining frames _ => frames

/-- **What a thread of a task may come to.** A thread is spawned, or a method is called from
outside; then it takes its turns. Before each turn the shared state and the time may be any. -/
inductive Task.Reaches (t : Task) : Activity → Prop where
  | spawned (className methodName : String) : Reaches t (.starting className methodName)
  | called {s : TaskState} {className methodName : String} {arguments : List Value} {f : Frame}
      (h : (Activation.start t s className methodName arguments).1 = .ok f) :
      Reaches t (.running [f])
  | moved {a a' : Activity} {thread now : Nat} {s s' : TaskState} (ha : Reaches t a)
      (h : (a.turn t thread now s).MayCome (.moved s' a')) : Reaches t a'
  | blocked {a a' : Activity} {thread now : Nat} {s s' : TaskState} {wake : Option Nat}
      (ha : Reaches t a) (h : (a.turn t thread now s).MayCome (.blocked s' a' wake)) : Reaches t a'

/-! ### One turn -/

def Turn.frames : Turn → List Frame
  | moved _ a => a.frames
  | blocked _ a _ => a.frames
  | ended _ _ => []

def Turn.activity? : Turn → Option Activity
  | moved _ a | blocked _ a _ => some a
  | ended _ _ => none

def Turn.shared : Turn → TaskState
  | moved s _ | blocked s _ _ | ended s _ => s

/-- An end that a turn of a thread with these frames may have in the state `s`. -/
structure Turn.Within (t : Task) (s : TaskState) (frames : List Frame) (u : Turn) : Prop where
  shared : ∃ writes, s.Does t writes u.shared
  frames : ∀ g ∈ u.frames, g.StemsFrom t frames

theorem Turn.within_ofProgress {t : Task} {s : TaskState} {frames : List Frame}
    {writes : List (Console × String)} {p : Progress}
    (h : p.Within t s frames writes) (now : Nat) : (Turn.ofProgress now p).Within t s frames := by
  cases h with
  | running hs hf => exact ⟨⟨_, hs⟩, hf⟩
  | @waiting s' frames' w hs hf => cases w <;> exact ⟨⟨_, hs⟩, hf⟩
  | ended hs => exact ⟨⟨_, hs⟩, by simp [Turn.ofProgress, Turn.frames]⟩

/-- **What one turn of a thread can do.** The frames after it are those before it as they went on,
and those of calls. -/
theorem Activity.turn_bounded (t : Task) (thread now : Nat) (s : TaskState) (a : Activity) :
    (a.turn t thread now s).All (s.Permits t) (Turn.Within t s a.frames) := by
  have stays : ∀ g ∈ a.frames, g.StemsFrom t a.frames := fun g hg => .inl ⟨g, hg, .refl g⟩
  have same : ∃ writes, s.Does t writes s := ⟨_, (TaskState.Logs.refl s).does⟩
  cases a with
  | starting c m =>
    obtain ⟨hlogs, hcalls⟩ := Activation.start_within t s c m []
    simp only [turn]
    split
    · next f hf =>
      refine .done ⟨⟨_, hlogs.does⟩, fun g hg => .inr ?_⟩
      rw [List.mem_singleton.1 hg]
      exact hcalls f hf
    · exact .done ⟨⟨_, hlogs.does⟩, by simp [Turn.frames]⟩
  | running frames =>
    exact (Activation.step_bounded t thread s frames).map fun p hp => Turn.within_ofProgress hp now
  | sleeping frames wake =>
    simp only [turn]
    split
    · exact .done ⟨same, by simp [Turn.frames]⟩
    · split <;> exact .done ⟨same, stays⟩
  | joining frames index =>
    simp only [turn]
    split
    · exact .done ⟨same, stays⟩
    · split
      · exact .done ⟨same, by simp [Turn.frames]⟩
      · exact .done ⟨same, stays⟩

/-- What holds of every frame that is called and of a frame as it goes on holds of every frame that
a thread may come to. -/
theorem Task.Reaches.invariant {t : Task} {I : Frame → Prop} (hcall : ∀ g, t.Calls g → I g)
    (hkeep : ∀ f g, f.Keeps g → I f → I g) {a : Activity} (h : t.Reaches a) :
    ∀ f ∈ a.frames, I f := by
  have turn : ∀ {a : Activity} {u : Turn} {thread now : Nat} {s : TaskState},
      (∀ f ∈ a.frames, I f) → (a.turn t thread now s).MayCome u → ∀ g ∈ u.frames, I g := by
    intro a u thread now s ha hu g hg
    rcases ((a.turn_bounded t thread now s).of_mayCome hu).frames g hg with ⟨f, hf, hk⟩ | hc
    · exact hkeep f g hk (ha f hf)
    · exact hcall g hc
  induction h with
  | spawned c m => simp [Activity.frames]
  | @called s c m arguments f h =>
    intro g hg
    rw [List.mem_singleton.1 hg]
    exact hcall f ((Activation.start_within t s c m arguments).2 f h)
  | moved _ h ih => exact turn ih h
  | blocked _ h ih => exact turn ih h

/-! ### What the checks are worth -/

/-- A label stands in one place of the code, and that is the place that the method knows. -/
structure LinkedMethod.Stands (m : LinkedMethod) (l : Label) (place : Nat) : Prop where
  known : m.place? l = some place
  stands : m.code[place]? = some (.label l)
  only : ∀ k : Nat, m.code[k]? = some (.label l) → k = place

/-- **A frame of verified code.** -/
structure Frame.Sound (u : LoadingUnit) (f : Frame) : Prop where
  /-- its method is one of a class that the unit offers -/
  method : ∃ c, u.Offers c ∧ c.name = f.className ∧
    c.method? f.method.method.name = some f.method
  locals : f.locals.size = f.method.method.maxLocals.toNat
  /-- a jump finds its label -/
  jump : ∀ i ∈ f.method.code, ∀ l, i.jumpTarget? = some l →
    ∃ place, f.method.Stands l place ∧ f.jump l = .ok { f with next := place }
  /-- the handlers range and lead where their labels stand -/
  handlers : List.Forall₂ (fun (h : Handler) (r : LinkedHandler) =>
      f.method.Stands h.start r.start ∧ f.method.Stands h.stop r.stop ∧
        f.method.Stands h.target r.target ∧ r.kind = h.kind)
    f.method.method.handlers f.method.handlers
  load : ∀ i, .load i ∈ f.method.code → ∃ v, f.locals[i.toNat]? = some v ∧ f.load i = .ok v
  store : ∀ i, .store i ∈ f.method.code → ∀ v, i.toNat < f.locals.size ∧
    f.store i v = .ok { f with locals := f.locals.setIfInBounds i.toNat v }
  operand : ∀ tracer name operands, .hook tracer name operands ∈ f.method.code →
    ∀ i, HookOperand.slot i ∈ operands → ∃ v, f.locals[i.toNat]? = some v ∧ f.operand (.slot i) = v

/-! ### Frames that are called -/

theorem LinkedClass.method?_eq_some {c : LinkedClass} {name : String} {m : LinkedMethod}
    (h : c.method? name = some m) : m ∈ c.methods ∧ c.method? m.method.name = some m := by
  have hn := List.find?_some h
  simp only [beq_iff_eq] at hn
  exact ⟨List.mem_of_find?_eq_some h, hn ▸ h⟩

theorem LoadingUnit.Checked.verified {c : LinkedClass} (hc : Checked c) {m : LinkedMethod}
    (hm : m ∈ c.methods) : ∃ n, m = LinkedMethod.ofMethod n ∧ Verifier.Verified .instrumented n := by
  obtain ⟨cf, rfl, hcf⟩ := hc
  obtain ⟨n, hn, rfl⟩ := List.mem_map.1 hm
  exact ⟨n, rfl, (Verifier.check_eq_ok_iff.1 hcf).2 n hn⟩

theorem Verifier.Verified.exists_stands {mode : Verifier.Mode} {m : Method}
    (h : Verifier.Verified mode m) {l : Label} (hl : l ∈ Verifier.referenced m) :
    ∃ place, (LinkedMethod.ofMethod m).Stands l place := by
  obtain ⟨place, hp, hs, ho⟩ := h.exists_place hl
  exact ⟨place, hp, by simpa [LinkedMethod.ofMethod] using hs, fun k hk =>
    ho k (by simpa [LinkedMethod.ofMethod] using hk)⟩

theorem Verifier.Verified.handlers_stand {mode : Verifier.Mode} {m : Method}
    (h : Verifier.Verified mode m) :
    List.Forall₂ (fun (e : Handler) (r : LinkedHandler) =>
        (LinkedMethod.ofMethod m).Stands e.start r.start ∧
          (LinkedMethod.ofMethod m).Stands e.stop r.stop ∧
          (LinkedMethod.ofMethod m).Stands e.target r.target ∧ r.kind = e.kind)
      m.handlers (LinkedMethod.ofMethod m).handlers := by
  refine List.forall₂_map_right_iff.2 (List.forall₂_same.2 fun e he => ?_)
  have stands : ∀ l, (l = e.start ∨ l = e.stop ∨ l = e.target) →
      (LinkedMethod.ofMethod m).Stands l (((LinkedMethod.ofMethod m).place? l).getD 0) := by
    intro l hl
    obtain ⟨place, hp⟩ := h.exists_stands (Verifier.handler_mem_referenced he hl)
    rw [hp.known]
    exact hp
  exact ⟨stands _ (by simp), stands _ (by simp), stands _ (by simp), rfl⟩

theorem Frame.size_localsFor (m : Method) (arguments : List Value) :
    (localsFor m arguments).size = m.maxLocals.toNat := by
  simp [localsFor]
  omega

theorem Frame.forCall_eq_ok {c : LinkedClass} {name : String} {arguments : List Value}
    {want : Option Bool} {f : Frame} (h : forCall c name arguments want = .ok f) :
    ∃ m, c.method? name = some m ∧
      f = ⟨c.name, m, 0, localsFor m.method arguments, .empty⟩ := by
  unfold forCall at h
  split at h
  · cases h
  · next m hm =>
    dsimp only at h
    split at h <;> split at h <;> simp only [reduceCtorEq, Except.ok.injEq] at h <;>
      exact ⟨m, hm, h.symm⟩

theorem Task.Calls.exists_method {t : Task} {g : Frame} (h : t.Calls g) :
    ∃ l ∈ t.unit.layers, ∃ e ∈ l.classes, g.method ∈ e.2.linked.methods := by
  obtain ⟨c, name, arguments, want, ⟨l, hl, n, hn⟩, hg⟩ := h
  obtain ⟨m, hm, rfl⟩ := Frame.forCall_eq_ok hg
  obtain ⟨d, hd, rfl⟩ := Option.map_eq_some_iff.1 hn
  exact ⟨l, hl, _, LoadingUnit.getNamed?_mem hd, (LinkedClass.method?_eq_some hm).1⟩

/-- The frame runs a verified method of a class that the unit offers, with the locals that the
method says. -/
structure Frame.Proper (u : LoadingUnit) (f : Frame) (m : Method) : Prop where
  offered : ∃ c, u.Offers c ∧ c.name = f.className ∧ c.method? m.name = some f.method
  linked : f.method = LinkedMethod.ofMethod m
  verified : Verifier.Verified .instrumented m
  locals : f.locals.size = m.maxLocals.toNat

theorem Frame.proper_of_calls {t : Task} (hu : t.unit.Built) {f : Frame} (h : t.Calls f) :
    ∃ m, f.Proper t.unit m := by
  obtain ⟨c, name, arguments, want, hc, hf⟩ := h
  obtain ⟨m, hm, rfl⟩ := forCall_eq_ok hf
  obtain ⟨hmem, hmethod⟩ := LinkedClass.method?_eq_some hm
  have hchecked : LoadingUnit.Checked c := by
    obtain ⟨l, hl, n, hn⟩ := hc
    exact hu.checked l hl n c hn
  obtain ⟨n, rfl, hv⟩ := hchecked.verified hmem
  exact ⟨n, ⟨c, hc, rfl, hmethod⟩, rfl, hv, size_localsFor n arguments⟩

theorem Frame.Proper.of_keeps {u : LoadingUnit} {f g : Frame} {m : Method} (h : f.Proper u m)
    (hk : f.Keeps g) : g.Proper u m := by
  obtain ⟨⟨c, hc, hn, hm⟩, hl, hv, hs⟩ := h
  exact ⟨⟨c, hc, hn.trans hk.className.symm, hm.trans (congrArg some hk.method.symm)⟩,
    hk.method.trans hl, hv, hk.locals.trans hs⟩

theorem Frame.Proper.sound {u : LoadingUnit} {f : Frame} {m : Method} (h : f.Proper u m) :
    f.Sound u := by
  have hcode : ∀ i ∈ f.method.code, i ∈ m.code := by
    intro i hi
    rw [h.linked] at hi
    simpa [LinkedMethod.ofMethod] using hi
  have hmethod : f.method.method = m := by rw [h.linked]; rfl
  have slot : ∀ i : UInt16, i.toNat < m.maxLocals.toNat →
      ∃ v, f.locals[i.toNat]? = some v := fun i hi =>
    ⟨_, Array.getElem?_eq_getElem (h.locals ▸ hi)⟩
  refine ⟨hmethod ▸ h.offered, hmethod ▸ h.locals, fun i hi l hl => ?_, ?_, fun i hi => ?_,
    fun i hi v => ?_, fun tracer name operands hi i ho => ?_⟩
  · -- jumps
    obtain ⟨place, hp⟩ := h.verified.exists_stands
      (Verifier.jumpTarget_mem_referenced (hcode i hi) hl)
    rw [← h.linked] at hp
    exact ⟨place, hp, by simp [jump, hp.known]⟩
  · -- handlers
    rw [h.linked]
    exact h.verified.handlers_stand
  · -- loads
    obtain ⟨v, hv⟩ := slot i (h.verified.slot_lt (hcode _ hi) (.inl rfl))
    exact ⟨v, hv, by simp only [load, hv]⟩
  · -- stores
    have hlt : i.toNat < f.locals.size :=
      h.locals ▸ h.verified.slot_lt (hcode _ hi) (.inr (.inl rfl))
    exact ⟨hlt, by simp only [store, hlt, if_true]⟩
  · -- operands of hooks
    obtain ⟨v, hv⟩ := slot i (h.verified.slot_lt (hcode _ hi) (.inr (.inr ⟨_, _, _, rfl, ho⟩)))
    exact ⟨v, hv, by simp only [operand, hv, Option.getD_some]⟩

theorem Task.Reaches.proper {t : Task} {a : Activity} (h : t.Reaches a) (hu : t.unit.Built) :
    ∀ f ∈ a.frames, ∃ m, f.Proper t.unit m :=
  h.invariant (fun _ hg => Frame.proper_of_calls hu hg) fun _ _ hk ⟨m, hm⟩ => ⟨m, hm.of_keeps hk⟩

/-- **Verified code runs soundly.** In a unit that has been built, on whatever other units and with
whatever tracers, every frame that a thread may come to is a sound one. -/
theorem Task.Reaches.frames_sound {t : Task} (hu : t.unit.Built) {a : Activity} (h : t.Reaches a) :
    ∀ f ∈ a.frames, f.Sound t.unit := by
  intro f hf
  obtain ⟨m, hm⟩ := h.proper hu f hf
  exact hm.sound

/-- So does the program of the sample: its frame has one local, and its handler ranges up to where
it leads. -/
theorem Task.Reaches.frames_sound_sample :
    ∃ f, (Task.mk Sample.unit ⟨0⟩ 0).Reaches (.running [f]) ∧ f.Sound Sample.unit ∧
      f.locals = #[.null] ∧ f.method.handlers = [⟨0, 8, 8, none⟩] := by
  have h : (Activation.start ⟨Sample.unit, ⟨0⟩, 0⟩ default "Main" "main" []).1 =
      .ok ⟨"Main", (LinkedClass.ofClassFile Sample.main).methods.head!, 0, #[.null], .empty⟩ := rfl
  exact ⟨_, .called h, Task.Reaches.frames_sound Sample.built_unit (.called h) _ (by simp [Activity.frames]),
    rfl, rfl⟩

end Confine
