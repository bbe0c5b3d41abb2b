import Confine.Proofs.Loading.Lookup
import Confine.Proofs.Machine.Handled

/-!
# Frames run the classes that their unit finds

A unit may have several classes of one name, in different layers.  Only the one that it finds is ever run.

* `Frame.Found` — the frame runs a method of a class that the unit finds;
* `Step.exists_forCall` — an instruction calls a method with the values that it takes off the stack;
* `Step.callee_found` — a frame calls nothing else;
* `Task.Reaches.found` — **every frame that a thread may come to runs a class that its unit finds**.
-/

namespace Confine

def Frame.Found (u : LoadingUnit) (f : Frame) : Prop :=
  ∃ name c, u.findClass name = some c ∧ c.name = f.className ∧ f.method ∈ c.methods

theorem Frame.Found.of_keeps {u : LoadingUnit} {f g : Frame} (h : f.Found u) (hk : f.Keeps g) :
    g.Found u := by
  obtain ⟨name, c, hc, hname, hm⟩ := h
  exact ⟨name, c, hc, hname.trans hk.className.symm, hk.method ▸ hm⟩

/-! ### What is passed -/

/-- The values that a frame has passed on, when `f'` is what is left of it: they were on top of its stack. -/
def Frame.passedOn (f f' : Frame) : List Value :=
  (f.stack.values.take (f.stack.size - f'.stack.size)).reverse

theorem Frame.passedOn_eq {f f' : Frame} {vs : List Value}
    (h : f.stack.values = vs.reverse ++ f'.stack.values) : f.passedOn f' = vs := by
  have hsize : f.stack.size = vs.length + f'.stack.size := by
    rw [← f.stack.length_eq, h, List.length_append, List.length_reverse, f'.stack.length_eq]
  rw [passedOn, h, hsize, Nat.add_sub_cancel, List.take_left' (by simp), List.reverse_reverse]

theorem OperandStack.values_of_popMany {s t : OperandStack} {n : Nat} {vs : List Value}
    (h : s.popMany n = .ok (vs, t)) : s.values = vs.reverse ++ t.values := by
  unfold popMany at h
  split at h
  · cases h
  · simp only [Except.ok.injEq, Prod.mk.injEq] at h
    obtain ⟨rfl, rfl⟩ := h
    simp

variable {t : Task}

theorem Frame.found_of_forCall {s : TaskState} {name method : String} {c : LinkedClass}
    {arguments : List Value} {want : Option Bool} {f : Frame} (hload : (s.load t name).1 = .ok c)
    (h : Frame.forCall c method arguments want = .ok f) : f.Found t.unit := by
  obtain ⟨m, hm, rfl⟩ := Frame.forCall_eq_ok h
  exact ⟨name, c, LoadingUnit.findClass_of_load (Prod.ext hload rfl), rfl, (LinkedClass.method?_eq_some hm).1⟩

theorem Activation.found_of_start {s : TaskState} {c m : String} {arguments : List Value} {f : Frame}
    (h : (start t s c m arguments).1 = .ok f) : f.Found t.unit := by
  obtain ⟨d, hd, hcall⟩ := exists_of_start h
  exact Frame.found_of_forCall hd hcall

namespace Step

variable {α : Type} {thread : Nat} {s s' : TaskState} {f g callee : Frame}

theorem exists_of_attempt {r : Except Exception α} {k : α → Query Outcome}
    (h : (attempt s f r k).MayCome (.call s' g callee)) :
    ∃ a, r = .ok a ∧ (k a).MayCome (.call s' g callee) := by
  cases r with
  | ok a => exact ⟨a, rfl, h⟩
  | error e => cases Query.mayCome_done_iff.1 h

theorem exists_of_withClass {name : String} {k : TaskState → LinkedClass → Query Outcome}
    (h : (withClass t s f name k).MayCome (.call s' g callee)) :
    ∃ c, (s.load t name).1 = .ok c ∧ (k (s.load t name).2 c).MayCome (.call s' g callee) :=
  exists_of_attempt h

/-- **An instruction calls a method of a class that it has loaded**, with what it takes off the stack. -/
theorem exists_forCall {i : Instruction}
    (h : (instruction t thread s f i).MayCome (.call s' g callee)) :
    ∃ name c m want, (s.load t name).1 = .ok c ∧ Frame.forCall c m (f.passedOn g) want = .ok callee := by
  cases (instruction_sized thread i).of_mayCome h with
  | call hi _ _ =>
    cases i with
    | invokeStatic c m =>
      have h : (invokeStatic t s f c m).MayCome (.call s' g callee) := h
      obtain ⟨d, hload, h⟩ := exists_of_withClass h
      dsimp only at h
      split at h
      · cases Query.mayCome_done_iff.1 h
      · obtain ⟨p, hp, h⟩ := exists_of_attempt h
        obtain ⟨callee', hcall, h⟩ := exists_of_attempt h
        cases Query.mayCome_done_iff.1 h
        have hpassed : f.passedOn (f.withStack p.2) = p.1 :=
          Frame.passedOn_eq (OperandStack.values_of_popMany hp)
        exact ⟨c, d, m, _, hload, hpassed ▸ hcall⟩
    | invokeVirtual m n =>
      obtain ⟨p, hp, h⟩ := exists_of_attempt h
      obtain ⟨q, hq, h⟩ := exists_of_attempt h
      obtain ⟨d, hload, h⟩ := exists_of_withClass h
      obtain ⟨callee', hcall, h⟩ := exists_of_attempt h
      cases Query.mayCome_done_iff.1 h
      -- the object stands under the arguments
      have hpassed : f.passedOn (f.withStack q.2) = .object q.1.1 q.1.2 :: p.1 := by
        refine Frame.passedOn_eq ?_
        have hobject := OperandStack.popObject_eq_ok_iff.1 hq
        rw [OperandStack.values_of_popMany hp, hobject]
        simp [Frame.withStack]
      exact ⟨_, d, m, _, hload, hpassed ▸ hcall⟩
    | _ => cases hi

theorem exists_forCall_frame (h : (frame t thread s f).MayCome (.call s' g callee)) :
    ∃ name c m want, (s.load t name).1 = .ok c ∧ Frame.forCall c m (f.passedOn g) want = .ok callee := by
  unfold frame at h
  split at h
  · cases Query.mayCome_done_iff.1 h
  · exact exists_forCall (f := { f with next := f.next + 1 }) h

/-- **It calls methods of classes that the unit finds.** -/
theorem callee_found (h : (frame t thread s f).MayCome (.call s' g callee)) : callee.Found t.unit := by
  obtain ⟨name, c, m, want, hload, hcall⟩ := exists_forCall_frame h
  exact Frame.found_of_forCall hload hcall

end Step

/-! ### Turns -/

section Turns

variable {I : Frame → Prop} (hkeep : ∀ f g, f.Keeps g → I f → I g)

include hkeep

/-- What holds of a frame as it goes on holds of those that an exception leaves. -/
theorem Unwinds.invariant {s : TaskState} {r : Raised} {frames : List Frame} {u : Turn}
    (h : Unwinds t s r (executing frames) u) (hframes : ∀ f ∈ frames, I f) : ∀ f ∈ u.frames, I f := by
  cases h with
  | uncatchable _ => simp [Turn.frames]
  | uncaught _ _ => simp [Turn.frames]
  | @caught inner outer g place target id e s' _ heq _ _ _ _ =>
    rw [eq_append_of_executing heq] at hframes
    obtain ⟨hg, houter⟩ := List.forall_mem_cons.1 (List.forall_mem_append.1 hframes).2
    exact List.forall_mem_cons.2 ⟨hkeep g _ ⟨rfl, rfl, rfl⟩ hg, houter⟩

/-- And of those that a turn leaves, if it holds of what is called. -/
theorem Concludes.invariant {now : Nat} {s : TaskState} {f : Frame} {outer : List Frame} {o : Outcome}
    {u : Turn} {writes : List (Console × String)} (h : Concludes t now f outer o u)
    (ho : o.Within t s f writes) (hcallee : ∀ s' g callee, o = .call s' g callee → I callee)
    (hframes : ∀ g ∈ f :: outer, I g) : ∀ g ∈ u.frames, I g := by
  obtain ⟨hf, houter⟩ := List.forall_mem_cons.1 hframes
  cases h with
  | raised _ hu => exact hu.invariant hkeep hframes
  | fault s e => simp [Turn.frames]
  | next s g =>
    cases ho with
    | next _ hg | wrote _ _ _ _ hg => exact List.forall_mem_cons.2 ⟨hkeep f g hg hf, houter⟩
  | call s g callee _ =>
    cases ho with
    | call _ hg _ =>
      exact List.forall_mem_cons.2 ⟨hcallee _ _ _ rfl, List.forall_mem_cons.2 ⟨hkeep f g hg hf, houter⟩⟩
  | finished s v _ => simp [Turn.frames]
  | returned s v g rest hrest =>
    subst hrest
    obtain ⟨hg, hrest⟩ := List.forall_mem_cons.1 houter
    refine List.forall_mem_cons.2 ⟨?_, hrest⟩
    cases v with
    | none => exact hg
    | some v => exact hkeep g _ (g.keeps_withStack _) hg
  | sleep s g millis | join s g index =>
    cases ho with
    | wait _ hg _ => exact List.forall_mem_cons.2 ⟨hkeep f g hg hf, houter⟩

end Turns

theorem Activity.found_of_turn {a : Activity} {thread now : Nat} {s : TaskState} {u : Turn}
    (hproper : ∀ f ∈ a.frames, ∃ m, f.Proper t.unit m) (h : ∀ f ∈ a.frames, f.Found t.unit)
    (hu : (a.turn t thread now s).MayCome u) : ∀ f ∈ u.frames, f.Found t.unit := by
  rcases turn_cases hu with ⟨f, outer, o, rfl, ho, rfl⟩ | ⟨c, m, f, hstart, hf⟩ | hf | hf
  · refine (concludes_of_mayCome hproper ho now).invariant (fun _ _ hk hf => hf.of_keeps hk)
      ((Step.frame_bounded t thread s f).of_mayCome ho) ?_ h
    rintro s' g callee rfl
    exact Step.callee_found ho
  · rw [hf]
    exact List.forall_mem_singleton.2 (Activation.found_of_start hstart)
  · rwa [hf]
  · simp [hf]

/-- **Every frame that a thread may come to runs a class that its unit finds.** -/
theorem Task.Reaches.found (hu : t.unit.Built) {a : Activity} (h : t.Reaches a) :
    ∀ f ∈ a.frames, f.Found t.unit := by
  induction h with
  | spawned c m => simp [Activity.frames]
  | called h => exact List.forall_mem_singleton.2 (Activation.found_of_start h)
  | moved ha hturn ih => exact Activity.found_of_turn (ha.proper hu) ih hturn
  | blocked ha hturn ih => exact Activity.found_of_turn (ha.proper hu) ih hturn

end Confine
