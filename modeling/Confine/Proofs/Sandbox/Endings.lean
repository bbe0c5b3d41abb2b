import Confine.Proofs.Sandbox.Scheduled

/-!
# What a schedule has come through

* `Task.Schedules.at_turn` — each turn of a schedule was made in a scene that a shorter schedule comes to;
* `Task.Schedules.orderly` — and does to the course of the task what its instruction does;
* `Task.Schedules.arises` — the fault with which the work ends has ended its call, or a step has asked for it.
-/

namespace Confine

/-! ### The turns of a schedule -/

theorem append_cons_eq_concat {α : Type} {before after l : List α} {x y : α}
    (h : before ++ x :: after = l ++ [y]) :
    (after = [] ∧ before = l ∧ x = y) ∨ ∃ after', after = after' ++ [y] ∧ before ++ x :: after' = l := by
  rcases List.eq_nil_or_concat after with rfl | ⟨after', z, rfl⟩
  · obtain ⟨rfl, hxy⟩ := List.append_inj' h rfl
    exact .inl ⟨rfl, rfl, (List.cons.inj hxy).1⟩
  · rw [List.concat_eq_append, ← List.cons_append, ← List.append_assoc] at h
    obtain ⟨rfl, hzy⟩ := List.append_inj' h rfl
    obtain rfl := (List.cons.inj hzy).1
    exact .inr ⟨after', List.concat_eq_append, rfl⟩

namespace Task.Schedules

variable {t : Task} {s₀ s : TaskState} {work : List WorkStep} {acts before after : List Act}
  {c : Scene} {thread now : Nat} {a : Activity} {asked : List Exchange} {u : Turn}

/-- **Each turn was made by a thread of some earlier scene**, in the state of that scene. -/
theorem at_turn (h : t.Schedules s₀ work (before ++ .turn thread now s a asked u :: after) c) :
    ∃ c', t.Schedules s₀ work before c' ∧ c'.shared = s ∧ (thread, a) ∈ c'.crowd.threads ∧
      (a.turn t thread now s).Comes asked u := by
  generalize hacts : before ++ .turn thread now s a asked u :: after = acts at h
  induction h generalizing after with
  | start => simp at hacts
  | @step acts s' w step rest extras verdict _ ih =>
    cases step with
    | invoke c m arguments propagate =>
      rcases append_cons_eq_concat hacts with ⟨-, -, hx⟩ | ⟨after', -, hacts⟩
      · cases hx
      · exact ih hacts
    | _ => exact ih (hacts.trans (List.append_nil _))
  | exhausted _ ih => exact ih hacts
  | @mainTurn acts s' main extras verdict now' asked' u' h hu ih =>
    -- the turn is the last act, and the scene is the one it was taken in
    rcases append_cons_eq_concat hacts with ⟨-, rfl, hx⟩ | ⟨after', -, hacts⟩
    · cases hx
      exact ⟨_, h, rfl, by simp [Scene.crowd, MainStand.threads], hu⟩
    · exact ih hacts
  | @extraTurn acts s' main front back index a' verdict now' asked' u' h hu ih =>
    rcases append_cons_eq_concat hacts with ⟨-, rfl, hx⟩ | ⟨after', -, hacts⟩
    · cases hx
      exact ⟨_, h, rfl, by simp [Scene.crowd, ExtraStand.activities_append,
        ExtraStand.activities_cons, ExtraStand.activity?], hu⟩
    · exact ih hacts
  | begun _ ih => exact ih hacts
  | finished _ _ ih => exact ih hacts
  | heard _ ih => exact ih hacts
  | late _ ih => exact ih hacts
  | cancelled _ ih => exact ih hacts

/-- **Each turn does to the course of the task what its instruction does.** -/
theorem orderly (h : t.Schedules s₀ work acts c) (hturn : .turn thread now s a asked u ∈ acts) :
    u.Orderly t thread s a := by
  obtain ⟨before, after, rfl⟩ := List.append_of_mem hturn
  obtain ⟨c', -, -, -, hu⟩ := h.at_turn
  exact (a.turn_course t thread now s).of_mayCome hu.mayCome

end Task.Schedules

/-! ### How work ends -/

/-- The fault that a step of the work ends it with. -/
def WorkStep.fault? : WorkStep → Option Fault
  | throw kind message => some (.threw (.of kind message))
  | security p => some (.security p)
  | threadLimit n => some (.confinement (.threadLimit n))
  | _ => none

/-- A fault that may end the work: it is an exception, or a step of the work asks for it, or it has ended a call. -/
inductive Fault.Arises (work : List WorkStep) (acts : List Act) : Fault → Prop where
  | threw (e : Exception) : Arises work acts (.threw e)
  | step {step : WorkStep} {e : Fault} (h : step ∈ work) (he : step.fault? = some e) :
      Arises work acts e
  | turn {now : Nat} {s s' : TaskState} {a : Activity} {asked : List Exchange} {e : Fault}
      (h : .turn 0 now s a asked (.ended s' (.error e)) ∈ acts) : Arises work acts e

/-- The work has ended in a way that it may. -/
def WorkEnd.Arises (work : List WorkStep) (acts : List Act) : WorkEnd → Prop
  | finished (.ok _) => True
  | finished (.error e) => e.Arises work acts
  | panicked message => .panic message ∈ work

/-- What the main thread has still to do is part of the work, and how it has ended may be its end. -/
def MainStand.Arises (work : List WorkStep) (acts : List Act) : MainStand → Prop
  | working _ rest => rest ⊆ work
  | calling main => main.rest ⊆ work
  | ended _ e => e.Arises work acts

section

variable {work : List WorkStep} {acts : List Act}

theorem WorkEnd.Arises.append {e : WorkEnd} (h : e.Arises work acts) (more : List Act) :
    e.Arises work (acts ++ more) := by
  cases e with
  | panicked message => exact h
  | finished r =>
    cases r with
    | ok v => trivial
    | error e =>
      cases h with
      | threw e => exact Fault.Arises.threw e
      | step hstep he => exact Fault.Arises.step hstep he
      | turn hturn => exact Fault.Arises.turn (List.mem_append_left _ hturn)

theorem MainStand.Arises.append {main : MainStand} (h : main.Arises work acts) (more : List Act) :
    main.Arises work (acts ++ more) := by
  cases main with
  | working w rest => exact h
  | calling main => exact h
  | ended w e => exact WorkEnd.Arises.append h more

theorem WorkMove.arises_ofResult {rest : List WorkStep} (hrest : rest ⊆ work) (s : TaskState)
    (w : Progressed) (propagate : Bool) {r : Except Fault Value}
    (hr : ∀ e, r = .error e → e.Arises work acts) :
    ((ofResult s w propagate r).stand rest).Arises work acts := by
  unfold ofResult
  split
  · exact hr _ rfl
  · exact hrest

theorem WorkStep.arises_perform {step : WorkStep} {rest : List WorkStep} (hstep : step ∈ work)
    (hrest : rest ⊆ work) (t : Task) (s : TaskState) (w : Progressed) :
    ((step.perform t s w).stand rest).Arises work acts := by
  cases step with
  | invoke c m arguments propagate =>
    simp only [perform]
    split
    · exact hrest
    · next e he =>
      refine WorkMove.arises_ofResult hrest _ _ _ ?_
      rintro e ⟨⟩
      obtain ⟨x, rfl⟩ := Activation.threw_of_start he
      exact .threw x
  | ret v => trivial
  | panic message => exact hstep
  | throw kind message => exact Fault.Arises.threw _
  | security p => exact Fault.Arises.step hstep rfl
  | threadLimit n => exact Fault.Arises.step hstep rfl
  | _ => exact hrest

/-- **The work ends as it asks for, or with what has ended its call.** -/
theorem Task.Schedules.arises {t : Task} {s₀ : TaskState} {c : Scene}
    (h : t.Schedules s₀ work acts c) :
    c.main.Arises work acts ∧ ∀ e, c.verdict = some (some e) → e.Arises work acts := by
  induction h with
  | start => exact ⟨fun _ h => h, by simp⟩
  | @step acts s w step rest extras verdict _ ih =>
    obtain ⟨hstep, hrest⟩ := List.cons_subset.1 ih.1
    exact ⟨step.arises_perform hstep hrest t s w, fun e he => (ih.2 e he).append _⟩
  | exhausted _ ih => exact ⟨trivial, ih.2⟩
  | @mainTurn acts s main extras verdict now asked u _ hu ih =>
    refine ⟨?_, fun e he => (ih.2 e he).append _⟩
    cases u with
    | moved s' a => exact ih.1
    | blocked s' a wake => exact ih.1
    | ended s' r =>
      refine WorkMove.arises_ofResult ih.1 _ _ _ ?_
      rintro e rfl
      exact .turn (List.mem_append_right _ (List.mem_singleton_self _))
  | extraTurn _ _ ih => exact ⟨ih.1.append _, fun e he => (ih.2 e he).append _⟩
  | begun _ ih => exact ih
  | finished _ _ ih => exact ih
  | heard _ ih =>
    refine ⟨ih.1, ?_⟩
    rintro e ⟨⟩
    exact ih.1
  | late _ ih => exact ⟨ih.1, by simp⟩
  | cancelled _ ih => exact ih

end

end Confine
