import Confine.Proofs.Machine.Reachable
import Mathlib.Logic.Function.Iterate

/-!
# A thread that runs alone

`Solo.step` repeats the steps of one thread without any limit of time, on a host that answers from a state of its
own.  Where the thread waits it goes on at once: waiting changes nothing that it can see.

* `Solo.step_does` — a step writes what the list `written` says, and does nothing else to the output of the task;
* `Solo.reaches_iterate` — the thread only comes where threads of the task may come.
-/

namespace Confine

/-- How far a thread is: in its frames, innermost first, or at its end. -/
inductive Stand where
  | running (frames : List Frame)
  | ended (result : Except Fault Value)
  deriving Inhabited

/-- **A thread that runs alone**, and its host. -/
structure Solo (σ : Type) where
  shared : TaskState
  stand : Stand
  /-- what it has written, in order -/
  written : List (Console × String)
  host : σ

namespace Solo

variable {σ : Type}

def ofProgress (written : List (Console × String)) (w : σ) : Progress → Solo σ
  | .running s frames | .waiting s frames _ => ⟨s, .running frames, written, w⟩
  | .ended s r => ⟨s, .ended r, written, w⟩

def start (t : Task) (s : TaskState) (className methodName : String) (arguments : List Value)
    (w : σ) : Solo σ :=
  match Activation.start t s className methodName arguments with
  | (.ok f, s) => ⟨s, .running [f], [], w⟩
  | (.error e, s) => ⟨s, .ended (.error e), [], w⟩

variable (t : Task) (answer : (r : HostRequest) → StateM σ r.Answer)

/-- One step. A thread that has ended stays where it is. -/
def step (x : Solo σ) : Solo σ :=
  match x.stand with
  | .ended _ => x
  | .running frames =>
    let (p, w) := (Activation.step t 0 x.shared frames).answered answer x.host
    ofProgress (x.written ++ Activation.nextWrites x.shared frames) w p

theorem step_of_running {x : Solo σ} {frames : List Frame} (h : x.stand = .running frames) :
    x.step t answer =
      ofProgress (x.written ++ Activation.nextWrites x.shared frames)
        ((Activation.step t 0 x.shared frames).answered answer x.host).2
        ((Activation.step t 0 x.shared frames).answered answer x.host).1 := by
  unfold step
  rw [h]
  rfl

theorem step_of_ended {x : Solo σ} {r : Except Fault Value} (h : x.stand = .ended r) :
    x.step t answer = x := by
  unfold step
  rw [h]

theorem iterate_of_le {x : Solo σ} {m n : Nat} {r : Except Fault Value}
    (h : ((step t answer)^[m] x).stand = .ended r) (hle : m ≤ n) :
    (step t answer)^[n] x = (step t answer)^[m] x := by
  rw [← Nat.sub_add_cancel hle, Function.iterate_add_apply]
  exact Function.iterate_fixed (step_of_ended t answer h) _

theorem iterate_eq_of_ended {x : Solo σ} {m n : Nat} {r r' : Except Fault Value}
    (h : ((step t answer)^[m] x).stand = .ended r)
    (h' : ((step t answer)^[n] x).stand = .ended r') :
    (step t answer)^[m] x = (step t answer)^[n] x := by
  rcases Nat.le_total m n with hle | hle
  · exact (iterate_of_le t answer h hle).symm
  · exact iterate_of_le t answer h' hle

/-! ### What it does to the task -/

/-- **What a step does to the task**, with what it writes. -/
theorem step_does (x : Solo σ) :
    ∃ writes, (x.step t answer).written = x.written ++ writes ∧
      x.shared.Does t writes (x.step t answer).shared := by
  cases hx : x.stand with
  | ended r =>
    rw [step_of_ended t answer hx]
    exact ⟨[], by simp, (TaskState.Logs.refl _).does⟩
  | running frames =>
    rw [step_of_running t answer hx]
    have hwithin := (Activation.step_bounded t 0 x.shared frames).answered answer x.host
    generalize ((Activation.step t 0 x.shared frames).answered answer x.host).1 = p at hwithin
    refine ⟨Activation.nextWrites x.shared frames, ?_⟩
    cases hwithin with
    | running hs _ => exact ⟨rfl, hs⟩
    | waiting hs _ _ => exact ⟨rfl, hs⟩
    | ended hs => exact ⟨rfl, hs⟩

/-- **The confinements of the task change by decisions that it logs.** -/
theorem exists_log_iterate (n : Nat) (x : Solo σ) :
    ∃ ds, ((step t answer)^[n] x).shared.confinements =
      x.shared.confinements.recordAll t.capability ds := by
  induction n with
  | zero => exact ⟨[], rfl⟩
  | succ n ih =>
    obtain ⟨ds, hds⟩ := ih
    obtain ⟨writes, -, hdoes⟩ := step_does t answer ((step t answer)^[n] x)
    obtain ⟨ds', hds'⟩ := hdoes.decisions
    rw [Function.iterate_succ_apply']
    exact ⟨ds ++ ds', by rw [hds', hds, Confinements.recordAll_append]⟩

theorem exists_log_start (s : TaskState) (className methodName : String) (arguments : List Value)
    (w : σ) :
    ∃ ds, (start t s className methodName arguments w).shared.confinements =
      s.confinements.recordAll t.capability ds := by
  have hlogs := (Activation.start_within t s className methodName arguments).1
  unfold start
  generalize Activation.start t s className methodName arguments = p at hlogs
  obtain ⟨r, s'⟩ := p
  cases r <;> exact hlogs.decisions

/-! ### Where it comes -/

def Reaches (x : Solo σ) : Prop := ∀ frames, x.stand = .running frames → t.Reaches (.running frames)

theorem reaches_start (s : TaskState) (className methodName : String) (arguments : List Value)
    (w : σ) : (start t s className methodName arguments w).Reaches t := by
  intro frames h
  unfold start at h
  split at h
  · next f s' hf =>
    simp only [Stand.running.injEq] at h
    exact h ▸ .called (congrArg Prod.fst hf)
  · cases h

theorem reaches_of_sleeping {frames : List Frame} {wake : Nat}
    (h : t.Reaches (.sleeping frames wake)) : t.Reaches (.running frames) := by
  refine @Task.Reaches.moved t _ _ 0 wake default default h ?_
  have hturn : Activity.turn t 0 wake default (.sleeping frames wake) =
      .done (.moved default (.running frames)) := if_pos (Nat.le_refl wake)
  rw [hturn]
  exact .done _

theorem reaches_of_joining {frames : List Frame} {index : Nat}
    (h : t.Reaches (.joining frames index)) : t.Reaches (.running frames) := by
  let s : TaskState := { (default : TaskState) with finished := [index] }
  refine @Task.Reaches.moved t _ _ 0 0 s s h ?_
  have hturn : Activity.turn t 0 0 s (.joining frames index) =
      .done (.moved s (.running frames)) := if_pos (by simp [s, TaskState.hasFinished])
  rw [hturn]
  exact .done _

theorem reaches_step {x : Solo σ} (hx : x.Reaches t) : (x.step t answer).Reaches t := by
  intro frames' h
  cases hstand : x.stand with
  | ended r =>
    rw [step_of_ended t answer hstand] at h
    exact hx frames' h
  | running frames =>
    rw [step_of_running t answer hstand] at h
    have hturn := (Query.mayCome_answered answer (Activation.step t 0 x.shared frames) x.host).map
      (Turn.ofProgress 0)
    generalize ((Activation.step t 0 x.shared frames).answered answer x.host).1 = p at h hturn
    have moved : ∀ {s : TaskState} {a : Activity}, Turn.ofProgress 0 p = .moved s a → t.Reaches a :=
      fun hp => @Task.Reaches.moved t _ _ 0 0 x.shared _ (hx frames hstand) (hp ▸ hturn)
    cases p with
    | running s frames =>
      simp only [ofProgress, Stand.running.injEq] at h
      exact h ▸ moved rfl
    | waiting s frames w =>
      simp only [ofProgress, Stand.running.injEq] at h
      subst h
      cases w with
      | sleep millis => exact reaches_of_sleeping t (moved rfl)
      | join index => exact reaches_of_joining t (moved rfl)
    | ended s r => cases h

/-- **A thread that runs alone only comes where threads of the task may come.** -/
theorem reaches_iterate {x : Solo σ} (hx : x.Reaches t) (n : Nat) :
    ((step t answer)^[n] x).Reaches t := by
  induction n with
  | zero => exact hx
  | succ n ih =>
    rw [Function.iterate_succ_apply']
    exact reaches_step t answer ih

end Solo

end Confine
