import Confine.Proofs.Confinement.History
import Confine.Proofs.Sandbox.Alone
import Confine.Proofs.Sandbox.Mediated

/-!
# The threads of a task, in any order

`Task.Interleaves t s₀ acts c` — from the state `s₀` some thread after the other has had a turn, in any order, the host
has answered anything, and the threads have come to the crowd `c`; `acts` has the turns, in order.

* `Task.Interleaves.log` — what the task has logged are the decisions that the turns called for, in order;
* `Task.Interleaves.mediated` — each turn does as its decision says.

A host that is watched notes what it is asked (`Host.watched`); `Ensures` says what holds of an action on one.
-/

namespace Confine

/-! ### Acts -/

/-- What may call for a decision: a turn of a thread, with what it has asked and come to, or the start of a call
from outside. -/
inductive Act where
  | turn (thread now : Nat) (s : TaskState) (a : Activity) (asked : List Exchange) (u : Turn)
  | call (s : TaskState) (className methodName : String) (arguments : List Value)

/-- The decision that an act calls for. -/
def Act.decision? (t : Task) (g : GrantSet) : Act → Option Decision
  | turn _ _ s a _ _ => a.decision? t g s
  | call _ className _ _ => t.unit.refusal? className

/-- What an act has asked the host. -/
def Act.asked : Act → List Exchange
  | turn _ _ _ _ asked _ => asked
  | call _ _ _ _ => []

/-- The question needs a permission. -/
def Exchange.isSensitive (x : Exchange) : Bool := x.request.permission?.isSome

/-- The threads of a task between two turns, each with its index, and what they share. -/
structure Crowd where
  shared : TaskState
  threads : List (Nat × Activity)

/-- The frame of a call from outside, if there is one. -/
def Activation.started (t : Task) (s : TaskState) (className methodName : String)
    (arguments : List Value) : List Activity :=
  match (start t s className methodName arguments).1 with
  | .ok f => [.running [f]]
  | .error _ => []

/-- **Turns in any order.** -/
inductive Task.Interleaves (t : Task) (s₀ : TaskState) : List Act → Crowd → Prop where
  | start : Interleaves t s₀ [] ⟨s₀, []⟩
  /-- any of the threads has a turn, and the host answers anything -/
  | turn {acts : List Act} {s : TaskState} {front back : List (Nat × Activity)} {thread : Nat}
      {a : Activity} {now : Nat} {asked : List Exchange} {u : Turn}
      (h : Interleaves t s₀ acts ⟨s, front ++ (thread, a) :: back⟩)
      (hu : (a.turn t thread now s).Comes asked u) :
      Interleaves t s₀ (acts ++ [.turn thread now s a asked u])
        ⟨u.shared, front ++ (u.activity?.map (thread, ·)).toList ++ back⟩
  /-- trusted work calls a method -/
  | call {acts : List Act} {s : TaskState} {threads : List (Nat × Activity)} (thread : Nat)
      (className methodName : String) (arguments : List Value)
      (h : Interleaves t s₀ acts ⟨s, threads⟩) :
      Interleaves t s₀ (acts ++ [.call s className methodName arguments])
        ⟨(Activation.start t s className methodName arguments).2,
          (Activation.started t s className methodName arguments).map (thread, ·) ++ threads⟩
  /-- the threads that were registered begin -/
  | begun {acts : List Act} {s : TaskState} {threads : List (Nat × Activity)}
      (h : Interleaves t s₀ acts ⟨s, threads⟩) :
      Interleaves t s₀ acts
        ⟨s.takeStarting.2, threads ++ s.takeStarting.1.map fun x => (x.index, x.activity)⟩
  /-- something else happens that no decision is about: trusted work makes a value, the task is
  cancelled, an ended thread is counted -/
  | other {acts : List Act} {s s' : TaskState} {threads : List (Nat × Activity)}
      (h : Interleaves t s₀ acts ⟨s, threads⟩) (hconfinements : s'.confinements = s.confinements)
      (hnext : s'.nextThread = s.nextThread) (hstarting : s'.starting = s.starting) :
      Interleaves t s₀ acts ⟨s', threads⟩

/-! ### What is logged -/

namespace Confinements

variable {s : Confinements}

theorem length_recordAll (c : Capability) (ds : List Decision) :
    (s.recordAll c ds).history.length = s.history.length := by
  induction ds generalizing s with
  | nil => rfl
  | cons d ds ih => exact ih.trans (List.length_modify ..)

theorem decisions_recordAll {c : Capability} (hc : c.nonce < s.history.length)
    (ds : List Decision) : (s.recordAll c ds).decisions c = s.decisions c ++ ds := by
  induction ds generalizing s with
  | nil => simp [recordAll]
  | cons d ds ih =>
    have hlen : c.nonce < (s.record c d.permission d.granted).history.length := by
      simpa [record, modify] using hc
    calc (s.recordAll c (d :: ds)).decisions c
        = ((s.record c d.permission d.granted).recordAll c ds).decisions c := rfl
      _ = s.decisions c ++ [d] ++ ds := by rw [ih hlen, decisions_record hc]
      _ = s.decisions c ++ d :: ds := by simp

theorem live?_recordAll (c : Capability) (ds : List Decision) (r : RegistryId) (u : UnitId) :
    (s.recordAll c ds).live? r u = s.live? r u := by
  induction ds generalizing s with
  | nil => rfl
  | cons d ds ih =>
    exact ih.trans (live?_congr fun n => (isLive_record c d.permission d.granted).symm)

end Confinements

namespace Task.Interleaves

variable {t : Task} {g : GrantSet} {s₀ : TaskState} {acts : List Act} {c : Crowd}

theorem grants_of_recordAll {s : TaskState} (hg : s₀.Grants t g) {ds : List Decision}
    (h : s.confinements = s₀.confinements.recordAll t.capability ds) : s.Grants t g := by
  intro p
  rw [h, Confinements.allows_recordAll]
  exact hg p

/-- What has been logged are the decisions of the acts, in order. -/
theorem log (hg : s₀.Grants t g) (h : t.Interleaves s₀ acts c) :
    c.shared.confinements =
      s₀.confinements.recordAll t.capability (acts.filterMap (·.decision? t g)) := by
  have more {s s' : TaskState} {acts : List Act} (x : Act)
      (ih : s.confinements =
        s₀.confinements.recordAll t.capability (acts.filterMap (·.decision? t g)))
      (hx : s'.confinements = s.confinements.recordAll t.capability (x.decision? t g).toList) :
      s'.confinements =
        s₀.confinements.recordAll t.capability ((acts ++ [x]).filterMap (·.decision? t g)) := by
    rw [hx, ih, List.filterMap_append, Confinements.recordAll_append]
    cases hd : x.decision? t g <;> simp [hd]
  induction h with
  | start => rfl
  | turn h hu ih =>
    exact more _ ih (Activity.turn_mediated (grants_of_recordAll hg ih) _ _ _ _ _ hu).log
  | call thread c m arguments h ih =>
    exact more _ ih (Activation.confinements_start t _ c m arguments)
  | @begun _ s _ h ih =>
    have htake : s.takeStarting.2.confinements = s.confinements := by
      unfold TaskState.takeStarting
      split <;> rfl
    exact htake.trans ih
  | other h hconfinements _ _ ih => exact hconfinements.trans ih

/-- **Every turn does as its decision says**, whatever the order. -/
theorem mediated (hg : s₀.Grants t g) (h : t.Interleaves s₀ acts c) :
    ∀ thread now s a asked u, .turn thread now s a asked u ∈ acts → u.Mediated t g s a asked := by
  have more {acts : List Act} {x : Act}
      (ih : ∀ thread now s a asked u, .turn thread now s a asked u ∈ acts →
        u.Mediated t g s a asked)
      (hx : ∀ thread now s a asked u, x = .turn thread now s a asked u →
        u.Mediated t g s a asked) :
      ∀ thread now s a asked u, .turn thread now s a asked u ∈ acts ++ [x] →
        u.Mediated t g s a asked := by
    intro thread now s a asked u hmem
    rcases List.mem_append.1 hmem with hmem | hmem
    · exact ih thread now s a asked u hmem
    · exact hx thread now s a asked u (List.mem_singleton.1 hmem).symm
  induction h with
  | start => simp
  | turn h hu ih =>
    refine more ih ?_
    rintro _ _ _ _ _ _ ⟨⟩
    exact Activity.turn_mediated (grants_of_recordAll hg (h.log hg)) _ _ _ _ _ hu
  | call thread c m arguments h ih =>
    refine more ih ?_
    rintro _ _ _ _ _ _ ⟨⟩
  | begun h ih => exact ih
  | other h _ _ _ ih => exact ih

end Task.Interleaves

/-! ### Hosts that are watched -/

section Watched

variable {σ α β : Type}

/-- The host, with a note of each question that it has answered, and of the answer. -/
def Host.watched (host : Host (StateM σ)) : Host (StateM (σ × List Exchange)) where
  elapsed := fun (w, l) => ((host.elapsed w).1, ((host.elapsed w).2, l))
  idleUntil n := fun (w, l) => ((), ((host.idleUntil n w).2, l))
  answer r := fun (w, l) =>
    ((host.answer r w).1, ((host.answer r w).2, l ++ [⟨r, (host.answer r w).1⟩]))
  readFile path := fun (w, l) => ((host.readFile path w).1, ((host.readFile path w).2, l))
  today := fun (w, l) => ((host.today w).1, ((host.today w).2, l))
  randomBytes := fun (w, l) => ((host.randomBytes w).1, ((host.randomBytes w).2, l))

/-- To be watched changes nothing. -/
theorem Host.watched_resembles (host : Host (StateM σ)) (A : HostRequest → Prop) :
    host.Resembles A (fun w w' => w'.1 = w) host.watched where
  elapsed := by
    rintro _ ⟨w, l⟩ rfl
    exact ⟨rfl, rfl⟩
  idleUntil := by
    rintro n _ ⟨w, l⟩ rfl
    exact ⟨rfl, rfl⟩
  today := by
    rintro _ ⟨w, l⟩ rfl
    exact ⟨trivial, rfl⟩
  randomBytes := by
    rintro _ ⟨w, l⟩ rfl
    exact ⟨trivial, rfl⟩
  answer := by
    rintro r - _ ⟨w, l⟩ rfl
    exact ⟨rfl, rfl⟩

theorem Query.exists_comes_watched (host : Host (StateM σ)) (q : Query α) (w : σ)
    (l : List Exchange) : ∃ asked, q.Comes asked (q.answered host.watched.answer (w, l)).1 ∧
      (q.answered host.watched.answer (w, l)).2.2 = l ++ asked := by
  induction q generalizing w l with
  | done a => exact ⟨[], .done a, by simp⟩
  | ask r resume ih =>
    obtain ⟨asked, hcomes, hl⟩ := ih (host.answer r w).1 (host.answer r w).2
      (l ++ [⟨r, (host.answer r w).1⟩])
    exact ⟨_, .ask _ hcomes, by rw [Query.answered_ask]; simpa [Host.watched] using hl⟩

variable {P : List Exchange → Prop} {Q : α → List Exchange → Prop} {R : β → List Exchange → Prop}

/-- If `P` is true of what has been noted before, `Q` is true of the result and of what has been noted then. -/
def Ensures (P : List Exchange → Prop) (Q : α → List Exchange → Prop)
    (x : StateM (σ × List Exchange) α) : Prop :=
  ∀ w l, P l → Q (x (w, l)).1 (x (w, l)).2.2

theorem Ensures.of_imp {P' : List Exchange → Prop} {x : StateM (σ × List Exchange) α}
    (h : Ensures P Q x) (hP : ∀ l, P' l → P l) : Ensures P' Q x := fun w l hl => h w l (hP l hl)

theorem Ensures.pure {a : α} (h : ∀ l, P l → Q a l) :
    Ensures P Q (Pure.pure a : StateM (σ × List Exchange) α) := fun _ l hl => h l hl

theorem Ensures.bind {x : StateM (σ × List Exchange) α} {k : α → StateM (σ × List Exchange) β}
    (h : Ensures P Q x) (hk : ∀ a, Ensures (Q a) R (k a)) : Ensures P R (x >>= k) :=
  fun w l hl => hk _ _ _ (h w l hl)

end Watched

end Confine
