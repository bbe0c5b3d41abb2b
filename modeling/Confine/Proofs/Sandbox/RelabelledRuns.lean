import Confine.Proofs.Machine.RelabelledSteps
import Confine.Proofs.Sandbox.Released

/-!
# Runs under other labels

Two units that differ in what labels are called run alike, to the end: the same output, the same log, the same traces
and the same answers, on every host and under every scheduler. Only a run that reads a class file of its unit is free
to go another way behind that.

* `Task.Schedules.relabels` — every schedule of the one task is one of the other;
* `RunState.run_relabels` — a run on a host is the same run;
* `Sandbox.executeWork_relabels`, `Sandbox.execute_relabels` — and so is an execution, with all that it leaves.
-/

namespace Confine

/-! ### The log grows -/

namespace TaskState

variable {t : Task} {s s' s'' : TaskState}

def Grows (t : Task) (s s' : TaskState) : Prop := ∃ ds, s'.confinements = s.confinements.recordAll t.capability ds

theorem Grows.refl (s : TaskState) : s.Grows t s := ⟨[], rfl⟩

theorem Grows.trans (h : s.Grows t s') (h' : s'.Grows t s'') : s.Grows t s'' := by
  obtain ⟨ds, hds⟩ := h
  obtain ⟨ds', hds'⟩ := h'
  exact ⟨ds ++ ds', by rw [hds', hds, Confinements.recordAll_append]⟩

theorem HasRead.grows (h : s.HasRead t s') (h' : s'.Grows t s'') : s.HasRead t s'' := by
  obtain ⟨ds, hds, d, hd, hread⟩ := h
  obtain ⟨ds', hds'⟩ := h'
  exact ⟨ds ++ ds', by rw [hds', hds, Confinements.recordAll_append], d, List.mem_append_left _ hd, hread⟩

theorem Grows.hasRead (h : s.Grows t s') (h' : s'.HasRead t s'') : s.HasRead t s'' := by
  obtain ⟨ds, hds⟩ := h
  obtain ⟨ds', hds', d, hd, hread⟩ := h'
  exact ⟨ds ++ ds', by rw [hds', hds, Confinements.recordAll_append], d, List.mem_append_right _ hd, hread⟩

theorem grows_takeStarting : s.Grows t s.takeStarting.2 := by
  unfold takeStarting
  split <;> exact .refl s

end TaskState

/-! ### Work -/

inductive WorkMove.Relabels : WorkMove → WorkMove → Prop where
  | answered (s : TaskState) (w : Progressed) : Relabels (.answered s w) (.answered s w)
  | call (s : TaskState) (w : Progressed) {f f' : Frame} (hf : f.Relabels f') (propagate : Bool) :
      Relabels (.call s w f propagate) (.call s w f' propagate)
  | ended (s : TaskState) (w : Progressed) (e : WorkEnd) : Relabels (.ended s w e) (.ended s w e)

inductive WorkRest.Relabels : WorkRest → WorkRest → Prop where
  | call (s : TaskState) (w : Progressed) {f f' : Frame} (hf : f.Relabels f') (propagate : Bool)
      (rest : List WorkStep) : Relabels (.call s w f propagate rest) (.call s w f' propagate rest)
  | ended (s : TaskState) (w : Progressed) (e : WorkEnd) : Relabels (.ended s w e) (.ended s w e)

theorem WorkMove.Relabels.refl (q : WorkMove) : q.Relabels q := by
  cases q with
  | answered s w => exact .answered s w
  | call s w f propagate => exact .call s w (.refl f) propagate
  | ended s w e => exact .ended s w e

section Work

variable {t t' : Task} (ht : t.Relabels t')

include ht

theorem WorkStep.perform_relabels (s : TaskState) (w : Progressed) (step : WorkStep) :
    (step.perform t s w).Relabels (step.perform t' s w) := by
  cases step with
  | invoke c m arguments propagate =>
    simp only [perform]
    generalize Operand.values w.kept s.heap arguments = q
    obtain ⟨hframe, hs⟩ := Activation.start_relabels ht { s with heap := q.2 } c m q.1
    generalize Activation.start t { s with heap := q.2 } c m q.1 = p at hframe hs
    generalize Activation.start t' { s with heap := q.2 } c m q.1 = p' at hframe hs
    obtain ⟨r, s⟩ := p
    obtain ⟨r', s'⟩ := p'
    obtain rfl : s' = s := hs
    cases hframe with
    | ok hf => exact .call s' w hf propagate
    | error e => exact .refl _
  | classes =>
    simp only [perform, ht.unit.own.definedClasses_eq]
    exact .refl _
  | _ => exact .refl _

theorem WorkRest.resume_relabels (s : TaskState) (w : Progressed) (l : List WorkStep) :
    (resume t s w l).Relabels (resume t' s w l) := by
  induction l generalizing s w with
  | nil => exact .ended s w _
  | cons step rest ih =>
    have hstep := step.perform_relabels ht s w
    unfold resume
    generalize step.perform t s w = q at hstep
    generalize step.perform t' s w = q' at hstep
    cases hstep with
    | answered s w => exact ih s w
    | call s w hf propagate => exact .call s w hf propagate rest
    | ended s w e => exact .ended s w e

theorem WorkRest.windDown_relabels (s : TaskState) (w : Progressed) (l : List WorkStep) :
    windDown t' s w l = windDown t s w l := by
  induction l generalizing s w with
  | nil => rfl
  | cons step rest ih =>
    have hstep := step.perform_relabels ht s w
    unfold windDown
    generalize step.perform t s w = q at hstep
    generalize step.perform t' s w = q' at hstep
    cases hstep with
    | answered s w => exact ih s w
    | call s w hf propagate =>
      dsimp only
      split
      · exact ih _ _
      · rfl
      · rfl
    | ended s w e => rfl

end Work

/-! ### Threads -/

inductive MainThread.Relabels : MainThread → MainThread → Prop where
  | mk {a a' : Activity} (ha : a.Relabels a') (w : Progressed) (propagate : Bool) (rest : List WorkStep) :
      Relabels ⟨a, w, propagate, rest⟩ ⟨a', w, propagate, rest⟩

inductive ExtraThread.Relabels : ExtraThread → ExtraThread → Prop where
  | mk (index : Nat) {a a' : Activity} (ha : a.Relabels a') : Relabels ⟨index, a⟩ ⟨index, a'⟩

inductive RunState.Relabels : RunState → RunState → Prop where
  | mk (s : TaskState) {main main' : MainThread} {extras extras' : List ExtraThread} (hmain : main.Relabels main')
      (hextras : List.Forall₂ ExtraThread.Relabels extras extras') : Relabels ⟨s, main, extras⟩ ⟨s, main', extras'⟩

inductive RunState.Round.Relabels : Round → Round → Prop where
  | mk (s : TaskState) {extras extras' : List ExtraThread} (hextras : List.Forall₂ ExtraThread.Relabels extras extras')
      (moved : Bool) (wake : Option Nat) : Relabels ⟨s, extras, moved, wake⟩ ⟨s, extras', moved, wake⟩

theorem TaskState.takeStarting_relabels (s : TaskState) :
    List.Forall₂ ExtraThread.Relabels s.takeStarting.1 s.takeStarting.1 := by
  unfold takeStarting
  split
  · exact .nil
  · refine List.forall₂_same.2 fun x hx => ?_
    obtain ⟨b, -, rfl⟩ := List.mem_map.1 hx
    exact .mk b.index (.starting _ _)

/-! ### Programs side by side -/

section Programs

variable {σ α β γ δ : Type} {P : α → Prop} {Q : γ → Prop} {R : α → β → Prop} {S : γ → δ → Prop} {x : StateM σ α}
  {y : StateM σ β} {k : α → StateM σ γ} {l : β → StateM σ δ}

/-- The program comes to something in `P` only. -/
def Gives (P : α → Prop) (x : StateM σ α) : Prop := ∀ w, P (x w).1

/-- **Two programs do the same until something happens**: they come to related things and leave the same host, unless the
first comes to something in `B`. -/
def Until (B : α → Prop) (R : α → β → Prop) (x : StateM σ α) (y : StateM σ β) : Prop :=
  ∀ w, B (x w).1 ∨ R (x w).1 (y w).1 ∧ (y w).2 = (x w).2

theorem Gives.pure {a : α} (h : P a) : Gives P (Pure.pure a : StateM σ α) := fun _ => h

theorem Gives.bind (hx : Gives P x) (hk : ∀ a, P a → Gives Q (k a)) : Gives Q (x >>= k) :=
  fun w => hk _ (hx w) _

theorem Gives.true (x : StateM σ α) : Gives (fun _ => True) x := fun _ => trivial

theorem Until.pure {B : α → Prop} {a : α} {b : β} (h : R a b) :
    Until B R (Pure.pure a : StateM σ α) (Pure.pure b) := fun _ => .inr ⟨h, rfl⟩

theorem Until.mono {B C : α → Prop} (h : Until B R x y) (hBC : ∀ a, B a → C a) : Until C R x y :=
  fun w => (h w).imp_left (hBC _)

theorem Until.self (x : StateM σ α) : Until (fun _ => False) Eq x x := fun _ => .inr ⟨rfl, rfl⟩

theorem Until.bind {B : α → Prop} {C : γ → Prop} (h : Until B R x y) (hx : Gives P x)
    (hB : ∀ a, P a → B a → Gives C (k a)) (hk : ∀ a b, P a → R a b → Until C S (k a) (l b)) :
    Until C S (x >>= k) (y >>= l) := by
  intro w
  rcases h w with hb | ⟨hr, hstate⟩
  · exact .inl (hB _ (hx w) hb _)
  · have hy : (y >>= l) w = l (y w).1 (x w).2 := congrArg (l (y w).1) hstate
    rw [hy]
    exact hk _ _ (hx w) hr _

end Programs

/-! ### The log of a run grows -/

namespace RunState

variable {σ : Type} (host : Host (StateM σ)) (t : Task)

theorem turn_grows (a : Activity) (thread now : Nat) (s : TaskState) :
    Gives (fun u => s.Grows t u.shared) ((a.turn t thread now s).answered host.answer) := by
  intro w
  obtain ⟨writes, hdoes⟩ := ((a.turn_bounded t thread now s).answered host.answer w).shared
  exact hdoes.decisions

theorem bury_grows (s : TaskState) (index : Nat) (result : Except Fault Value) :
    Gives (s.Grows t) (bury host s index result) := by
  unfold bury
  split <;> exact fun w => ⟨[], rfl⟩

theorem extraTurns_grows (now : Nat) (l : List ExtraThread) (r : Round) :
    Gives (fun r' => r.shared.Grows t r'.shared) (extraTurns host t now r l) := by
  induction l generalizing r with
  | nil => exact .pure (.refl _)
  | cons x rest ih =>
    refine (turn_grows host t x.activity x.index now r.shared).bind fun u hu => ?_
    cases u with
    | moved s a => exact fun w => hu.trans (ih _ w)
    | blocked s a wake => exact fun w => hu.trans (ih _ w)
    | ended s result =>
      exact (bury_grows host t s x.index result).bind fun s' hs' w => hu.trans (hs'.trans (ih ⟨s', _, _, _⟩ w))

/-- The rest of a round in which somebody can move. -/
def turnRound (now deadline : Nat) (s : TaskState) (main : MainThread) (extras : List ExtraThread) (moved : Bool)
    (wake : Option Nat) : StateM σ RunState := do
  let (started, s) := s.takeStarting
  let r ← extraTurns host t now ⟨s, [], moved, wake⟩ (extras ++ started)
  let (started, s) := r.shared.takeStarting
  if !r.moved && started.isEmpty then
    host.idleUntil (min deadline (r.wake.getD deadline))
  pure ⟨s, main, r.extras.reverse ++ started⟩

theorem completeRound_eq (now deadline : Nat) (s : TaskState) (main : MainThread) (extras : List ExtraThread)
    (moved : Bool) (wake : Option Nat) : completeRound host t now deadline s main extras moved wake =
      if extras = [] ∧ s.starting = [] ∧ moved = true then pure ⟨s, main, []⟩
      else turnRound host t now deadline s main extras moved wake := by
  unfold completeRound
  split
  · next hs => rw [if_pos ⟨rfl, hs, rfl⟩]
  · next hne => rw [if_neg fun ⟨hextras, hs, hmoved⟩ => hne hextras hs hmoved]; rfl

theorem completeRound_grows (now deadline : Nat) (s : TaskState) (main : MainThread) (extras : List ExtraThread)
    (moved : Bool) (wake : Option Nat) :
    Gives (fun st => s.Grows t st.shared) (completeRound host t now deadline s main extras moved wake) := by
  rw [completeRound_eq]
  split
  · exact .pure (.refl _)
  · refine (extraTurns_grows host t now _ _).bind fun r hr => ?_
    have hgrows := TaskState.grows_takeStarting.trans (hr.trans TaskState.grows_takeStarting)
    dsimp only
    split
    · exact (Gives.true _).bind fun _ _ => .pure hgrows
    · exact .pure hgrows

theorem windDown_grows (s : TaskState) (w : Progressed) (l : List WorkStep) :
    s.Grows t (WorkRest.windDown t s w l).1 := by
  induction l generalizing s w with
  | nil => exact .refl s
  | cons step rest ih =>
    have hstep := (step.logs_perform t s w).decisions
    unfold WorkRest.windDown
    generalize step.perform t s w = q at hstep
    cases q with
    | answered s' w' => exact TaskState.Grows.trans hstep (ih s' w')
    | call s' w' f propagate =>
      have hshared := WorkMove.shared_ofResult s' w' propagate (.error .cancelled)
      dsimp only
      generalize WorkMove.ofResult s' w' propagate (.error .cancelled) = q at hshared
      obtain rfl : q.shared = s' := hshared
      cases q with
      | answered s' w' => exact TaskState.Grows.trans hstep (ih s' w')
      | _ => exact hstep
    | ended s' w' e => exact hstep

theorem expire_grows (st : RunState) : st.shared.Grows t (expire t st).shared := by
  have hshared := WorkMove.shared_ofResult st.shared.cancel st.main.progressed st.main.propagate (.error .cancelled)
  have hcancel : st.shared.Grows t st.shared.cancel := ⟨[], rfl⟩
  unfold expire
  dsimp only
  generalize WorkMove.ofResult st.shared.cancel st.main.progressed st.main.propagate (.error .cancelled) = q at hshared
  rw [← hshared] at hcancel
  cases q with
  | answered s w => exact hcancel.trans (windDown_grows t s w st.main.rest)
  | _ => exact hcancel

/-- What comes behind a turn of the main thread: the rest of its round, and all other rounds. -/
def afterTurn (now deadline fuel : Nat) (main : MainThread) (extras : List ExtraThread) : Turn → StateM σ RunEnd
  | .moved s a =>
    completeRound host t now deadline s { main with activity := a } extras true none >>= rounds host t deadline fuel
  | .blocked s a wake =>
    completeRound host t now deadline s { main with activity := a } extras false wake >>= rounds host t deadline fuel
  | .ended s result =>
    match continueWork t s { main with activity := .running [] } result with
    | .call s w f propagate rest =>
      completeRound host t now deadline s ⟨.running [f], w, propagate, rest⟩ extras true none >>=
        rounds host t deadline fuel
    | .ended s w e => pure ⟨s, w, some e⟩

theorem rounds_eq_bind (deadline fuel : Nat) (st : RunState) :
    rounds host t deadline (fuel + 1) st = host.elapsed >>= fun now =>
      if deadline ≤ now then pure (expire t st)
      else (st.main.activity.turn t 0 now st.shared).answered host.answer >>=
        afterTurn host t now deadline fuel st.main st.extras := by
  rw [rounds]
  refine bind_congr fun now => if_congr Iff.rfl rfl (bind_congr fun u => ?_)
  cases u with
  | ended s result =>
    cases hwork : continueWork t s { st.main with activity := .running [] } result <;> simp only [afterTurn, hwork]
  | _ => rfl

theorem afterTurn_grows {deadline fuel : Nat}
    (hrounds : ∀ st, Gives (fun e => st.shared.Grows t e.shared) (rounds host t deadline fuel st)) (now : Nat)
    (main : MainThread) (extras : List ExtraThread) (u : Turn) :
    Gives (fun e => u.shared.Grows t e.shared) (afterTurn host t now deadline fuel main extras u) := by
  have goes (s : TaskState) (main : MainThread) (moved : Bool) (wake : Option Nat) :
      Gives (fun e => s.Grows t e.shared)
        (completeRound host t now deadline s main extras moved wake >>= rounds host t deadline fuel) :=
    (completeRound_grows host t now deadline s main extras moved wake).bind fun st hst w => hst.trans (hrounds st w)
  cases u with
  | moved s a => exact goes _ _ _ _
  | blocked s a wake => exact goes _ _ _ _
  | ended s result =>
    have hwork := (logs_continueWork t s { main with activity := .running [] } result).decisions
    simp only [afterTurn]
    generalize continueWork t s { main with activity := .running [] } result = q at hwork
    cases q with
    | call s₁ w f propagate rest => exact fun w => TaskState.Grows.trans hwork (goes _ _ _ _ w)
    | ended s₁ w e => exact .pure hwork

/-- **The log of a run grows**, and nothing is taken out of it. -/
theorem rounds_grows (deadline fuel : Nat) (st : RunState) :
    Gives (fun e => st.shared.Grows t e.shared) (rounds host t deadline fuel st) := by
  induction fuel generalizing st with
  | zero => exact .pure (expire_grows t st)
  | succ fuel ih =>
    rw [rounds_eq_bind]
    refine (Gives.true host.elapsed).bind fun now _ => ?_
    split
    · exact .pure (expire_grows t st)
    · exact (turn_grows host t st.main.activity 0 now st.shared).bind fun u hu w =>
        hu.trans (afterTurn_grows host t ih now st.main st.extras u w)

end RunState

/-! ### Runs side by side -/

namespace RunState

variable {σ : Type} (host : Host (StateM σ)) {t t' : Task} (ht : t.Relabels t')

include ht

theorem expire_relabels {st st' : RunState} (h : st.Relabels st') : expire t' st' = expire t st := by
  obtain ⟨s, hmain, -⟩ := h
  obtain ⟨-, w, propagate, rest⟩ := hmain
  unfold expire
  dsimp only
  split <;> simp only [*, WorkRest.windDown_relabels ht]

theorem continueWork_relabels (s : TaskState) (main : MainThread) (result : Except Fault Value) :
    (continueWork t s main result).Relabels (continueWork t' s main result) := by
  unfold continueWork
  split
  · exact WorkRest.resume_relabels ht _ _ _
  · exact .call _ _ (.refl _) _ _
  · exact .ended _ _ _

theorem turn_relabels (s : TaskState) {a a' : Activity} (ha : a.Relabels a') (thread now : Nat) :
    Until (fun u => s.HasRead t u.shared) Turn.Relabels ((a.turn t thread now s).answered host.answer)
      ((a'.turn t' thread now s).answered host.answer) := by
  intro w
  obtain ⟨h, hstate⟩ := (Activity.turn_relabels ht s ha thread now).answered host.answer w
  exact h.imp id fun h => ⟨h, hstate.symm⟩

theorem extraTurns_relabels (now : Nat) {l l' : List ExtraThread} (hl : List.Forall₂ ExtraThread.Relabels l l')
    {r r' : Round} (hr : r.Relabels r') :
    Until (fun r₁ => r.shared.HasRead t r₁.shared) Round.Relabels (extraTurns host t now r l)
      (extraTurns host t' now r' l') := by
  induction hl generalizing r r' with
  | nil => exact .pure hr
  | @cons x x' rest rest' hx _ ih =>
    obtain @⟨s, extras, extras', hextras, moved, wake⟩ := hr
    obtain ⟨index, ha⟩ := hx
    refine (turn_relabels host ht s ha index now).bind (turn_grows host t _ index now s) (fun u hu hread => ?_)
      fun u u' hu h => ?_
    · -- what has been read stays in the log, whatever the other threads do
      cases u with
      | moved s₁ a => exact fun w => hread.grows (extraTurns_grows host t now rest _ w)
      | blocked s₁ a wake => exact fun w => hread.grows (extraTurns_grows host t now rest _ w)
      | ended s₁ result =>
        exact (bury_grows host t s₁ index result).bind fun s₂ hs₂ w =>
          (hread.grows hs₂).grows (extraTurns_grows host t now rest ⟨s₂, _, _, _⟩ w)
    · cases h with
      | moved s₁ ha₁ =>
        exact (ih (.mk s₁ (.cons (.mk index ha₁) hextras) true wake)).mono fun _ => hu.hasRead
      | blocked s₁ ha₁ wake₁ =>
        exact (ih (.mk s₁ (.cons (.mk index ha₁) hextras) moved (earlier wake wake₁))).mono fun _ => hu.hasRead
      | ended s₁ result =>
        refine (Until.self _).bind (bury_grows host t s₁ index result) (fun _ _ => False.elim) ?_
        rintro s₂ _ hs₂ rfl
        exact (ih (.mk s₂ hextras true wake)).mono fun _ => (hu.trans hs₂).hasRead

theorem turnRound_relabels (now deadline : Nat) (s : TaskState) {main main' : MainThread}
    (hmain : main.Relabels main') {extras extras' : List ExtraThread}
    (hextras : List.Forall₂ ExtraThread.Relabels extras extras') (moved : Bool) (wake : Option Nat) :
    Until (fun st => s.HasRead t st.shared) Relabels (turnRound host t now deadline s main extras moved wake)
      (turnRound host t' now deadline s main' extras' moved wake) := by
  have hstarted := List.rel_append hextras s.takeStarting_relabels
  refine (extraTurns_relabels host ht now hstarted (.mk s.takeStarting.2 .nil moved wake)).bind
    (extraTurns_grows host t now _ _) (fun r hr hread => ?_) fun r r' hr h => ?_
  · have hread' := (TaskState.grows_takeStarting.hasRead hread).grows TaskState.grows_takeStarting
    dsimp only
    split
    · exact (Gives.true _).bind fun _ _ => .pure hread'
    · exact .pure hread'
  · obtain @⟨s₁, extras₁, extras₁', hextras₁, moved₁, wake₁⟩ := h
    have hst : Relabels ⟨s₁.takeStarting.2, main, extras₁.reverse ++ s₁.takeStarting.1⟩
        ⟨s₁.takeStarting.2, main', extras₁'.reverse ++ s₁.takeStarting.1⟩ :=
      .mk _ hmain (List.rel_append (List.rel_reverse hextras₁) s₁.takeStarting_relabels)
    dsimp only
    split
    · exact (Until.self _).bind (Gives.true _) (fun _ _ => False.elim) fun _ _ _ _ => .pure hst
    · exact .pure hst

theorem completeRound_relabels (now deadline : Nat) (s : TaskState) {main main' : MainThread}
    (hmain : main.Relabels main') {extras extras' : List ExtraThread}
    (hextras : List.Forall₂ ExtraThread.Relabels extras extras') (moved : Bool) (wake : Option Nat) :
    Until (fun st => s.HasRead t st.shared) Relabels (completeRound host t now deadline s main extras moved wake)
      (completeRound host t' now deadline s main' extras' moved wake) := by
  have hnobody : extras' = [] ↔ extras = [] := by cases hextras <;> simp
  rw [completeRound_eq, completeRound_eq, if_congr (and_congr_left' hnobody) rfl rfl]
  split
  · exact .pure (.mk s hmain .nil)
  · exact turnRound_relabels host ht now deadline s hmain hextras moved wake

theorem afterTurn_relabels {deadline fuel : Nat}
    (hrounds : ∀ {st st' : RunState}, st.Relabels st' → Until (fun e => st.shared.HasRead t e.shared) Eq
      (rounds host t deadline fuel st) (rounds host t' deadline fuel st')) (now : Nat) {main main' : MainThread}
    (hmain : main.Relabels main') {extras extras' : List ExtraThread}
    (hextras : List.Forall₂ ExtraThread.Relabels extras extras') {u u' : Turn} (hu : u.Relabels u') :
    Until (fun e => u.shared.HasRead t e.shared) Eq (afterTurn host t now deadline fuel main extras u)
      (afterTurn host t' now deadline fuel main' extras' u') := by
  have goes (s : TaskState) {main main' : MainThread} (hmain : main.Relabels main') (moved : Bool) (wake : Option Nat) :
      Until (fun e => s.HasRead t e.shared) Eq
        (completeRound host t now deadline s main extras moved wake >>= rounds host t deadline fuel)
        (completeRound host t' now deadline s main' extras' moved wake >>= rounds host t' deadline fuel) :=
    (completeRound_relabels host ht now deadline s hmain hextras moved wake).bind
      (completeRound_grows host t now deadline s main extras moved wake)
      (fun st _ hread w => hread.grows (rounds_grows host t deadline fuel st w))
      fun st st' hgrows hst => (hrounds hst).mono fun _ => hgrows.hasRead
  obtain @⟨-, -, -, w, propagate, rest⟩ := hmain
  cases hu with
  | moved s ha => exact goes s (.mk ha _ _ _) _ _
  | blocked s ha wake => exact goes s (.mk ha _ _ _) _ _
  | ended s result =>
    have hgrows := (logs_continueWork t s ⟨.running [], w, propagate, rest⟩ result).decisions
    have hwork := continueWork_relabels ht s ⟨.running [], w, propagate, rest⟩ result
    simp only [afterTurn]
    generalize continueWork t s ⟨.running [], w, propagate, rest⟩ result = q at hgrows hwork
    generalize continueWork t' s ⟨.running [], w, propagate, rest⟩ result = q' at hwork
    cases hwork with
    | call s₁ w hf propagate rest =>
      exact (goes s₁ (.mk (.running (.cons hf .nil)) _ _ _) _ _).mono fun _ => TaskState.Grows.hasRead hgrows
    | ended s₁ w e => exact .pure rfl

/-- **Rounds are the same until a class file is read.** -/
theorem rounds_relabels (deadline fuel : Nat) {st st' : RunState} (hst : st.Relabels st') :
    Until (fun e => st.shared.HasRead t e.shared) Eq (rounds host t deadline fuel st)
      (rounds host t' deadline fuel st') := by
  induction fuel generalizing st st' with
  | zero => exact .pure (expire_relabels ht hst).symm
  | succ fuel ih =>
    rw [rounds_eq_bind, rounds_eq_bind]
    refine (Until.self host.elapsed).bind (Gives.true _) (fun _ _ => False.elim) ?_
    rintro now _ - rfl
    split
    · exact .pure (expire_relabels ht hst).symm
    · obtain @⟨s, main, main', extras, extras', hmain, hextras⟩ := hst
      have hactivity : main.activity.Relabels main'.activity := by
        obtain ⟨ha⟩ := hmain
        exact ha
      exact (turn_relabels host ht s hactivity 0 now).bind (turn_grows host t main.activity 0 now s)
        (fun u _ hread w =>
          hread.grows (afterTurn_grows host t (rounds_grows host t deadline fuel) now main extras u w))
        fun u u' hgrows hu => (afterTurn_relabels host ht ih now hmain hextras hu).mono fun _ => hgrows.hasRead

/-- **A run on a host is the same run under other labels**, up to its end, unless it has read a class file. -/
theorem run_relabels (s : TaskState) (work : List WorkStep) (limit : Nat) :
    Until (fun e => s.HasRead t e.shared) Eq (run host t s work limit) (run host t' s work limit) := by
  refine (Until.self host.elapsed).bind (Gives.true _) (fun _ _ => False.elim) ?_
  rintro now _ - rfl
  have hgrows := (WorkRest.logs_resume t s .none work).decisions
  have hwork := WorkRest.resume_relabels ht s .none work
  generalize WorkRest.resume t s .none work = q at hgrows hwork
  generalize WorkRest.resume t' s .none work = q' at hwork
  cases hwork with
  | call s₁ w hf propagate rest =>
    exact (rounds_relabels host ht _ _ (.mk s₁ (.mk (.running (.cons hf .nil)) _ _ _) .nil)).mono fun _ =>
      TaskState.Grows.hasRead hgrows
  | ended s₁ w e => exact .pure rfl

end RunState

/-! ### Schedules side by side -/

inductive MainStand.Relabels : MainStand → MainStand → Prop where
  | working (w : Progressed) (rest : List WorkStep) : Relabels (.working w rest) (.working w rest)
  | calling {main main' : MainThread} (h : main.Relabels main') : Relabels (.calling main) (.calling main')
  | ended (w : Progressed) (e : WorkEnd) : Relabels (.ended w e) (.ended w e)

inductive ExtraStand.Relabels : ExtraStand → ExtraStand → Prop where
  | active {a a' : Activity} (h : a.Relabels a') : Relabels (.active a) (.active a')
  | ended (r : Except Fault Value) : Relabels (.ended r) (.ended r)

abbrev ExtrasRelabel (l l' : List (Nat × ExtraStand)) : Prop :=
  List.Forall₂ (fun x x' => x'.1 = x.1 ∧ x.2.Relabels x'.2) l l'

/-- **Everybody is where they are in the other task**, but for what labels are called. -/
inductive Scene.Relabels : Scene → Scene → Prop where
  | mk {s s' : TaskState} (hs : s = s') {main main' : MainStand} (hmain : main.Relabels main')
      {extras extras' : List (Nat × ExtraStand)} (hextras : ExtrasRelabel extras extras')
      (verdict : Option (Option WorkEnd)) : Relabels ⟨s, main, extras, verdict⟩ ⟨s', main', extras', verdict⟩

/-- Computations that agree come to related things with the same questions and answers. -/
theorem Query.Rel.exists_comes {α β : Type} {R : α → β → Prop} {q : Query α} {q' : Query β} (h : Rel R q q')
    {l : List Exchange} {a : α} (ha : q.Comes l a) : ∃ b, q'.Comes l b ∧ R a b := by
  induction h generalizing l with
  | done hab =>
    cases ha
    exact ⟨_, .done _, hab⟩
  | ask _ ih =>
    obtain _ | ⟨x, ha⟩ := ha
    obtain ⟨b, hb, hab⟩ := ih x ha
    exact ⟨b, .ask x hb, hab⟩

theorem WorkMove.Relabels.shared_eq {q q' : WorkMove} (h : q.Relabels q') : q'.shared = q.shared := by
  cases h <;> rfl

theorem WorkMove.Relabels.stand {q q' : WorkMove} (h : q.Relabels q') (rest : List WorkStep) :
    (q.stand rest).Relabels (q'.stand rest) := by
  cases h with
  | answered s w => exact .working w rest
  | call s w hf propagate => exact .calling (.mk (.running (.cons hf .nil)) w propagate rest)
  | ended s w e => exact .ended w e

theorem MainStand.Relabels.refl_stand (q : WorkMove) (rest : List WorkStep) : (q.stand rest).Relabels (q.stand rest) :=
  (WorkMove.Relabels.refl q).stand rest

theorem Turn.Relabels.shared_eq {u u' : Turn} (h : u.Relabels u') : u'.shared = u.shared := by
  cases h <;> rfl

theorem Turn.Relabels.extraBehind {u u' : Turn} (h : u.Relabels u') :
    (ExtraStand.behind u).Relabels (ExtraStand.behind u') := by
  cases h with
  | moved s ha => exact .active ha
  | blocked s ha wake => exact .active ha
  | ended s r => exact .ended r

theorem Turn.Relabels.mainBehind {u u' : Turn} (h : u.Relabels u') {main main' : MainThread}
    (hmain : main.Relabels main') : (main.behind u).Relabels (main'.behind u') := by
  obtain ⟨-, w, propagate, rest⟩ := hmain
  cases h with
  | moved s ha => exact .calling (.mk ha _ _ _)
  | blocked s ha wake => exact .calling (.mk ha _ _ _)
  | ended s r => exact .refl_stand _ _

theorem TaskState.extras_takeStarting (s : TaskState) :
    ExtrasRelabel (ExtraStand.ofThreads s.takeStarting.1) (ExtraStand.ofThreads s.takeStarting.1) := by
  refine List.forall₂_map_left_iff.2 (List.forall₂_map_right_iff.2 (s.takeStarting_relabels.imp ?_))
  rintro x x' ⟨index, ha⟩
  exact ⟨rfl, .active ha⟩

theorem ExtrasRelabel.exists_append {front back l' : List (Nat × ExtraStand)} {x : Nat × ExtraStand}
    (h : ExtrasRelabel (front ++ x :: back) l') :
    ∃ front' y back', l' = front' ++ (x.1, y) :: back' ∧ ExtrasRelabel front front' ∧ x.2.Relabels y ∧
      ExtrasRelabel back back' := by
  have hfront := List.forall₂_take_append l' front (x :: back) h.flip
  have hrest := List.forall₂_drop_append l' front (x :: back) h.flip
  obtain ⟨⟨_, y⟩, back', ⟨rfl, hy⟩, hback, hdrop⟩ := List.forall₂_cons_right_iff.1 hrest
  exact ⟨l'.take front.length, y, back', by rw [← hdrop, List.take_append_drop], hfront.flip, hy, hback.flip⟩

theorem Activity.grows_of_comes {t : Task} {s : TaskState} {a : Activity} {index now : Nat} {asked : List Exchange}
    {u : Turn} (hu : (a.turn t index now s).Comes asked u) : s.Grows t u.shared := by
  obtain ⟨writes, hdoes⟩ := ((a.turn_bounded t index now s).of_mayCome hu.mayCome).shared
  exact hdoes.decisions

theorem Task.Interleaves.grows {t : Task} {s₀ : TaskState} {acts : List Act} {c : Crowd}
    (h : t.Interleaves s₀ acts c) : s₀.Grows t c.shared := by
  induction h with
  | start => exact .refl _
  | turn _ hu ih => exact ih.trans (Activity.grows_of_comes hu)
  | call _ c m arguments _ ih => exact ih.trans ⟨_, Activation.confinements_start t _ c m arguments⟩
  | begun _ ih => exact ih.trans TaskState.grows_takeStarting
  | other _ hconfinements _ _ ih => exact ih.trans ⟨[], hconfinements⟩

/-- A turn of a schedule is one of the other task, unless it comes to have read a class file. -/
theorem Task.Schedules.turn_relabels {t t' : Task} (ht : t.Relabels t') {s₀ : TaskState} {work : List WorkStep}
    {acts : List Act} {c : Scene} (h : t.Schedules s₀ work acts c) {a a' : Activity} (ha : a.Relabels a')
    {index now : Nat} {asked : List Exchange} {u : Turn} (hu : (a.turn t index now c.shared).Comes asked u) :
    s₀.HasRead t u.shared ∨ ∃ u', (a'.turn t' index now c.shared).Comes asked u' ∧ u.Relabels u' := by
  obtain ⟨u', hu', hread | h'⟩ := (Activity.turn_relabels ht c.shared ha index now).exists_comes hu
  · exact .inl (h.interleaves.grows.hasRead hread)
  · exact .inr ⟨u', hu', h'⟩

/-- **Under every scheduler, the other task can do the same**, with the same questions to the host, until a class file is
read. -/
theorem Task.Schedules.relabels {t t' : Task} (ht : t.Relabels t') {s₀ : TaskState} {work : List WorkStep}
    {acts : List Act} {c : Scene} (h : t.Schedules s₀ work acts c) :
    s₀.HasRead t c.shared ∨ ∃ acts' c', t'.Schedules s₀ work acts' c' ∧
      acts'.flatMap Act.asked = acts.flatMap Act.asked ∧ c.Relabels c' := by
  induction h with
  | start => exact .inr ⟨_, _, .start, rfl, .mk rfl (.working _ _) .nil _⟩
  | @step acts s w step rest extras verdict _ ih =>
    refine ih.imp (·.grows (step.logs_perform t s w).decisions) ?_
    rintro ⟨acts', _, h, hasked, ⟨rfl, ⟨⟩, hextras⟩⟩
    have hstep := step.perform_relabels ht s w
    exact ⟨_, _, h.step, by rw [List.flatMap_append, List.flatMap_append, hasked],
      .mk hstep.shared_eq.symm (hstep.stand rest) hextras _⟩
  | exhausted _ ih =>
    refine ih.imp_right ?_
    rintro ⟨acts', _, h, hasked, ⟨rfl, ⟨⟩, hextras⟩⟩
    exact ⟨_, _, h.exhausted, hasked, .mk rfl (.ended _ _) hextras _⟩
  | @mainTurn acts s main extras verdict now asked u hs hu ih =>
    -- either the run has read a class file of its own by now, or the scenes correspond
    obtain hread | ⟨acts', _, h, hasked, ⟨rfl, hmain, hextras⟩⟩ := ih
    · exact .inl (hread.grows (Activity.grows_of_comes hu))
    · cases hmain with
      | @calling _ main' hmain =>
        have hactivity : main.activity.Relabels main'.activity := by
          obtain ⟨ha⟩ := hmain
          exact ha
        refine (hs.turn_relabels ht hactivity hu).imp_right ?_
        rintro ⟨u', hu', h'⟩
        exact ⟨_, _, h.mainTurn hu', by simp [hasked, Act.asked],
          .mk h'.shared_eq.symm (h'.mainBehind hmain) hextras _⟩
  | @extraTurn acts s main front back index a verdict now asked u hs hu ih =>
    obtain hread | ⟨acts', _, h, hasked, ⟨rfl, hmain, hextras⟩⟩ := ih
    · exact .inl (hread.grows (Activity.grows_of_comes hu))
    · obtain ⟨front', y, back', rfl, hfront, hy, hback⟩ := ExtrasRelabel.exists_append hextras
      cases hy with
      | active ha =>
        refine (hs.turn_relabels ht ha hu).imp_right ?_
        rintro ⟨u', hu', h'⟩
        have hbehind : ExtrasRelabel ((index, .behind u) :: back) ((index, .behind u') :: back') :=
          .cons ⟨rfl, h'.extraBehind⟩ hback
        exact ⟨_, _, h.extraTurn hu', by simp [hasked, Act.asked],
          .mk h'.shared_eq.symm hmain (List.rel_append hfront hbehind) _⟩
  | @begun acts s main extras verdict _ ih =>
    refine ih.imp (·.grows TaskState.grows_takeStarting) ?_
    rintro ⟨acts', _, h, hasked, ⟨rfl, hmain, hextras⟩⟩
    exact ⟨_, _, h.begun, hasked, .mk rfl hmain (List.rel_append hextras s.extras_takeStarting) _⟩
  | @finished acts s main front back index result verdict now _ ih =>
    have hs : s.Grows t (s.buried index result now) := by
      obtain ⟨sink, hburied⟩ := s.buried_eq index result now
      exact ⟨[], by rw [hburied]; rfl⟩
    refine ih.imp (·.grows hs) ?_
    rintro ⟨acts', _, h, hasked, ⟨rfl, hmain, hextras⟩⟩
    obtain ⟨front', y, back', rfl, hfront, hy, hback⟩ := ExtrasRelabel.exists_append hextras
    cases hy
    exact ⟨_, _, h.finished now, hasked, .mk rfl hmain (List.rel_append hfront hback) _⟩
  | heard _ ih =>
    refine ih.imp_right ?_
    rintro ⟨acts', _, h, hasked, ⟨rfl, ⟨⟩, hextras⟩⟩
    exact ⟨_, _, h.heard, hasked, .mk rfl (.ended _ _) hextras _⟩
  | late _ ih =>
    refine ih.imp_right ?_
    rintro ⟨acts', _, h, hasked, ⟨rfl, hmain, hextras⟩⟩
    exact ⟨_, _, h.late, hasked, .mk rfl hmain hextras _⟩
  | @cancelled acts s main extras verdict _ ih =>
    refine ih.imp (·.grows ⟨[], rfl⟩) ?_
    rintro ⟨acts', _, h, hasked, ⟨rfl, hmain, hextras⟩⟩
    exact ⟨_, _, h.cancelled, hasked, .mk rfl hmain hextras _⟩

/-! ### Executions -/

namespace Sandbox

variable {u u' : LoadingUnit} (hu : u.Relabels u')

include hu

theorem checkEntry_relabels (e : EntryPoint) : checkEntry u' e = checkEntry u e := by
  have hclass := LoadingUnit.Relabels.findIn_rel hu.layers e.className
  unfold checkEntry LoadingUnit.findClass
  generalize LoadingUnit.findIn e.className u.layers = o at hclass
  generalize LoadingUnit.findIn e.className u'.layers = o' at hclass
  cases hclass with
  | none => rfl
  | @some c c' hc =>
    have hmethod := hc.method?_rel e.methodName
    dsimp only
    generalize c.method? e.methodName = o at hmethod
    generalize c'.method? e.methodName = o' at hmethod
    cases hmethod with
    | none => rfl
    | @some m m' hm =>
      have hstatic : m'.method.isStatic = m.method.isStatic := by rw [hm.method]
      have hparams : m'.method.params = m.method.params := by rw [hm.method]
      have hshown : m'.method.descriptor e.className = m.method.descriptor e.className := by
        rw [hm.method]
        rfl
      simp only [hstatic, hparams, hshown]

/-- Runs begin in the same state. -/
theorem prepare_relabels (sb : Sandbox) (r : RegistryId) (sets : List LoadingUnit.ClassSets) (a : ExecutionArguments) :
    Agree (fun P P' => P'.token = P.token ∧ P'.task.unit.id = P.task.unit.id ∧ P'.state = P.state ∧
      P.task.Relabels P'.task) (sb.prepare r u sets a) (sb.prepare r u' sets a) := by
  have hstart : Agree Eq (Recordings.start a.maxExtraThreads u.own.instrumentation)
      (Recordings.start a.maxExtraThreads u'.own.instrumentation) := by
    rw [hu.own.instrumentation]
    exact .refl (fun _ => rfl) _
  refine (prepare_begins hu.own.id hstart sb r sets).imp fun P P' hP h => ?_
  have htask : P.task = ⟨u, P.task.capability, a.maxExtraThreads⟩ := (prepare_eq_ok_iff.1 hP).task
  refine ⟨h.token, ?_, ?_, ?_⟩
  · rw [h.task, htask]
    exact hu.own.id
  · rw [h.state, ← h.recordings]
  · rw [h.task, htask]
    exact .mk hu

omit hu

section

variable {σ : Type} (host : Host (StateM σ)) (sb : Sandbox) (r : RegistryId) (sets : List LoadingUnit.ClassSets)
  (a : ExecutionArguments) (work : List WorkStep) (w : σ)

def runOf (P : Prepared) : RunEnd × σ :=
  RunState.run host P.task P.state work (a.timeoutMillis * 1000000)
    (host.elapsed (host.today (host.randomBytes w).2).2).2

def recordOf (q : RunEnd × σ) : Record where
  taskId := .ofRandom (host.randomBytes w).1
  started := (host.today (host.randomBytes w).2).1
  stopped := (host.today (host.elapsed q.2).2).1
  executionMillis := ((host.elapsed q.2).1 - (host.elapsed (host.today (host.randomBytes w).2).2).1) / 1000000

theorem executeWork_eq {u : LoadingUnit} {P : Prepared} (hP : sb.prepare r u sets a = .ok P) :
    executeWork host sb r u sets a work w =
      (conclude r P (recordOf host w (runOf host a work w P)) (runOf host a work w P).1,
        (host.today (host.elapsed (runOf host a work w P).2).2).2) := by
  unfold executeWork
  rw [hP]
  rfl

/-- The run of an execution reads a class file of its unit. -/
def RunReads (u : LoadingUnit) : Prop :=
  ∃ P, sb.prepare r u sets a = .ok P ∧ P.state.HasRead P.task (runOf host a work w P).1.shared

/-- **An execution is the same under other labels**, with all that it leaves, unless it has read a class file. -/
theorem executeWork_relabels (hu : u.Relabels u') :
    RunReads host sb r sets a work w u ∨
      executeWork host sb r u' sets a work w = executeWork host sb r u sets a work w := by
  have hprepare := prepare_relabels hu sb r sets a
  cases hP : sb.prepare r u sets a with
  | error fault =>
    rw [hP] at hprepare
    unfold executeWork
    generalize sb.prepare r u' sets a = x' at hprepare
    cases hprepare
    rw [hP]
    exact .inr rfl
  | ok P =>
    rw [hP] at hprepare
    cases hP' : sb.prepare r u' sets a with
    | error fault =>
      rw [hP'] at hprepare
      cases hprepare
    | ok P' =>
      rw [hP'] at hprepare
      cases hprepare with
      | ok h =>
        obtain ⟨htoken, hid, hstate, htask⟩ := h
        have hconclude (rec : Record) (e : RunEnd) : conclude r P' rec e = conclude r P rec e := by
          unfold conclude
          rw [htoken, hid]
        refine (RunState.run_relabels host htask P.state work (a.timeoutMillis * 1000000) _).imp
          (fun hread => ⟨P, hP, hread⟩) fun ⟨hvalue, hworld⟩ => ?_
        have hrun : runOf host a work w P' = runOf host a work w P := by
          rw [runOf, hstate]
          exact Prod.ext hvalue.symm hworld
        rw [executeWork_eq host sb r sets a work w hP, executeWork_eq host sb r sets a work w hP', hrun, hconclude]

variable {host sb r sets a w}

/-- What the run of an entry point has read, the result says. -/
theorem RunReads.exists_result {e : EntryPoint} (h : RunReads host sb r sets a e.work w u) :
    ∃ x, (executeWork host sb r u sets a e.work w).1.outcome = .ok x ∧ ∃ d ∈ x.permissionLog, u.Shows d := by
  obtain ⟨P, hP, ds, hds, hread⟩ := h
  have hprepares := prepare_eq_ok_iff.1 hP
  rw [hprepares.task] at hread
  obtain ⟨s, hrelease⟩ := hprepares.release ds
  obtain ⟨acts, c, hacts, -, hverdict⟩ := hprepares.scheduled host e.work (a.timeoutMillis * 1000000)
    (host.elapsed (host.today (host.randomBytes w).2).2).2
  rw [executeWork_eq host sb r sets a e.work w hP]
  change c.verdict = some (runOf host a e.work w P).1.outcome at hverdict
  generalize (runOf host a e.work w P).1 = E at hds hverdict ⊢
  rw [← hds] at hrelease
  obtain ⟨v, hconclusion⟩ : ∃ v, conclusion E.outcome = .ok v := by
    cases houtcome : E.outcome with
    | none => exact ⟨_, rfl⟩
    | some end_ =>
      cases hfault : conclusion (some end_) with
      | ok v => exact ⟨v, rfl⟩
      | error fault =>
        rw [houtcome] at hverdict
        exact absurd (hacts.stemsFrom hverdict hfault) (fault.not_stemsFrom_entry e)
  generalize recordOf host w (runOf host a e.work w P) = rec
  have houtcome : (conclude r P rec E).outcome = resultOf rec E.shared.cancel E.outcome ds
      (outputOf E.shared.cancel.sink.shutDown).1 := by
    simp only [conclude, TaskState.cancel, hrelease]
    rfl
  have hlog := permissionLog_resultOf rec E.shared.cancel E.outcome ds (outputOf E.shared.cancel.sink.shutDown).1
  rw [← houtcome, hconclusion] at hlog
  cases hx : (conclude r P rec E).outcome with
  | error fault =>
    rw [hx] at hlog
    cases hlog
  | ok x =>
    rw [hx] at hlog
    obtain rfl : x.permissionLog = ds := Except.ok.inj hlog
    exact ⟨x, rfl, hread⟩

/-- **An entry point does the same under other labels**, with all that it leaves, unless the log of its result says that
it has read a class file. -/
theorem execute_relabels (hu : u.Relabels u') (host : Host (StateM σ)) (sb : Sandbox) (r : RegistryId)
    (sets : List LoadingUnit.ClassSets) (a : ExecutionArguments) (e : EntryPoint) (w : σ) :
    (∃ x, (execute host sb r u sets a e w).1.outcome = .ok x ∧ ∃ d ∈ x.permissionLog, u.Shows d) ∨
      execute host sb r u' sets a e w = execute host sb r u sets a e w := by
  unfold execute
  rw [checkEntry_relabels hu]
  cases checkEntry u e with
  | error fault => exact .inr rfl
  | ok _ => exact (executeWork_relabels host sb r sets a e.work w hu).imp_left RunReads.exists_result

end

end Sandbox

end Confine
