import Confine.Proofs.Machine.Solo
import Confine.Proofs.Sandbox.Prepared

/-!
# Runs without extra threads

Where no extra threads are allowed, none is ever registered (`TaskState.Lonely`), and the rounds of a run are the steps of
one thread that runs alone.

Main statement: `RunState.run_alone`.  A run of an entry point, on a host whose answers do not depend on the clock for
limits (`Host.Serves`), is cut off by its limit, or ends where the thread ends that runs alone.
-/

namespace Confine

variable {σ τ : Type}

/-! ### Hosts -/

/-- **The host gives answers that its clock for limits has no part in**: those of a host that one sees
through `view`. -/
structure Host.Serves (host : Host (StateM σ)) (answer : (r : HostRequest) → StateM τ r.Answer)
    (view : σ → τ) : Prop where
  answer_fst : ∀ r w, (host.answer r w).1 = (answer r (view w)).1
  answer_snd : ∀ r w, view (host.answer r w).2 = (answer r (view w)).2
  elapsed : ∀ w, view (host.elapsed w).2 = view w
  idleUntil : ∀ n w, view (host.idleUntil n w).2 = view w

theorem Host.Serves.answered {host : Host (StateM σ)}
    {answer : (r : HostRequest) → StateM τ r.Answer} {view : σ → τ} (h : host.Serves answer view)
    {α : Type} (q : Query α) (w : σ) :
    (q.answered host.answer w).1 = (q.answered answer (view w)).1 ∧
      view (q.answered host.answer w).2 = (q.answered answer (view w)).2 := by
  induction q generalizing w with
  | done a => exact ⟨rfl, rfl⟩
  | ask r resume ih =>
    rw [Query.answered_ask, Query.answered_ask, h.answer_fst r w, ← h.answer_snd r w]
    exact ih _ _

/-! ### Without extra threads -/

/-- No extra thread has ever been registered. -/
structure TaskState.Lonely (s : TaskState) : Prop where
  nextThread : s.nextThread = 1
  finished : s.finished = []
  starting : s.starting = []

namespace TaskState

variable {t : Task} {s s' : TaskState}

theorem Lonely.registers (hs : s.Lonely) (ht : t.maxExtraThreads = 0) (h : s.Registers t s') :
    s'.Lonely := by
  obtain ⟨hf, added, hstart, hnext, hlive⟩ := h
  have hadded : added = [] := by
    rcases hlive with h | hlive
    · exact h
    · rw [liveThreads, hnext, hf, hs.nextThread, hs.finished, ht, List.length_nil] at hlive
      exact List.eq_nil_of_length_eq_zero (by omega)
  subst hadded
  exact ⟨hnext.trans hs.nextThread, hf.trans hs.finished, hstart.trans hs.starting⟩

theorem Lonely.joinable (hs : s.Lonely) (index : Nat) : s.joinable index = false := by
  rw [TaskState.joinable, hs.nextThread]
  cases index <;> simp

theorem Lonely.awaits (hs : s.Lonely) {w : Wait} (h : s.Awaits w) : ∃ millis, w = .sleep millis := by
  cases w with
  | sleep millis => exact ⟨millis, rfl⟩
  | join index =>
    have hj := h index rfl
    rw [hs.joinable] at hj
    cases hj

theorem Lonely.takeStarting (hs : s.Lonely) : s.takeStarting = ([], s) := by
  unfold TaskState.takeStarting
  rw [hs.starting]

end TaskState

theorem Sandbox.Prepares.lonely {sb : Sandbox} {r : RegistryId} {u : LoadingUnit}
    {sets : List LoadingUnit.ClassSets} {a : ExecutionArguments} {P : Sandbox.Prepared}
    (h : Sandbox.Prepares sb r u sets a P) : P.state.Lonely := by
  rw [h.state]
  exact ⟨rfl, rfl, rfl⟩

structure Moment (σ : Type) where
  shared : TaskState
  activity : Activity
  host : σ

def Moment.turn (t : Task) (host : Host (StateM σ)) (x : Moment σ) : Turn × σ :=
  (x.activity.turn t 0 (host.elapsed x.host).1 x.shared).answered host.answer
    (host.elapsed x.host).2

theorem Moment.lonely_turn {t : Task} (ht : t.maxExtraThreads = 0) (host : Host (StateM σ))
    {x : Moment σ} (hx : x.shared.Lonely) : (x.turn t host).1.shared.Lonely := by
  obtain ⟨⟨_, hdoes⟩, -⟩ := (x.activity.turn_bounded t 0 (host.elapsed x.host).1
    x.shared).answered host.answer (host.elapsed x.host).2
  exact hx.registers ht hdoes.threads

/-! ### Rounds -/

namespace RunState

/-- The activity of the main thread, and the thread that runs alone, in a state `w` of the host. -/
structure Follows (view : σ → τ) (s : TaskState) (a : Activity) (w : σ) (x : Solo τ) : Prop where
  shared : x.shared = s
  stand : x.stand = .running a.frames
  awake : a = .running a.frames ∨ ∃ wake, a = .sleeping a.frames wake
  lonely : s.Lonely
  host : x.host = view w

variable {t : Task} {host : Host (StateM σ)} {answer : (r : HostRequest) → StateM τ r.Answer}
  {view : σ → τ} {s : TaskState} {a : Activity} {w : σ} {x : Solo τ}

/-- What a turn of the main thread comes to, and the thread that runs alone. -/
def TurnFollows (t : Task) (answer : (r : HostRequest) → StateM τ r.Answer) (view : σ → τ)
    (x : Solo τ) : Turn × σ → Prop
  | (.moved s a, w) | (.blocked s a _, w) =>
    ∃ x', (x' = x ∨ x' = x.step t answer) ∧ Follows view s a w x'
  | (.ended s r, w) =>
    (x.step t answer).shared = s ∧ (x.step t answer).stand = .ended r ∧
      (x.step t answer).host = view w

theorem Follows.turn (ht : t.maxExtraThreads = 0) (hserves : host.Serves answer view)
    (h : Follows view s a w x) (now : Nat) :
    TurnFollows t answer view x ((a.turn t 0 now s).answered host.answer w) := by
  obtain ⟨rfl, hstand, hawake, hlonely, hhost⟩ := h
  have hstep := Solo.step_of_running t answer hstand
  rcases hawake with ha | ⟨wake, ha⟩
  · obtain ⟨hp, hw⟩ := hserves.answered (Activation.step t 0 x.shared a.frames) w
    have hwithin := (Activation.step_bounded t 0 x.shared a.frames).answered host.answer w
    rw [ha, Activity.turn, Query.answered_map]
    rw [hhost, ← hp, ← hw] at hstep
    generalize ((Activation.step t 0 x.shared a.frames).answered host.answer w).1 = p
      at hstep hwithin
    cases hwithin with
    | running hs _ =>
      refine ⟨_, .inr rfl, ?_⟩
      rw [hstep]
      exact ⟨rfl, rfl, .inl rfl, hlonely.registers ht hs.threads, rfl⟩
    | waiting hs _ hwait =>
      -- it waits, and with no other thread there is only a sleep to wait for
      have hlonely' := hlonely.registers ht hs.threads
      obtain ⟨millis, rfl⟩ := hlonely'.awaits hwait
      refine ⟨_, .inr rfl, ?_⟩
      rw [hstep]
      exact ⟨rfl, rfl, .inr ⟨_, rfl⟩, hlonely', rfl⟩
    | ended hs =>
      simp only [Turn.ofProgress, TurnFollows, hstep]
      exact ⟨rfl, rfl, rfl⟩
  · -- it sleeps, and the run alone has no clock to wait for
    rw [ha, Activity.turn]
    by_cases hc : x.shared.cancelled = true
    · have hcancelled : Activation.step t 0 x.shared a.frames =
          .done (.ended x.shared (.error .cancelled)) := by
        unfold Activation.step
        exact if_pos hc
      rw [hcancelled, Query.answered_done] at hstep
      rw [if_pos hc, Query.answered_done, TurnFollows, hstep]
      exact ⟨rfl, rfl, hhost⟩
    · rw [if_neg hc]
      split
      · exact ⟨x, .inl rfl, rfl, hstand, .inl rfl, hlonely, hhost⟩
      · exact ⟨x, .inl rfl, rfl, hstand, .inr ⟨_, rfl⟩, hlonely, hhost⟩

/-! ### Rounds -/

theorem completeRound_of_lonely (hs : s.Lonely) (now deadline : Nat) (main : MainThread)
    (moved : Bool) (wake : Option Nat) (w : σ) :
    completeRound host t now deadline s main [] moved wake w =
      (⟨s, main, []⟩,
        if moved then w else (host.idleUntil (min deadline (wake.getD deadline)) w).2) := by
  unfold completeRound
  rw [hs.starting]
  cases moved with
  | true => rfl
  | false =>
    simp only [hs.takeStarting, List.append_nil, extraTurns, pure_bind, Bool.not_false,
      List.isEmpty_nil, Bool.and_self, if_true, List.reverse_nil]
    rfl

/-- One round of a run in which the main thread is alone. -/
theorem rounds_succ (deadline fuel : Nat) (st : RunState) (w : σ) :
    rounds host t deadline (fuel + 1) st w =
      if deadline ≤ (host.elapsed w).1 then (expire t st, (host.elapsed w).2)
      else
        let now := (host.elapsed w).1
        let main := st.main
        match (main.activity.turn t 0 now st.shared).answered host.answer (host.elapsed w).2 with
        | (.moved s a, w) =>
          let (st, w) := completeRound host t now deadline s { main with activity := a }
            st.extras true none w
          rounds host t deadline fuel st w
        | (.blocked s a wake, w) =>
          let (st, w) := completeRound host t now deadline s { main with activity := a }
            st.extras false wake w
          rounds host t deadline fuel st w
        | (.ended s result, w) =>
          match continueWork t s { main with activity := .running [] } result with
          | .call s p f propagate rest =>
            let (st, w) := completeRound host t now deadline s ⟨.running [f], p, propagate, rest⟩
              st.extras true none w
            rounds host t deadline fuel st w
          | .ended s p e => (⟨s, p, some e⟩, w) := by
  conv_lhs => unfold rounds
  -- the round, step by step: the clock is read, then the main thread has its turn
  simp only [bind, StateT.bind]
  generalize host.elapsed w = q
  obtain ⟨now, w⟩ := q
  dsimp only
  split
  · rfl
  · dsimp only [StateT.bind, bind]
    generalize (st.main.activity.turn t 0 now st.shared).answered host.answer w = q
    obtain ⟨u, w⟩ := q
    cases u with
    | moved s a => rfl
    | blocked s a wake => rfl
    | ended s result =>
      dsimp only
      generalize continueWork t s { st.main with activity := .running [] } result = r
      cases r <;> rfl

end RunState

/-! ### Runs of an entry point -/

def MainThread.entry (a : Activity) : MainThread := ⟨a, .none, true, [.ret (.ref 0)]⟩

/-- The end of a run whose call has ended. -/
def RunEnd.ofCall (s : TaskState) (r : Except Fault Value) : RunEnd :=
  ⟨s, match r with
    | .ok v => Progressed.none.answer (.value v)
    | .error _ => .none, some (.finished r)⟩

namespace RunState

variable {t : Task} {host : Host (StateM σ)} {answer : (r : HostRequest) → StateM τ r.Answer}
  {view : σ → τ} {s : TaskState} {a : Activity} {w : σ} {x : Solo τ}

theorem continueWork_entry (t : Task) (s : TaskState) (a : Activity) (r : Except Fault Value) :
    continueWork t s (.entry a) r =
      .ended s (RunEnd.ofCall s r).progressed (.finished r) := by
  cases r <;> rfl

theorem expire_entry (t : Task) (s : TaskState) (a : Activity) :
    expire t ⟨s, .entry a, []⟩ = ⟨s.cancel, .none, none⟩ := rfl

/-- One round of a run of an entry point in which nobody else is. -/
theorem rounds_of_lonely (ht : t.maxExtraThreads = 0) (deadline fuel : Nat) {x : Moment σ}
    (hx : x.shared.Lonely) :
    rounds host t deadline (fuel + 1) ⟨x.shared, .entry x.activity, []⟩ x.host =
      if deadline ≤ (host.elapsed x.host).1 then
        (⟨x.shared.cancel, .none, none⟩, (host.elapsed x.host).2)
      else match x.turn t host with
        | (.moved s a, w) => rounds host t deadline fuel ⟨s, .entry a, []⟩ w
        | (.blocked s a wake, w) => rounds host t deadline fuel ⟨s, .entry a, []⟩
            (host.idleUntil (min deadline (wake.getD deadline)) w).2
        | (.ended s r, w) => (.ofCall s r, w) := by
  have h := Moment.lonely_turn ht host hx
  rw [rounds_succ, expire_entry]
  refine if_congr Iff.rfl rfl ?_
  unfold Moment.turn at h ⊢
  dsimp only [MainThread.entry] at h ⊢
  generalize (x.activity.turn t 0 (host.elapsed x.host).1 x.shared).answered host.answer
    (host.elapsed x.host).2 = q at h
  obtain ⟨u, w⟩ := q
  cases u with
  | moved s a =>
    have hround := @completeRound_of_lonely _ t host s h (host.elapsed x.host).1 deadline (.entry a)
      true none w
    exact congrArg (fun q => rounds host t deadline fuel q.1 q.2) hround
  | blocked s a wake =>
    have hround := @completeRound_of_lonely _ t host s h (host.elapsed x.host).1 deadline (.entry a)
      false wake w
    exact congrArg (fun q => rounds host t deadline fuel q.1 q.2) hround
  | ended s r =>
    -- the entry point is the only step of the work
    have hwork := continueWork_entry t s (.running []) r
    dsimp only [MainThread.entry] at hwork ⊢
    rw [hwork]
    rfl

/-- The run was cut off by its limit, or has ended where the thread ends that runs alone. -/
def EndsAlone (t : Task) (answer : (r : HostRequest) → StateM τ r.Answer) (view : σ → τ)
    (x : Solo τ) (q : RunEnd × σ) : Prop :=
  q.1.outcome = none ∨ ∃ n r, ((Solo.step t answer)^[n] x).stand = .ended r ∧
    q.1 = .ofCall ((Solo.step t answer)^[n] x).shared r ∧
    view q.2 = ((Solo.step t answer)^[n] x).host

/-- The run stops where the thread is that runs alone: it is cut off there by its limit, or the thread has ended. -/
def StopsAlone (t : Task) (answer : (r : HostRequest) → StateM τ r.Answer) (view : σ → τ)
    (x : Solo τ) (q : RunEnd × σ) : Prop :=
  (∃ n, q.1 = ⟨((Solo.step t answer)^[n] x).shared.cancel, .none, none⟩) ∨
    ∃ n r, ((Solo.step t answer)^[n] x).stand = .ended r ∧
      q.1 = .ofCall ((Solo.step t answer)^[n] x).shared r ∧
      view q.2 = ((Solo.step t answer)^[n] x).host

theorem StopsAlone.of_step {q : RunEnd × σ} (h : StopsAlone t answer view (x.step t answer) q) :
    StopsAlone t answer view x q := by
  rcases h with ⟨n, h⟩ | ⟨n, r, h⟩
  · exact .inl ⟨n + 1, by simpa only [Function.iterate_succ_apply] using h⟩
  · exact .inr ⟨n + 1, r, by simpa only [Function.iterate_succ_apply] using h⟩

theorem Follows.stops_of_expire (h : Follows view s a w x) (w' : σ) :
    StopsAlone t answer view x (expire t ⟨s, .entry a, []⟩, w') := by
  rw [expire_entry]
  exact .inl ⟨0, by rw [Function.iterate_zero_apply, h.shared]⟩

theorem StopsAlone.endsAlone {q : RunEnd × σ} (h : StopsAlone t answer view x q) :
    EndsAlone t answer view x q := by
  rcases h with ⟨n, h⟩ | h
  · exact .inl (congrArg RunEnd.outcome h)
  · exact .inr h

theorem rounds_alone (ht : t.maxExtraThreads = 0) (hserves : host.Serves answer view)
    (deadline fuel : Nat) (h : Follows view s a w x) :
    StopsAlone t answer view x (rounds host t deadline fuel ⟨s, .entry a, []⟩ w) := by
  induction fuel generalizing s a w x with
  | zero => exact h.stops_of_expire w
  | succ fuel ih =>
    by_cases hlate : deadline ≤ (host.elapsed w).1
    · rw [rounds_succ, if_pos hlate]
      exact h.stops_of_expire _
    · have hround := @rounds_of_lonely _ t host ht deadline fuel ⟨s, a, w⟩ h.lonely
      have h' : Follows view s a (host.elapsed w).2 x :=
        { h with host := h.host.trans (hserves.elapsed w).symm }
      have hturn : TurnFollows t answer view x (Moment.turn t host ⟨s, a, w⟩) :=
        h'.turn ht hserves _
      have goes : ∀ {s a w}, (∃ x', (x' = x ∨ x' = x.step t answer) ∧ Follows view s a w x') →
          StopsAlone t answer view x (rounds host t deadline fuel ⟨s, .entry a, []⟩ w) := by
        -- a turn either is a step of the run alone, or leaves it where it is
        rintro s a w ⟨x', rfl | rfl, hf⟩
        · exact ih hf
        · exact (ih hf).of_step
      dsimp only at hround
      rw [hround, if_neg hlate]
      generalize Moment.turn t host ⟨s, a, w⟩ = q at hturn
      obtain ⟨u, w'⟩ := q
      cases u with
      | moved s a => exact goes hturn
      | blocked s a wake =>
        obtain ⟨x', hx', hf⟩ := hturn
        exact goes ⟨x', hx', { hf with host := hf.host.trans (hserves.idleUntil _ _).symm }⟩
      | ended s r =>
        obtain ⟨hs, hr, hw⟩ := hturn
        exact .inr ⟨1, r, hr, by rw [Function.iterate_one, hs], by rw [Function.iterate_one, hw]⟩

theorem run_entry (host : Host (StateM σ)) (t : Task) (s : TaskState) (e : EntryPoint)
    (limit : Nat) (w : σ) :
    run host t s e.work limit w =
      match Activation.start t s e.className e.methodName [] with
      | (.ok f, s) => rounds host t ((host.elapsed w).1 + limit) (limit + 1)
          ⟨s, .entry (.running [f]), []⟩ (host.elapsed w).2
      | (.error r, s) => (.ofCall s (.error r), (host.elapsed w).2) := by
  unfold run EntryPoint.work WorkRest.resume WorkStep.perform
  simp only [Operand.values, bind, StateT.bind]
  generalize Activation.start t s e.className e.methodName [] = p
  obtain ⟨r, s⟩ := p
  cases r <;> rfl

/-- **A run of an entry point without extra threads stops where the thread is that runs alone.** -/
theorem run_stopsAlone (ht : t.maxExtraThreads = 0) (hserves : host.Serves answer view)
    (hs : s.Lonely) (e : EntryPoint) (limit : Nat) (w : σ) :
    StopsAlone t answer view (Solo.start t s e.className e.methodName [] (view w))
      (run host t s e.work limit w) := by
  have hlogs := (Activation.start_within t s e.className e.methodName []).1
  rw [run_entry]
  unfold Solo.start
  generalize Activation.start t s e.className e.methodName [] = p at hlogs
  obtain ⟨r, s'⟩ := p
  cases r with
  | error r => exact .inr ⟨0, .error r, rfl, rfl, hserves.elapsed w⟩
  | ok f =>
    exact rounds_alone ht hserves _ _
      ⟨rfl, rfl, .inl rfl, hs.registers ht hlogs.threads, (hserves.elapsed w).symm⟩

/-- **A run of an entry point without extra threads is that of a thread that runs alone**, unless it
is cut off by its limit. -/
theorem run_alone (ht : t.maxExtraThreads = 0) (hserves : host.Serves answer view)
    (hs : s.Lonely) (e : EntryPoint) (limit : Nat) (w : σ) :
    EndsAlone t answer view (Solo.start t s e.className e.methodName [] (view w))
      (run host t s e.work limit w) :=
  (run_stopsAlone ht hserves hs e limit w).endsAlone

end RunState

end Confine
