import Confine.Proofs.Sandbox.Prepared
import Confine.Proofs.Tracing.FinalReports
import Confine.Proofs.Tracing.Limited

/-!
# Who joins a roster, and in which order its members act

A member says which others it comes after; a roster looks at that only when one of those others joins.  Still no member
ever stands before one that it has asked to come after, whatever was tried (`Roster.legal_registered`).

A `Protocol` says what the members of a roster do, whoever they are: they are bound to a loading unit, instrument its
classes, start in its tasks and report in the end.  In each stage they are visited one after the other
(`Visits.ofVisitAll`), and the tracers of this library are so too (`Tracer.followsProtocol`).

Main statement: `Roster.registration_lawful`.
-/

namespace Confine

/-! ### Calls -/

namespace Roster

variable {α : Type} [Member α]

/-- A call that asks for a member to join: its answer, and the roster behind it. -/
def call (r : Roster α) (a : α) : Except TracerFault Unit × Roster α :=
  match r.add a with
  | .ok r => (.ok (), r)
  | .error fault => (.error fault, r)

/-- The roster behind any calls, of which some may have failed. -/
def registered (calls : List α) : Roster α := calls.foldl (fun r a => (r.call a).2) empty

variable {r t : Roster α} {a : α}

theorem add_eq_ok_iff : r.add a = .ok t ↔ Member.id a ∉ r.ids ∧
    (∀ m ∈ r.members, Member.id a ∉ Member.runsAfter m) ∧ t = ⟨r.members ++ [a]⟩ := by
  unfold add
  by_cases hid : Member.id a ∈ r.ids
  · simp [contains_eq_true_iff.2 hid, hid]
  · rw [if_neg (fun h => hid (contains_eq_true_iff.1 h))]
    cases hfind : r.members.find? fun m => (Member.runsAfter m).contains (Member.id a) with
    | none =>
      have hfree : ∀ m ∈ r.members, Member.id a ∉ Member.runsAfter m := by simpa using hfind
      simp only [Except.ok.injEq, eq_comm (b := t)]
      exact ⟨fun h => ⟨hid, hfree, h⟩, fun h => h.2.2⟩
    | some m =>
      have hm : Member.id a ∈ Member.runsAfter m := by simpa using List.find?_some hfind
      simp only [reduceCtorEq, false_iff]
      exact fun h => h.2.1 m (List.mem_of_find?_eq_some hfind) hm

/-- The member `m` is the first that wants to come after whoever has the name. -/
def FirstAfter (r : Roster α) (id : String) (m : α) : Prop :=
  ∃ front back, r.members = front ++ m :: back ∧ id ∈ Member.runsAfter m ∧
    ∀ p ∈ front, id ∉ Member.runsAfter p

theorem add_eq_error_iff {fault : TracerFault} : r.add a = .error fault ↔
    (Member.id a ∈ r.ids ∧ fault = .duplicate (Member.id a)) ∨
      (Member.id a ∉ r.ids ∧ ∃ m, r.FirstAfter (Member.id a) m ∧
        fault = .ordering (Member.id m) (Member.id a)) := by
  unfold add
  by_cases hid : Member.id a ∈ r.ids
  · simp [contains_eq_true_iff.2 hid, hid, eq_comm]
  · rw [if_neg (fun h => hid (contains_eq_true_iff.1 h))]
    -- the first registered tracer that should have run after the new one
    have hfirst : ∀ m, (r.members.find? fun m => (Member.runsAfter m).contains (Member.id a)) = some m ↔
        r.FirstAfter (Member.id a) m := by
      intro m
      rw [List.find?_eq_some_iff_append]
      unfold FirstAfter
      constructor
      · rintro ⟨hm, front, back, hmembers, hfront⟩
        exact ⟨front, back, hmembers, by simpa using hm, by simpa using hfront⟩
      · rintro ⟨front, back, hmembers, hm, hfront⟩
        exact ⟨by simpa using hm, front, back, hmembers, by simpa using hfront⟩
    cases hfind : r.members.find? fun m => (Member.runsAfter m).contains (Member.id a) with
    | none =>
      have hnone : ¬ ∃ m, r.FirstAfter (Member.id a) m := by
        rintro ⟨m, hm⟩
        rw [(hfirst m).2 hm] at hfind
        cases hfind
      simp only [reduceCtorEq, hid, false_and, not_false_eq_true, true_and, false_or, false_iff]
      exact fun ⟨m, hm, _⟩ => hnone ⟨m, hm⟩
    | some m =>
      simp only [Except.error.injEq, hid, false_and, not_false_eq_true, true_and, false_or]
      constructor
      · rintro rfl
        exact ⟨m, (hfirst m).1 hfind, rfl⟩
      · rintro ⟨m', hm', rfl⟩
        rw [(hfirst m').2 hm'] at hfind
        rw [Option.some.inj hfind]

/-- **What a call answers**, and what it leaves. -/
structure Answers (r : Roster α) (a : α) : Prop where
  duplicate : (r.call a).1 = .error (.duplicate (Member.id a)) ↔ Member.id a ∈ r.ids
  /-- the first member that had to come later is named -/
  ordering : ∀ id, (r.call a).1 = .error (.ordering id (Member.id a)) ↔
    Member.id a ∉ r.ids ∧ ∃ m, r.FirstAfter (Member.id a) m ∧ id = Member.id m
  joins : (r.call a).1 = .ok () ↔
    Member.id a ∉ r.ids ∧ ∀ m ∈ r.members, Member.id a ∉ Member.runsAfter m
  joined : (r.call a).1 = .ok () → (r.call a).2.members = r.members ++ [a]
  unchanged : ∀ fault, (r.call a).1 = .error fault → (r.call a).2 = r

theorem call_of_ok (h : r.add a = .ok t) : r.call a = (.ok (), t) := by
  rw [call, h]

theorem call_of_error {fault : TracerFault} (h : r.add a = .error fault) :
    r.call a = (.error fault, r) := by
  rw [call, h]

theorem call_eq_error_iff {fault : TracerFault} :
    (r.call a).1 = .error fault ↔ r.add a = .error fault := by
  cases h : r.add a with
  | ok t => simp [call_of_ok h]
  | error e => simp [call_of_error h]

theorem answers (r : Roster α) (a : α) : r.Answers a where
  duplicate := by simp [call_eq_error_iff, add_eq_error_iff]
  ordering id := by simp [call_eq_error_iff, add_eq_error_iff]
  joins := by
    cases h : r.add a with
    | ok t =>
      obtain ⟨hid, hfree, -⟩ := add_eq_ok_iff.1 h
      exact iff_of_true (by rw [call_of_ok h]) ⟨hid, hfree⟩
    | error fault =>
      simp only [call_of_error h, reduceCtorEq, false_iff]
      rintro ⟨hid, hfree⟩
      rw [add_eq_ok_iff.2 ⟨hid, hfree, rfl⟩] at h
      cases h
  joined h := by
    cases hadd : r.add a with
    | ok t => rw [call_of_ok hadd, (add_eq_ok_iff.1 hadd).2.2]
    | error fault =>
      rw [call_of_error hadd] at h
      cases h
  unchanged fault h := by rw [call_of_error (call_eq_error_iff.1 h)]

/-! ### Legal orders -/

/-- The names are distinct, and nobody stands before another member that it has asked to come after. -/
structure Legal (r : Roster α) : Prop where
  nodup : r.ids.Nodup
  ordered : r.members.Pairwise fun a b => Member.id b ∉ Member.runsAfter a

/-- A call keeps the order legal.  Nothing is asked of the newcomer's own wishes: who is there already stands before
it, and whoever comes later is looked at then. -/
theorem Legal.call (h : r.Legal) (a : α) : (r.call a).2.Legal := by
  cases hadd : r.add a with
  | error fault =>
    rw [call_of_error hadd]
    exact h
  | ok t =>
    obtain ⟨-, hfree, rfl⟩ := add_eq_ok_iff.1 hadd
    rw [call_of_ok hadd]
    refine ⟨nodup_add h.nodup hadd, List.pairwise_append.2 ⟨h.ordered, List.pairwise_singleton _ _, ?_⟩⟩
    intro m hm b hb
    exact List.mem_singleton.1 hb ▸ hfree m hm

theorem registered_concat (calls : List α) (a : α) :
    registered (calls ++ [a]) = ((registered calls).call a).2 := List.foldl_concat ..

/-- **Whatever was tried, the order is legal.** -/
theorem legal_registered (calls : List α) : (registered calls).Legal := by
  induction calls using List.reverseRecOn with
  | nil => exact ⟨List.nodup_nil, .nil⟩
  | append_singleton calls a ih =>
    rw [registered_concat]
    exact ih.call a

/-- The line trace may not join behind the method trace, which stays alone. -/
example : (registered [Tracer.methodTrace .default, .lineTrace .default]).ids = [MethodTrace.id] := by decide

end Roster

/-! ### Visits -/

section Visits

variable {ε γ α β δ : Type} (visit : γ → α → β → Except ε (γ × δ))

/-- Visits members one after the other, each with what is kept for it; `c` goes from one to the next. -/
def visitAll (c : γ) : List (α × β) → Except ε (γ × List (α × δ))
  | [] => .ok (c, [])
  | (a, b) :: rest => do
    let (c, d) ← visit c a b
    let (c, rest) ← visitAll c rest
    .ok (c, (a, d) :: rest)

/-- The visits that are `made`, in order, and what they come to: each hands on to the next, and one that fails is the
last. -/
inductive Visits : γ → List (α × β) → List α → Except ε (γ × List (α × δ)) → Prop where
  | nil (c : γ) : Visits c [] [] (.ok (c, []))
  | failed {c : γ} {a : α} {b : β} {e : ε} (rest : List (α × β)) (h : visit c a b = .error e) :
      Visits c ((a, b) :: rest) [a] (.error e)
  | cons {c c' : γ} {a : α} {b : β} {d : δ} {rest : List (α × β)} {made : List α}
      {x : Except ε (γ × List (α × δ))} (h : visit c a b = .ok (c', d)) (hrest : Visits c' rest made x) :
      Visits c ((a, b) :: rest) (a :: made) (x.map fun y => (y.1, (a, d) :: y.2))

theorem Visits.ofVisitAll (c : γ) (l : List (α × β)) : ∃ made, Visits visit c l made (visitAll visit c l) := by
  induction l generalizing c with
  | nil => exact ⟨[], .nil c⟩
  | cons x rest ih =>
    obtain ⟨a, b⟩ := x
    cases h : visit c a b with
    | error e =>
      refine ⟨[a], ?_⟩
      simp only [visitAll, h]
      exact .failed rest h
    | ok y =>
      obtain ⟨c', d⟩ := y
      obtain ⟨made, hmade⟩ := ih c'
      refine ⟨a :: made, ?_⟩
      have hall : visitAll visit c ((a, b) :: rest) =
          (visitAll visit c' rest).map fun y => (y.1, (a, d) :: y.2) := by
        simp only [visitAll, h, bind, Except.bind]
        cases visitAll visit c' rest <;> rfl
      rw [hall]
      exact .cons h hmade

variable {visit}

theorem Visits.made_prefix {c : γ} {l : List (α × β)} {made : List α} {x : Except ε (γ × List (α × δ))}
    (h : Visits visit c l made x) : made <+: l.map Prod.fst := by
  induction h with
  | nil c => exact List.prefix_rfl
  | @failed c a b e rest h => exact ⟨rest.map Prod.fst, rfl⟩
  | @cons c c' a b d rest made x h _ ih => exact List.cons_prefix_cons.2 ⟨rfl, ih⟩

theorem Visits.made_eq {c : γ} {l : List (α × β)} {made : List α} {x : Except ε (γ × List (α × δ))}
    (h : Visits visit c l made x) {y : γ × List (α × δ)} (hx : x = .ok y) :
    made = l.map Prod.fst ∧ y.2.map Prod.fst = l.map Prod.fst := by
  induction h generalizing y with
  | nil c =>
    cases hx
    exact ⟨rfl, rfl⟩
  | failed rest h => cases hx
  | @cons c c' a b d rest made x h _ ih =>
    cases x with
    | error e => cases hx
    | ok z =>
      cases hx
      obtain ⟨hmade, hz⟩ := ih rfl
      simp [hmade, hz]

/-- The members are visited once each and in order, up to the first visit that fails. -/
def InOrder (visit : γ → α → β → Except ε (γ × δ)) (members : List α) (c : γ) (l : List (α × β))
    (x : Except ε (γ × List (α × δ))) : Prop :=
  ∃ made, Visits visit c l made x ∧ made <+: members ∧
    ∀ y, x = .ok y → made = members ∧ y.2.map Prod.fst = members

theorem inOrder_visitAll {members : List α} {l : List (α × β)} (hl : l.map Prod.fst = members) (c : γ) :
    InOrder visit members c l (visitAll visit c l) := by
  obtain ⟨made, h⟩ := Visits.ofVisitAll visit c l
  subst hl
  exact ⟨made, h, h.made_prefix, fun y hy => h.made_eq hy⟩

end Visits

/-! ### What members do -/

/-- What the members of a roster do, whoever they are: `δ` is what one knows about a loading unit, `ω` what it keeps in
a task. -/
structure Protocol (ε α δ ω : Type) where
  /-- binds a member to a unit with the members of these names -/
  bind : List String → α → Except ε δ
  instrument : Origin → ClassFile → α → δ → Except ε (ClassFile × δ)
  /-- starts in a task with so many extra threads -/
  start : Nat → α → δ → Except ε ω
  report : α → ω → Except ε Json

namespace Protocol

variable {ε α δ ω : Type} (P : Protocol ε α δ ω)

section Stages

variable [Member α]

def bindOne (r : Roster α) (_ : Unit) (a : α) (_ : Unit) : Except ε (Unit × δ) := (P.bind r.ids a).map ((), ·)

def startOne (extraThreads : Nat) (_ : Unit) (a : α) (d : δ) : Except ε (Unit × ω) :=
  (P.start extraThreads a d).map ((), ·)

def reportOne (results : List (String × Json)) (a : α) (w : ω) : Except ε (List (String × Json) × Json) :=
  (P.report a w).map fun j => (Json.insertField (Member.id a) j results, j)

/-- All members are bound to a unit. -/
def bindAll (r : Roster α) : Except ε (Unit × List (α × δ)) :=
  visitAll (P.bindOne r) () (r.members.map (·, ()))

def instrumentAll (origin : Origin) : ClassFile → List (α × δ) → Except ε (ClassFile × List (α × δ)) :=
  visitAll (P.instrument origin)

def startAll (extraThreads : Nat) : List (α × δ) → Except ε (Unit × List (α × ω)) :=
  visitAll (P.startOne extraThreads) ()

def reportAll : List (α × ω) → Except ε (List (String × Json) × List (α × Json)) :=
  visitAll P.reportOne []

/-- **A roster acts in order.** -/
structure ActsInOrder (r : Roster α) : Prop where
  bound : InOrder (P.bindOne r) r.members () (r.members.map (·, ())) (P.bindAll r)
  instrumented : ∀ {l : List (α × δ)}, l.map Prod.fst = r.members → ∀ (origin : Origin) (c : ClassFile),
    InOrder (P.instrument origin) r.members c l (P.instrumentAll origin c l)
  started : ∀ {l : List (α × δ)}, l.map Prod.fst = r.members → ∀ extraThreads : Nat,
    InOrder (P.startOne extraThreads) r.members () l (P.startAll extraThreads l)
  reported : ∀ {l : List (α × ω)}, l.map Prod.fst = r.members →
    InOrder P.reportOne r.members [] l (P.reportAll l)
  /-- no report takes the place of another -/
  results : ∀ {l : List (α × ω)}, l.map Prod.fst = r.members →
    ∀ {results : List (String × Json)} {reports : List (α × Json)}, P.reportAll l = .ok (results, reports) →
      Json.Increasing results ∧ results.Perm (reports.map fun x => (Member.id x.1, x.2))

theorem reportAll_eq_ok {l : List (α × ω)} {before results : List (String × Json)} {reports : List (α × Json)}
    (h : visitAll P.reportOne before l = .ok (results, reports)) :
    results = (reports.map fun x => (Member.id x.1, x.2)).foldl (fun l e => Json.insertField e.1 e.2 l) before := by
  induction l generalizing before results reports with
  | nil =>
    cases h
    rfl
  | cons x rest ih =>
    obtain ⟨a, w⟩ := x
    cases hj : P.report a w with
    | error e => simp [visitAll, reportOne, hj, Except.map, Bind.bind, Except.bind] at h
    | ok j =>
      cases hrest : visitAll P.reportOne (Json.insertField (Member.id a) j before) rest with
      | error e => simp [visitAll, reportOne, hj, hrest, Except.map, Bind.bind, Except.bind] at h
      | ok y =>
        obtain ⟨after, rest'⟩ := y
        simp only [visitAll, reportOne, hj, hrest, Except.map, Bind.bind, Except.bind, Except.ok.injEq,
          Prod.mk.injEq] at h
        obtain ⟨rfl, rfl⟩ := h
        have hplaced := ih hrest
        exact hplaced

theorem actsInOrder {r : Roster α} (h : r.ids.Nodup) : P.ActsInOrder r where
  bound := inOrder_visitAll (by simp [Function.comp_def]) ()
  instrumented hl origin c := inOrder_visitAll hl c
  started hl extraThreads := inOrder_visitAll hl ()
  reported hl := inOrder_visitAll hl []
  results {l} hl results reports hok := by
    obtain ⟨made, hvisits⟩ := Visits.ofVisitAll P.reportOne [] l
    have hmembers : reports.map Prod.fst = r.members := (hvisits.made_eq hok).2.trans hl
    have hnames : (reports.map fun x => (Member.id x.1, x.2)).map (·.1) = r.ids := by
      rw [Roster.ids, ← hmembers, List.map_map, List.map_map]
      rfl
    obtain ⟨hincreasing, hperm⟩ := Json.foldl_insertField .nil (by rw [hnames]; simpa using h)
    rw [P.reportAll_eq_ok hok]
    exact ⟨hincreasing, by simpa using hperm⟩

end Stages

end Protocol

/-! ### The tracers -/

namespace Tracer

/-- What tracers do. -/
def protocol : Protocol TracerFault Tracer Instrumentation Recording where
  bind active t := .ok (.start active t)
  instrument origin c _ i := i.instrument origin c
  start extraThreads _ i := Recording.start extraThreads i
  report _ r := .ok r.report

/-- **Units and tasks do with the tracers of a roster what the protocol says**, and keep them in their order. -/
structure FollowsProtocol (r : Roster Tracer) : Prop where
  bound : protocol.bindAll r = .ok ((), r.members.zip (Instrumentation.ofRoster r))
  instrumented : ∀ (origin : Origin) (c : ClassFile) (l : List (Tracer × Instrumentation)),
    Instrumentation.instrumentAll origin c (l.map Prod.snd) =
      (protocol.instrumentAll origin c l).map fun x => (x.1, x.2.map Prod.snd)
  started : ∀ (extraThreads : Nat) (l : List (Tracer × Instrumentation)),
    Recordings.start extraThreads (l.map Prod.snd) = (protocol.startAll extraThreads l).map fun x =>
      let rs : Recordings := ⟨x.2.map Prod.snd, []⟩
      if rs.entries.any (·.wantsLines) then rs.subscribe .methodTrace else rs
  reported : ∀ (l : List (Tracer × Recording)) (collected : List (String × LineEvent)),
    (∀ x ∈ l, x.2.id = Member.id x.1) →
      (protocol.reportAll l).map (·.1) = .ok (Recordings.results ⟨l.map Prod.snd, collected⟩)
  /-- a unit has all of them -/
  built : ∀ {p : LoadingUnit.Plan} {id : UnitId} {u : LoadingUnit}, p.tracers = r →
    LoadingUnit.build p id = .ok u → u.own.instrumentation.map Instrumentation.id = r.ids
  /-- so has every task in it, up to its end and whatever the schedule -/
  running : ∀ {p : LoadingUnit.Plan} {id : UnitId} {u : LoadingUnit}, p.tracers = r →
    LoadingUnit.build p id = .ok u → ∀ {sb : Sandbox} {registry : RegistryId}
      {sets : List LoadingUnit.ClassSets} {a : ExecutionArguments} {P : Sandbox.Prepared},
      sb.prepare registry u sets a = .ok P → ∀ {work : List WorkStep} {acts : List Act} {c : Scene},
        P.task.Schedules P.state work acts c → c.shared.recordings.entries.map Recording.id = r.ids

theorem bindAll_eq (active : List String) (members : List Tracer) :
    visitAll (fun _ a _ => (protocol.bind active a).map ((), ·)) () (members.map (·, ())) =
      .ok ((), members.zip (members.map (Instrumentation.start active))) := by
  induction members with
  | nil => rfl
  | cons t members ih =>
    simp only [List.map_cons, visitAll, protocol, Except.map, bind, Except.bind] at ih ⊢
    rw [ih]
    rfl

theorem instrumentAll_eq (origin : Origin) (c : ClassFile) (l : List (Tracer × Instrumentation)) :
    Instrumentation.instrumentAll origin c (l.map Prod.snd) =
      (protocol.instrumentAll origin c l).map fun x => (x.1, x.2.map Prod.snd) := by
  induction l generalizing c with
  | nil => rfl
  | cons x rest ih =>
    obtain ⟨t, i⟩ := x
    simp only [List.map_cons, Instrumentation.instrumentAll, Protocol.instrumentAll, visitAll]
    show (i.instrument origin c >>= _) = ((i.instrument origin c >>= _).map _)
    cases i.instrument origin c with
    | error e => rfl
    | ok y =>
      obtain ⟨c, i⟩ := y
      have hrest := ih c
      simp only [bind, Except.bind, hrest]
      unfold Protocol.instrumentAll
      cases visitAll (protocol.instrument origin) c rest <;> rfl

theorem mapM_start_eq (extraThreads : Nat) (l : List (Tracer × Instrumentation)) :
    (l.map Prod.snd).mapM (Recording.start extraThreads) =
      (protocol.startAll extraThreads l).map fun x => x.2.map Prod.snd := by
  induction l with
  | nil => rfl
  | cons x rest ih =>
    obtain ⟨t, i⟩ := x
    have hone : protocol.startOne extraThreads () t i = (Recording.start extraThreads i).map ((), ·) := rfl
    unfold Protocol.startAll at ih ⊢
    rw [List.map_cons, List.mapM_cons, ih, visitAll, hone]
    cases Recording.start extraThreads i with
    | error e => rfl
    | ok r =>
      simp only [Except.map, bind, Except.bind]
      cases visitAll (protocol.startOne extraThreads) () rest <;> rfl

theorem reportAll_eq (l : List (Tracer × Recording)) (before : List (String × Json))
    (hids : ∀ x ∈ l, x.2.id = Member.id x.1) : (visitAll protocol.reportOne before l).map (·.1) =
      .ok ((l.map Prod.snd).foldl (fun l r => Json.insertField r.id r.report l) before) := by
  induction l generalizing before with
  | nil => rfl
  | cons x rest ih =>
    obtain ⟨t, r⟩ := x
    obtain ⟨hid, hrest⟩ := List.forall_mem_cons.1 hids
    have hrest := ih (Json.insertField (Member.id t) r.report before) hrest
    have hone : protocol.reportOne before t r =
        .ok (Json.insertField (Member.id t) r.report before, r.report) := rfl
    rw [visitAll, hone, List.map_cons, List.foldl_cons, hid, ← hrest]
    simp only [bind, Except.bind]
    cases visitAll protocol.reportOne (Json.insertField (Member.id t) r.report before) rest <;> rfl

theorem followsProtocol (r : Roster Tracer) : FollowsProtocol r where
  bound := bindAll_eq r.ids r.members
  instrumented := instrumentAll_eq
  started extraThreads l := by
    unfold Recordings.start
    rw [mapM_start_eq]
    cases protocol.startAll extraThreads l <;> rfl
  reported l collected hids := reportAll_eq l [] hids
  built hp hu := hp ▸ LoadingUnit.ids_of_build hu
  running hp hu _ _ _ _ _ hP _ _ _ h := by
    have hsteady := h.steady (Recordings.steady_of_start (Sandbox.prepare_eq_ok_iff.1 hP).started)
    rw [hsteady.ids, LoadingUnit.ids_of_build hu, hp]

end Tracer

/-- **Registration keeps a legal order.** After any calls, with members of any names and any wishes, the names are
distinct and nobody stands before a member that it has asked to come after; the next call answers by the members
there are and leaves them as they are if it fails; and whatever the members do, in each stage they are visited once
each and in their order.  Tracers follow that protocol. -/
theorem Roster.registration_lawful :
    (∀ {ε α δ ω : Type} [Member α] (P : Protocol ε α δ ω) (calls : List α),
      (registered calls).Legal ∧ (∀ a, (registered calls).Answers a) ∧ P.ActsInOrder (registered calls)) ∧
    ∀ calls : List Tracer, Tracer.FollowsProtocol (registered calls) :=
  ⟨fun P calls => ⟨legal_registered calls, answers _, P.actsInOrder (legal_registered calls).nodup⟩,
    fun _ => Tracer.followsProtocol _⟩

end Confine
