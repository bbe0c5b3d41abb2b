import Confine.Proofs.Loading.Built
import Confine.Proofs.Machine.Unseen
import Confine.Proofs.Tracing.Woven

/-!
# Units with a limit of lines

Main statement: `LoadingUnit.build_within`.  A unit whose line trace has a limit of lines is built exactly if the unit
without the limit is, and has the same classes.
-/

namespace Confine

/-- A limit of lines: how many may run, what happens then, and how many lines a thread counts before
it looks at the other threads. -/
structure LineTrace.Limit where
  lines : Nat
  action : LimitAction
  maxUnsynchronized : Nat
  deriving DecidableEq, Repr

namespace LineTrace

def Arguments.within (a : Arguments) (l : Limit) : Arguments :=
  { a with
    runLineLimit := some l.lines
    limitAction := l.action
    maxUnsynchronized := l.maxUnsynchronized }

def Arguments.limit? (b : Arguments) : Option Limit :=
  b.runLineLimit.map (⟨·, b.limitAction, b.maxUnsynchronized⟩)

def Instrumentation.within (i : Instrumentation) (l : Limit) : Instrumentation :=
  { i with arguments := i.arguments.within l }

namespace Instrumentation

variable (i : Instrumentation) (l : Limit)

theorem number_within (name : String) :
    (i.within l).number name = ((i.number name).1, (i.number name).2.within l) := by
  have hmethods : (i.within l).methods = i.methods := rfl
  unfold number
  rw [hmethods]
  cases i.methods.findIdx? (· == name) <;> rfl

theorem instrumentMethods_within (className source : String) (ms : List Method) :
    (i.within l).instrumentMethods className source ms =
      ((i.instrumentMethods className source ms).1,
        (i.instrumentMethods className source ms).2.within l) := by
  induction ms generalizing i with
  | nil => rfl
  | cons m ms ih =>
    simp only [instrumentMethods]
    split
    · simp only [number_within, ih]
    · simp only [ih]

theorem instrument_within (origin : Origin) (c : ClassFile) :
    (i.within l).instrument origin c =
      ((i.instrument origin c).1, (i.instrument origin c).2.within l) := by
  unfold instrument
  split
  · simp only [instrumentMethods_within]
  · rfl

end Instrumentation

end LineTrace

open LineTrace (Limit)

/-! ### Rosters -/

def Tracer.within (l : Limit) : Tracer → Tracer
  | .lineTrace a => .lineTrace (a.within l)
  | t => t

@[simp] theorem Tracer.id_within (l : Limit) (t : Tracer) :
    Member.id (t.within l) = Member.id t := by cases t <;> rfl

@[simp] theorem Tracer.runsAfter_within (l : Limit) (t : Tracer) :
    Member.runsAfter (t.within l) = Member.runsAfter t := by cases t <;> rfl

namespace Roster

def within (l : Limit) (r : Roster Tracer) : Roster Tracer := ⟨r.members.map (.within l)⟩

variable (l : Limit) (r : Roster Tracer)

@[simp] theorem ids_within : (r.within l).ids = r.ids := by
  have hids : Member.id ∘ Tracer.within l = Member.id := funext (Tracer.id_within l)
  rw [ids, ids, within, List.map_map, hids]

theorem add_within (t : Tracer) :
    (r.within l).add (t.within l) = (r.add t).map (within l) := by
  have hcontains : (r.within l).contains (Member.id t) = r.contains (Member.id t) := by
    simp [contains, within, Function.comp_def]
  have hfind : ((r.within l).members.find? fun m =>
        (Member.runsAfter m).contains (Member.id t)) =
      (r.members.find? fun m => (Member.runsAfter m).contains (Member.id t)).map (.within l) := by
    rw [within, List.find?_map]
    simp only [Function.comp_def, Tracer.runsAfter_within]
  unfold add
  rw [Tracer.id_within, hcontains, hfind]
  split
  · rfl
  · cases r.members.find? fun m => (Member.runsAfter m).contains (Member.id t) with
    | none => simp [within, Except.map]
    | some m => simp [Except.map]

theorem addAll_within (ts : List Tracer) :
    (r.within l).addAll (ts.map (.within l)) = (r.addAll ts).map (within l) := by
  induction ts generalizing r with
  | nil => rfl
  | cons t ts ih =>
    simp only [List.map_cons, addAll, add_within]
    cases r.add t with
    | error e => rfl
    | ok r => exact ih r

end Roster

/-! ### Classes -/

namespace Instrumentation

def within (l : Limit) : Instrumentation → Instrumentation
  | lineTrace i => lineTrace (i.within l)
  | i => i

theorem ofRoster_within (l : Limit) (r : Roster Tracer) :
    ofRoster (r.within l) = (ofRoster r).map (within l) := by
  have hstart : ∀ t : Tracer, start r.ids (t.within l) = (start r.ids t).within l := by
    intro t
    cases t <;> rfl
  rw [ofRoster, Roster.ids_within]
  simp [ofRoster, Roster.within, Function.comp_def, hstart]

variable (l : Limit) (origin : Origin) (c : ClassFile)

theorem instrument_within (i : Instrumentation) :
    (i.within l).instrument origin c =
      (i.instrument origin c).map fun p => (p.1, p.2.within l) := by
  cases i with
  | lineTrace i => simp only [within, instrument, LineTrace.Instrumentation.instrument_within, Except.map]
  | methodTrace i => rfl
  | probe a active =>
    simp only [within, instrument]
    cases Probe.instrument a origin c <;> rfl

theorem instrumentAll_within (is : List Instrumentation) :
    instrumentAll origin c (is.map (within l)) =
      (instrumentAll origin c is).map fun p => (p.1, p.2.map (within l)) := by
  induction is generalizing c with
  | nil => rfl
  | cons i is ih =>
    simp only [List.map_cons, instrumentAll, instrument_within]
    cases i.instrument origin c with
    | error e => rfl
    | ok p =>
      simp only [Except.map, bind, Except.bind, ih]
      cases instrumentAll origin p.1 is <;> rfl

end Instrumentation

namespace LoadingUnit

def within (u : LoadingUnit) (l : Limit) : LoadingUnit :=
  u.tracedBy (u.own.instrumentation.map (.within l))

variable (l : Limit) (origin : Origin)

theorem define_within (is : List Instrumentation) (name : String) (bytes : ByteArray) :
    define origin (is.map (.within l)) name bytes =
      (define origin is name bytes).map fun p => (p.1, p.2.map (.within l)) := by
  unfold define
  cases ClassFile.decodeBytes? bytes with
  | none => rfl
  | some c =>
    simp only [Instrumentation.instrumentAll_within, bind, Except.bind]
    by_cases hn : (c.name != name) = true
    · simp only [hn, if_true]
      rfl
    · simp only [hn]
      cases Verifier.check .submitted c with
      | error e => rfl
      | ok _ =>
        cases Instrumentation.instrumentAll origin c is with
        | error e => rfl
        | ok q => cases hc : Verifier.check .instrumented q.1 <;> simp [Except.mapError, Except.map, hc]

theorem defineAll_within (is : List Instrumentation) (done : List (String × DefinedClass))
    (classes : List (String × ByteArray)) :
    defineAll origin (is.map (.within l)) done classes =
      (defineAll origin is done classes).map fun p => (p.1, p.2.map (.within l)) := by
  induction classes generalizing is done with
  | nil => rfl
  | cons e rest ih =>
    simp only [defineAll, define_within]
    cases define origin is e.1 e.2 with
    | error fault => rfl
    | ok p => exact ih p.2 _

/-- **A unit is built with a limit of lines as it is without one**, from the same classes. -/
theorem build_within (p : Plan) (id : UnitId) :
    build { p with tracers := p.tracers.within l } id = (build p id).map (·.within l) := by
  unfold build
  simp only [Instrumentation.ofRoster_within, defineAll_within, bind, Except.bind]
  cases p.policy.validate with
  | error e => rfl
  | ok _ =>
    cases defineAll p.origin (Instrumentation.ofRoster p.tracers) [] p.program.classes <;> rfl

end LoadingUnit

/-! ### The line trace of a unit -/

def Tracer.lineArguments? : Tracer → Option LineTrace.Arguments
  | .lineTrace a => some a
  | _ => none

theorem Tracer.lineArguments?_eq_none {t : Tracer} (h : Member.id t ≠ LineTrace.id) :
    t.lineArguments? = none := by
  cases t with
  | lineTrace a => exact absurd rfl h
  | methodTrace a => rfl
  | probe a => rfl

namespace Instrumentation

def lineArguments? : Instrumentation → Option LineTrace.Arguments
  | .lineTrace i => some i.arguments
  | _ => none

theorem id_ne_of_lineArguments? {i : Instrumentation} (h : i.lineArguments? = none) :
    i.id ≠ LineTrace.id := by
  cases i with
  | lineTrace i => cases h
  | methodTrace i => simp [id, MethodTrace.id, LineTrace.id]
  | probe a active => simp [id, Probe.id, LineTrace.id]

/-- What becomes of a tracer that has instrumented a class. -/
theorem instrument_cases {origin : Origin} {c c' : ClassFile} {i i' : Instrumentation}
    (h : i.instrument origin c = .ok (c', i')) :
    (∃ j, i = .lineTrace j ∧ i' = .lineTrace (j.instrument origin c).2) ∨
      (∃ j, i = .methodTrace j ∧ i' = .methodTrace (j.instrument origin c).2) ∨
      ∃ a active, i = .probe a active ∧ i' = .probe a active := by
  cases i with
  | lineTrace j =>
    simp only [instrument, Except.ok.injEq, Prod.mk.injEq] at h
    exact .inl ⟨j, rfl, h.2.symm⟩
  | methodTrace j =>
    simp only [instrument, Except.ok.injEq, Prod.mk.injEq] at h
    exact .inr (.inl ⟨j, rfl, h.2.symm⟩)
  | probe a active =>
    simp only [instrument] at h
    cases hp : Probe.instrument a origin c with
    | error e => simp [hp, Except.map] at h
    | ok q =>
      simp only [hp, Except.map, Except.ok.injEq, Prod.mk.injEq] at h
      exact .inr (.inr ⟨a, active, rfl, h.2.symm⟩)

theorem lineArguments?_instrument {origin : Origin} {c c' : ClassFile} {i i' : Instrumentation}
    (h : i.instrument origin c = .ok (c', i')) : i'.lineArguments? = i.lineArguments? := by
  rcases instrument_cases h with ⟨j, rfl, rfl⟩ | ⟨j, rfl, rfl⟩ | ⟨a, active, rfl, rfl⟩
  · exact congrArg some (arguments_instrument j origin c)
  · rfl
  · rfl

theorem id_instrument {origin : Origin} {c c' : ClassFile} {i i' : Instrumentation}
    (h : i.instrument origin c = .ok (c', i')) : i'.id = i.id := by
  rcases instrument_cases h with ⟨j, rfl, rfl⟩ | ⟨j, rfl, rfl⟩ | ⟨a, active, rfl, rfl⟩ <;> rfl

/-- What each tracer keeps while it instruments a class, all tracers keep. -/
theorem map_instrumentAll {α : Type} {f : Instrumentation → α}
    (hf : ∀ {origin c c' i i'}, instrument origin c i = .ok (c', i') → f i' = f i) {origin : Origin} {c c' : ClassFile}
    {is is' : List Instrumentation} (h : instrumentAll origin c is = .ok (c', is')) : is'.map f = is.map f := by
  induction is generalizing c c' is' with
  | nil =>
    simp only [instrumentAll, Except.ok.injEq, Prod.mk.injEq] at h
    rw [← h.2]
  | cons i is ih =>
    obtain ⟨_, _, _, hi, his, rfl⟩ := instrumentAll_cons_eq_ok_iff.1 h
    rw [List.map_cons, List.map_cons, hf hi, ih his]

end Instrumentation

namespace LoadingUnit

theorem map_defineAll {α : Type} {f : Instrumentation → α}
    (hf : ∀ {origin c c' i i'}, Instrumentation.instrument origin c i = .ok (c', i') → f i' = f i) {origin : Origin}
    {is is' : List Instrumentation} {done classes : List (String × DefinedClass)} {l : List (String × ByteArray)}
    (h : defineAll origin is done l = .ok (classes, is')) : is'.map f = is.map f := by
  induction l generalizing is done with
  | nil =>
    simp only [defineAll, Except.ok.injEq, Prod.mk.injEq] at h
    rw [h.2]
  | cons e rest ih =>
    obtain ⟨d, is₁, hd, hrest⟩ := defineAll_cons_eq_ok_iff.1 h
    obtain ⟨c, c', hdefines, -⟩ := define_eq_ok_iff.1 hd
    exact (ih hrest).trans (Instrumentation.map_instrumentAll hf hdefines.instrumented)

/-- **A unit has the tracers of its roster**, by their names. -/
theorem ids_of_build {p : Plan} {id : UnitId} {u : LoadingUnit} (hu : build p id = .ok u) :
    u.own.instrumentation.map Instrumentation.id = p.tracers.ids := by
  obtain ⟨-, classes, is, hdefine, rfl⟩ := build_eq_ok_iff.1 hu
  have hids := map_defineAll Instrumentation.id_instrument hdefine
  rw [Instrumentation.ofRoster, List.map_map] at hids
  refine hids.trans (List.map_congr_left fun t _ => ?_)
  cases t <;> rfl

/-- **A unit has the line trace that its roster asks for**, and no other. -/
theorem exists_lineTrace_of_build {tracers : List Tracer} {a : LineTrace.Arguments}
    (ha : .lineTrace a ∈ tracers) {roster : Roster Tracer}
    (hr : Roster.empty.addAll tracers = .ok roster) {p : Plan} {id : UnitId} {u : LoadingUnit}
    (hu : build { p with tracers := roster } id = .ok u) :
    ∃ front i rest, u.own.instrumentation = front ++ .lineTrace i :: rest ∧ i.arguments = a ∧
      (∀ j ∈ front, j.id ≠ LineTrace.id) ∧ ∀ j ∈ rest, j.id ≠ LineTrace.id := by
  obtain ⟨-, classes, is, hdefine, rfl⟩ := build_eq_ok_iff.1 hu
  have hmembers : roster.members = tracers := by
    rw [Roster.members_addAll hr]
    rfl
  have hnodup : roster.ids.Nodup := Roster.nodup_addAll (r := .empty) List.nodup_nil hr
  obtain ⟨front, rest, rfl⟩ := List.append_of_mem ha
  rw [Roster.ids, hmembers, List.map_append, List.map_cons] at hnodup
  obtain ⟨-, hnodup, hfront⟩ := List.nodup_append.1 hnodup
  have hnone : ∀ t, t ∈ front ∨ t ∈ rest → t.lineArguments? = none := by
    rintro t (ht | ht)
    · exact Tracer.lineArguments?_eq_none (hfront _ (List.mem_map_of_mem ht) _ List.mem_cons_self)
    · refine Tracer.lineArguments?_eq_none fun heq => (List.nodup_cons.1 hnodup).1 ?_
      exact List.mem_map.2 ⟨t, ht, heq⟩
  have hstart : (Instrumentation.ofRoster roster).map Instrumentation.lineArguments? =
      (front ++ .lineTrace a :: rest).map Tracer.lineArguments? := by
    rw [Instrumentation.ofRoster, List.map_map, hmembers]
    refine List.map_congr_left fun t _ => ?_
    cases t <;> rfl
  have his := map_defineAll Instrumentation.lineArguments?_instrument hdefine
  rw [hstart, List.map_append, List.map_cons] at his
  obtain ⟨front', rest', rfl, hfront', hrest'⟩ := List.map_eq_append_iff.1 his
  obtain ⟨i, rest', rfl, hi, hbehind⟩ := List.map_eq_cons_iff.1 hrest'
  have other : ∀ {l : List Tracer} {l' : List Instrumentation}, (∀ t ∈ l, t.lineArguments? = none) →
      l'.map Instrumentation.lineArguments? = l.map Tracer.lineArguments? →
      ∀ j ∈ l', j.id ≠ LineTrace.id := by
    intro l l' hl heq j hj
    have hmem := heq ▸ List.mem_map_of_mem hj
    obtain ⟨t, ht, htj⟩ := List.mem_map.1 hmem
    exact Instrumentation.id_ne_of_lineArguments? (htj.symm.trans (hl t ht))
  cases i with
  | lineTrace i =>
    exact ⟨front', i, rest', rfl, Option.some.inj hi, other (fun t ht => hnone t (.inl ht)) hfront',
      other (fun t ht => hnone t (.inr ht)) hbehind⟩
  | methodTrace i => cases hi
  | probe a active => cases hi

end LoadingUnit

end Confine
