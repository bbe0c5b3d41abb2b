import Confine.Proofs.Tracing.Followed
import Confine.Proofs.Tracing.Recorded
import Confine.Proofs.Tracing.SharedCalls
import Confine.Proofs.Tracing.TracedClasses

/-!
# The calls of a program in a unit with tracers

* `LoadingUnit.Traces` — a unit with the tracers of a program, and `LoadingUnit.Tracing` — with the unit without them;
* `LoadingUnit.Tracing.codeOf_cases` — the code of a frame is that of the program with what its tracers have put there, or
  of a library and without hooks;
* `Sandbox.prepare_tracing` — a run is prepared with tracers as it is without;
* `Sandbox.Prepared.Tracing.exists_recorded` — **what has been recorded belongs to the steps of the run without tracers**.

`OfClass.unit` is the unit of a program of one class, and `OfClass.unitOn` that of some classes on top of another unit,
for samples.
-/

namespace Confine

/-! ### Methods of a program -/

/-- The method of a program that a frame names, with its class. -/
def programMethod? (cs : List ClassFile) (f : Frame) : Option (ClassFile × Method) :=
  (cs.find? (·.name == f.className)).bind fun c =>
    (c.methods.find? (·.name == f.method.method.name)).map (c, ·)

theorem mem_of_programMethod {cs : List ClassFile} {f : Frame} {p : ClassFile × Method}
    (h : programMethod? cs f = some p) : p.1 ∈ cs ∧ p.2 ∈ p.1.methods ∧ p.1.name = f.className := by
  obtain ⟨c, hc, hmap⟩ := Option.bind_eq_some_iff.1 h
  obtain ⟨m, hm, rfl⟩ := Option.map_eq_some_iff.1 hmap
  exact ⟨List.mem_of_find?_eq_some hc, List.mem_of_find?_eq_some hm, by simpa using List.find?_some hc⟩

theorem find?_rel {α β : Type} {R : α → β → Prop} {f : α → String} {g : β → String} {l : List α}
    {l' : List β} (h : List.Forall₂ R l l') (hname : ∀ a b, R a b → g b = f a) (wanted : String) :
    Option.Rel R (l.find? (f · == wanted)) (l'.find? (g · == wanted)) := by
  induction h with
  | nil => exact .none
  | @cons a b _ _ hab _ ih =>
    rw [List.find?_cons, List.find?_cons, hname a b hab]
    split
    · exact .some hab
    · exact ih

/-- Of two programs with the same names, the methods that a frame says are related. -/
theorem programMethod?_rel {R : ClassFile → Method → Method → Prop} {cs cs' : List ClassFile}
    (h : List.Forall₂ (fun c c' => c.Changed (R c) c') cs cs') (hname : ∀ c m m', R c m m' → m'.name = m.name)
    (f : Frame) :
    Option.Rel (fun p p' => R p.1 p.2 p'.2) (programMethod? cs f) (programMethod? cs' f) := by
  have hclass := find?_rel (f := ClassFile.name) (g := ClassFile.name) h (fun _ _ hc => hc.name) f.className
  rw [programMethod?, programMethod?]
  generalize cs.find? (·.name == f.className) = o at hclass
  generalize cs'.find? (·.name == f.className) = o' at hclass
  cases hclass with
  | none => exact .none
  | @some c c' hc =>
    have hmethod := find?_rel (f := Method.name) (g := Method.name) hc.methods (fun _ _ hm => hname c _ _ hm)
      f.method.method.name
    rw [Option.bind_some, Option.bind_some]
    generalize c.methods.find? (·.name == f.method.method.name) = o at hmethod
    generalize c'.methods.find? (·.name == f.method.method.name) = o' at hmethod
    cases hmethod with
    | none => exact .none
    | some hm => exact .some hm

namespace LoadingUnit

variable {u u' : LoadingUnit} {w : WovenClasses} {cs : List ClassFile} {origin : Origin}
  {line : Option LineTrace.Arguments} {method : Option MethodTrace.Arguments}

theorem Weaves.class?_eq (h : u.Weaves w) (name : String) :
    u.own.class? name = (w.classes.find? (·.name == name)).map LinkedClass.ofClassFile := by
  rw [Layer.class?, h.classes, getNamed?, List.find?_map]
  cases hc : w.classes.find? ((fun e => e.1 == name) ∘ entry) with
  | none =>
    have hc' : w.classes.find? (·.name == name) = none := hc
    rw [hc']
    rfl
  | some c =>
    have hc' : w.classes.find? (·.name == name) = some c := hc
    rw [hc']
    rfl

theorem Weaves.methodOf?_eq (h : u.Weaves w) (f : Frame) :
    u.methodOf? f = (programMethod? w.classes f).map fun p => .ofMethod p.2 := by
  rw [methodOf?, h.class?_eq, programMethod?]
  cases w.classes.find? (·.name == f.className) with
  | none => rfl
  | some c =>
    show (LinkedClass.ofClassFile c).method? f.method.method.name = _
    rw [LinkedClass.method?, LinkedClass.ofClassFile]
    dsimp only
    rw [List.find?_map, Option.bind_some, Option.map_map]
    rfl

theorem Weaves.methodOf?_rel {w' : WovenClasses} {R : ClassFile → Method → Method → Prop} (h : u.Weaves w)
    (h' : u'.Weaves w') (hw : List.Forall₂ (fun c c' => c.Changed (R c) c') w.classes w'.classes)
    (hname : ∀ c m m', R c m m' → m'.name = m.name) (f : Frame) :
    Option.Rel (fun l l' => ∃ c m m', l = .ofMethod m ∧ l' = .ofMethod m' ∧ R c m m') (u.methodOf? f)
      (u'.methodOf? f) := by
  have hrel := programMethod?_rel hw hname f
  rw [h.methodOf?_eq, h'.methodOf?_eq]
  generalize programMethod? w.classes f = o at hrel
  generalize programMethod? w'.classes f = o' at hrel
  cases hrel with
  | none => exact .none
  | some hm => exact .some ⟨_, _, _, rfl, rfl, hm⟩

end LoadingUnit

theorem exists_mem_of_forall₂ {α β : Type} {R : α → β → Prop} {l : List α} {l' : List β}
    (h : List.Forall₂ R l l') : ∀ b ∈ l', ∃ a ∈ l, R a b := by
  induction h with
  | nil => simp
  | cons hab _ ih =>
    refine List.forall_mem_cons.2 ⟨⟨_, by simp, hab⟩, fun b hb => ?_⟩
    obtain ⟨a, ha, hab⟩ := ih b hb
    exact ⟨a, by simp [ha], hab⟩

/-! ### A program with tracers and without -/

/-- **A unit with tracers**, from a program that passed the checks. -/
structure LoadingUnit.Traces (cs : List ClassFile) (origin : Origin) (line : Option LineTrace.Arguments)
    (method : Option MethodTrace.Arguments) (u' : LoadingUnit) : Prop where
  submitted : ∀ c ∈ cs, Verifier.check .submitted c = .ok ()
  traced : u'.Weaves (weave origin line method cs)

/-- **A unit without tracers, and one with them**, from one program. -/
structure LoadingUnit.Tracing (cs : List ClassFile) (origin : Origin) (line : Option LineTrace.Arguments)
    (method : Option MethodTrace.Arguments) (u u' : LoadingUnit) : Prop extends
    Traces cs origin line method u' where
  plain : u.Weaves ⟨none, none, cs⟩

namespace LoadingUnit

theorem traces_of_build {p : Plan} {id : UnitId} {u' : LoadingUnit} {line : Option LineTrace.Arguments}
    {method : Option MethodTrace.Arguments} {cs : List ClassFile}
    (hreads : List.Forall₂ Reads p.program.classes cs)
    (h : build { p with tracers := .traces line method } id = .ok u') : Traces cs p.origin line method u' := by
  obtain ⟨cs', hreads', htraced⟩ := exists_weaves_of_build h
  obtain rfl := reads_unique hreads hreads'
  refine ⟨fun c hc => ?_, htraced⟩
  obtain ⟨e, -, he⟩ := exists_mem_of_forall₂ hreads c hc
  exact he.submitted

theorem tracing_of_build {p : Plan} {id : UnitId} {u u' : LoadingUnit}
    {line : Option LineTrace.Arguments} {method : Option MethodTrace.Arguments} {cs : List ClassFile}
    (hreads : List.Forall₂ Reads p.program.classes cs)
    (h : build { p with tracers := .empty } id = .ok u)
    (h' : build { p with tracers := .traces line method } id = .ok u') :
    Tracing cs p.origin line method u u' := by
  obtain ⟨-, hplain⟩ := @traces_of_build p id u none none cs hreads h
  rw [weave_none] at hplain
  exact ⟨traces_of_build hreads h', hplain⟩

namespace Traces

variable {u' : LoadingUnit} {cs : List ClassFile} {origin : Origin} {line : Option LineTrace.Arguments}
  {method : Option MethodTrace.Arguments} (h : Traces cs origin line method u')

include h

theorem verified {c : ClassFile} (hc : c ∈ cs) {m : Method} (hm : m ∈ c.methods) :
    Verifier.Verified .submitted m := (Verifier.check_eq_ok_iff.1 (h.submitted c hc)).2 m hm

theorem tidy : u'.Tidy := by
  intro name lc hlc lm hlm
  rw [h.traced.class?_eq] at hlc
  obtain ⟨c', hc', rfl⟩ := Option.map_eq_some_iff.1 hlc
  obtain ⟨m', hm', rfl⟩ := List.mem_map.1 hlm
  obtain ⟨c, hc, hchanged⟩ := exists_mem_of_forall₂ (changed_weave origin line method cs) c'
    (List.mem_of_find?_eq_some hc')
  obtain ⟨m, hm, hwoven⟩ := exists_mem_of_forall₂ hchanged.methods m' hm'
  exact hwoven.tidy (h.verified hc hm)

/-- **What the unit has for a method**: that of the program, traced, or nothing. -/
theorem methodOf_cases (f : Frame) :
    (programMethod? cs f = none ∧ u'.methodOf? f = none) ∨
      ∃ c ∈ cs, ∃ m ∈ c.methods, ∃ m', programMethod? cs f = some (c, m) ∧
        u'.methodOf? f = some (.ofMethod m') ∧
        m.Woven (Instrumentation.lineSource? origin (lineStart line) c)
          (Instrumentation.sites? origin (weave origin line method cs).method) c.name m' := by
  have hrel := programMethod?_rel (changed_weave origin line method cs)
    (fun _ _ _ hm => hm.traced.weaves.name) f
  rw [h.traced.methodOf?_eq]
  generalize hp : programMethod? cs f = o at hrel
  generalize programMethod? (weave origin line method cs).classes f = o' at hrel
  cases hrel with
  | none => exact .inl ⟨rfl, rfl⟩
  | @some p p' hwoven =>
    obtain ⟨hc, hm, -⟩ := mem_of_programMethod hp
    exact .inr ⟨p.1, hc, p.2, hm, p'.2, rfl, rfl, hwoven⟩

end Traces

namespace Tracing

variable {u u' : LoadingUnit} {cs : List ClassFile} {origin : Origin} {line : Option LineTrace.Arguments}
  {method : Option MethodTrace.Arguments} (h : Tracing cs origin line method u u')

include h

theorem hookFree : u.own.HookFree := by
  intro name lc hlc lm hlm i hi
  rw [h.plain.class?_eq] at hlc
  obtain ⟨c, hc, rfl⟩ := Option.map_eq_some_iff.1 hlc
  obtain ⟨m, hm, rfl⟩ := List.mem_map.1 hlm
  exact (h.verified (List.mem_of_find?_eq_some hc) hm).not_isHook (Array.mem_toList_iff.2 hi)

/-- A frame runs a method of the program, or one of another unit. -/
theorem frame_cases (hu : u.Built) {f : Frame} (hf : f.Found u) :
    (u.own.class? f.className = none ∧ programMethod? cs f = none) ∨
      ∃ c ∈ cs, ∃ m ∈ c.methods, u.own.class? f.className = some (.ofClassFile c) ∧
        c.name = f.className ∧ f.method = .ofMethod m ∧ programMethod? cs f = some (c, m) := by
  have hclass := h.plain.class?_eq f.className
  cases hc : cs.find? (·.name == f.className) with
  | none =>
    rw [hc] at hclass
    exact .inl ⟨hclass, by rw [programMethod?, hc]; rfl⟩
  | some c =>
    rw [hc] at hclass
    have hmethod := hf.methodOf_eq hu
    rw [hclass, h.plain.methodOf?_eq] at hmethod
    obtain ⟨⟨c', m⟩, hp, hm⟩ := Option.map_eq_some_iff.1 hmethod
    obtain rfl : c = c' := by
      obtain ⟨_, hc', hm'⟩ := Option.bind_eq_some_iff.1 hp
      obtain ⟨_, _, heq⟩ := Option.map_eq_some_iff.1 hm'
      exact (Option.some.inj (hc.symm.trans hc')).trans (congrArg Prod.fst heq)
    obtain ⟨hmem, hmem', hname⟩ := mem_of_programMethod hp
    exact .inr ⟨c, hmem, m, hmem', hclass, hname, hm.symm, hp⟩

/-- **What the unit with tracers runs for a method of the program.** -/
theorem codeOf_cases (hu : u.Built) {f : Frame} (hf : f.Found u) :
    (u.own.class? f.className = none ∧ u'.methodOf? f = none ∧ u'.codeOf f = []) ∨
      ∃ c ∈ cs, ∃ m ∈ c.methods, ∃ m', u.own.class? f.className = some (.ofClassFile c) ∧
        c.name = f.className ∧ f.method = .ofMethod m ∧ u'.codeOf f = m'.code ∧
        m.Woven (Instrumentation.lineSource? origin (lineStart line) c)
          (Instrumentation.sites? origin (weave origin line method cs).method) c.name m' := by
  rcases h.frame_cases hu hf with ⟨hown, hnone⟩ | ⟨c, hc, m, hm, hown, hname, hmethod, hp⟩
  · rcases h.methodOf_cases f with ⟨-, ho⟩ | ⟨_, _, _, _, _, hp, _⟩
    · exact .inl ⟨hown, ho, by rw [codeOf, ho]; rfl⟩
    · rw [hnone] at hp
      cases hp
  · rcases h.methodOf_cases f with ⟨hnone, -⟩ | ⟨c', _, m', _, m'', hp', ho, hwoven⟩
    · rw [hp] at hnone
      cases hnone
    · obtain ⟨rfl, rfl⟩ : c = c' ∧ m = m' := by simpa [hp] using hp'
      exact .inr ⟨c, hc, m, hm, m'', hown, hname, hmethod, by rw [codeOf, ho]; rfl, hwoven⟩

end Tracing

end LoadingUnit

/-! ### Programs of a few classes -/

/-- **Classes that pass the checks before and behind the tracers are defined**, one after the other. -/
theorem LoadingUnit.defineAll_traces {origin : Origin} {line : Option LineTrace.Instrumentation}
    {method : Option MethodTrace.Instrumentation} {done : List (String × DefinedClass)} {cs : List ClassFile}
    (hcs : ∀ c ∈ cs, Verifier.check .submitted c = .ok ())
    (hmade : ∀ c ∈ (Instrumentation.entered origin method (Instrumentation.lined origin line cs).1).1,
      Verifier.check .instrumented c = .ok ()) :
    defineAll origin (Instrumentation.traces line method) done (cs.map fun c => (c.name, c.encode.toUTF8)) =
      .ok (done.reverse ++ (Instrumentation.entered origin method (Instrumentation.lined origin line cs).1).1.map entry,
        Instrumentation.traces (Instrumentation.lined origin line cs).2
          (Instrumentation.entered origin method (Instrumentation.lined origin line cs).1).2) := by
  induction cs generalizing line method done with
  | nil => simp [defineAll, Instrumentation.lined, Instrumentation.entered, Instrumentation.instrumentClasses]
  | cons c cs ih =>
    obtain ⟨hc, hcs⟩ := List.forall_mem_cons.1 hcs
    obtain ⟨hmade, hrest⟩ := List.forall_mem_cons.1 hmade
    have hd := define_eq_ok_iff.2 ⟨c, _, ⟨ClassFile.decodeBytes?_encode c, rfl, hc,
      Instrumentation.instrumentAll_traces_eq origin line method c, hmade⟩, rfl⟩
    have hname : (Instrumentation.methodClass origin method (Instrumentation.lineClass origin line c).1).1.name =
        c.name := Instrumentation.name_instrumentAll (Instrumentation.instrumentAll_traces_eq origin line method c)
    refine defineAll_cons_eq_ok_iff.2 ⟨_, _, hd, (ih hcs hrest).trans ?_⟩
    simp only [Instrumentation.lined, Instrumentation.entered, Instrumentation.instrumentClasses, List.map_cons, entry,
      hname, List.reverse_cons, List.append_assoc, List.singleton_append]

namespace OfClass

open Instrumentation (traces)
open LoadingUnit

def plan (c : ClassFile) : Plan := .ofProgram ⟨[(c.name, c.encode.toUTF8)], ""⟩

def unit (c : ClassFile) (line : Option LineTrace.Arguments) (method : Option MethodTrace.Arguments) :
    LoadingUnit :=
  let w := weave .untrusted line method [c]
  ⟨⟨⟨1⟩, "", .default, traces w.line w.method, w.classes.map entry⟩, []⟩

theorem reads {c : ClassFile} (hc : Verifier.check .submitted c = .ok ()) :
    List.Forall₂ Reads (plan c).program.classes [c] :=
  .cons ⟨ClassFile.decodeBytes?_encode c, rfl, hc⟩ .nil

def planOf (cs : List ClassFile) : Plan := .ofProgram ⟨cs.map fun c => (c.name, c.encode.toUTF8), ""⟩

/-- The unit of a program, of an origin, with tracers and on top of another one. -/
def unitOn (parent : Option LoadingUnit) (id : UnitId) (origin : Origin) (cs : List ClassFile)
    (line : Option LineTrace.Arguments) (method : Option MethodTrace.Arguments) : LoadingUnit :=
  let w := weave origin line method cs
  ⟨⟨id, "", .default, traces w.line w.method, w.classes.map entry⟩, (parent.map layers).getD []⟩

theorem build_on {parent : Option LoadingUnit} {id : UnitId} {origin : Origin} {cs : List ClassFile}
    {line : Option LineTrace.Arguments} {method : Option MethodTrace.Arguments}
    (hcs : ∀ c ∈ cs, Verifier.check .submitted c = .ok ())
    (hmade : ∀ c ∈ (weave origin line method cs).classes, Verifier.check .instrumented c = .ok ()) :
    build { planOf cs with parent := parent, tracers := .traces line method, origin := origin } id =
      .ok (unitOn parent id origin cs line method) := by
  have hall := @defineAll_traces origin _ _ [] cs hcs hmade
  rw [← ofRoster_traces_eq] at hall
  exact build_eq_ok_iff.2 ⟨rfl, _, _, hall, rfl⟩

theorem build_plan {c : ClassFile} {line : Option LineTrace.Arguments} {method : Option MethodTrace.Arguments}
    (hc : Verifier.check .submitted c = .ok ())
    (hmade : ∀ c' ∈ (weave .untrusted line method [c]).classes, Verifier.check .instrumented c' = .ok ()) :
    build { plan c with tracers := .traces line method } ⟨1⟩ = .ok (unit c line method) :=
  @build_on none ⟨1⟩ .untrusted [c] line method (List.forall_mem_singleton.2 hc) hmade

/-- A class whose entry point calls a method with a receiver, and then one without a real instruction. -/
def calling : ClassFile :=
  ⟨"Main", some "Main.java",
    [⟨"main", true, [], 0, [.new "Main", .push (.text "hi"), .invokeVirtual "note" 1,
        .invokeStatic "Main" "empty", .ret], []⟩,
      ⟨"note", false, ["text"], 2, [.ret], []⟩,
      ⟨"empty", true, [], 0, [.label ⟨0⟩, .lineNumber 1 ⟨0⟩], []⟩]⟩

def silent : (r : HostRequest) → StateM Unit r.Answer
  | .clock => pure (default : Time.Timestamp)
  | .getEnv _ => pure (none : Option String)
  | .writeFile _ _ => pure (.error "" : Except String Unit)
  | .workingDirectory => pure (none : Option String)

def isEnded (x : Solo Unit) : Bool :=
  match x.stand with
  | .running _ => false
  | .ended _ => true

theorem exists_of_isEnded {x : Solo Unit} (h : isEnded x = true) : ∃ res, x.stand = .ended res := by
  unfold isEnded at h
  split at h
  · cases h
  · exact ⟨_, ‹_›⟩

theorem neverReads {c : ClassFile}
    (hc : ∀ m ∈ (LinkedClass.ofClassFile c).methods, .host .readFile ∉ m.code.toList) {P : Sandbox.Prepared}
    (hP : P.task.unit = unit c none none) (e : EntryPoint) : (P.solo e ()).NeverReads P.task silent := by
  refine Solo.neverReads_of_calls silent (Solo.reaches_start _ _ _ _ _ _) fun g hg hread => ?_
  obtain ⟨l, hl, x, hx, hm⟩ := hg.exists_method
  rw [hP] at hl
  obtain rfl := List.mem_singleton.1 hl
  obtain rfl := List.mem_singleton.1 hx
  exact hc _ hm (Array.mem_toList_iff.2 hread)

/-- The methods whose entries a thread has kept. -/
def keptEntries (x : Solo Unit) : List String :=
  x.shared.recordings.entries.flatMap fun
    | .methodTrace r => r.steps.toList.filterMap fun
      | .enter method _ _ => some method
      | .line _ _ => none
    | _ => []

/-- What a thread has been refused when it has ended. -/
def refused? (x : Solo Unit) : Option Permission :=
  match x.stand with
  | .ended (.error (.security p)) => some p
  | _ => none

theorem stand_of_refused {x : Solo Unit} {p : Permission} (h : refused? x = some p) :
    x.stand = .ended (.error (.security p)) := by
  unfold refused? at h
  split at h
  · next hstand => rw [hstand, Option.some.inj h]
  · cases h

end OfClass

/-! ### What is reported -/

/-- **What the two traces of a task report**, each of them if the task has it, and the results in which this is written. -/
structure Recordings.Report (rs : Recordings) (line : Option LineTrace.Result) (method : Option MethodTrace.Result) :
    Prop where
  lineTrace : rs.lineTrace?.map (·.report) = line
  methodTrace : rs.methodTrace?.map (·.report) = method
  results : rs.results = (line.map fun r => ("line-trace", r.toJson)).toList ++
    (method.map fun r => ("method-trace", r.toJson)).toList

theorem Recordings.report_traces (line : Option LineTrace.Recording) (method : Option MethodTrace.Recording) :
    (traces line method).Report (line.map (·.report)) (method.map (·.report)) where
  lineTrace := by cases line <;> cases method <;> rfl
  methodTrace := by cases line <;> cases method <;> rfl
  results := by
    rw [results_traces, Option.map_map, Option.map_map]
    rfl

/-! ### Runs -/

namespace Sandbox

theorem exists_of_conclude {r : RegistryId} {P : Prepared} {rec : Record} {e : RunEnd} {x : ExecutionResult}
    (h : (conclude r P rec e).outcome = .ok x) :
    (∃ v : Option Value, x.returned = v.map Value.toJson) ∧ x.tracerResults = e.shared.recordings.results := by
  simp only [conclude] at h
  cases hrelease : e.shared.cancel.confinements.release r P.token P.task.unit.id with
  | error fault => simp [hrelease, Except.mapError, bind, Except.bind] at h
  | ok q =>
    cases hend : conclusion e.outcome with
    | error fault => simp [hrelease, hend, resultOf, Except.mapError, bind, Except.bind] at h
    | ok p =>
      simp only [hrelease, hend, resultOf, Except.mapError, bind, Except.bind, Except.ok.injEq] at h
      subst h
      exact ⟨⟨p.1, rfl⟩, rfl⟩

theorem tracerResults_of_conclude {r : RegistryId} {P : Prepared} {rec : Record} {e : RunEnd} {x : ExecutionResult}
    (h : (conclude r P rec e).outcome = .ok x) : x.tracerResults = e.shared.recordings.results :=
  (exists_of_conclude h).2

/-- **What the tracers of a run have recorded** is what they have of its only thread at some moment, and at its end if the
run was not cut off. -/
theorem Prepared.exists_recordings_of_run {σ τ : Type} {answer : (r : HostRequest) → StateM τ r.Answer}
    {host : Host (StateM σ)} {view : σ → τ} (P : Prepared) (halone : P.task.maxExtraThreads = 0)
    (hlonely : P.state.Lonely) (e : EntryPoint) (hserves : host.Serves answer view) (limit : Nat) (w : σ) :
    ∃ n, (RunState.run host P.task P.state e.work limit w).1.shared.recordings =
        ((Solo.step P.task answer)^[n] (P.solo e (view w))).shared.recordings ∧
      ((RunState.run host P.task P.state e.work limit w).1.outcome ≠ none →
        ∃ res, (RunState.run host P.task P.state e.work limit w).1.outcome = some (.finished res) ∧
          ((Solo.step P.task answer)^[n] (P.solo e (view w))).stand = .ended res) := by
  rcases RunState.run_stopsAlone halone hserves hlonely e limit w with ⟨n, hq⟩ | ⟨n, res, hend, hq, -⟩
  · exact ⟨n, by rw [congrArg RunEnd.shared hq]; rfl, fun ho => absurd (congrArg RunEnd.outcome hq) ho⟩
  · exact ⟨n, by rw [congrArg RunEnd.shared hq]; rfl,
      fun _ => ⟨res, congrArg RunEnd.outcome hq, hend⟩⟩

/-- **A run without tracers, and one with them**, of one program. -/
structure Prepared.Tracing (cs : List ClassFile) (origin : Origin) (line : Option LineTrace.Arguments)
    (method : Option MethodTrace.Arguments) (P P' : Prepared) : Prop where
  counterpart : P.Counterpart P'
  units : LoadingUnit.Tracing cs origin line method P.task.unit P'.task.unit
  built : P.task.unit.Built
  built' : P'.task.unit.Built
  alone : P.task.maxExtraThreads = 0
  lonely : P.state.Lonely
  fresh : P.state.cancelled = false

/-- The recordings with which a run begins. -/
def Prepared.Records (subscribers : List LineTrace.Subscriber) (line : Option LineTrace.Arguments)
    (method : Option MethodTrace.Instrumentation) (P : Prepared) : Prop :=
  P.state.recordings = .traces (line.map (⟨·, [], subscribers⟩)) (method.map (⟨·, #[]⟩)) ∧
    Recordings.Linked (line.map (⟨·, [], subscribers⟩)) (method.map (⟨·, #[]⟩))

/-- **The recordings with which a unit is prepared.** -/
theorem Prepares.records {u' : LoadingUnit} {cs : List ClassFile} {origin : Origin}
    {line : Option LineTrace.Arguments} {method : Option MethodTrace.Arguments}
    (hline : ∀ b ∈ line, b.runLineLimit = none) (hu' : u'.Weaves (LoadingUnit.weave origin line method cs))
    {sb : Sandbox} {r : RegistryId} {sets : List LoadingUnit.ClassSets} {a : ExecutionArguments}
    (ha : a.maxExtraThreads = 0) {P' : Prepared} (h : sb.Prepares r u' sets a P') :
    ∃ subscribers, P'.Records subscribers line (LoadingUnit.weave origin line method cs).method := by
  have harguments := LoadingUnit.arguments_weave origin line method cs
  have hwithLines : ∀ i ∈ (LoadingUnit.weave origin line method cs).method,
      i.withLines = (LoadingUnit.weave origin line method cs).line.isSome := by
    intro i hi
    have hgrows := LoadingUnit.grows_weave origin line method cs
    rw [Option.mem_def.1 hi] at hgrows
    have hsome := congrArg Option.isSome harguments
    rw [Option.isSome_map] at hsome
    generalize hstart : LoadingUnit.methodStart line method = o at hgrows
    cases hgrows with
    | some hgrows =>
      obtain ⟨b, -, rfl⟩ := Option.map_eq_some_iff.1 hstart
      rw [hgrows.withLines, hsome]
  obtain ⟨subscribers, hstart, hlinked⟩ := Recordings.exists_start
    (LoadingUnit.runLineLimit_weave origin method cs hline) hwithLines
  have hmap : (LoadingUnit.weave origin line method cs).line.map
      (fun i => (⟨i.arguments, [], subscribers⟩ : LineTrace.Recording)) =
        line.map (⟨·, [], subscribers⟩) := by
    conv_rhs => rw [← harguments]
    rw [Option.map_map]
    rfl
  have hstarted := h.started
  rw [ha, hu'.instrumentation, hstart, Except.ok.injEq] at hstarted
  rw [hmap] at hstarted hlinked
  exact ⟨subscribers, hstarted.symm, hlinked⟩

/-- A unit is prepared without its tracers and with them alike. -/
theorem prepare_tracing {p : LoadingUnit.Plan} {id : UnitId} {u u' : LoadingUnit} {cs : List ClassFile}
    {line : Option LineTrace.Arguments} {method : Option MethodTrace.Arguments}
    (hline : ∀ b ∈ line, b.runLineLimit = none) (hp : ∀ v, p.parent = some v → v.Built)
    (hreads : List.Forall₂ LoadingUnit.Reads p.program.classes cs)
    (hu : LoadingUnit.build { p with tracers := .empty } id = .ok u)
    (hu' : LoadingUnit.build { p with tracers := .traces line method } id = .ok u') (sb : Sandbox)
    (r : RegistryId) (sets : List LoadingUnit.ClassSets) {a : ExecutionArguments}
    (ha : a.maxExtraThreads = 0) :
    Agree (fun P P' => P.Tracing cs p.origin line method P' ∧ ∃ subscribers,
        P'.Records subscribers line (LoadingUnit.weave p.origin line method cs).method)
      (sb.prepare r u sets a) (sb.prepare r u' sets a) := by
  have htracing := LoadingUnit.tracing_of_build hreads hu hu'
  have hlimit := LoadingUnit.runLineLimit_weave p.origin method cs hline
  obtain ⟨hcounterpart, hnone, -⟩ := LoadingUnit.counterpart_of_build hu hu'
  refine (prepare_agree hcounterpart hnone htracing.traced.instrumentation hlimit sb r sets ha).imp_ok
    fun P P' hP hP' h => ?_
  have hprepares := prepare_eq_ok_iff.1 hP
  have hprepares' := prepare_eq_ok_iff.1 hP'
  have hunit : P.task.unit = u := by rw [hprepares.task]
  have hunit' : P'.task.unit = u' := by rw [hprepares'.task]
  have hbuilt : u.Built := .build (p := { p with tracers := .empty }) hp hu
  have hbuilt' : u'.Built := .build (p := { p with tracers := .traces line method }) hp hu'
  exact ⟨⟨h, hunit ▸ hunit' ▸ htracing, hunit ▸ hbuilt, hunit' ▸ hbuilt', by rw [hprepares.task, ha],
    hprepares.lonely, congrArg TaskState.cancelled hprepares.state⟩,
    hprepares'.records hline htracing.traced ha⟩

namespace Prepared.Tracing

variable {σ : Type} {cs : List ClassFile} {origin : Origin} {line : Option LineTrace.Arguments}
  {method : Option MethodTrace.Arguments} {P P' : Prepared} (h : P.Tracing cs origin line method P')
  {answer : (r : HostRequest) → StateM σ r.Answer} {e : EntryPoint} {v : σ}

include h

theorem solo_fresh : (P.solo e v).shared.cancelled = false ∧ (P.solo e v).shared.recordings.Quiet := by
  have hsame : (P.solo e v).shared.recordings = P.state.recordings ∧
      (P.solo e v).shared.cancelled = P.state.cancelled :=
    Solo.recordings_of_start P.state e.className e.methodName [] v
  rw [hsame.1, hsame.2]
  exact ⟨h.fresh, h.counterpart.state.quiet.1⟩

/-- **What has been recorded at any moment** of the run with tracers are calls that belong to the steps of the other, and
all of them when it has ended. -/
theorem exists_recorded (hread : (P.solo e v).NeverReads P.task answer) (n' : Nat) :
    ∃ n calls, ((Solo.step P.task answer)^[n] (P.solo e v)).Alike
        ((Solo.step P'.task answer)^[n'] (P'.solo e v)) ∧
      ((Solo.step P'.task answer)^[n'] (P'.solo e v)).shared.recordings =
        P'.state.recordings.after calls ∧
      calls <+: (P.solo e v).callsUpTo P.task answer P'.task.unit n ∧
      ∀ res, ((Solo.step P'.task answer)^[n'] (P'.solo e v)).stand = .ended res →
        calls = (P.solo e v).callsUpTo P.task answer P'.task.unit n := by
  have hstart : (P.solo e v).Alike (P'.solo e v) :=
    Solo.Alike.start h.counterpart.task h.counterpart.state e.className e.methodName [] v
  have hr : (P.solo e v).Reaches P.task := Solo.reaches_start _ _ _ _ _ _
  have hr' : (P'.solo e v).Reaches P'.task := Solo.reaches_start _ _ _ _ _ _
  have hc : (P.solo e v).shared.cancelled = false := h.solo_fresh.1
  have hc' : (P'.solo e v).shared.cancelled = false := hstart.shared.cancelled_eq.trans hc
  have hq' : (P'.solo e v).shared.recordings.Quiet := hstart.shared.quiet.2
  have hnext : ∀ f ∈ (P.solo e v).frames, f.next = 0 :=
    Solo.next_of_start P.state e.className e.methodName [] v
  have hnext' : ∀ f ∈ (P'.solo e v).frames, f.next = 0 :=
    Solo.next_of_start P'.state e.className e.methodName [] v
  -- neither thread has executed anything yet, so the same hooks are ahead of both
  have hahead : (P'.solo e v).ahead P'.task.unit = (P.solo e v).ahead P'.task.unit := by
    have hframes := hstart.frames_shadow
    unfold Solo.ahead
    generalize (P.solo e v).frames = fs at hframes hnext
    generalize (P'.solo e v).frames = fs' at hframes hnext'
    cases hframes with
    | nil => rfl
    | cons hf _ => exact hf.ahead_eq _ (hnext _ (by simp)) (hnext' _ (by simp))
  obtain ⟨n, halike, hcalls⟩ := hstart.exists_callsUpTo h.built h.built' h.units.tidy
    h.counterpart.task h.units.hookFree hr hr' hc hread hahead n'
  obtain ⟨done, hrecordings, hdone, -⟩ := @Solo.exists_recorded_iterate _ P'.task answer _ h.built'
    h.units.tidy hr' hc' hq' n'
  have hnone : (P'.solo e v).shared.recordings = P'.state.recordings :=
    (Solo.recordings_of_start P'.state e.className e.methodName [] v).1
  rw [hnone] at hrecordings
  refine ⟨n, done, halike, hrecordings, ?_, fun res hres => ?_⟩
  · -- what has been called comes before what is ahead
    rw [← hcalls, ← hdone]
    exact List.prefix_append _ _
  · -- at the end nothing is ahead
    have hframes : ((Solo.step P'.task answer)^[n'] (P'.solo e v)).frames = [] := by
      rw [Solo.frames, hres]
    rw [← hcalls, ← hdone, Solo.ahead_of_nil hframes, List.append_nil]

end Prepared.Tracing

end Sandbox

end Confine
