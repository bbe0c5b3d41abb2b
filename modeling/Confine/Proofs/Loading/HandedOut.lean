import Confine.Proofs.Machine.Found
import Confine.Proofs.Program.Codec
import Confine.Proofs.Tracing.Woven

/-!
# What a unit hands out is what it runs

The text that a unit hands out for a class is written once, when the unit is built; the class that runs is linked at
the same time, and never looked at again.

* `LinkedMethod.Links`, `LinkedClass.Links` — code as it runs is that of a class file, with its labels resolved;
* `ClassFile.withoutHooks` — a class file without the calls into tracers;
* `LoadingUnit.Exposes` — what was handed in for a class, what the unit hands out, and what it loads;
* `LoadingUnit.handsOut_of_build` — **what is handed out is what runs, and but for hooks it is what was handed in**.
-/

namespace Confine

/-! ### Code as it runs -/

/-- **The method as it runs is a method of a class file**, with its labels and handlers resolved to places. -/
structure LinkedMethod.Links (l : LinkedMethod) (m : Method) : Prop where
  method : l.method = m
  code : l.code.toList = m.code
  labels : ∀ label place, l.place? label = some place ↔ m.code[place]? = some (.label label)
  handlers : List.Forall₂ (fun (h : Handler) (r : LinkedHandler) => l.Stands h.start r.start ∧
    l.Stands h.stop r.stop ∧ l.Stands h.target r.target ∧ r.kind = h.kind) m.handlers l.handlers

/-- **The class as it runs is a class file.** -/
structure LinkedClass.Links (l : LinkedClass) (c : ClassFile) : Prop where
  name : l.name = c.name
  sourceFile : l.sourceFile = c.sourceFile
  methods : List.Forall₂ LinkedMethod.Links l.methods c.methods

theorem LinkedMethod.links_ofMethod {mode : Verifier.Mode} {m : Method} (h : Verifier.Verified mode m) :
    (ofMethod m).Links m where
  method := rfl
  code := rfl
  labels _ _ := place?_ofMethod h.nodup
  handlers := h.handlers_stand

theorem LinkedClass.links_ofClassFile {mode : Verifier.Mode} {c : ClassFile}
    (h : Verifier.check mode c = .ok ()) : (ofClassFile c).Links c where
  name := rfl
  sourceFile := rfl
  methods := List.forall₂_map_left_iff.2 (List.forall₂_same.2 fun m hm =>
    LinkedMethod.links_ofMethod ((Verifier.check_eq_ok_iff.1 h).2 m hm))

/-! ### Class files without hooks -/

def Method.withoutHooks (m : Method) : Method := { m with code := Confine.withoutHooks m.code }

def ClassFile.withoutHooks (c : ClassFile) : ClassFile :=
  { c with methods := c.methods.map Method.withoutHooks }

def ClassFile.HasNoHooks (c : ClassFile) : Prop := ∀ m ∈ c.methods, ∀ i ∈ m.code, i.isHook = false

theorem ClassFile.hasNoHooks_of_check {c : ClassFile} (h : Verifier.check .submitted c = .ok ()) :
    c.HasNoHooks := fun m hm _ hi => ((Verifier.check_eq_ok_iff.1 h).2 m hm).not_isHook hi

theorem ClassFile.HasNoHooks.withoutHooks_eq {c : ClassFile} (h : c.HasNoHooks) : c.withoutHooks = c := by
  have hmethods : c.methods.map Method.withoutHooks = c.methods := by
    refine (List.map_congr_left fun m hm => ?_).trans (List.map_id _)
    have hcode : Confine.withoutHooks m.code = m.code :=
      List.filter_eq_self.2 fun i hi => by rw [h m hm i hi]; rfl
    rw [Method.withoutHooks, hcode]
    rfl
  rw [ClassFile.withoutHooks, hmethods]

theorem Method.Weaves.withoutHooks_eq {m m' : Method} (h : m.Weaves m') :
    m'.withoutHooks = m.withoutHooks := by
  rw [Method.withoutHooks, h.code, h.same]
  rfl

theorem ClassFile.Changed.withoutHooks_eq {c c' : ClassFile} (h : c.Changed Method.Weaves c') :
    c'.withoutHooks = c.withoutHooks := by
  have hmethods : c.methods.map Method.withoutHooks = c'.methods.map Method.withoutHooks := by
    rw [← List.forall₂_eq_eq_eq, List.forall₂_map_left_iff, List.forall₂_map_right_iff]
    exact h.methods.imp fun m m' hm => hm.withoutHooks_eq.symm
  rw [ClassFile.withoutHooks, ClassFile.withoutHooks, hmethods, h.name, h.sourceFile]

/-! ### Classes of a unit -/

/-- A layer hands out, for a class, the text of a class file of that name, which passes the checks. -/
structure Layer.HandsOut (l : Layer) (name text : String) (c : ClassFile) : Prop where
  file : l.file? name = some text
  decoded : ClassFile.decodeBytes? text.toUTF8 = some c
  name_eq : c.name = name
  checked : Verifier.check .instrumented c = .ok ()

namespace LoadingUnit

/-- **What was handed in for a class, what a unit hands out for it, and what it loads.** -/
structure Exposes (u : LoadingUnit) (name : String) (bytes : ByteArray) (text : String)
    (c c' : ClassFile) : Prop where
  submitted : ClassFile.decodeBytes? bytes = some c
  handsOut : u.own.HandsOut name text c'
  /-- every task on the unit gets the class that is handed out -/
  loaded : ∀ {t : Task}, t.unit = u → ∀ s : TaskState, ∃ l s', s.load t name = (.ok l, s') ∧ l.Links c'
  /-- without hooks it is the class that was handed in, which has none -/
  withoutHooks : c'.withoutHooks = c
  hasNoHooks : c.HasNoHooks

/-- **What is handed out is what runs**, in a unit that is built from a program. -/
structure RunsWhatItHandsOut (u : LoadingUnit) (program : Compiled) : Prop where
  /-- the classes of the unit are those of the program -/
  defined : u.own.definedClasses = program.classes.map (·.1)
  classes : ∀ name ∈ u.own.definedClasses, ∃ bytes text c c',
    program.bytes? name = some bytes ∧ u.Exposes name bytes text c c'
  /-- a path leads to the text of a class of the unit, or to nothing -/
  paths : ∀ path text, u.classFile? path = some text →
    ∃ name ∈ u.own.definedClasses, u.own.file? name = some text
  /-- what a frame runs is handed out, under the name of its class, by the layer that this class is taken from -/
  frames : ∀ {t : Task}, t.unit = u → ∀ {a : Activity}, t.Reaches a → ∀ f ∈ a.frames,
    ∃ k d l text c, FoundAt f.className u.layers k d ∧ u.layers[k]? = some l ∧
      l.HandsOut f.className text c ∧ ∃ m ∈ c.methods, f.method.Links m

end LoadingUnit

/-! ### Names -/

namespace Instrumentation

variable {origin : Origin} {c c' : ClassFile}

/-- No tracer gives a class another name. -/
theorem name_instrument {i i' : Instrumentation} (h : i.instrument origin c = .ok (c', i')) :
    c'.name = c.name := by
  cases i with
  | lineTrace i =>
    cases h
    exact (changed_lineTrace i origin c).name
  | methodTrace i =>
    cases h
    exact (changed_methodTrace i origin c).name
  | probe a active =>
    cases hprobe : Probe.instrument a origin c with
    | error e =>
      rw [instrument, hprobe] at h
      cases h
    | ok d =>
      rw [instrument, hprobe] at h
      cases h
      unfold Probe.instrument at hprobe
      split at hprobe
      · cases hprobe
        rfl
      · split at hprobe
        · cases hprobe
        · cases hprobe
          rfl

theorem name_instrumentAll {is is' : List Instrumentation}
    (h : instrumentAll origin c is = .ok (c', is')) : c'.name = c.name := by
  induction is generalizing c is' with
  | nil =>
    cases h
    rfl
  | cons i rest ih =>
    obtain ⟨_, _, _, hi, hrest, -⟩ := instrumentAll_cons_eq_ok_iff.1 h
    exact (ih hrest).trans (name_instrument hi)

end Instrumentation

namespace LoadingUnit

theorem Defines.handsOut {origin : Origin} {is is' : List Instrumentation} {name : String}
    {bytes : ByteArray} {c c' : ClassFile} (h : Defines origin is is' name bytes c c') {l : Layer}
    (hd : getNamed? name l.classes = some (definedClass c')) : l.HandsOut name c'.encode c' where
  file := by rw [Layer.file?, hd]; rfl
  decoded := ClassFile.decodeBytes?_encode c'
  name_eq := (Instrumentation.name_instrumentAll h.instrumented).trans h.name_eq
  checked := h.checked

/-! ### Building -/

/-- The class of a name is made of these bytes, and hooks are put in. -/
def Woven (name : String) (bytes : ByteArray) (d : DefinedClass) : Prop :=
  ∃ origin is is' c c', Defines origin is is' name bytes c c' ∧ c.Changed Method.Weaves c' ∧
    d = definedClass c'

/-- The two tracers put hooks into a class, and do nothing else. -/
theorem woven_of_define {origin : Origin} {name : String} {bytes : ByteArray} {d : DefinedClass}
    {line : Option LineTrace.Instrumentation} {method : Option MethodTrace.Instrumentation}
    {is : List Instrumentation}
    (h : define origin (Instrumentation.traces line method) name bytes = .ok (d, is)) :
    Woven name bytes d ∧ ∃ line' method', is = Instrumentation.traces line' method' := by
  obtain ⟨c, c', hdefines, rfl⟩ := define_eq_ok_iff.1 h
  obtain ⟨c₁, line', method', hinstrumented, -, htraced⟩ :=
    Instrumentation.instrumentAll_traces origin c line method
  have heq := hinstrumented.symm.trans hdefines.instrumented
  simp only [Except.ok.injEq, Prod.mk.injEq] at heq
  obtain ⟨rfl, rfl⟩ := heq
  exact ⟨⟨_, _, _, c, c₁, hdefines, htraced.mono fun _ _ hm => hm.weaves, rfl⟩, line', method', rfl⟩

/-- So they do with the classes of a program, one by one. -/
theorem woven_of_defineAll {origin : Origin} {l : List (String × ByteArray)}
    {done classes : List (String × DefinedClass)} {line : Option LineTrace.Instrumentation}
    {method : Option MethodTrace.Instrumentation} {is : List Instrumentation}
    (h : defineAll origin (Instrumentation.traces line method) done l = .ok (classes, is)) :
    ∃ defined, classes = done.reverse ++ defined ∧
      List.Forall₂ (fun e e' => e'.1 = e.1 ∧ Woven e.1 e.2 e'.2) l defined := by
  -- whatever the tracers have numbered so far, they remain the two of them
  induction l generalizing done line method with
  | nil =>
    simp only [defineAll, Except.ok.injEq, Prod.mk.injEq] at h
    exact ⟨[], by rw [h.1, List.append_nil], .nil⟩
  | cons e rest ih =>
    obtain ⟨d, is₁, he, hrest⟩ := defineAll_cons_eq_ok_iff.1 h
    obtain ⟨hwoven, line', method', rfl⟩ := woven_of_define he
    obtain ⟨defined, rfl, hdefined⟩ := ih hrest
    refine ⟨(e.1, d) :: defined, ?_, .cons ⟨rfl, hwoven⟩ hdefined⟩
    rw [List.reverse_cons, List.append_assoc]
    rfl

theorem exists_getNamed? {α : Type} {name : String} {l : List (String × α)} (h : name ∈ l.map (·.1)) :
    ∃ a, getNamed? name l = some a := by
  obtain ⟨e, he, rfl⟩ := List.mem_map.1 h
  have hfind : (l.find? (·.1 == e.1)).isSome = true := List.find?_isSome.2 ⟨e, he, beq_self_eq_true e.1⟩
  obtain ⟨e', he'⟩ := Option.isSome_iff_exists.1 hfind
  exact ⟨e'.2, by rw [getNamed?, he']; rfl⟩

/-- What the class of a name comes to in a unit. -/
theorem Woven.exposes {u : LoadingUnit} {name : String} {bytes : ByteArray} {d : DefinedClass}
    (h : Woven name bytes d) (hd : getNamed? name u.own.classes = some d) :
    ∃ text c c', u.Exposes name bytes text c c' := by
  obtain ⟨origin, is, is', c, c', hdefines, hchanged, rfl⟩ := h
  have hnone := ClassFile.hasNoHooks_of_check hdefines.submitted
  refine ⟨c'.encode, c, c', {
    submitted := hdefines.decoded
    handsOut := hdefines.handsOut hd
    loaded := ?_
    withoutHooks := hchanged.withoutHooks_eq.trans hnone.withoutHooks_eq
    hasNoHooks := hnone }⟩
  rintro t rfl s
  have hown : t.unit.own.class? name = some (.ofClassFile c') := by rw [Layer.class?, hd]; rfl
  have hfind : t.unit.findClass name = some (.ofClassFile c') := by
    rw [findClass, layers, findIn, hown]
  obtain ⟨s', hload⟩ := exists_load_of_findClass hfind s
  exact ⟨_, s', hload, LinkedClass.links_ofClassFile hdefines.checked⟩

/-- **Whatever a thread runs is handed out**, under the name of its class. -/
theorem Built.frames_handedOut {t : Task} (hu : t.unit.Built) {a : Activity} (h : t.Reaches a) :
    ∀ f ∈ a.frames, ∃ k d l text c, FoundAt f.className t.unit.layers k d ∧
      t.unit.layers[k]? = some l ∧ l.HandsOut f.className text c ∧
        ∃ m ∈ c.methods, f.method.Links m := by
  intro f hf
  obtain ⟨name, d, hfind, hname, hm⟩ := h.found hu f hf
  obtain ⟨k, hk⟩ := findIn_eq_some_iff.1 hfind
  obtain ⟨l, hl, hclass⟩ := hk.defined
  obtain ⟨e, he, rfl⟩ := Option.map_eq_some_iff.1 hclass
  obtain ⟨origin, is, is', bytes, c, c', hdefines, rfl⟩ :=
    hu.made l (List.mem_of_getElem? hl) _ (getNamed?_mem he)
  have hhands := hdefines.handsOut he
  obtain rfl : name = f.className := hhands.name_eq.symm.trans hname
  obtain ⟨m, hmem, hlinked⟩ := List.mem_map.1 hm
  have hverified := (Verifier.check_eq_ok_iff.1 hdefines.checked).2 m hmem
  exact ⟨k, _, l, _, c', hk, hl, hhands, m, hmem, hlinked ▸ LinkedMethod.links_ofMethod hverified⟩

/-- **What is handed out is what runs.** A unit is built from code of any origin, with a legal choice of the two
tracers. -/
theorem handsOut_of_build {tracers : List Tracer} (htracers : ∀ t ∈ tracers, ∀ a, t ≠ .probe a)
    {p : Plan} (hr : Roster.empty.addAll tracers = .ok p.tracers)
    (hp : ∀ v, p.parent = some v → v.Built) {id : UnitId} {u : LoadingUnit} (h : build p id = .ok u) :
    u.RunsWhatItHandsOut p.program := by
  obtain ⟨line, method, htraces, -⟩ := (Roster.addAll_eq_ok_iff htracers).1 hr
  have hbuilt : u.Built := .build hp h
  obtain ⟨-, classes, is, hc, rfl⟩ := build_eq_ok_iff.1 h
  obtain ⟨line', method', hroster, -⟩ := Instrumentation.ofRoster_traces line method
  rw [htraces, hroster] at hc
  obtain ⟨defined, heq, hdefined⟩ := woven_of_defineAll hc
  obtain rfl : classes = defined := heq
  -- defined and submitted classes correspond one by one, and keep their names
  have hnames : classes.map (·.1) = p.program.classes.map (·.1) := by
    rw [← List.forall₂_eq_eq_eq, List.forall₂_map_left_iff, List.forall₂_map_right_iff]
    exact hdefined.flip.imp fun _ _ h => h.1
  refine ⟨hnames, fun name hname => ?_, fun path text htext => ?_, ?_⟩
  · -- what is handed out for a name of the program
    have hrel := getNamed?_rel hdefined name
    obtain ⟨d, hd⟩ := exists_getNamed? hname
    rw [show getNamed? name classes = some d from hd] at hrel
    cases hbytes : getNamed? name p.program.classes with
    | none =>
      rw [hbytes] at hrel
      cases hrel
    | some bytes =>
      rw [hbytes] at hrel
      cases hrel with
      | some hwoven =>
        obtain ⟨text, c, c', hexposes⟩ := hwoven.exposes hd
        exact ⟨bytes, text, c, c', hbytes, hexposes⟩
  · -- a file handed out is that of a defined class
    obtain ⟨name, -, hfile⟩ := Option.bind_eq_some_iff.1 htext
    obtain ⟨d, hd, -⟩ := Option.map_eq_some_iff.1 hfile
    exact ⟨name, List.mem_map.2 ⟨_, getNamed?_mem hd, rfl⟩, hfile⟩
  · -- the frames of a reachable activity
    rintro t ht a hreaches
    rw [← ht] at hbuilt ⊢
    exact hbuilt.frames_handedOut hreaches

end LoadingUnit

/-! ### The sample with both tracers -/

namespace Sample

open LoadingUnit

/-- The class of the sample with hooks, and the tracers that have put them in. -/
def traced : ClassFile × List Instrumentation :=
  match Instrumentation.instrumentAll .untrusted main
    (Instrumentation.ofRoster (.traces (some .default) (some .default))) with
  | .ok q => q
  | .error _ => default

def tracedUnit : LoadingUnit :=
  ⟨⟨⟨1⟩, "", .default, traced.2, [("Main", definedClass traced.1)]⟩, []⟩

theorem build_traced :
    build { plan with tracers := .traces (some .default) (some .default) } ⟨1⟩ = .ok tracedUnit := by
  have hd : define .untrusted (Instrumentation.ofRoster (.traces (some .default) (some .default)))
      "Main" bytes = .ok (definedClass traced.1, traced.2) :=
    define_eq_ok_iff.2 ⟨main, traced.1, ⟨decodeBytes?_bytes, rfl, rfl, rfl, by decide⟩, rfl⟩
  exact build_eq_ok_iff.2 ⟨rfl, _, _, defineAll_cons_eq_ok_iff.2 ⟨_, _, hd, rfl⟩, rfl⟩

end Sample

/-- The unit of the sample runs what it hands out, hooks with it. -/
theorem LoadingUnit.handsOut_of_build_sample :
    Sample.tracedUnit.RunsWhatItHandsOut Sample.plan.program ∧
      Sample.tracedUnit.own.definedClasses = ["Main"] ∧
        ∃ m ∈ Sample.traced.1.methods, ∃ i ∈ m.code, i.isHook = true := by
  refine ⟨?_, rfl, _, List.mem_cons_self, _, List.mem_cons_self, rfl⟩
  exact @handsOut_of_build [.lineTrace .default, .methodTrace .default] (by simp)
    { Sample.plan with tracers := .traces (some .default) (some .default) } rfl (fun _ h => by cases h)
    ⟨1⟩ Sample.tracedUnit Sample.build_traced

end Confine
