import Confine.Proofs.Loading.Built
import Confine.Proofs.Machine.Query
import Confine.Proofs.Tracing.Alignment

/-!
# Units with and without tracers

* `LoadingUnit.Counterpart u u'` — the units differ in hooks only: their classes have the same names and aligned
  methods (`LinkedClass.Aligned`), and they stand on the same units;
* `LoadingUnit.Counterpart.loadClass` — such units load, refuse and log alike;
* `LoadingUnit.counterpart_of_build` — what a plan makes without tracers and with them are such units.
-/

namespace Confine

/-! ### Classes -/

/-- **One class is another with more hooks.** -/
structure LinkedClass.Aligned (c c' : LinkedClass) : Prop where
  name : c'.name = c.name
  methods : List.Forall₂ (fun m m' => Nonempty (m.Alignment m')) c.methods c'.methods

namespace LinkedClass.Aligned

variable {c c' : LinkedClass}

theorem refl (c : LinkedClass) : c.Aligned c :=
  ⟨rfl, List.forall₂_same.2 fun m _ => ⟨.refl m⟩⟩

theorem method?_rel (h : c.Aligned c') (name : String) :
    Option.Rel (fun m m' => Nonempty (m.Alignment m')) (c.method? name) (c'.method? name) := by
  have hms := h.methods
  unfold method?
  generalize c.methods = l at hms
  generalize c'.methods = l' at hms
  induction hms with
  | nil => exact .none
  | @cons m m' _ _ hm _ ih =>
    obtain ⟨A⟩ := hm
    have hn : m'.method.name = m.method.name := by rw [A.method]
    rw [List.find?_cons, List.find?_cons, hn]
    split
    · exact .some ⟨A⟩
    · exact ih

/-- Calls of methods of the two classes fail alike, or make frames that shadow each other. -/
theorem forCall_agree (h : c.Aligned c') (name : String) (arguments : List Value)
    (want : Option Bool) :
    Agree Frame.Shadow (Frame.forCall c name arguments want)
      (Frame.forCall c' name arguments want) := by
  have hrel := h.method?_rel name
  unfold Frame.forCall
  generalize c.method? name = o at hrel
  generalize c'.method? name = o' at hrel
  rw [h.name]
  cases hrel with
  | none => exact .error _
  | @some m m' hm =>
    obtain ⟨A⟩ := hm
    have hmethod := A.method
    have hstatic : m'.method.isStatic = m.method.isStatic := by rw [hmethod]
    have hslots : m'.method.requiredSlots = m.method.requiredSlots := by rw [hmethod]; rfl
    have hlocals : Frame.localsFor m'.method arguments = Frame.localsFor m.method arguments := by
      rw [hmethod]
      rfl
    have hshown : m'.method.descriptor c.name = m.method.descriptor c.name := by
      rw [hmethod]
      rfl
    have branch : ∀ (b : Bool) (e : Exception) (g g' : Frame), g.Shadow g' →
        Agree Frame.Shadow (if b = true then .error e else .ok g)
          (if b = true then .error e else .ok g') := by
      intro b e g g' hg
      cases b with
      | true => exact .error e
      | false => exact .ok hg
    dsimp only
    rw [hstatic, hslots, hlocals, hshown]
    exact branch _ _ _ _ ⟨⟨rfl, rfl, rfl⟩, A, A.back_zero.symm⟩

end LinkedClass.Aligned

/-! ### Units -/

namespace LoadingUnit

/-- Two entries have the same name and aligned classes. -/
def AlignedEntry (e e' : String × DefinedClass) : Prop :=
  e'.1 = e.1 ∧ e.2.linked.Aligned e'.2.linked

/-- **One unit is another with more hooks.** -/
structure Counterpart (u u' : LoadingUnit) : Prop where
  id : u'.id = u.id
  policy : u'.own.policy = u.own.policy
  parents : u'.parents = u.parents
  classes : List.Forall₂ AlignedEntry u.own.classes u'.own.classes

namespace Counterpart

variable {u u' : LoadingUnit}

theorem defined_rel (h : u.Counterpart u') (name : String) :
    Option.Rel (fun d d' : DefinedClass => d.linked.Aligned d'.linked) (getNamed? name u.own.classes)
      (getNamed? name u'.own.classes) :=
  getNamed?_rel (R := fun _ (d d' : DefinedClass) => d.linked.Aligned d'.linked) h.classes name

theorem class?_rel (h : u.Counterpart u') (name : String) :
    Option.Rel LinkedClass.Aligned (u.own.class? name) (u'.own.class? name) := by
  have hrel := h.defined_rel name
  unfold Layer.class?
  generalize getNamed? name u.own.classes = o at hrel
  generalize getNamed? name u'.own.classes = o' at hrel
  cases hrel with
  | none => exact .none
  | some hd => exact .some hd

theorem classFile?_eq_none (h : u.Counterpart u') {path : String}
    (hp : u.classFile? path = none) : u'.classFile? path = none := by
  unfold classFile? at hp ⊢
  cases hc : classOfPath? path with
  | none => rfl
  | some name =>
    rw [hc] at hp
    have hrel := h.defined_rel name
    have hnone : getNamed? name u.own.classes = none := by
      simpa [Layer.file?, bind, Option.bind] using hp
    rw [hnone] at hrel
    generalize hn : getNamed? name u'.own.classes = o' at hrel
    cases hrel
    simp [Layer.file?, hn]

theorem refuses_eq (h : u.Counterpart u') (name : String) : u'.refuses name = u.refuses name := by
  have hrel := h.class?_rel name
  unfold refuses
  rw [h.policy]
  generalize u.own.class? name = o at hrel
  generalize u'.own.class? name = o' at hrel
  cases hrel <;> rfl

theorem loadIn_agree (h : u.Counterpart u') (name : String) (sets : List ClassSets) :
    Agree (fun p p' : LinkedClass × List ClassSets => p.1.Aligned p'.1 ∧ p'.2 = p.2)
      (loadIn name u.layers sets) (loadIn name u'.layers sets) := by
  have same : ∀ r : Except LoadFault (LinkedClass × List ClassSets),
      Agree (fun p p' => p.1.Aligned p'.1 ∧ p'.2 = p.2) r r := by
    intro r
    cases r with
    | ok p => exact .ok ⟨.refl _, rfl⟩
    | error e => exact .error e
  have hrel := h.class?_rel name
  unfold layers
  rw [loadIn, loadIn, h.policy, h.parents]
  generalize u.own.class? name = o at hrel
  generalize u'.own.class? name = o' at hrel
  cases hrel with
  | some hc => exact .ok ⟨hc, rfl⟩
  | none => exact same _

/-- The same names have classes, by whatever unit below. -/
theorem findClass_rel (h : u.Counterpart u') (name : String) :
    Option.Rel LinkedClass.Aligned (u.findClass name) (u'.findClass name) := by
  have same : ∀ o : Option LinkedClass, Option.Rel LinkedClass.Aligned o o := by
    intro o
    cases o with
    | none => exact .none
    | some c => exact .some (.refl c)
  have hrel := h.class?_rel name
  unfold findClass layers
  rw [findIn, findIn, h.policy, h.parents]
  generalize u.own.class? name = o at hrel
  generalize u'.own.class? name = o' at hrel
  cases hrel with
  | some hc => exact .some hc
  | none => exact same _

/-- **The units load classes alike**, and what they refuse is logged alike. -/
theorem loadClass (h : u.Counterpart u') (sets : List ClassSets) (name : String)
    (cap : Option Capability) (s : Confinements) :
    Agree (fun p p' : LinkedClass × List ClassSets => p.1.Aligned p'.1 ∧ p'.2 = p.2)
        (u.loadClass sets name cap s).1 (u'.loadClass sets name cap s).1 ∧
      (u'.loadClass sets name cap s).2 = (u.loadClass sets name cap s).2 := by
  unfold LoadingUnit.loadClass
  refine ⟨h.loadIn_agree name sets, ?_⟩
  simp only [h.refuses_eq]

end Counterpart

/-! ### Building -/

theorem aligned_ofClassFile {source : Option String} {c c' : ClassFile}
    (hc : Verifier.check .submitted c = .ok ()) (h : c.Changed (Method.Traced source) c') :
    (LinkedClass.ofClassFile c).Aligned (LinkedClass.ofClassFile c') := by
  have hv := (Verifier.check_eq_ok_iff.1 hc).2
  refine ⟨h.name, List.forall₂_map_left_iff.2 (List.forall₂_map_right_iff.2 ?_)⟩
  exact ((List.forall₂_and_left _ _).2 ⟨hv, h.methods⟩).imp fun m m' hm =>
    ⟨.ofWeaves hm.1 hm.2.weaves⟩

/-- Classes that are defined without tracers and with them have the same names and are aligned. -/
theorem forall₂_of_defineAll {origin : Origin} {l : List (String × ByteArray)}
    {done done' classes classes' : List (String × DefinedClass)} {is is' : List Instrumentation}
    {line : Option LineTrace.Instrumentation} {method : Option MethodTrace.Instrumentation}
    (h : defineAll origin [] done l = .ok (classes, is))
    (h' : defineAll origin (Instrumentation.traces line method) done' l = .ok (classes', is'))
    (hd : List.Forall₂ AlignedEntry done done') :
    List.Forall₂ AlignedEntry classes classes' ∧
      is = [] ∧ ∃ line' method', is' = Instrumentation.traces line' method' ∧
        line'.map (·.arguments) = line.map (·.arguments) := by
  induction l generalizing done done' line method with
  | nil =>
    simp only [defineAll, Except.ok.injEq, Prod.mk.injEq] at h h'
    obtain ⟨rfl, rfl⟩ := h
    obtain ⟨rfl, rfl⟩ := h'
    exact ⟨List.forall₂_reverse_iff.2 hd, rfl, line, method, rfl, rfl⟩
  | cons e rest ih =>
    obtain ⟨d, is₁, he, hrest⟩ := defineAll_cons_eq_ok_iff.1 h
    obtain ⟨d', is₁', he', hrest'⟩ := defineAll_cons_eq_ok_iff.1 h'
    obtain ⟨c, c₁, hc, rfl⟩ := define_eq_ok_iff.1 he
    obtain ⟨c', c₁', hc', rfl⟩ := define_eq_ok_iff.1 he'
    obtain rfl : c = c' := Option.some.inj (hc.decoded.symm.trans hc'.decoded)
    have hplain := hc.instrumented
    simp only [Instrumentation.instrumentAll, Except.ok.injEq, Prod.mk.injEq] at hplain
    obtain ⟨rfl, rfl⟩ := hplain
    obtain ⟨c₂, line₁, method₁, hi, ha, ht⟩ :=
      Instrumentation.instrumentAll_traces origin c line method
    have heq := hi.symm.trans hc'.instrumented
    simp only [Except.ok.injEq, Prod.mk.injEq] at heq
    obtain ⟨rfl, rfl⟩ := heq
    have hentry : AlignedEntry (e.1, definedClass c) (e.1, definedClass c₂) :=
      ⟨rfl, aligned_ofClassFile hc.submitted ht⟩
    rw [← ha]
    exact ih hrest hrest' (.cons hentry hd)

/-- **What a plan makes without tracers and with them differs in hooks only.** -/
theorem counterpart_of_build {p : Plan} {id : UnitId} {u u' : LoadingUnit}
    {line : Option LineTrace.Arguments} {method : Option MethodTrace.Arguments}
    (h : build { p with tracers := .empty } id = .ok u)
    (h' : build { p with tracers := .traces line method } id = .ok u') :
    u.Counterpart u' ∧ u.own.instrumentation = [] ∧
      ∃ line' method', u'.own.instrumentation = Instrumentation.traces line' method' ∧
        line'.map (·.arguments) = line := by
  obtain ⟨-, classes, is, hc, rfl⟩ := build_eq_ok_iff.1 h
  obtain ⟨-, classes', is', hc', rfl⟩ := build_eq_ok_iff.1 h'
  obtain ⟨line₀, method₀, hr, ha₀⟩ := Instrumentation.ofRoster_traces line method
  rw [hr] at hc'
  obtain ⟨hclasses, rfl, line', method', rfl, ha⟩ := forall₂_of_defineAll hc hc' .nil
  exact ⟨⟨rfl, rfl, rfl, hclasses⟩, rfl, line', method', rfl, ha.trans ha₀⟩

end LoadingUnit

end Confine
