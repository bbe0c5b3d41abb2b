import Confine.Proofs.Loading.Built
import Confine.Proofs.Machine.Query
import Confine.Proofs.Program.Codec
import Confine.Proofs.Tracing.RelabelledHooks

/-!
# Units under other labels

* `LoadingUnit.Relabels u u'` — the units have the same classes but for what labels are called: their methods jump
  to the same places and have the same handlers (`LinkedMethod.Relabels`);
* `LoadingUnit.Relabels.loadClass` — such units load, refuse and log alike;
* `LoadingUnit.build_agree` — programs that are the same up to their labels make such units, or fail with the same
  fault, whatever label it names.

What the units hand out as the text of a class is the one thing in which they do differ.
-/

namespace Confine

/-! ### Methods -/

/-- Control comes from a label of one method and from one of the other to the same place, or neither label stands
anywhere and they are the same. -/
structure LinkedMethod.Meet (m m' : LinkedMethod) (l l' : Label) : Prop where
  place : m'.place? l' = m.place? l
  unknown : m.place? l = none → l' = l

/-- Two instructions of two methods are the same, but for what their labels are called. -/
inductive Instruction.Meet (m m' : LinkedMethod) : Instruction → Instruction → Prop where
  | same (i : Instruction) (h : i.jumpTarget? = none) : Meet m m' i i
  | label (l l' : Label) : Meet m m' (.label l) (.label l')
  | lineNumber (n : UInt32) (l l' : Label) : Meet m m' (.lineNumber n l) (.lineNumber n l')
  | jump {l l' : Label} (h : m.Meet m' l l') : Meet m m' (.jump l) (.jump l')
  | jumpIf {l l' : Label} (h : m.Meet m' l l') : Meet m m' (.jumpIf l) (.jumpIf l')
  | jumpIfNot {l l' : Label} (h : m.Meet m' l l') : Meet m m' (.jumpIfNot l) (.jumpIfNot l')

theorem LinkedMethod.Meet.symm {m m' : LinkedMethod} {l l' : Label} (h : m.Meet m' l l') : m'.Meet m l' l :=
  ⟨h.place.symm, fun hnone => (h.unknown (h.place.symm.trans hnone)).symm⟩

theorem Instruction.Meet.symm {m m' : LinkedMethod} {i i' : Instruction} (h : i.Meet m m' i') : i'.Meet m' m i := by
  cases h with
  | same i h => exact .same i h
  | label l l' => exact .label l' l
  | lineNumber n l l' => exact .lineNumber n l' l
  | jump h => exact .jump h.symm
  | jumpIf h => exact .jumpIf h.symm
  | jumpIfNot h => exact .jumpIfNot h.symm

namespace LinkedMethod

/-- **One method is another under other labels**, as they run. -/
structure Relabels (m m' : LinkedMethod) : Prop where
  method : m'.method = { m.method with code := m'.method.code, handlers := m'.method.handlers }
  code : List.Forall₂ (Instruction.Meet m m') m.code.toList m'.code.toList
  handlers : m'.handlers = m.handlers

theorem Relabels.refl (m : LinkedMethod) : m.Relabels m where
  method := rfl
  code := List.forall₂_same.2 fun i _ => by
    have hsame (l : Label) : m.Meet m l l := ⟨rfl, fun _ => rfl⟩
    cases i with
    | jump l => exact .jump (hsame l)
    | jumpIf l => exact .jumpIf (hsame l)
    | jumpIfNot l => exact .jumpIfNot (hsame l)
    | _ => exact .same _ rfl
  handlers := rfl

theorem Relabels.symm {m m' : LinkedMethod} (h : m.Relabels m') : m'.Relabels m where
  method := by rw [h.method]
  code := h.code.flip.imp fun _ _ => Instruction.Meet.symm
  handlers := h.handlers.symm

/-- A method whose jumps go to labels that stand in it runs the same under other labels. -/
theorem relabels_relabel {σ : Label → Label} (hσ : Function.Injective σ) {m : Method}
    (hm : ∀ l ∈ m.jumpTargets, (ofMethod m).place? l ≠ none) :
    (ofMethod m).Relabels (ofMethod (m.relabel σ)) where
  method := rfl
  code := by
    refine List.forall₂_map_right_iff.2 (List.forall₂_same.2 fun i hi => ?_)
    have hmeet {l : Label} (hl : i.jumpTarget? = some l) :
        (ofMethod m).Meet (ofMethod (m.relabel σ)) l (σ l) :=
      ⟨place?_relabel hσ m l, fun hnone => absurd hnone (hm l (List.mem_filterMap.2 ⟨i, hi, hl⟩))⟩
    cases i with
    | label l => exact .label l (σ l)
    | lineNumber n l => exact .lineNumber n l (σ l)
    | jump l => exact .jump (hmeet rfl)
    | jumpIf l => exact .jumpIf (hmeet rfl)
    | jumpIfNot l => exact .jumpIfNot (hmeet rfl)
    | _ => exact .same _ rfl
  handlers := handlers_relabel hσ m

end LinkedMethod

/-! ### Classes -/

/-- **One class is another under other labels**, as they run. -/
structure LinkedClass.Relabels (c c' : LinkedClass) : Prop where
  name : c'.name = c.name
  sourceFile : c'.sourceFile = c.sourceFile
  methods : List.Forall₂ LinkedMethod.Relabels c.methods c'.methods

namespace LinkedClass

theorem Relabels.refl (c : LinkedClass) : c.Relabels c :=
  ⟨rfl, rfl, List.forall₂_same.2 fun m _ => .refl m⟩

theorem Relabels.symm {c c' : LinkedClass} (h : c.Relabels c') : c'.Relabels c :=
  ⟨h.name.symm, h.sourceFile.symm, h.methods.flip.imp fun _ _ => LinkedMethod.Relabels.symm⟩

/-- **A class that has passed the checks** runs the same under other labels. -/
theorem relabels_relabel {σ : Nat → Label → Label} (hσ : ∀ i, Function.Injective (σ i)) {mode : Verifier.Mode}
    {c : ClassFile} (hc : Verifier.check mode c = .ok ()) :
    (ofClassFile c).Relabels (ofClassFile (c.relabel σ)) := by
  have hverified := (Verifier.check_eq_ok_iff.1 hc).2
  refine ⟨rfl, rfl, ?_⟩
  show List.Forall₂ _ (c.methods.map LinkedMethod.ofMethod) ((Method.relabelAll σ c.methods).map LinkedMethod.ofMethod)
  generalize c.methods = ms at hverified
  induction ms generalizing σ with
  | nil => exact .nil
  | cons m ms ih =>
    have hm : (LinkedMethod.ofMethod m).Relabels (LinkedMethod.ofMethod (m.relabel (σ 0))) := by
      refine LinkedMethod.relabels_relabel (hσ 0) fun l hl => ?_
      obtain ⟨i, hi, hil⟩ := List.mem_filterMap.1 hl
      obtain ⟨n, hn, -⟩ := (hverified m (.head _)).exists_place (Verifier.jumpTarget_mem_referenced hi hil)
      simp [hn]
    rw [Method.relabelAll_cons]
    exact .cons hm (ih (fun i => hσ (i + 1)) fun m hm => hverified m (.tail _ hm))

theorem Relabels.method?_rel {c c' : LinkedClass} (h : c.Relabels c') (name : String) :
    Option.Rel LinkedMethod.Relabels (c.method? name) (c'.method? name) := by
  have hms := h.methods
  unfold method?
  generalize c.methods = l at hms
  generalize c'.methods = l' at hms
  induction hms with
  | nil => exact .none
  | @cons m m' _ _ hm _ ih =>
    have hname : m'.method.name = m.method.name := by rw [hm.method]
    rw [List.find?_cons, List.find?_cons, hname]
    split
    · exact .some hm
    · exact ih

end LinkedClass

/-! ### Units -/

/-- **One layer is another under other labels.** -/
structure Layer.Relabels (l l' : Layer) : Prop where
  id : l'.id = l.id
  policy : l'.policy = l.policy
  instrumentation : l'.instrumentation = l.instrumentation
  classes : List.Forall₂ (fun e e' : String × DefinedClass => e'.1 = e.1 ∧ e.2.linked.Relabels e'.2.linked)
    l.classes l'.classes

namespace Layer.Relabels

variable {l l' : Layer}

theorem symm (h : l.Relabels l') : l'.Relabels l :=
  ⟨h.id.symm, h.policy.symm, h.instrumentation.symm, h.classes.flip.imp fun _ _ he => ⟨he.1.symm, he.2.symm⟩⟩

theorem defined_rel (h : l.Relabels l') (name : String) :
    Option.Rel (fun d d' : DefinedClass => d.linked.Relabels d'.linked) (getNamed? name l.classes)
      (getNamed? name l'.classes) :=
  LoadingUnit.getNamed?_rel (R := fun _ (d d' : DefinedClass) => d.linked.Relabels d'.linked) h.classes name

theorem class?_rel (h : l.Relabels l') (name : String) :
    Option.Rel LinkedClass.Relabels (l.class? name) (l'.class? name) := by
  have hrel := h.defined_rel name
  unfold Layer.class?
  generalize getNamed? name l.classes = o at hrel
  generalize getNamed? name l'.classes = o' at hrel
  cases hrel with
  | none => exact .none
  | some hd => exact .some hd

theorem definedClasses_eq (h : l.Relabels l') : l'.definedClasses = l.definedClasses := by
  have hclasses := h.classes
  unfold Layer.definedClasses
  generalize l.classes = es at hclasses
  generalize l'.classes = es' at hclasses
  induction hclasses with
  | nil => rfl
  | cons he _ ih => rw [List.map_cons, List.map_cons, he.1, ih]

theorem file?_eq_none (h : l.Relabels l') {name : String} (hname : l.file? name = none) : l'.file? name = none := by
  have hrel := h.defined_rel name
  unfold Layer.file? at hname ⊢
  rw [Option.map_eq_none_iff] at hname ⊢
  rw [hname] at hrel
  generalize getNamed? name l'.classes = o' at hrel
  cases hrel
  rfl

end Layer.Relabels

namespace LoadingUnit

/-- **One unit is another under other labels.** -/
structure Relabels (u u' : LoadingUnit) : Prop where
  own : u.own.Relabels u'.own
  parents : List.Forall₂ Layer.Relabels u.parents u'.parents

theorem Relabels.refl (u : LoadingUnit) : u.Relabels u := by
  have hlayer (l : Layer) : l.Relabels l := ⟨rfl, rfl, rfl, List.forall₂_same.2 fun e _ => ⟨rfl, .refl _⟩⟩
  exact ⟨hlayer _, List.forall₂_same.2 fun l _ => hlayer l⟩

namespace Relabels

variable {u u' : LoadingUnit}

theorem symm (h : u.Relabels u') : u'.Relabels u :=
  ⟨h.own.symm, h.parents.flip.imp fun _ _ => Layer.Relabels.symm⟩

theorem layers (h : u.Relabels u') : List.Forall₂ Layer.Relabels u.layers u'.layers := .cons h.own h.parents

theorem findIn_rel {ls ls' : List Layer} (h : List.Forall₂ Layer.Relabels ls ls') (name : String) :
    Option.Rel LinkedClass.Relabels (findIn name ls) (findIn name ls') := by
  induction h with
  | nil => exact .none
  | @cons l l' _ _ hl _ ih =>
    have hrel := hl.class?_rel name
    rw [findIn, findIn, hl.policy]
    generalize l.class? name = o at hrel
    generalize l'.class? name = o' at hrel
    cases hrel with
    | some hc => exact .some hc
    | none =>
      dsimp only
      split
      · exact ih
      · exact .none

theorem loadIn_agree {ls ls' : List Layer} (h : List.Forall₂ Layer.Relabels ls ls') (name : String)
    (sets : List ClassSets) :
    Agree (fun p p' : LinkedClass × List ClassSets => p.1.Relabels p'.1 ∧ p'.2 = p.2) (loadIn name ls sets)
      (loadIn name ls' sets) := by
  induction h generalizing sets with
  | nil => exact .error _
  | @cons l l' ls ls' hl _ ih =>
    have hrel := hl.class?_rel name
    rw [loadIn, loadIn, hl.policy]
    generalize l.class? name = o at hrel
    generalize l'.class? name = o' at hrel
    cases hrel with
    | some hc => exact .ok ⟨hc, rfl⟩
    | none =>
      have hrest := ih sets.tail
      generalize loadIn name ls sets.tail = x at hrest
      generalize loadIn name ls' sets.tail = y at hrest
      dsimp only
      split
      · cases hrest with
        | error e => exact .error e
        | ok hp => exact .ok ⟨hp.1, by rw [hp.2]⟩
      · exact .error _

theorem refuses_eq (h : u.Relabels u') (name : String) : u'.refuses name = u.refuses name := by
  have hrel := h.own.class?_rel name
  unfold refuses
  rw [h.own.policy]
  generalize u.own.class? name = o at hrel
  generalize u'.own.class? name = o' at hrel
  cases hrel <;> rfl

/-- **The units load classes alike**, and what they refuse is logged alike. -/
theorem loadClass (h : u.Relabels u') (sets : List ClassSets) (name : String) (cap : Option Capability)
    (s : Confinements) :
    Agree (fun p p' : LinkedClass × List ClassSets => p.1.Relabels p'.1 ∧ p'.2 = p.2)
        (u.loadClass sets name cap s).1 (u'.loadClass sets name cap s).1 ∧
      (u'.loadClass sets name cap s).2 = (u.loadClass sets name cap s).2 := by
  unfold LoadingUnit.loadClass
  refine ⟨loadIn_agree h.layers name sets, ?_⟩
  simp only [h.refuses_eq]

theorem classFile?_eq_none (h : u.Relabels u') {path : String} (hp : u.classFile? path = none) :
    u'.classFile? path = none := by
  unfold classFile? at hp ⊢
  cases hc : classOfPath? path with
  | none => rfl
  | some name =>
    rw [hc] at hp
    exact h.own.file?_eq_none hp

end Relabels

end LoadingUnit

/-! ### Programs -/

/-- **One program is another under other labels**: the same names stand for classes that are the same up to their
labels, or that are both not readable. The source may be any. -/
def Compiled.Relabels (p p' : Compiled) : Prop :=
  List.Forall₂ (fun e e' : String × ByteArray => e'.1 = e.1 ∧
    Option.Rel ClassFile.Relabels (ClassFile.decodeBytes? e.2) (ClassFile.decodeBytes? e'.2)) p.classes p'.classes

theorem forall₂_putNamed {α β : Type} {R : α → β → Prop} {l : List (String × α)} {l' : List (String × β)}
    (h : List.Forall₂ (fun e e' => e'.1 = e.1 ∧ R e.2 e'.2) l l') (name : String) {a : α} {b : β} (hab : R a b) :
    List.Forall₂ (fun e e' => e'.1 = e.1 ∧ R e.2 e'.2) (putNamed name a l) (putNamed name b l') := by
  induction h with
  | nil => exact .cons ⟨rfl, hab⟩ .nil
  | cons he h ih =>
    rw [putNamed, putNamed, he.1]
    split
    · exact .cons ⟨rfl, hab⟩ (.cons he h)
    · split
      · exact .cons ⟨rfl, hab⟩ h
      · exact .cons he ih

/-- Classes that are the same up to their labels make such programs. -/
theorem Compiled.relabels_ofClasses {cs cs' : List ClassFile} (h : List.Forall₂ ClassFile.Relabels cs cs')
    (source source' : String) : (ofClasses cs source).Relabels (ofClasses cs' source') := by
  suffices ∀ {l l' : List (String × ByteArray)}, List.Forall₂ (fun e e' => e'.1 = e.1 ∧
      Option.Rel ClassFile.Relabels (ClassFile.decodeBytes? e.2) (ClassFile.decodeBytes? e'.2)) l l' →
      List.Forall₂ (fun e e' => e'.1 = e.1 ∧
        Option.Rel ClassFile.Relabels (ClassFile.decodeBytes? e.2) (ClassFile.decodeBytes? e'.2))
        ((cs.map fun c => (c.name, c.encode.toUTF8)).foldl (fun l c => putNamed c.1 c.2 l) l)
        ((cs'.map fun c => (c.name, c.encode.toUTF8)).foldl (fun l c => putNamed c.1 c.2 l) l') from
    this .nil
  induction h with
  | nil => exact fun hl => hl
  | @cons c c' _ _ hc _ ih =>
    intro l l' hl
    have hdecoded : Option.Rel ClassFile.Relabels (ClassFile.decodeBytes? c.encode.toUTF8)
        (ClassFile.decodeBytes? c'.encode.toUTF8) := by
      rw [ClassFile.decodeBytes?_encode, ClassFile.decodeBytes?_encode]
      exact .some hc
    rw [List.map_cons, List.map_cons, List.foldl_cons, List.foldl_cons, hc.name]
    exact ih (forall₂_putNamed (R := fun b b' : ByteArray =>
      Option.Rel ClassFile.Relabels (ClassFile.decodeBytes? b) (ClassFile.decodeBytes? b')) hl c.name hdecoded)

/-! ### Building -/

def LoadFault.unlabelled : LoadFault → LoadFault
  | verify fault => verify fault.unlabelled
  | fault => fault

/-- Computations agree up to what a function drops of their errors if their parts do. -/
theorem Agree.bind_mapError {ε δ α β α' β' : Type} {f : ε → δ} {R : α → α' → Prop} {S : β → β' → Prop}
    {x : Except ε α} {x' : Except ε α'} {k : α → Except ε β} {k' : α' → Except ε β'}
    (hx : Agree R (x.mapError f) (x'.mapError f))
    (hk : ∀ a a', R a a' → Agree S ((k a).mapError f) ((k' a').mapError f)) :
    Agree S ((x >>= k).mapError f) ((x' >>= k').mapError f) := by
  cases x with
  | ok a =>
    cases x' with
    | ok a' =>
      cases hx with
      | ok ha => exact hk a a' ha
    | error e => cases hx
  | error e =>
    cases x' with
    | ok a => cases hx
    | error e' =>
      change Agree R (.error (f e)) (.error (f e')) at hx
      change Agree S (.error (f e)) (.error (f e'))
      generalize f e = d at hx
      generalize f e' = d' at hx
      cases hx
      exact .error d

theorem LoadFault.check_agree {σ : Nat → Label → Label} (hσ : ∀ i, Function.Injective (σ i)) (mode : Verifier.Mode)
    (c : ClassFile) : Agree (fun _ _ => Verifier.check mode c = .ok ())
      (((Verifier.check mode c).mapError verify).mapError unlabelled)
      (((Verifier.check mode (c.relabel σ)).mapError verify).mapError unlabelled) := by
  have hswap (r : Except VerifyFault Unit) : (r.mapError verify).mapError unlabelled =
      (r.mapError VerifyFault.unlabelled).mapError verify := by cases r <;> rfl
  rw [hswap, hswap, Verifier.check_relabel hσ]
  cases Verifier.check mode c with
  | ok _ => exact .ok rfl
  | error fault => exact .error _

theorem LoadFault.instrumentAll_agree {σ : Nat → Label → Label} (hσ : ∀ i, Function.Injective (σ i))
    {is : List Instrumentation} (his : ∀ i ∈ is, i.Unlabelled) (origin : Origin) (c : ClassFile) :
    Agree (fun p p' => Instrumentation.instrumentAll origin c is = .ok p ∧ p' = (p.1.relabel σ, p.2))
      (((Instrumentation.instrumentAll origin c is).mapError tracer).mapError unlabelled)
      (((Instrumentation.instrumentAll origin (c.relabel σ) is).mapError tracer).mapError unlabelled) := by
  rw [Instrumentation.instrumentAll_relabel hσ his]
  cases Instrumentation.instrumentAll origin c is with
  | ok p => exact .ok ⟨rfl, rfl⟩
  | error fault => exact .error _

namespace LoadingUnit

abbrev EntryRelabels (e e' : String × DefinedClass) : Prop := e'.1 = e.1 ∧ e.2.linked.Relabels e'.2.linked

/-- Classes that are the same up to their labels are defined alike. -/
theorem define_agree {is : List Instrumentation} (his : ∀ i ∈ is, i.Unlabelled) (origin : Origin) (name : String)
    {bytes bytes' : ByteArray}
    (h : Option.Rel ClassFile.Relabels (ClassFile.decodeBytes? bytes) (ClassFile.decodeBytes? bytes')) :
    Agree (fun p p' => p.1.linked.Relabels p'.1.linked ∧ p'.2 = p.2 ∧ ∀ i ∈ p.2, i.Unlabelled)
      ((define origin is name bytes).mapError LoadFault.unlabelled)
      ((define origin is name bytes').mapError LoadFault.unlabelled) := by
  unfold define
  generalize ClassFile.decodeBytes? bytes = o at h
  generalize ClassFile.decodeBytes? bytes' = o' at h
  cases h with
  | none => exact .error _
  | @some c c' hc =>
    obtain ⟨ρ, hρ, rfl⟩ := ClassFile.relabels_iff_exists_relabel.1 hc
    obtain ⟨σ, hσ, -, heq⟩ := hρ.exists_injective
    rw [← heq]
    change Agree _ (Except.mapError _ (if c.name != name then _ else _))
      (Except.mapError _ (if c.name != name then _ else _))
    split
    · exact .error _
    · refine Agree.bind_mapError (LoadFault.check_agree hσ .submitted c) fun _ _ _ => ?_
      refine Agree.bind_mapError (LoadFault.instrumentAll_agree hσ his origin c) ?_
      rintro ⟨c₁, is₁⟩ _ ⟨hall, rfl⟩
      refine Agree.bind_mapError (LoadFault.check_agree hσ .instrumented c₁) fun _ _ hchecked => ?_
      exact .ok ⟨LinkedClass.relabels_relabel hσ hchecked, rfl, Instrumentation.unlabelled_instrumentAll hall his⟩

theorem defineAll_cons (origin : Origin) (is : List Instrumentation) (done : List (String × DefinedClass))
    (e : String × ByteArray) (l : List (String × ByteArray)) : defineAll origin is done (e :: l) =
      define origin is e.1 e.2 >>= fun p => defineAll origin p.2 ((e.1, p.1) :: done) l := by
  obtain ⟨name, bytes⟩ := e
  rw [defineAll]
  cases define origin is name bytes <;> rfl

theorem defineAll_agree {is : List Instrumentation} (his : ∀ i ∈ is, i.Unlabelled) (origin : Origin)
    {done done' : List (String × DefinedClass)} (hdone : List.Forall₂ EntryRelabels done done')
    {l l' : List (String × ByteArray)} (h : List.Forall₂ (fun e e' : String × ByteArray => e'.1 = e.1 ∧
      Option.Rel ClassFile.Relabels (ClassFile.decodeBytes? e.2) (ClassFile.decodeBytes? e'.2)) l l') :
    Agree (fun p p' => List.Forall₂ EntryRelabels p.1 p'.1 ∧ p'.2 = p.2)
      ((defineAll origin is done l).mapError LoadFault.unlabelled)
      ((defineAll origin is done' l').mapError LoadFault.unlabelled) := by
  induction h generalizing is done done' with
  | nil => exact .ok ⟨List.rel_reverse hdone, rfl⟩
  | @cons e e' _ _ he _ ih =>
    rw [defineAll_cons, defineAll_cons, he.1]
    refine Agree.bind_mapError (define_agree his origin e.1 he.2) fun p p' hp => ?_
    rw [hp.2.1]
    exact ih hp.2.2 (.cons ⟨rfl, hp.1⟩ hdone)

/-- **Programs that are the same up to their labels make the same units up to their labels**, or fail with the same
fault, whatever label it names. -/
theorem build_agree {p : Plan} (htracers : ∀ a ∈ p.tracers.members, a.Unlabelled) {program : Compiled}
    {parent : Option LoadingUnit} (hprogram : p.program.Relabels program)
    (hparent : Option.Rel Relabels p.parent parent) (id : UnitId) :
    Agree Relabels ((build p id).mapError LoadFault.unlabelled)
      ((build { p with program := program, parent := parent } id).mapError LoadFault.unlabelled) := by
  have hpolicy : Agree (fun _ _ => True) ((p.policy.validate.mapError LoadFault.policy).mapError LoadFault.unlabelled)
      ((p.policy.validate.mapError LoadFault.policy).mapError LoadFault.unlabelled) := .refl (fun _ => trivial) _
  have hall := defineAll_agree (Instrumentation.unlabelled_ofRoster htracers) p.origin .nil hprogram
  refine Agree.bind_mapError hpolicy fun _ _ _ => Agree.bind_mapError hall fun q q' hq => .ok ?_
  refine ⟨⟨rfl, rfl, hq.2, hq.1⟩, ?_⟩
  obtain ⟨program, parent, policy, tracers, origin⟩ := p
  cases hparent with
  | none => exact .nil
  | some hu => exact hu.layers

end LoadingUnit

end Confine
