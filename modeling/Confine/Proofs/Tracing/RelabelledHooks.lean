import Confine.Proofs.Machine.Rerun
import Confine.Proofs.Program.Renaming
import Confine.Proofs.Tracing.HookOwners

/-!
# Tracers and the names of labels

A tracer puts the same calls in the same places whatever the labels of a class are called: it does not matter
whether a class is renamed first or instrumented first.

* `LineTrace.Instrumentation.instrument_relabel`, `MethodTrace.Instrumentation.instrument_relabel` — for the two
  traces;
* `Instrumentation.instrumentAll_relabel` — for all tracers of a unit, as long as probes put no labels into the
  code (`Tracer.Unlabelled`).
-/

namespace Confine

/-! ### The line trace -/

namespace LineTrace

theorem lineStarts_relabel (σ : Label → Label) (m : Method) :
    lineStarts (m.relabel σ) = (lineStarts m).map fun s => (σ s.1, s.2) := by
  unfold lineStarts
  rw [List.map_reverse, List.map_filterMap, Method.relabel, List.filterMap_map]
  refine congrArg (fun f => (List.filterMap f m.code).reverse) (funext fun i => ?_)
  cases i <;> rfl

theorem frameFollows_relabel (σ : Label → Label) (code : List Instruction) :
    frameFollows (code.map (·.relabel σ)) = frameFollows code := by
  induction code with
  | nil => rfl
  | cons i code ih =>
    cases i with
    | label l => exact ih
    | lineNumber n l => exact ih
    | _ => rfl

theorem insertHooks_relabel {σ : Label → Label} {hook? hook'? : Label → Option Instruction}
    (hhook : ∀ l, hook'? (σ l) = (hook? l).map (·.relabel σ)) (done deferred code : List Instruction) :
    insertHooks hook'? (done.map (·.relabel σ)) (deferred.map (·.relabel σ)) (code.map (·.relabel σ)) =
      (insertHooks hook? done deferred code).map (·.relabel σ) := by
  induction code generalizing done deferred with
  | nil => exact List.map_reverse.symm
  | cons i code ih =>
    cases i with
    | label l =>
      have hlabel : (Instruction.label l).relabel σ = .label (σ l) := rfl
      rw [List.map_cons, hlabel, insertHooks, insertHooks, hhook, frameFollows_relabel]
      cases hook? l with
      | none => exact ih (.label l :: done) deferred
      | some h =>
        cases frameFollows code with
        | true => exact ih (.label l :: done) (h :: deferred)
        | false => exact ih (h :: .label l :: done) deferred
    | frame n =>
      have hrest := ih (deferred ++ .frame n :: done) []
      rw [List.map_append] at hrest
      exact hrest
    | lineNumber n l => exact ih (.lineNumber n l :: done) deferred
    | _ => exact ih (_ :: done) deferred

variable {σ : Label → Label} (hσ : Function.Injective σ)

include hσ

theorem sequence?_map (labels : List Label) (l : Label) :
    sequence? (labels.map σ) (σ l) = sequence? labels l := by
  rw [sequence?, sequence?, List.findIdx?_map]
  exact congrArg (List.findIdx? · labels) (funext fun a => Bool.eq_iff_iff.2 (by simp [hσ.eq_iff]))

theorem traced?_map (labels : List Label) (starts : List (Label × UInt32)) (l : Label) :
    traced? (labels.map σ) (starts.map fun s => (σ s.1, s.2)) (σ l) = traced? labels starts l := by
  rw [traced?, traced?, lookup_map_of_injective hσ, sequence?_map hσ]

theorem hasTraced_relabel (m : Method) : hasTraced (m.relabel σ) = hasTraced m := by
  unfold hasTraced
  dsimp only
  rw [lineStarts_relabel, Method.labels_relabel, List.any_map]
  exact congrArg (List.any (lineStarts m)) (funext fun s => contains_map_of_injective hσ s.1 _)

/-- **The lines of a method are traced whatever its labels are.** -/
theorem instrumentMethod_relabel (source : String) (number : Nat) (m : Method) :
    instrumentMethod source number (m.relabel σ) = (instrumentMethod source number m).relabel σ := by
  have hcode := @insertHooks_relabel σ
    (fun l => (traced? m.labels (lineStarts m) l).map fun t => lineHook source number t.1 t.2)
    (fun l => (traced? (m.labels.map σ) ((lineStarts m).map fun s => (σ s.1, s.2)) l).map
      fun t => lineHook source number t.1 t.2)
    (fun l => by rw [traced?_map hσ, Option.map_map]; rfl) [] [] m.code
  unfold instrumentMethod
  dsimp only
  rw [Method.labels_relabel, lineStarts_relabel]
  exact congrArg (fun code => { m.relabel σ with code := code }) hcode

end LineTrace

namespace LineTrace.Instrumentation

theorem instrumentMethods_relabel {σ : Nat → Label → Label} (hσ : ∀ i, Function.Injective (σ i))
    (i : Instrumentation) (className source : String) (ms : List Method) :
    i.instrumentMethods className source (Method.relabelAll σ ms) =
      (Method.relabelAll σ (i.instrumentMethods className source ms).1,
        (i.instrumentMethods className source ms).2) := by
  induction ms generalizing i σ with
  | nil => rfl
  | cons m ms ih =>
    have hrest := ih fun k => hσ (k + 1)
    have hname : (m.relabel (σ 0)).name = m.name := rfl
    rw [Method.relabelAll_cons, instrumentMethods, instrumentMethods, hasTraced_relabel (hσ 0), hname]
    split
    · dsimp only
      rw [hrest, instrumentMethod_relabel (hσ 0), Method.relabelAll_cons]
    · dsimp only
      rw [hrest, Method.relabelAll_cons]

/-- **The line trace does not see what labels are called.** -/
theorem instrument_relabel {σ : Nat → Label → Label} (hσ : ∀ i, Function.Injective (σ i))
    (i : Instrumentation) (origin : Origin) (c : ClassFile) :
    i.instrument origin (c.relabel σ) = ((i.instrument origin c).1.relabel σ, (i.instrument origin c).2) := by
  obtain ⟨name, sourceFile, methods⟩ := c
  cases origin with
  | trusted => rfl
  | untrusted =>
    cases sourceFile with
    | none => rfl
    | some source =>
      simp only [instrument, ClassFile.relabel]
      rw [instrumentMethods_relabel hσ]

end LineTrace.Instrumentation

/-! ### The method trace -/

namespace MethodTrace

theorem hasRealCode_relabel (σ : Label → Label) (m : Method) :
    (m.relabel σ).hasRealCode = m.hasRealCode := by
  have hmark (i : Instruction) : (i.relabel σ).isMark = i.isMark := by cases i <;> rfl
  unfold Method.hasRealCode Method.relabel
  dsimp only
  rw [List.any_map]
  exact congrArg (List.any m.code) (funext fun i => congrArg not (hmark i))

theorem Instrumentation.instrumentMethods_relabel (σ : Nat → Label → Label) (i : Instrumentation)
    (className : String) (ms : List Method) :
    i.instrumentMethods className (Method.relabelAll σ ms) =
      (Method.relabelAll σ (i.instrumentMethods className ms).1, (i.instrumentMethods className ms).2) := by
  induction ms generalizing i σ with
  | nil => rfl
  | cons m ms ih =>
    have hsite : siteOf className (m.relabel (σ 0)) = siteOf className m := rfl
    have hmethod (n : Nat) : instrumentMethod n (m.relabel (σ 0)) = (instrumentMethod n m).relabel (σ 0) := rfl
    rw [Method.relabelAll_cons, instrumentMethods, instrumentMethods, hasRealCode_relabel, hsite]
    split
    · dsimp only
      rw [ih, hmethod, Method.relabelAll_cons]
    · dsimp only
      rw [ih, Method.relabelAll_cons]

/-- **The method trace does not see what labels are called.** -/
theorem Instrumentation.instrument_relabel (σ : Nat → Label → Label) (i : Instrumentation) (origin : Origin)
    (c : ClassFile) :
    i.instrument origin (c.relabel σ) = ((i.instrument origin c).1.relabel σ, (i.instrument origin c).2) := by
  cases origin with
  | trusted => rfl
  | untrusted =>
    simp only [instrument, ClassFile.relabel]
    rw [instrumentMethods_relabel]

end MethodTrace

/-! ### All tracers -/

/-- The tracer puts no label into the code, and names none. -/
def Tracer.Unlabelled : Tracer → Prop
  | .probe a => ∀ code ∈ a.insert, ∀ i ∈ code, i.mention? = none
  | _ => True

namespace Instrumentation

/-- The tracer puts no label into the code, and names none. -/
def Unlabelled : Instrumentation → Prop
  | probe a _ => (Tracer.probe a).Unlabelled
  | _ => True

theorem relabel_of_mention?_eq_none (σ : Label → Label) {i : Confine.Instruction} (h : i.mention? = none) :
    i.relabel σ = i := by
  cases i <;> first | rfl | cases h

theorem instrument_probe_relabel {a : Probe.Arguments} (ha : (Tracer.probe a).Unlabelled)
    (σ : Nat → Label → Label) (origin : Origin) (c : ClassFile) :
    Probe.instrument a origin (c.relabel σ) = (Probe.instrument a origin c).map (·.relabel σ) := by
  cases origin with
  | trusted => rfl
  | untrusted =>
    have hmethods (ms : List Method) : (Method.relabelAll σ ms).map (fun m =>
          { m with code := Probe.inserted a m ++ m.code }) =
        Method.relabelAll σ (ms.map fun m => { m with code := Probe.inserted a m ++ m.code }) := by
      induction ms generalizing σ with
      | nil => rfl
      | cons m ms ih =>
        have hinserted : (Probe.inserted a m).map (·.relabel (σ 0)) = Probe.inserted a m := by
          unfold Probe.inserted
          cases hi : a.insert with
          | none => rfl
          | some code =>
            refine (List.map_congr_left fun i hmem => ?_).trans (List.map_id _)
            exact relabel_of_mention?_eq_none _ (ha code hi i hmem)
        have hone : ({ m.relabel (σ 0) with
              code := Probe.inserted a (m.relabel (σ 0)) ++ (m.relabel (σ 0)).code } : Method) =
            ({ m with code := Probe.inserted a m ++ m.code } : Method).relabel (σ 0) := by
          simp only [Method.relabel, List.map_append, hinserted]
          rfl
        rw [Method.relabelAll_cons, List.map_cons, List.map_cons, Method.relabelAll_cons, hone, ih]
    have hname : (c.relabel σ).name = c.name := rfl
    unfold Probe.instrument
    dsimp only
    rw [hname]
    split
    · rfl
    · exact congrArg (fun ms => Except.ok { c with methods := ms }) (hmethods c.methods)

variable {σ : Nat → Label → Label} (hσ : ∀ i, Function.Injective (σ i))

include hσ

theorem instrument_relabel {i : Instrumentation} (hi : i.Unlabelled) (origin : Origin) (c : ClassFile) :
    i.instrument origin (c.relabel σ) = (i.instrument origin c).map fun p => (p.1.relabel σ, p.2) := by
  cases i with
  | lineTrace i =>
    simp only [instrument, LineTrace.Instrumentation.instrument_relabel hσ]
    rfl
  | methodTrace i =>
    simp only [instrument, MethodTrace.Instrumentation.instrument_relabel]
    rfl
  | probe a active =>
    simp only [instrument, instrument_probe_relabel hi]
    cases Probe.instrument a origin c <;> rfl

/-- **Tracers do not see what labels are called.** -/
theorem instrumentAll_relabel {is : List Instrumentation} (his : ∀ i ∈ is, i.Unlabelled) (origin : Origin)
    (c : ClassFile) : instrumentAll origin (c.relabel σ) is =
      (instrumentAll origin c is).map fun p => (p.1.relabel σ, p.2) := by
  induction is generalizing c with
  | nil => rfl
  | cons i is ih =>
    rw [instrumentAll, instrumentAll, instrument_relabel hσ (his i (.head _))]
    cases hi : i.instrument origin c with
    | error fault => rfl
    | ok p =>
      have hrest := ih (fun j hj => his j (.tail _ hj)) p.1
      simp only [Except.map, bind, Except.bind, hrest]
      cases instrumentAll origin p.1 is <;> rfl

omit hσ

theorem unlabelled_ofRoster {r : Roster Tracer} (hr : ∀ a ∈ r.members, a.Unlabelled) :
    ∀ i ∈ ofRoster r, i.Unlabelled := by
  intro i hi
  obtain ⟨a, ha, rfl⟩ := List.mem_map.1 hi
  cases a with
  | probe a => exact hr _ ha
  | _ => trivial

theorem Grows.unlabelled {i i' : Instrumentation} (h : i.Grows i') (hi : i.Unlabelled) : i'.Unlabelled := by
  cases h with
  | probe a active => exact hi
  | _ => trivial

theorem unlabelled_instrumentAll {origin : Origin} {is is' : List Instrumentation} {c c' : ClassFile}
    (h : instrumentAll origin c is = .ok (c', is')) (his : ∀ i ∈ is, i.Unlabelled) :
    ∀ i ∈ is', i.Unlabelled := by
  induction is generalizing c is' with
  | nil =>
    obtain ⟨-, rfl⟩ := Prod.mk.inj (Except.ok.inj h)
    exact his
  | cons i is ih =>
    obtain ⟨c₁, j, js, hj, hjs, rfl⟩ := instrumentAll_cons_eq_ok_iff.1 h
    exact List.forall_mem_cons.2 ⟨(changed_instrument hj).1.unlabelled (his i (.head _)),
      ih hjs fun k hk => his k (.tail _ hk)⟩

/-! ### The labels of an instrumented class -/

theorem Puts.mention?_eq_none {i : Instrumentation} {c : ClassFile} {m : Method} {x : Confine.Instruction}
    (h : i.Puts c m x) (hi : i.Unlabelled) : x.mention? = none := by
  cases i with
  | lineTrace i =>
    obtain ⟨source, place, n, -, -, rfl⟩ := h
    rfl
  | methodTrace i =>
    obtain ⟨n, -, rfl⟩ := h
    rfl
  | probe a active =>
    have hx : x ∈ Probe.inserted a m := h
    unfold Probe.inserted at hx
    cases hcode : a.insert with
    | some code =>
      rw [hcode] at hx
      exact hi code hcode x hx
    | none =>
      rw [hcode] at hx
      rw [List.mem_singleton.1 hx]
      rfl

theorem mentions_subset_of_gets {i : Instrumentation} {c : ClassFile} {m m' : Method} (h : m.Gets i c m')
    (hi : i.Unlabelled) : ∀ l ∈ m'.mentions, l ∈ m.mentions := by
  intro l hl
  rw [h.same] at hl
  refine (List.mem_append.1 hl).elim (List.mem_append_left _) fun hl => ?_
  obtain ⟨x, hx, hxl⟩ := List.mem_filterMap.1 hl
  rcases h.code x hx with hx | hx
  · exact List.mem_append_right _ (List.mem_filterMap.2 ⟨x, hx, hxl⟩)
  · rw [hx.mention?_eq_none hi] at hxl
    cases hxl

/-- **It does not matter whether a class is renamed first or instrumented first**, by whatever renaming keeps the labels
of each method apart. -/
theorem instrument_relabel_of_separates {ρ : Nat → Label → Label} {c : ClassFile} (hρ : c.Separates ρ)
    {i : Instrumentation} (hi : i.Unlabelled) (origin : Origin) :
    i.instrument origin (c.relabel ρ) = (i.instrument origin c).map fun p => (p.1.relabel ρ, p.2) := by
  obtain ⟨σ, hσ, hagree, heq⟩ := hρ.exists_injective
  rw [← heq, instrument_relabel hσ hi]
  cases hj : i.instrument origin c with
  | error fault => rfl
  | ok p =>
    obtain ⟨hgrows, hchanged⟩ := changed_instrument hj
    have hsame : p.1.relabel σ = p.1.relabel ρ := by
      refine ClassFile.relabel_congr fun k m' hm' => ?_
      have hrel := forall₂_getElem? hchanged.methods k
      rw [hm'] at hrel
      generalize hm : c.methods[k]? = o at hrel
      cases hrel with
      | @some m _ hgets => exact fun l hl => hagree k m hm l (mentions_subset_of_gets hgets (hgrows.unlabelled hi) l hl)
    simp only [Except.map, hsame]

end Instrumentation

end Confine
