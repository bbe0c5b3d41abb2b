import Confine.Proofs.Loading.Built
import Confine.Proofs.Tracing.Woven

/-!
# Library units

Tracers leave trusted classes as they are, so a unit of libraries calls no tracer.

* `Layer.HookFree` — the classes of a layer call no tracer;
* `LoadingUnit.Library` — a unit whose code is trusted, on top of such units;
* `LoadingUnit.Library.hookFree` — **no layer of a library unit calls a tracer**, with whatever tracers it was built.
-/

namespace Confine

def Layer.HookFree (l : Layer) : Prop :=
  ∀ name c, l.class? name = some c → ∀ m ∈ c.methods, ∀ i ∈ m.code, i.isHook = false

namespace Instrumentation

theorem instrument_trusted {i i' : Instrumentation} {c c' : ClassFile}
    (h : i.instrument .trusted c = .ok (c', i')) : c' = c := by
  cases i with
  | lineTrace i =>
    cases h
    rfl
  | methodTrace i =>
    cases h
    rfl
  | probe a active =>
    cases h
    rfl

theorem instrumentAll_trusted {is is' : List Instrumentation} {c c' : ClassFile}
    (h : instrumentAll .trusted c is = .ok (c', is')) : c' = c := by
  induction is generalizing c is' with
  | nil =>
    cases h
    rfl
  | cons i rest ih =>
    obtain ⟨_, _, _, hi, hrest, -⟩ := instrumentAll_cons_eq_ok_iff.1 h
    rw [ih hrest, instrument_trusted hi]

end Instrumentation

namespace LoadingUnit

/-- **A library unit**: its code is trusted, and so is that of the units it stands on. -/
inductive Library : LoadingUnit → Prop where
  | build {p : Plan} {id : UnitId} {u : LoadingUnit} (hp : ∀ v, p.parent = some v → Library v)
      (horigin : p.origin = .trusted) (h : LoadingUnit.build p id = .ok u) : Library u

theorem Library.built {u : LoadingUnit} (h : Library u) : Built u := by
  induction h with
  | build _ _ h ih => exact .build ih h

theorem hookFree_of_define {is is' : List Instrumentation} {name : String} {bytes : ByteArray}
    {d : DefinedClass} (h : define .trusted is name bytes = .ok (d, is')) :
    ∀ m ∈ d.linked.methods, ∀ i ∈ m.code, i.isHook = false := by
  obtain ⟨c, c', hdefines, rfl⟩ := define_eq_ok_iff.1 h
  obtain rfl := Instrumentation.instrumentAll_trusted hdefines.instrumented
  intro lm hlm i hi
  obtain ⟨m, hm, rfl⟩ := List.mem_map.1 hlm
  exact ((Verifier.check_eq_ok_iff.1 hdefines.submitted).2 m hm).not_isHook (Array.mem_toList_iff.2 hi)

/-- **No layer of a library unit calls a tracer.** -/
theorem Library.hookFree {u : LoadingUnit} (h : Library u) : ∀ l ∈ u.layers, l.HookFree := by
  induction h with
  | @build p id u hp horigin h ih =>
    obtain ⟨-, classes, is, hc, rfl⟩ := build_eq_ok_iff.1 h
    rw [horigin] at hc
    intro l hl
    rcases List.mem_cons.1 hl with rfl | hl
    · intro name c hname
      obtain ⟨d, hd, rfl⟩ := Option.map_eq_some_iff.1 hname
      exact forall_of_defineAll hc (fun h => hookFree_of_define h) (by simp) _ (getNamed?_mem hd)
    · cases hv : p.parent with
      | none => simp [hv] at hl
      | some v =>
        simp only [hv, Option.map_some, Option.getD_some] at hl
        exact ih v hv l hl

theorem hookFree_parents_of_build {p : Plan} {tracers : Roster Tracer} {id : UnitId} {u : LoadingUnit}
    (hp : ∀ v, p.parent = some v → v.Library) (h : build { p with tracers := tracers } id = .ok u) :
    ∀ l ∈ u.parents, l.HookFree := by
  obtain ⟨-, classes, is, -, rfl⟩ := build_eq_ok_iff.1 h
  intro l hl
  cases hv : p.parent with
  | none => simp [hv] at hl
  | some v =>
    simp only [hv, Option.map_some, Option.getD_some] at hl
    exact (hp v hv).hookFree l hl

end LoadingUnit

end Confine
