import Confine.Proofs.Tracing.HookOwners

/-!
# The places in line hooks

A hook of the line trace names the place of its label among the labels of its method. Tracers that come later put in
calls and perhaps labels of their own, but take none out, so in a class that is done the place is still below the number
of labels.

* `Method.Placed` — the calls of a method into the line trace name places among its labels;
* `Instrumentation.placed_instrument` — tracers keep it so, if probes put in no calls into the line trace;
* `LoadingUnit.placed_of_build` — **so it is in the classes of a unit**, whatever its tracers are;
* `LoadingUnit.exists_lineHook_of_found` — a frame that is at a call into the line trace is at such a hook.
-/

namespace Confine

/-- The calls of the method into the line trace are line hooks, and name places among the labels of the method. -/
def Method.Placed (m : Method) : Prop :=
  ∀ name operands, .hook LineTrace.id name operands ∈ m.code → ∃ source number place line,
    .hook LineTrace.id name operands = LineTrace.lineHook source number place line ∧ place < m.labels.length

def ClassFile.Placed (c : ClassFile) : Prop := ∀ m ∈ c.methods, m.Placed

/-- The probe puts in no calls into the line trace. -/
def Probe.Arguments.Unforged (a : Probe.Arguments) : Prop :=
  ∀ name operands, .hook LineTrace.id name operands ∉ a.insert.getD []

def Instrumentation.Unforged : Instrumentation → Prop
  | probe a _ => a.Unforged
  | _ => True

/-! ### Methods -/

namespace Method.Placed

variable {m m' : Method}

theorem of_not_isHook (h : ∀ x ∈ m.code, x.isHook = false) : m.Placed := by
  intro name operands hx
  cases h _ hx

theorem extend (h : m.Placed) (hlabels : m.labels.length ≤ m'.labels.length)
    (hcode : ∀ name operands, .hook LineTrace.id name operands ∈ m'.code →
      .hook LineTrace.id name operands ∈ m.code) : m'.Placed := by
  intro name operands hx
  obtain ⟨source, number, place, line, hline, hlt⟩ := h name operands (hcode name operands hx)
  exact ⟨source, number, place, line, hline, Nat.lt_of_lt_of_le hlt hlabels⟩

/-- **The hooks of the line trace name the places of their labels.** -/
theorem lined (h : m.Placed) {source : Option String} (hm : m.Lined source m') : m'.Placed := by
  cases source with
  | none => exact (show m' = m from hm) ▸ h
  | some source =>
    obtain ⟨number, rfl⟩ := hm
    have hlabels := (LineTrace.weaves_instrumentMethod source number m).labels
    intro name operands hx
    rcases (LineTrace.hooked_insertHooks _ [] m.code).mem hx with hx | hx | ⟨l, hl⟩
    · rw [hlabels]
      exact h name operands hx
    · cases hx
    · obtain ⟨⟨place, line⟩, htraced, hhook⟩ := Option.map_eq_some_iff.1 hl
      refine ⟨source, number, place, line, hhook.symm, ?_⟩
      rw [hlabels]
      -- the place was looked up among the labels
      obtain ⟨n, -, hplace⟩ := Option.bind_eq_some_iff.1 htraced
      obtain ⟨k, hk, heq⟩ := Option.bind_eq_some_iff.1 hplace
      obtain ⟨rfl, rfl⟩ := Prod.mk.inj (Option.some.inj heq)
      exact (List.findIdx?_eq_some_iff_findIdx_eq.1 hk).1

theorem entered (h : m.Placed) (hm : m.Entered m') : m'.Placed := by
  rcases hm with rfl | ⟨n, rfl⟩
  · exact h
  · refine h.extend (Nat.le_refl _) fun name operands hx => ?_
    refine (List.mem_cons.1 hx).resolve_left fun heq => ?_
    have hid : LineTrace.id = MethodTrace.id := (Instruction.hook.inj heq).1
    exact absurd hid (by decide)

theorem probed {a : Probe.Arguments} (h : m.Placed) (ha : a.Unforged) :
    Method.Placed { m with code := Probe.inserted a m ++ m.code } := by
  refine h.extend ?_ fun name operands hx => ?_
  · rw [labels, labels, List.filterMap_append, List.length_append]
    exact Nat.le_add_left _ _
  · refine (List.mem_append.1 hx).resolve_left fun hx => ?_
    have hfree := ha name operands
    unfold Probe.inserted at hx
    cases hinsert : a.insert with
    | none =>
      rw [hinsert] at hx
      have hid : LineTrace.id = Probe.id := (Instruction.hook.inj (List.mem_singleton.1 hx)).1
      exact absurd hid (by decide)
    | some code =>
      rw [hinsert] at hx hfree
      exact hfree hx

end Method.Placed

/-! ### Classes -/

theorem ClassFile.Placed.changed {R : Method → Method → Prop} {c c' : ClassFile} (h : c.Placed)
    (hc : c.Changed R c') (hR : ∀ m m', R m m' → m.Placed → m'.Placed) : c'.Placed := by
  intro m' hm'
  obtain ⟨m, hm, hrel⟩ := exists_mem_of_forall₂ hc.methods m' hm'
  exact hR m m' hrel (h m hm)

namespace Instrumentation

theorem Grows.unforged {i i' : Instrumentation} (h : i.Grows i') (hi : i.Unforged) : i'.Unforged := by
  cases h with
  | lineTrace | methodTrace => trivial
  | probe => exact hi

/-- **Tracers keep hooks in their places.** -/
theorem placed_instrument {i i' : Instrumentation} {origin : Origin} {c c' : ClassFile} (hi : i.Unforged)
    (hc : c.Placed) (h : i.instrument origin c = .ok (c', i')) : c'.Placed := by
  cases i with
  | lineTrace i =>
    cases h
    exact hc.changed (changed_lineTrace i origin c) fun _ _ hm hplaced => hplaced.lined hm
  | methodTrace i =>
    cases h
    exact hc.changed (changed_methodTrace i origin c) fun _ _ hm hplaced => hplaced.entered hm
  | probe a active =>
    cases origin with
    | trusted => exact instrument_trusted h ▸ hc
    | untrusted =>
      simp only [instrument, Probe.instrument] at h
      split at h
      · cases h
      · cases h
        intro m' hm'
        obtain ⟨m, hm, rfl⟩ := List.mem_map.1 hm'
        exact (hc m hm).probed hi

theorem placed_instrumentAll {origin : Origin} {is is' : List Instrumentation} {c c' : ClassFile}
    (his : ∀ i ∈ is, i.Unforged) (hc : c.Placed) (h : instrumentAll origin c is = .ok (c', is')) :
    c'.Placed ∧ ∀ i ∈ is', i.Unforged := by
  induction is generalizing c is' with
  | nil =>
    cases h
    exact ⟨hc, his⟩
  | cons i rest ih =>
    obtain ⟨hi, hrest⟩ := List.forall_mem_cons.1 his
    obtain ⟨_, _, _, hq, hq', rfl⟩ := instrumentAll_cons_eq_ok_iff.1 h
    obtain ⟨hplaced, hfree⟩ := ih hrest (placed_instrument hi hc hq) hq'
    exact ⟨hplaced, List.forall_mem_cons.2 ⟨(changed_instrument hq).1.unforged hi, hfree⟩⟩

end Instrumentation

/-! ### Units -/

namespace LoadingUnit

structure DefinedPlaced (e : String × DefinedClass) (c : ClassFile) : Prop where
  linked : e.2.linked = LinkedClass.ofClassFile c
  checked : Verifier.check .instrumented c = .ok ()
  placed : c.Placed

theorem placed_define {origin : Origin} {is is' : List Instrumentation} {name : String} {bytes : ByteArray}
    {d : DefinedClass} (his : ∀ i ∈ is, i.Unforged) (h : define origin is name bytes = .ok (d, is')) :
    (∃ c, DefinedPlaced (name, d) c) ∧ ∀ i ∈ is', i.Unforged := by
  obtain ⟨c, c', hdefines, rfl⟩ := define_eq_ok_iff.1 h
  have hnone : c.Placed := fun m hm => .of_not_isHook fun x hx =>
    ((Verifier.check_eq_ok_iff.1 hdefines.submitted).2 m hm).not_isHook hx
  obtain ⟨hplaced, hfree⟩ := Instrumentation.placed_instrumentAll his hnone hdefines.instrumented
  exact ⟨⟨c', rfl, hdefines.checked, hplaced⟩, hfree⟩

theorem placed_defineAll {origin : Origin} {is is' : List Instrumentation} {done classes : List (String × DefinedClass)}
    {l : List (String × ByteArray)} (his : ∀ i ∈ is, i.Unforged)
    (h : defineAll origin is done l = .ok (classes, is')) (hdone : ∀ e ∈ done, ∃ c, DefinedPlaced e c) :
    ∀ e ∈ classes, ∃ c, DefinedPlaced e c := by
  induction l generalizing is done with
  | nil =>
    simp only [defineAll, Except.ok.injEq, Prod.mk.injEq] at h
    obtain ⟨rfl, rfl⟩ := h
    simpa using hdone
  | cons b rest ih =>
    obtain ⟨d, is₁, hb, hrest⟩ := defineAll_cons_eq_ok_iff.1 h
    obtain ⟨hd, hfree⟩ := placed_define his hb
    exact ih hfree hrest (List.forall_mem_cons.2 ⟨hd, hdone⟩)

variable {p : Plan} {tracers : List Tracer} {roster : Roster Tracer} {id : UnitId} {u : LoadingUnit}

/-- **In the classes of a unit hooks are placed**, whatever its tracers are. -/
theorem placed_of_build (hr : Roster.empty.addAll tracers = .ok roster) (hfree : ∀ a, .probe a ∈ tracers → a.Unforged)
    (h : build { p with tracers := roster } id = .ok u) : ∀ e ∈ u.own.classes, ∃ c, DefinedPlaced e c := by
  obtain ⟨-, classes, is, hc, rfl⟩ := build_eq_ok_iff.1 h
  have hmembers : roster.members = tracers := by
    rw [Roster.members_addAll hr]
    rfl
  refine placed_defineAll (fun i hi => ?_) hc (by simp)
  obtain ⟨t, ht, rfl⟩ := List.mem_map.1 hi
  cases t with
  | lineTrace a | methodTrace a => trivial
  | probe a => exact hfree a (hmembers ▸ ht)

/-- A line hook, at the place of a label of a method. -/
structure LineHookAt (m : LinkedMethod) (x : Instruction) (place : Nat) : Prop where
  hook : ∃ source number line, x = LineTrace.lineHook source number place line
  place : place < m.method.labels.length
  nodup : m.method.labels.Nodup

/-- **A frame that is at a call into the line trace is at a line hook** of a class of the own layer, if what stands
below calls no tracer. -/
theorem exists_lineHook_of_found (hclasses : ∀ e ∈ u.own.classes, ∃ c, DefinedPlaced e c)
    (hparents : ∀ l ∈ u.parents, l.HookFree) {f : Frame} (hf : f.Found u) {name : String} {operands : List HookOperand}
    (hx : f.method.code[f.next]? = some (.hook LineTrace.id name operands)) :
    ∃ e ∈ u.own.classes, f.method ∈ e.2.linked.methods ∧
      ∃ place, LineHookAt f.method (.hook LineTrace.id name operands) place := by
  obtain ⟨className, d, hfind, -, hm⟩ := hf
  obtain ⟨k, hk⟩ := findIn_eq_some_iff.1 hfind
  obtain ⟨l, hl, hclass⟩ := hk.defined
  rcases List.mem_cons.1 (List.mem_of_getElem? hl) with rfl | hparent
  · obtain ⟨e, he, rfl⟩ := Option.map_eq_some_iff.1 hclass
    have hmem := getNamed?_mem he
    obtain ⟨c, hc⟩ := hclasses _ hmem
    have hlinked : e.linked = LinkedClass.ofClassFile c := hc.linked
    refine ⟨_, hmem, hm, ?_⟩
    rw [hlinked] at hm
    obtain ⟨m, hmem, hmethod⟩ := List.mem_map.1 hm
    rw [← hmethod] at hx ⊢
    have hcode : .hook LineTrace.id name operands ∈ m.code := by
      simpa [LinkedMethod.ofMethod] using Array.mem_of_getElem? hx
    obtain ⟨source, number, place, line, hline, hlt⟩ := hc.placed m hmem name operands hcode
    exact ⟨place, ⟨source, number, line, hline⟩, hlt, ((Verifier.check_eq_ok_iff.1 hc.checked).2 m hmem).nodup⟩
  · have hno := hparents l hparent className d hclass f.method hm _ (Array.mem_of_getElem? hx)
    cases hno

end LoadingUnit

end Confine
