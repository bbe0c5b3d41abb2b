import Confine.Proofs.Machine.Found
import Confine.Proofs.Tracing.LineHooks
import Confine.Proofs.Tracing.TracedUnits

/-!
# Whose hooks stand in the code of a unit

Whatever tracers a unit is built with, they go through its classes one by one, and each notes what its hooks refer to.
What is noted stays, so in the end every hook refers to what its tracer knows of its method.

* `Instrumentation.Puts` — the hooks of a tracer in a method, by what the tracer has noted of it;
* `Instrumentation.changed_instrument` — one tracer puts its own hooks into a class, and nothing else;
* `LoadingUnit.Built.owned` — **every hook in a layer is one of a tracer of that layer**;
* `LoadingUnit.layerOf?`, `Frame.Runs` — a frame, the layer that its class is loaded from, and the method that it runs;
* `Layer.Orderly.exists_site`, `Layer.Orderly.exists_line` — what the hooks of the two tracers say.
-/

namespace Confine

/-! ### One tracer and one class -/

/-- The hooks that a tracer puts into a method of a class: they refer to what the tracer has noted of the method. -/
def Instrumentation.Puts (c : ClassFile) (m : Method) (x : Instruction) : Instrumentation → Prop
  | lineTrace i => ∃ source place n, c.sourceFile = some source ∧ c.name ++ "." ++ m.name ∈ i.methods ∧
      x = LineTrace.lineHook source (i.methods.idxOf (c.name ++ "." ++ m.name)) place n
  | methodTrace i => ∃ n, i.sites[n]? = some (MethodTrace.siteOf c.name m) ∧ x = MethodTrace.enterHook n m
  | probe a _ => x ∈ Probe.inserted a m

/-- What a tracer has noted stays, and more may come. -/
inductive Instrumentation.Grows : Instrumentation → Instrumentation → Prop where
  | lineTrace {i i' : LineTrace.Instrumentation} (arguments : i'.arguments = i.arguments)
      (methods : i.methods <+: i'.methods) : Grows (.lineTrace i) (.lineTrace i')
  | methodTrace {i i' : MethodTrace.Instrumentation} (h : i.Grows i') : Grows (.methodTrace i) (.methodTrace i')
  | probe (a : Probe.Arguments) (active : List String) : Grows (.probe a active) (.probe a active)

namespace Instrumentation

variable {i i' i'' : Instrumentation} {c c' : ClassFile} {m m' : Method} {x : Instruction}

theorem Grows.refl (i : Instrumentation) : i.Grows i := by
  cases i with
  | lineTrace i => exact .lineTrace rfl List.prefix_rfl
  | methodTrace i => exact .methodTrace (.refl i)
  | probe a active => exact .probe a active

theorem Grows.puts (h : i.Grows i') (hx : i.Puts c m x) : i'.Puts c m x := by
  cases h with
  | lineTrace _ hm =>
    obtain ⟨source, place, n, hsource, hmem, rfl⟩ := hx
    obtain ⟨more, hmore⟩ := hm
    exact ⟨source, place, n, hsource, hmore ▸ List.mem_append_left _ hmem,
      by rw [← hmore, List.idxOf_append_of_mem hmem]⟩
  | methodTrace h =>
    obtain ⟨n, hn, rfl⟩ := hx
    obtain ⟨more, hmore⟩ := h.sites
    rw [← Array.getElem?_toList] at hn
    refine ⟨n, ?_, rfl⟩
    rw [← Array.getElem?_toList, ← hmore, List.getElem?_append_left (List.getElem?_eq_some_iff.1 hn).1, hn]
  | probe _ _ => exact hx

theorem Puts.of_same (h : i.Puts c m x) (hname : c'.name = c.name) (hsource : c'.sourceFile = c.sourceFile)
    (hm : m' = { m with code := m'.code }) : i.Puts c' m' x := by
  rw [hm]
  cases i with
  | lineTrace i => simpa only [Puts, hname, hsource] using h
  | methodTrace i =>
    obtain ⟨n, hn, rfl⟩ := h
    exact ⟨n, by rw [hn, hname]; rfl, rfl⟩
  | probe a active => exact h

end Instrumentation

structure Method.Gets (i : Instrumentation) (c : ClassFile) (m m' : Method) : Prop where
  same : m' = { m with code := m'.code }
  code : ∀ x ∈ m'.code, x ∈ m.code ∨ i.Puts c m x

theorem Method.Gets.refl (i : Instrumentation) (c : ClassFile) (m : Method) : m.Gets i c m :=
  ⟨rfl, fun _ => .inl⟩

/-- **The line trace numbers the methods that it puts hooks into.** -/
theorem LineTrace.Instrumentation.gets_instrumentMethods (i : Instrumentation) {c : ClassFile} {source : String}
    (hsource : c.sourceFile = some source) (ms : List Method) :
    (∃ names, i.Numbered (i.instrumentMethods c.name source ms).2 names) ∧
      List.Forall₂ (Method.Gets (.lineTrace (i.instrumentMethods c.name source ms).2) c) ms
        (i.instrumentMethods c.name source ms).1 := by
  induction ms generalizing i with
  | nil => exact ⟨⟨[], .refl i⟩, .nil⟩
  | cons m ms ih =>
    unfold instrumentMethods
    cases htraced : hasTraced m with
    | true =>
      obtain ⟨hnum, hn⟩ := numbered_number i (c.name ++ "." ++ m.name)
      obtain ⟨⟨names, hrest⟩, hms⟩ := ih (i.number (c.name ++ "." ++ m.name)).2
      have hmem := (hnum.mem _).2 (.inr (List.mem_singleton_self _))
      have hstays := hrest.idxOf_eq hmem
      refine ⟨⟨_, hnum.trans hrest⟩, .cons ⟨rfl, fun x hx => ?_⟩ hms⟩
      refine ((hooked_insertHooks _ [] m.code).mem hx).imp_right fun hx => ?_
      obtain ⟨l, hl⟩ := hx.resolve_left List.not_mem_nil
      obtain ⟨⟨place, n⟩, -, rfl⟩ := Option.map_eq_some_iff.1 hl
      exact ⟨source, place, n, hsource, (hrest.mem _).2 (.inl hmem),
        congrArg (lineHook source · place n) (hn.trans hstays.symm)⟩
    | false =>
      obtain ⟨hrest, hms⟩ := ih i
      exact ⟨hrest, .cons (.refl _ c m) hms⟩

/-- **The method trace has a site for each method that it puts a hook into.** -/
theorem Method.Sited.gets {i : MethodTrace.Instrumentation} {c : ClassFile} {m m' : Method}
    (h : m.Sited (some i.sites) c.name m') : m.Gets (.methodTrace i) c m' := by
  unfold Method.Sited at h
  dsimp only at h
  split at h
  · obtain ⟨n, hn, rfl⟩ := h
    exact ⟨rfl, fun x hx => (List.mem_cons.1 hx).symm.imp_right fun hx => ⟨n, hn, hx⟩⟩
  · rw [h]
    exact .refl _ c m

namespace Instrumentation

/-- **A tracer puts its own hooks into a class**, and nothing else; what it has noted stays. -/
theorem changed_instrument {i i' : Instrumentation} {origin : Origin} {c c' : ClassFile}
    (h : i.instrument origin c = .ok (c', i')) : i.Grows i' ∧ c.Changed (Method.Gets i' c) c' := by
  cases origin with
  | trusted =>
    obtain rfl := instrument_trusted h
    refine ⟨?_, .refl (.refl i' c') c'⟩
    cases i <;> (cases h; exact .refl _)
  | untrusted =>
    cases i with
    | lineTrace i =>
      obtain ⟨name, _ | source, methods⟩ := c
      · cases h
        exact ⟨.refl _, .refl (.refl _ _) _⟩
      · cases h
        obtain ⟨⟨_, hnum⟩, hms⟩ := i.gets_instrumentMethods (c := ⟨name, some source, methods⟩) rfl methods
        exact ⟨.lineTrace hnum.arguments hnum.stay, rfl, rfl, hms⟩
    | methodTrace i =>
      cases h
      obtain ⟨hgrows, hms⟩ := i.sited_instrumentMethods c.name c.methods
      exact ⟨.methodTrace hgrows, rfl, rfl, hms.imp fun _ _ hm => hm.gets⟩
    | probe a active =>
      simp only [instrument, Probe.instrument] at h
      split at h
      · cases h
      · cases h
        refine ⟨.refl _, rfl, rfl, List.forall₂_map_right_iff.2 (List.forall₂_same.2 fun m _ => ?_)⟩
        exact ⟨rfl, fun x hx => (List.mem_append.1 hx).symm⟩

end Instrumentation

/-! ### The classes of a unit -/

/-- Every hook in the class is one of these tracers. -/
def ClassFile.OwnedBy (is : List Instrumentation) (c : ClassFile) : Prop :=
  ∀ m ∈ c.methods, ∀ x ∈ m.code, x.isHook = true → ∃ i ∈ is, i.Puts c m x

namespace ClassFile.OwnedBy

variable {is is' : List Instrumentation} {i : Instrumentation} {c c' : ClassFile}

theorem of_submitted (h : Verifier.check .submitted c = .ok ()) : c.OwnedBy is := by
  intro m hm x hx hhook
  rw [((Verifier.check_eq_ok_iff.1 h).2 m hm).not_isHook hx] at hhook
  cases hhook

theorem changed (h : c.OwnedBy is) (hc : c.Changed (Method.Gets i c) c') : c'.OwnedBy (is ++ [i]) := by
  intro m' hm' x hx hhook
  obtain ⟨m, hm, hsame, hcode⟩ := exists_mem_of_forall₂ hc.methods m' hm'
  rcases hcode x hx with hx | hx
  · obtain ⟨j, hj, hputs⟩ := h m hm x hx hhook
    exact ⟨j, List.mem_append_left _ hj, hputs.of_same hc.name hc.sourceFile hsame⟩
  · exact ⟨i, by simp, hx.of_same hc.name hc.sourceFile hsame⟩

theorem grows (h : c.OwnedBy is) (his : List.Forall₂ Instrumentation.Grows is is') : c.OwnedBy is' := by
  intro m hm x hx hhook
  obtain ⟨i, hi, hputs⟩ := h m hm x hx hhook
  obtain ⟨i', hi', hgrows⟩ := exists_mem_of_forall₂ his.flip i hi
  exact ⟨i', hi', hgrows.puts hputs⟩

end ClassFile.OwnedBy

theorem Instrumentation.owned_instrumentAll {origin : Origin} {is is' owners : List Instrumentation} {c c' : ClassFile}
    (hc : c.OwnedBy owners) (h : instrumentAll origin c is = .ok (c', is')) :
    List.Forall₂ Grows is is' ∧ c'.OwnedBy (owners ++ is') := by
  induction is generalizing c is' owners with
  | nil =>
    cases h
    exact ⟨.nil, by simpa using hc⟩
  | cons i rest ih =>
    obtain ⟨_, _, _, hi, hrest, rfl⟩ := instrumentAll_cons_eq_ok_iff.1 h
    obtain ⟨hgrows, hchanged⟩ := changed_instrument hi
    obtain ⟨hgrows_rest, howned⟩ := ih (hc.changed hchanged) hrest
    exact ⟨.cons hgrows hgrows_rest, by simpa using howned⟩

namespace LoadingUnit

/-- The class of an entry has passed the checks, and its hooks are those of the tracers. -/
structure Owned (is : List Instrumentation) (e : String × DefinedClass) (c : ClassFile) : Prop where
  linked : e.2.linked = LinkedClass.ofClassFile c
  name : c.name = e.1
  checked : Verifier.check .instrumented c = .ok ()
  owned : c.OwnedBy is

theorem Owned.grows {is is' : List Instrumentation} {e : String × DefinedClass} {c : ClassFile} (h : Owned is e c)
    (his : List.Forall₂ Instrumentation.Grows is is') : Owned is' e c :=
  ⟨h.linked, h.name, h.checked, h.owned.grows his⟩

theorem owned_define {origin : Origin} {is is' : List Instrumentation} {name : String} {bytes : ByteArray}
    {d : DefinedClass} (h : define origin is name bytes = .ok (d, is')) :
    List.Forall₂ Instrumentation.Grows is is' ∧ ∃ c, Owned is' (name, d) c := by
  obtain ⟨c, c', hdefines, rfl⟩ := define_eq_ok_iff.1 h
  have hnone : c.OwnedBy [] := .of_submitted hdefines.submitted
  obtain ⟨hgrows, howned⟩ := Instrumentation.owned_instrumentAll hnone hdefines.instrumented
  have hname := (Instrumentation.name_instrumentAll hdefines.instrumented).trans hdefines.name_eq
  exact ⟨hgrows, c', rfl, hname, hdefines.checked, howned⟩

theorem owned_defineAll {origin : Origin} {is is' : List Instrumentation} {done classes : List (String × DefinedClass)}
    {l : List (String × ByteArray)} (h : defineAll origin is done l = .ok (classes, is'))
    (hdone : ∀ e ∈ done, ∃ c, Owned is e c) : ∀ e ∈ classes, ∃ c, Owned is' e c := by
  induction l generalizing is done with
  | nil =>
    simp only [defineAll, Except.ok.injEq, Prod.mk.injEq] at h
    obtain ⟨rfl, rfl⟩ := h
    simpa using hdone
  | cons b rest ih =>
    obtain ⟨d, is₁, hb, hrest⟩ := defineAll_cons_eq_ok_iff.1 h
    obtain ⟨hgrows, c, hc⟩ := owned_define hb
    refine ih hrest (List.forall_mem_cons.2 ⟨⟨c, hc⟩, fun e he => ?_⟩)
    obtain ⟨c, hc⟩ := hdone e he
    exact ⟨c, hc.grows hgrows⟩

/-- **Every hook in a layer of a unit that has been built is one of a tracer of that layer**, and refers to what this
knows of its method in the end. -/
theorem Built.owned {u : LoadingUnit} (h : Built u) :
    ∀ l ∈ u.layers, ∀ e ∈ l.classes, ∃ c, Owned l.instrumentation e c := by
  induction h with
  | @build p id u hp h ih =>
    obtain ⟨-, classes, is, hc, rfl⟩ := build_eq_ok_iff.1 h
    intro l hl
    rcases List.mem_cons.1 hl with rfl | hl
    · exact owned_defineAll hc (by simp)
    · cases hv : p.parent with
      | none => simp [hv] at hl
      | some v =>
        simp only [hv, Option.map_some, Option.getD_some] at hl
        exact ih v hv l hl

/-! ### Frames -/

/-- The layer that a class is loaded from: the nearest that defines it. -/
def layerOf? (u : LoadingUnit) (name : String) : Option Layer := u.layers.find? fun l => (l.class? name).isSome

theorem layerOf?_own {u : LoadingUnit} {name : String} {c : LinkedClass} (h : u.own.class? name = some c) :
    u.layerOf? name = some u.own := by
  rw [layerOf?, layers, List.find?_cons_of_pos (by simp [h])]

end LoadingUnit

theorem FoundAt.layerOf?_eq {u : LoadingUnit} {name : String} {k : Nat} {c : LinkedClass}
    (h : FoundAt name u.layers k c) : ∃ l, u.layerOf? name = some l ∧ l ∈ u.layers ∧ l.class? name = some c := by
  obtain ⟨l, hl, hc⟩ := h.defined
  refine ⟨l, List.find?_eq_some_iff_append.2 ⟨by simp [hc], u.layers.take k, u.layers.drop (k + 1), ?_, ?_⟩,
    List.mem_of_getElem? hl, hc⟩
  · obtain ⟨hk, rfl⟩ := List.getElem?_eq_some_iff.1 hl
    rw [List.getElem_cons_drop, List.take_append_drop]
  · intro b hb
    simp [h.nearest b hb]

/-- What a frame runs: a method of a class that has passed the checks, in the layer that the class is loaded from. Its
hooks are those of the tracers of this layer. -/
structure Frame.Runs (u : LoadingUnit) (f : Frame) (l : Layer) (c : ClassFile) (m : Method) : Prop where
  layer : u.layerOf? f.className = some l
  mem_layers : l ∈ u.layers
  defined : l.class? f.className = some (LinkedClass.ofClassFile c)
  name : c.name = f.className
  method : f.method = LinkedMethod.ofMethod m
  mem : m ∈ c.methods
  checked : Verifier.check .instrumented c = .ok ()
  owned : c.OwnedBy l.instrumentation

/-- **Every frame runs what its layer made of a class.** -/
theorem Frame.Found.exists_runs {u : LoadingUnit} (hu : u.Built) {f : Frame} (h : f.Found u) :
    ∃ l c m, f.Runs u l c m := by
  obtain ⟨name, d, hfind, hname, hm⟩ := h
  obtain ⟨k, hk⟩ := LoadingUnit.findIn_eq_some_iff.1 hfind
  obtain ⟨l, hlayer, hl, hclass⟩ := hk.layerOf?_eq
  obtain ⟨e, he, rfl⟩ := Option.map_eq_some_iff.1 hclass
  obtain ⟨c, hc⟩ := hu.owned l hl _ (LoadingUnit.getNamed?_mem he)
  have hlinked : e.linked = LinkedClass.ofClassFile c := hc.linked
  rw [hlinked] at hname hm hclass
  have hname : c.name = f.className := hname
  obtain rfl : f.className = name := hname.symm.trans hc.name
  obtain ⟨m, hm, hmethod⟩ := List.mem_map.1 hm
  exact ⟨l, c, m, hlayer, hl, hclass, hname, hmethod.symm, hm, hc.checked, hc.owned⟩

theorem Frame.Runs.exists_puts {u : LoadingUnit} {f : Frame} {l : Layer} {c : ClassFile} {m : Method}
    (h : f.Runs u l c m) {x : Instruction} (hx : f.method.code[f.next]? = some x) (hhook : x.isHook = true) :
    ∃ i ∈ l.instrumentation, i.Puts c m x := by
  refine h.owned m h.mem x ?_ hhook
  have hmem := Array.mem_of_getElem? hx
  rw [h.method] at hmem
  simpa [LinkedMethod.ofMethod] using hmem

/-! ### The two tracers -/

namespace Layer

variable (l : Layer)

def lineTrace? : Option LineTrace.Instrumentation :=
  l.instrumentation.findSome? fun
    | .lineTrace i => some i
    | _ => none

def methodTrace? : Option MethodTrace.Instrumentation :=
  l.instrumentation.findSome? fun
    | .methodTrace i => some i
    | _ => none

/-- The site that the layer has a number for. -/
def site? (n : Nat) : Option MethodTrace.Site := l.methodTrace?.bind (·.sites[n]?)

/-- The tracers of a layer do not get in each other's way: each has its own name, and probes put in no calls into
others. No table is beyond what a number of 64 bits can count. -/
structure Orderly : Prop where
  nodup : (l.instrumentation.map (·.id)).Nodup
  unforged : ∀ a active, .probe a active ∈ l.instrumentation →
    ∀ tracer name operands, .hook tracer name operands ∈ a.insert.getD [] → tracer = Probe.id
  methods : ∀ i, .lineTrace i ∈ l.instrumentation → i.methods.length ≤ 2 ^ 64
  sites : ∀ i, .methodTrace i ∈ l.instrumentation → i.sites.size ≤ 2 ^ 64

end Layer

theorem Layer.orderly_of_traces {l : Layer} {line : Option LineTrace.Instrumentation}
    {method : Option MethodTrace.Instrumentation} (h : l.instrumentation = Instrumentation.traces line method)
    (hmethods : ∀ i ∈ line, i.methods.length ≤ 2 ^ 64) (hsites : ∀ i ∈ method, i.sites.size ≤ 2 ^ 64) : l.Orderly where
  nodup := by
    rw [h]
    cases line <;> cases method <;> simp [Instrumentation.traces, Instrumentation.id, LineTrace.id, MethodTrace.id]
  unforged a active ha := by simp [h, Instrumentation.traces] at ha
  methods i hi := hmethods i (by simpa [h, Instrumentation.traces] using hi)
  sites i hi := hsites i (by simpa [h, Instrumentation.traces] using hi)

namespace Layer.Orderly

variable {l : Layer} {c : ClassFile} {m : Method} {name : String} {operands : List HookOperand}

theorem tracer_eq (h : l.Orderly) {a : Probe.Arguments} {active : List String}
    (ha : .probe a active ∈ l.instrumentation) {tracer : String}
    (hx : Instruction.hook tracer name operands ∈ Probe.inserted a m) : tracer = Probe.id := by
  unfold Probe.inserted at hx
  cases hinsert : a.insert with
  | none =>
    rw [hinsert] at hx
    cases List.mem_singleton.1 hx
    rfl
  | some code =>
    have hunforged := h.unforged a active ha tracer name operands
    rw [hinsert] at hx hunforged
    exact hunforged hx

theorem findSome?_eq (h : l.Orderly) {α : Type} {f : Instrumentation → Option α} {i : Instrumentation} {a : α}
    (hi : i ∈ l.instrumentation) (ha : f i = some a) (hf : ∀ j, j.id ≠ i.id → f j = none) :
    l.instrumentation.findSome? f = some a := by
  obtain ⟨front, rest, heq⟩ := List.append_of_mem hi
  have hnodup := h.nodup
  rw [heq, List.map_append, List.map_cons] at hnodup
  have hfront : ∀ j ∈ front, f j = none := fun j hj =>
    hf j ((List.nodup_append.1 hnodup).2.2 _ (List.mem_map_of_mem hj) _ List.mem_cons_self)
  rw [heq, List.findSome?_append, List.findSome?_eq_none_iff.2 hfront, List.findSome?_cons, ha]
  rfl

theorem lineTrace?_eq (h : l.Orderly) {i : LineTrace.Instrumentation} (hi : .lineTrace i ∈ l.instrumentation) :
    l.lineTrace? = some i :=
  h.findSome?_eq hi rfl fun j hj => by
    cases j with
    | lineTrace j => exact absurd rfl hj
    | methodTrace j => rfl
    | probe a active => rfl

theorem methodTrace?_eq (h : l.Orderly) {i : MethodTrace.Instrumentation}
    (hi : .methodTrace i ∈ l.instrumentation) : l.methodTrace? = some i :=
  h.findSome?_eq hi rfl fun j hj => by
    cases j with
    | lineTrace j => rfl
    | methodTrace j => exact absurd rfl hj
    | probe a active => rfl

/-- **A call into the line trace** carries the number that its method has in the table of its layer. -/
theorem exists_line (h : l.Orderly)
    (hputs : ∃ i ∈ l.instrumentation, i.Puts c m (.hook LineTrace.id name operands)) :
    ∃ i source place n, l.lineTrace? = some i ∧ c.sourceFile = some source ∧
      c.name ++ "." ++ m.name ∈ i.methods ∧ i.methods.idxOf (c.name ++ "." ++ m.name) < 2 ^ 64 ∧
      .hook LineTrace.id name operands =
        LineTrace.lineHook source (i.methods.idxOf (c.name ++ "." ++ m.name)) place n := by
  obtain ⟨i, hi, hputs⟩ := hputs
  cases i with
  | lineTrace i =>
    obtain ⟨source, place, n, hsource, hmem, hx⟩ := hputs
    have hlt := Nat.lt_of_lt_of_le (List.idxOf_lt_length_iff.2 hmem) (h.methods i hi)
    exact ⟨i, source, place, n, h.lineTrace?_eq hi, hsource, hmem, hlt, hx⟩
  | methodTrace i =>
    obtain ⟨n, -, hx⟩ := hputs
    have hid : LineTrace.id = MethodTrace.id := (Instruction.hook.inj hx).1
    exact absurd hid (by decide)
  | probe a active => exact absurd (h.tracer_eq hi hputs) (by decide)

/-- **A call into the method trace** carries a number that its layer has the site of its method for. -/
theorem exists_site (h : l.Orderly)
    (hputs : ∃ i ∈ l.instrumentation, i.Puts c m (.hook MethodTrace.id name operands)) :
    ∃ n, n < 2 ^ 64 ∧ l.site? n = some (MethodTrace.siteOf c.name m) ∧
      .hook MethodTrace.id name operands = MethodTrace.enterHook n m := by
  obtain ⟨i, hi, hputs⟩ := hputs
  cases i with
  | lineTrace i =>
    obtain ⟨source, place, n, -, -, hx⟩ := hputs
    have hid : MethodTrace.id = LineTrace.id := (Instruction.hook.inj hx).1
    exact absurd hid (by decide)
  | methodTrace i =>
    obtain ⟨n, hn, hx⟩ := hputs
    have hlt : n < i.sites.size := (Array.getElem?_eq_some_iff.1 hn).1
    exact ⟨n, Nat.lt_of_lt_of_le hlt (h.sites i hi), by rw [site?, h.methodTrace?_eq hi, Option.bind_some, hn], hx⟩
  | probe a active => exact absurd (h.tracer_eq hi hputs) (by decide)

end Layer.Orderly

end Confine
