import Confine.Tracing.Tracer
import Confine.Proofs.Program.Verified
import Mathlib.Data.List.Forall2

/-!
# What tracers do to code

The line trace and the method trace put hooks into code and change nothing else.

* `LineTrace.Hooked` — how hooks come into code, and `LineTrace.hooked_insertHooks`: that is what the line trace does;
* `Method.Weaves m m'` — but for hooks, `m'` is `m`: its labels, jumps, handlers and locals are those of `m`
  (`Method.Weaves.labels`, `Method.Weaves.referenced`, `Method.Weaves.targets`);
* `Instrumentation.instrumentAll_traces` — what the two tracers make of a class is woven from it.
-/

namespace Confine

/-- The instruction calls a tracer. -/
def Instruction.isHook : Instruction → Bool
  | hook _ _ _ => true
  | _ => false

/-- The code without its hooks. -/
def withoutHooks (code : List Instruction) : List Instruction := code.filter (!·.isHook)

theorem withoutHooks_of_hooks {l : List Instruction} (h : ∀ i ∈ l, i.isHook = true) :
    withoutHooks l = [] := by
  refine List.filter_eq_nil_iff.2 fun i hi => ?_
  simp [h i hi]

theorem Verifier.Verified.not_isHook {m : Method} (h : Verifier.Verified .submitted m)
    {i : Instruction} (hi : i ∈ m.code) : i.isHook = false := by
  have := h.operands i hi
  cases i <;> simp_all [checkOperands, Instruction.isHook]

/-! ### Where the line trace puts its hooks -/

namespace LineTrace

variable {hook? : Label → Option Instruction}

theorem insertHooks_done (done deferred code : List Instruction) :
    insertHooks hook? done deferred code = done.reverse ++ insertHooks hook? [] deferred code := by
  induction code generalizing done deferred with
  | nil => simp [insertHooks]
  | cons i rest ih =>
    -- what is put behind `done` comes in front of the rest
    have step : ∀ (more deferred : List Instruction),
        insertHooks hook? (more ++ done) deferred rest =
          done.reverse ++ insertHooks hook? more deferred rest := by
      intro more deferred
      rw [ih (more ++ done), ih more, List.reverse_append, List.append_assoc]
    cases i with
    | label l =>
      unfold insertHooks
      cases hook? l with
      | none => exact step [.label l] deferred
      | some h =>
        dsimp only
        split
        · exact step [.label l] (h :: deferred)
        · exact step [h, .label l] deferred
    | frame n =>
      have := step (deferred ++ [.frame n]) []
      rw [List.append_assoc] at this
      exact this
    | _ => exact step [_] deferred

/-- **How hooks come into code.** A traced label has its hook at once, or behind the next frame; until then
the hook is deferred. -/
inductive Hooked (hook? : Label → Option Instruction) :
    List Instruction → List Instruction → List Instruction → Prop where
  | nil (deferred : List Instruction) : Hooked hook? deferred [] []
  | untraced {l : Label} {deferred rest out : List Instruction} (hl : hook? l = none)
      (h : Hooked hook? deferred rest out) : Hooked hook? deferred (.label l :: rest) (.label l :: out)
  | later {l : Label} {k : Instruction} {deferred rest out : List Instruction}
      (hl : hook? l = some k) (hf : frameFollows rest = true)
      (h : Hooked hook? (k :: deferred) rest out) :
      Hooked hook? deferred (.label l :: rest) (.label l :: out)
  | atOnce {l : Label} {k : Instruction} {deferred rest out : List Instruction}
      (hl : hook? l = some k) (hf : frameFollows rest = false)
      (h : Hooked hook? deferred rest out) :
      Hooked hook? deferred (.label l :: rest) (.label l :: k :: out)
  | frame (n : UInt16) (deferred : List Instruction) {rest out : List Instruction}
      (h : Hooked hook? [] rest out) :
      Hooked hook? deferred (.frame n :: rest) (.frame n :: (deferred.reverse ++ out))
  | other {i : Instruction} {deferred rest out : List Instruction} (hl : i.label? = none)
      (hf : ∀ n, i ≠ .frame n) (h : Hooked hook? deferred rest out) :
      Hooked hook? deferred (i :: rest) (i :: out)

theorem hooked_insertHooks (hook? : Label → Option Instruction) (deferred code : List Instruction) :
    Hooked hook? deferred code (insertHooks hook? [] deferred code) := by
  induction code generalizing deferred with
  | nil => exact .nil deferred
  | cons i rest ih =>
    cases i with
    | label l =>
      unfold insertHooks
      cases hl : hook? l with
      | none =>
        dsimp only
        rw [insertHooks_done]
        exact .untraced hl (ih deferred)
      | some k =>
        dsimp only
        cases hf : frameFollows rest with
        | true =>
          rw [if_pos rfl, insertHooks_done]
          exact .later hl hf (ih (k :: deferred))
        | false =>
          rw [if_neg Bool.false_ne_true, insertHooks_done]
          exact .atOnce hl hf (ih deferred)
    | frame n =>
      rw [insertHooks, insertHooks_done, List.reverse_append]
      exact .frame n deferred (ih [])
    | _ =>
      unfold insertHooks
      rw [insertHooks_done]
      exact .other rfl (by simp) (ih deferred)

/-- Every instruction of the result was there before, or was deferred, or is a hook of a label. -/
theorem Hooked.mem {deferred code out : List Instruction} (h : Hooked hook? deferred code out)
    {i : Instruction} (hi : i ∈ out) : i ∈ code ∨ i ∈ deferred ∨ ∃ l, hook? l = some i := by
  induction h with
  | nil deferred => cases hi
  | untraced hl _ ih =>
    rcases List.mem_cons.1 hi with rfl | hi
    · simp
    · rcases ih hi with h | h | h <;> simp [h]
  | @later l k _ _ _ hl _ _ ih =>
    rcases List.mem_cons.1 hi with rfl | hi
    · simp
    · rcases ih hi with h | h | h
      · simp [h]
      · rcases List.mem_cons.1 h with rfl | h
        · exact .inr (.inr ⟨l, hl⟩)
        · simp [h]
      · simp [h]
  | @atOnce l k _ _ _ hl _ _ ih =>
    rcases List.mem_cons.1 hi with rfl | hi
    · simp
    · rcases List.mem_cons.1 hi with rfl | hi
      · exact .inr (.inr ⟨l, hl⟩)
      · rcases ih hi with h | h | h <;> simp [h]
  | frame n deferred _ ih =>
    rw [List.mem_cons, List.mem_append, List.mem_reverse] at hi
    rcases hi with rfl | hi | hi
    · simp
    · simp [hi]
    · rcases ih hi with h | h | h
      · simp [h]
      · cases h
      · simp [h]
  | other _ _ _ ih =>
    rcases List.mem_cons.1 hi with rfl | hi
    · simp
    · rcases ih hi with h | h | h <;> simp [h]

/-- Without its hooks the code is what it was. -/
theorem Hooked.withoutHooks_eq {deferred code out : List Instruction}
    (h : Hooked hook? deferred code out) (hh : ∀ l i, hook? l = some i → i.isHook = true)
    (hd : ∀ i ∈ deferred, i.isHook = true) : withoutHooks out = withoutHooks code := by
  have cons : ∀ {i : Instruction} {a b : List Instruction}, withoutHooks a = withoutHooks b →
      withoutHooks (i :: a) = withoutHooks (i :: b) := by
    intro i a b hab
    unfold withoutHooks at hab ⊢
    rw [List.filter_cons, List.filter_cons, hab]
  induction h with
  | nil deferred => rfl
  | untraced _ _ ih => exact cons (ih hd)
  | later hl _ _ ih => exact cons (ih (List.forall_mem_cons.2 ⟨hh _ _ hl, hd⟩))
  | @atOnce l k _ _ out hl _ _ ih =>
    have hk : withoutHooks (k :: out) = withoutHooks out := by simp [withoutHooks, hh _ _ hl]
    exact cons (hk.trans (ih hd))
  | @frame n deferred rest out _ ih =>
    have hrev := withoutHooks_of_hooks fun i hi => hd i (List.mem_reverse.1 hi)
    have hout : withoutHooks (deferred.reverse ++ out) = withoutHooks out := by
      unfold withoutHooks at hrev ⊢
      rw [List.filter_append, hrev, List.nil_append]
    exact cons (hout.trans (ih (by simp)))
  | other _ _ _ ih => exact cons (ih hd)

/-- Without traced labels nothing changes. -/
theorem Hooked.eq_of_none {code out : List Instruction} (h : Hooked hook? [] code out)
    (hn : ∀ l ∈ code.filterMap Instruction.label?, hook? l = none) : out = code := by
  generalize hd : ([] : List Instruction) = deferred at h
  induction h with
  | nil deferred => rfl
  | untraced hl _ ih => rw [ih (fun l hl => hn l (by simp [hl, Instruction.label?])) hd]
  | later hl _ _ _ | atOnce hl _ _ _ =>
    rw [hn _ (by simp [Instruction.label?])] at hl
    cases hl
  | frame n deferred _ ih =>
    subst hd
    rw [List.filterMap_cons_none rfl] at hn
    rw [ih hn rfl]
    rfl
  | other hl _ _ ih =>
    rw [List.filterMap_cons_none hl] at hn
    rw [ih hn hd]

/-! ### Which labels are traced -/

def hookOf? (source : String) (number : Nat) (m : Method) (l : Label) : Option Instruction :=
  (traced? m.labels (lineStarts m) l).map fun t => lineHook source number t.1 t.2

theorem instrumentMethod_eq (source : String) (number : Nat) (m : Method) :
    instrumentMethod source number m =
      { m with code := insertHooks (hookOf? source number m) [] [] m.code } := rfl

variable {source : String} {number : Nat} {m : Method} {l : Label}

theorem isHook_of_hookOf {i : Instruction} (h : hookOf? source number m l = some i) :
    i.isHook = true := by
  obtain ⟨t, -, rfl⟩ := Option.map_eq_some_iff.1 h
  rfl

theorem mem_lineStarts {p : Label × UInt32} :
    p ∈ lineStarts m ↔ Instruction.lineNumber p.2 p.1 ∈ m.code := by
  simp only [lineStarts, List.mem_reverse, List.mem_filterMap]
  constructor
  · rintro ⟨i, hi, h⟩
    cases i <;> simp only [Option.some.injEq, reduceCtorEq] at h
    exact h ▸ hi
  · exact fun h => ⟨_, h, rfl⟩

theorem isSome_lookup_lineStarts :
    ((lineStarts m).lookup l).isSome ↔ ∃ n, Instruction.lineNumber n l ∈ m.code := by
  rw [List.lookup_isSome_iff]
  constructor
  · rintro ⟨p, hp, h⟩
    rw [beq_iff_eq] at h
    exact ⟨p.2, h ▸ mem_lineStarts.1 hp⟩
  · rintro ⟨n, hn⟩
    exact ⟨(l, n), mem_lineStarts.2 hn, beq_self_eq_true l⟩

theorem isSome_hookOf (hl : l ∈ m.labels) :
    (hookOf? source number m l).isSome ↔ ∃ n, Instruction.lineNumber n l ∈ m.code := by
  have hs : (sequence? m.labels l).isSome := by
    simpa [sequence?, List.findIdx?_isSome] using hl
  rw [← isSome_lookup_lineStarts]
  obtain ⟨k, hk⟩ := Option.isSome_iff_exists.1 hs
  cases h : (lineStarts m).lookup l <;> simp [hookOf?, traced?, h, hk]

theorem instrumentMethod_of_not_hasTraced (h : hasTraced m = false) (source : String)
    (number : Nat) : instrumentMethod source number m = m := by
  have hnone : ∀ l ∈ m.labels, hookOf? source number m l = none := by
    intro l hl
    rw [← Option.not_isSome_iff_eq_none, isSome_hookOf hl]
    rintro ⟨n, hn⟩
    simp only [hasTraced, List.any_eq_false] at h
    exact h (l, n) (mem_lineStarts.2 hn) (by simpa using hl)
  rw [instrumentMethod_eq, (hooked_insertHooks _ [] m.code).eq_of_none hnone]

namespace Instrumentation

theorem forall₂_instrumentMethods (i : Instrumentation) (className source : String)
    (ms : List Method) :
    List.Forall₂ (fun m m' => ∃ n, m' = instrumentMethod source n m) ms
      (i.instrumentMethods className source ms).1 := by
  induction ms generalizing i with
  | nil => exact .nil
  | cons m ms ih =>
    unfold instrumentMethods
    cases h : hasTraced m with
    | true => exact .cons ⟨_, rfl⟩ (ih _)
    | false => exact .cons ⟨0, (instrumentMethod_of_not_hasTraced h source 0).symm⟩ (ih _)

end Instrumentation

end LineTrace

theorem MethodTrace.Instrumentation.forall₂_instrumentMethods (i : Instrumentation)
    (className : String) (ms : List Method) :
    List.Forall₂ (fun m m' => m' = m ∨ ∃ n, m' = instrumentMethod n m) ms
      (i.instrumentMethods className ms).1 := by
  induction ms generalizing i with
  | nil => exact .nil
  | cons m ms ih =>
    unfold instrumentMethods
    cases h : m.hasRealCode with
    | true => exact .cons (.inr ⟨_, rfl⟩) (ih _)
    | false => exact .cons (.inl rfl) (ih _)

/-! ### Weaving -/

theorem filterMap_withoutHooks {α : Type} {f : Instruction → Option α}
    (hf : ∀ i, i.isHook = true → f i = none) (code : List Instruction) :
    (withoutHooks code).filterMap f = code.filterMap f := by
  induction code with
  | nil => rfl
  | cons i rest ih =>
    simp only [withoutHooks] at ih ⊢
    cases hi : i.isHook with
    | true => rw [List.filter_cons_of_neg (by simp [hi]), ih, List.filterMap_cons_none (hf i hi)]
    | false =>
      rw [List.filter_cons_of_pos (by simp [hi]), List.filterMap_cons, List.filterMap_cons, ih]

/-- **But for hooks, a method is another one.** -/
structure Method.Weaves (m m' : Method) : Prop where
  same : m' = { m with code := m'.code }
  code : withoutHooks m'.code = withoutHooks m.code

namespace Method.Weaves

variable {m m' m'' : Method}

theorem refl (m : Method) : m.Weaves m := ⟨rfl, rfl⟩

theorem trans (h : m.Weaves m') (h' : m'.Weaves m'') : m.Weaves m'' := by
  refine ⟨h'.same.trans ?_, h'.code.trans h.code⟩
  rw [h.same]

theorem filterMap_code {α : Type} (h : m.Weaves m') {f : Instruction → Option α}
    (hf : ∀ i, i.isHook = true → f i = none) : m'.code.filterMap f = m.code.filterMap f := by
  rw [← filterMap_withoutHooks hf, h.code, filterMap_withoutHooks hf]

theorem name (h : m.Weaves m') : m'.name = m.name := by rw [h.same]

theorem maxLocals (h : m.Weaves m') : m'.maxLocals = m.maxLocals := by rw [h.same]

theorem handlers (h : m.Weaves m') : m'.handlers = m.handlers := by rw [h.same]

theorem requiredSlots (h : m.Weaves m') : m'.requiredSlots = m.requiredSlots := by
  rw [h.same]
  rfl

theorem labels (h : m.Weaves m') : m'.labels = m.labels :=
  h.filterMap_code fun i hi => by cases i <;> simp_all [Instruction.isHook, Instruction.label?]

theorem targets (h : m.Weaves m') : Verifier.targets m' = Verifier.targets m := by
  have hj : m'.jumpTargets = m.jumpTargets := h.filterMap_code fun i hi => by
    cases i <;> simp_all [Instruction.isHook, Instruction.jumpTarget?]
  rw [Verifier.targets, Verifier.targets, hj, h.handlers]

theorem mem_code (h : m.Weaves m') {i : Instruction} (hi : i.isHook = false) :
    i ∈ m'.code ↔ i ∈ m.code := by
  have mem : ∀ code, i ∈ withoutHooks code ↔ i ∈ code := fun code => by
    simp [withoutHooks, hi]
  rw [← mem, h.code, mem]

theorem mem_referenced (h : m.Weaves m') {l : Label} :
    l ∈ Verifier.referenced m' ↔ l ∈ Verifier.referenced m := by
  rw [Verifier.referenced, Verifier.referenced, h.handlers, List.mem_append, List.mem_append]
  refine or_congr_left ?_
  rw [List.mem_flatMap, List.mem_flatMap]
  refine exists_congr fun i => ?_
  cases hi : i.isHook with
  | false => rw [h.mem_code hi]
  | true => cases i <;> simp_all [Instruction.isHook, Verifier.mentions]

end Method.Weaves

theorem LineTrace.weaves_instrumentMethod (source : String) (number : Nat) (m : Method) :
    m.Weaves (instrumentMethod source number m) :=
  ⟨rfl, (hooked_insertHooks _ [] m.code).withoutHooks_eq (fun _ _ => isHook_of_hookOf) (by simp)⟩

theorem MethodTrace.weaves_instrumentMethod (site : Nat) (m : Method) :
    m.Weaves (instrumentMethod site m) := ⟨rfl, rfl⟩

/-! ### The two tracers together -/

/-- The line trace and the method trace, with the arguments of those that are wanted. -/
def Roster.traces (line : Option LineTrace.Arguments) (method : Option MethodTrace.Arguments) :
    Roster Tracer := ⟨(line.map .lineTrace).toList ++ (method.map .methodTrace).toList⟩

theorem Roster.members_addAll {r t : Roster Tracer} {l : List Tracer} (h : r.addAll l = .ok t) :
    t.members = r.members ++ l := by
  induction l generalizing r with
  | nil =>
    simp only [addAll, Except.ok.injEq] at h
    simp [h]
  | cons a rest ih =>
    unfold addAll at h
    split at h
    · cases h
    · next r' hr =>
      unfold add at hr
      split at hr
      · cases hr
      · split at hr
        · cases hr
        · simp only [Except.ok.injEq] at hr
          rw [ih h, ← hr, List.append_assoc]
          rfl

/-- The line trace and the method trace make a roster in this order only. -/
theorem Roster.addAll_eq_ok_iff {l : List Tracer} (hl : ∀ t ∈ l, ∀ a, t ≠ .probe a)
    {r : Roster Tracer} :
    Roster.empty.addAll l = .ok r ↔ ∃ line method, r = .traces line method ∧ l = r.members := by
  constructor
  · intro h
    have hm : r.members = l := members_addAll h
    have hids : (l.map Member.id).Nodup := by
      rw [← hm]
      exact nodup_addAll (by simp [empty, ids]) h
    suffices ∃ line method, l = (traces line method).members by
      obtain ⟨line, method, h⟩ := this
      exact ⟨line, method, by rw [← hm] at h; cases r; exact congrArg _ h, hm.symm⟩
    -- of three tracers, two would have the same name
    rcases l with _ | ⟨a, _ | ⟨b, _ | ⟨c, rest⟩⟩⟩
    · exact ⟨none, none, rfl⟩
    · -- one tracer is either of the two
      cases a with
      | lineTrace a => exact ⟨some a, none, rfl⟩
      | methodTrace a => exact ⟨none, some a, rfl⟩
      | probe a => exact absurd rfl (hl _ (by simp) a)
    · -- two of them are the line trace and the method trace, in this order
      cases a with
      | probe a => exact absurd rfl (hl _ (by simp) a)
      | lineTrace a =>
        cases b with
        | probe b => exact absurd rfl (hl _ (by simp) b)
        | lineTrace b => simp [Member.id, Tracer.id] at hids
        | methodTrace b => exact ⟨some a, some b, rfl⟩
      | methodTrace a =>
        cases b with
        | probe b => exact absurd rfl (hl _ (by simp) b)
        | lineTrace b => cases h
        | methodTrace b => simp [Member.id, Tracer.id] at hids
    · have names : ∀ t ∈ a :: b :: c :: rest, Member.id t = LineTrace.id ∨
          Member.id t = MethodTrace.id := by
        intro t ht
        cases t with
        | lineTrace _ => exact .inl rfl
        | methodTrace _ => exact .inr rfl
        | probe p => exact absurd rfl (hl _ ht p)
      have ha := names a (by simp)
      have hb := names b (by simp)
      have hc := names c (by simp)
      simp only [List.map_cons, List.nodup_cons, List.mem_cons, not_or] at hids
      rcases ha with ha | ha <;> rcases hb with hb | hb <;> rcases hc with hc | hc <;>
        simp [ha, hb, hc] at hids
  · rintro ⟨line, method, rfl, rfl⟩
    cases line <;> cases method <;> rfl

theorem Roster.contains_lineTrace (line : Option LineTrace.Arguments)
    (method : Option MethodTrace.Arguments) :
    (Roster.traces line method).contains LineTrace.id = line.isSome := by
  cases line <;> cases method <;> rfl

namespace Instrumentation

def traces (line : Option LineTrace.Instrumentation)
    (method : Option MethodTrace.Instrumentation) : List Instrumentation :=
  (line.map .lineTrace).toList ++ (method.map .methodTrace).toList

/-- The names tell which tracers they are. -/
theorem eq_traces_of_ids {is : List Instrumentation} {line : Option LineTrace.Arguments}
    {method : Option MethodTrace.Arguments}
    (h : is.map id = (Roster.traces line method).ids) :
    ∃ line' method', is = traces line' method' ∧ line'.isSome = line.isSome := by
  have ofLine : ∀ {i : Instrumentation}, i.id = LineTrace.id → ∃ j, i = .lineTrace j := by
    intro i hi
    cases i with
    | lineTrace j => exact ⟨j, rfl⟩
    | methodTrace j => cases (show ¬ MethodTrace.id = LineTrace.id by decide) hi
    | probe a active => cases (show ¬ Probe.id = LineTrace.id by decide) hi
  have ofMethod : ∀ {i : Instrumentation}, i.id = MethodTrace.id → ∃ j, i = .methodTrace j := by
    intro i hi
    cases i with
    | lineTrace j => cases (show ¬ LineTrace.id = MethodTrace.id by decide) hi
    | methodTrace j => exact ⟨j, rfl⟩
    | probe a active => cases (show ¬ Probe.id = MethodTrace.id by decide) hi
  cases line with
  | none =>
    cases method with
    | none => exact ⟨none, none, List.map_eq_nil_iff.1 h, rfl⟩
    | some m =>
      obtain ⟨i, rfl, hi⟩ := List.map_eq_singleton_iff.1 h
      obtain ⟨j, rfl⟩ := ofMethod hi
      exact ⟨none, some j, rfl, rfl⟩
  | some l =>
    cases method with
    | none =>
      obtain ⟨i, rfl, hi⟩ := List.map_eq_singleton_iff.1 h
      obtain ⟨j, rfl⟩ := ofLine hi
      exact ⟨some j, none, rfl, rfl⟩
    | some m =>
      obtain ⟨i, rest, rfl, hi, hrest⟩ := List.map_eq_cons_iff.1 h
      obtain ⟨k, rfl, hk⟩ := List.map_eq_singleton_iff.1 hrest
      obtain ⟨j, rfl⟩ := ofLine hi
      obtain ⟨j', rfl⟩ := ofMethod hk
      exact ⟨some j, some j', rfl, rfl⟩

theorem ofRoster_traces (line : Option LineTrace.Arguments)
    (method : Option MethodTrace.Arguments) :
    ∃ line' method', ofRoster (.traces line method) = traces line' method' ∧
      line'.map (·.arguments) = line := by
  cases line <;> cases method
  · exact ⟨none, none, rfl, rfl⟩
  · exact ⟨none, some _, rfl, rfl⟩
  · exact ⟨some _, none, rfl, rfl⟩
  · exact ⟨some _, some _, rfl, rfl⟩

end Instrumentation

def Method.Lined (source : Option String) (m m' : Method) : Prop :=
  match source with
  | none => m' = m
  | some s => ∃ n, m' = LineTrace.instrumentMethod s n m

def Method.Entered (m m' : Method) : Prop := m' = m ∨ ∃ n, m' = MethodTrace.instrumentMethod n m

def Method.Traced (source : Option String) (m m' : Method) : Prop :=
  ∃ m₁, m.Lined source m₁ ∧ m₁.Entered m'

theorem Method.Traced.weaves {source : Option String} {m m' : Method} (h : m.Traced source m') :
    m.Weaves m' := by
  obtain ⟨m₁, h₁, h'⟩ := h
  have hw : m.Weaves m₁ := by
    cases source with
    | none => exact h₁ ▸ .refl m
    | some s =>
      obtain ⟨n, rfl⟩ := h₁
      exact LineTrace.weaves_instrumentMethod s n m
  rcases h' with rfl | ⟨n, rfl⟩
  · exact hw
  · exact hw.trans (MethodTrace.weaves_instrumentMethod n _)

theorem forall₂_comp {α β γ : Type} {R : α → β → Prop} {S : β → γ → Prop} {a : List α} {b : List β}
    {d : List γ} (h : List.Forall₂ R a b) (h' : List.Forall₂ S b d) :
    List.Forall₂ (fun x z => ∃ y, R x y ∧ S y z) a d := by
  induction h generalizing d with
  | nil =>
    cases h'
    exact .nil
  | cons hR _ ih =>
    cases h' with
    | cons hS h' => exact .cons ⟨_, hR, hS⟩ (ih h')

/-- The methods of a class have changed, each as `R` says; nothing else has. -/
structure ClassFile.Changed (R : Method → Method → Prop) (c c' : ClassFile) : Prop where
  name : c'.name = c.name
  sourceFile : c'.sourceFile = c.sourceFile
  methods : List.Forall₂ R c.methods c'.methods

namespace ClassFile.Changed

variable {R S : Method → Method → Prop} {c c' c'' : ClassFile}

theorem mono (h : c.Changed R c') (hRS : ∀ m m', R m m' → S m m') : c.Changed S c' :=
  ⟨h.name, h.sourceFile, h.methods.imp hRS⟩

theorem comp (h : c.Changed R c') (h' : c'.Changed S c'') :
    c.Changed (fun m m' => ∃ m₁, R m m₁ ∧ S m₁ m') c'' :=
  ⟨h'.name.trans h.name, h'.sourceFile.trans h.sourceFile, forall₂_comp h.methods h'.methods⟩

theorem refl (hR : ∀ m, R m m) (c : ClassFile) : c.Changed R c :=
  ⟨rfl, rfl, List.forall₂_same.2 fun m _ => hR m⟩

end ClassFile.Changed

namespace Instrumentation

/-- The source whose lines are traced. -/
def lineSource? (origin : Origin) (line : Option LineTrace.Instrumentation) (c : ClassFile) :
    Option String :=
  match origin, line with
  | .untrusted, some _ => c.sourceFile
  | _, _ => none

theorem arguments_instrument (i : LineTrace.Instrumentation) (origin : Origin) (c : ClassFile) :
    (i.instrument origin c).2.arguments = i.arguments := by
  have methods : ∀ (i : LineTrace.Instrumentation) className source ms,
      (i.instrumentMethods className source ms).2.arguments = i.arguments := by
    intro i className source ms
    induction ms generalizing i with
    | nil => rfl
    | cons m ms ih =>
      unfold LineTrace.Instrumentation.instrumentMethods
      split
      · refine (ih _).trans ?_
        unfold LineTrace.Instrumentation.number
        split <;> rfl
      · exact ih i
  unfold LineTrace.Instrumentation.instrument
  split
  · exact methods i _ _ _
  · rfl

theorem changed_lineTrace (i : LineTrace.Instrumentation) (origin : Origin) (c : ClassFile) :
    c.Changed (Method.Lined (lineSource? origin (some i) c)) (i.instrument origin c).1 := by
  cases origin with
  | trusted => exact .refl (R := Method.Lined none) (fun _ => rfl) c
  | untrusted =>
    obtain ⟨name, sourceFile, methods⟩ := c
    cases sourceFile with
    | none => exact .refl (R := Method.Lined none) (fun _ => rfl) _
    | some source => exact ⟨rfl, rfl, i.forall₂_instrumentMethods name source methods⟩

theorem changed_methodTrace (i : MethodTrace.Instrumentation) (origin : Origin) (c : ClassFile) :
    c.Changed Method.Entered (i.instrument origin c).1 := by
  cases origin with
  | trusted => exact .refl (fun _ => .inl rfl) c
  | untrusted => exact ⟨rfl, rfl, i.forall₂_instrumentMethods c.name c.methods⟩

/-- **What the two tracers make of a class.** They never refuse, and put hooks into its methods. -/
theorem instrumentAll_traces (origin : Origin) (c : ClassFile)
    (line : Option LineTrace.Instrumentation) (method : Option MethodTrace.Instrumentation) :
    ∃ c' line' method', instrumentAll origin c (traces line method) =
        .ok (c', traces line' method') ∧
      line'.map (·.arguments) = line.map (·.arguments) ∧
      c.Changed (Method.Traced (lineSource? origin line c)) c' := by
  have unlined : ∀ m, Method.Lined (lineSource? origin none c) m m := fun m => by
    cases origin <;> rfl
  cases line with
  | none =>
    cases method with
    | none => exact ⟨c, none, none, rfl, rfl, .refl (fun m => ⟨m, unlined m, .inl rfl⟩) c⟩
    | some j =>
      exact ⟨_, none, some _, rfl, rfl,
        (ClassFile.Changed.refl unlined c).comp (changed_methodTrace j origin c)⟩
  | some i =>
    have hi := changed_lineTrace i origin c
    have ha := congrArg some (arguments_instrument i origin c)
    cases method with
    | none =>
      exact ⟨_, some _, none, rfl, ha, hi.mono fun m m' h => ⟨m', h, .inl rfl⟩⟩
    | some j =>
      exact ⟨_, some _, some _, rfl, ha, hi.comp (changed_methodTrace j origin _)⟩

end Instrumentation

end Confine
