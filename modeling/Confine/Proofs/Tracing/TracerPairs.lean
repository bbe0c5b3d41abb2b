import Confine.Proofs.Tracing.TracedLines

/-!
# One tracer, and both

What the line trace puts into a program is the same if the method trace comes behind it. What the method trace puts there
is the same if the line trace was there before, unless a method has lines but no real instruction: the method trace then
takes the calls of the line trace for such.

* `Method.Hollow` — a method with lines and without a real instruction, and `LoadingUnit.NoHollow` — there is none;
* `LoadingUnit.sameEntry_weave` — otherwise methods have the same sites and the same entry in both cases;
* `Solo.lineCalls_callsUpTo` — **the line trace gets the same calls in a run with both**;
* `Solo.enters_callsUpTo_both` — **and the method trace is told of the same entries**, if no method is hollow.
-/

namespace Confine

/-! ### Entries of methods -/

/-- A method has lines, but no real instruction. -/
def Method.Hollow (m : Method) : Prop := m.hasRealCode = false ∧ LineTrace.hasTraced m = true

instance (m : Method) : Decidable m.Hollow := inferInstanceAs (Decidable (_ ∧ _))

/-- The method trace makes the same of two methods. -/
structure Method.SameEntry (m m' : Method) : Prop where
  name : m'.name = m.name
  isStatic : m'.isStatic = m.isStatic
  params : m'.params = m.params
  hasRealCode : m'.hasRealCode = m.hasRealCode
  front : hooksAt m'.code 0 = hooksAt m.code 0

namespace Method

variable {m m' : Method}

theorem SameEntry.siteOf_eq (h : m.SameEntry m') (className : String) :
    MethodTrace.siteOf className m' = MethodTrace.siteOf className m := by
  simp [MethodTrace.siteOf, descriptor, h.name, h.isStatic, h.params]

theorem SameEntry.instrumentMethod (h : m.SameEntry m') (n : Nat) :
    (MethodTrace.instrumentMethod n m).SameEntry (MethodTrace.instrumentMethod n m') := by
  have hhook : MethodTrace.enterHook n m' = MethodTrace.enterHook n m := by
    simp [MethodTrace.enterHook, firstParamSlot, h.isStatic, h.params]
  refine ⟨h.name, h.isStatic, h.params, rfl, ?_⟩
  have hfront : ∀ m : Method, hooksAt (MethodTrace.instrumentMethod n m).code 0 =
      MethodTrace.enterHook n m :: hooksAt m.code 0 := fun m => hooksAt_of_hook rfl rfl
  rw [hfront, hfront, hhook, h.front]

/-- **The hooks of lines make no difference to the entry** of a method with a real instruction, or without lines. -/
theorem Lined.sameEntry {source : Option String} (h : m.Lined source m')
    (hm : Verifier.Verified .submitted m) (hhollow : source.isSome = true → ¬ m.Hollow) : m.SameEntry m' := by
  have hplain : ∀ i ∈ m.code, i.isHook = false := fun i => hm.not_isHook
  have hweaves : m.Weaves m' := Traced.weaves ⟨m', h, .inl rfl⟩
  have hsame := hweaves.same
  have hstart : hooksAt m'.code 0 = hooksAt m.code 0 :=
    (h.hooksAt_zero hplain).trans (@Lined.hooksAt_zero none m m rfl hplain).symm
  refine ⟨by rw [hsame], by rw [hsame], by rw [hsame], ?_, hstart⟩
  cases hreal : m.hasRealCode with
  | true =>
    obtain ⟨i, hi, hmark⟩ := List.any_eq_true.1 hreal
    exact List.any_eq_true.2 ⟨i, (hweaves.mem_code (hplain i hi)).2 hi, hmark⟩
  | false =>
    cases source with
    | none =>
      obtain rfl : m' = m := h
      exact hreal
    | some s =>
      obtain ⟨n, rfl⟩ := h
      have htraced : LineTrace.hasTraced m = false := by
        by_contra hne
        exact hhollow rfl ⟨hreal, by simpa using hne⟩
      rw [LineTrace.instrumentMethod_of_not_hasTraced htraced]
      exact hreal

end Method

namespace MethodTrace.Instrumentation

/-- The method trace gives the same numbers to methods of which it makes the same. -/
theorem sameEntry_instrumentMethods {i i' : Instrumentation} (hi : i'.sites = i.sites) (className : String)
    {ms ms' : List Method} (h : List.Forall₂ Method.SameEntry ms ms') :
    (i'.instrumentMethods className ms').2.sites = (i.instrumentMethods className ms).2.sites ∧
      List.Forall₂ Method.SameEntry (i.instrumentMethods className ms).1
        (i'.instrumentMethods className ms').1 := by
  induction h generalizing i i' with
  | nil => exact ⟨hi, .nil⟩
  | @cons m m' ms ms' hm _ ih =>
    unfold instrumentMethods
    rw [hm.hasRealCode]
    cases m.hasRealCode with
    | true =>
      have hsites : i'.sites.push (siteOf className m') = i.sites.push (siteOf className m) := by
        rw [hi, hm.siteOf_eq]
      obtain ⟨hsame, hms⟩ := @ih { i with sites := i.sites.push (siteOf className m) }
        { i' with sites := i'.sites.push (siteOf className m') } hsites
      exact ⟨hsame, .cons (hi ▸ hm.instrumentMethod _) hms⟩
    | false =>
      obtain ⟨hsame, hms⟩ := ih hi
      exact ⟨hsame, .cons hm hms⟩

end MethodTrace.Instrumentation

namespace Instrumentation

theorem sameEntry_entered (origin : Origin) {i i' : MethodTrace.Instrumentation} (hi : i'.sites = i.sites)
    {cs cs' : List ClassFile} (h : List.Forall₂ (ClassFile.Changed Method.SameEntry) cs cs') :
    (entered origin (some i') cs').2.map (·.sites) = (entered origin (some i) cs).2.map (·.sites) ∧
      List.Forall₂ (ClassFile.Changed Method.SameEntry) (entered origin (some i) cs).1
        (entered origin (some i') cs').1 := by
  induction h generalizing i i' with
  | nil => exact ⟨congrArg some hi, .nil⟩
  | @cons c c' cs cs' hc _ ih =>
    cases origin with
    | trusted =>
      obtain ⟨hsame, hcs⟩ := ih hi
      exact ⟨hsame, .cons hc hcs⟩
    | untrusted =>
      have hmethods := MethodTrace.Instrumentation.sameEntry_instrumentMethods hi c.name hc.methods
      obtain ⟨hsites, hms⟩ : (i'.instrument .untrusted c').2.sites = (i.instrument .untrusted c).2.sites ∧
          List.Forall₂ Method.SameEntry (i.instrument .untrusted c).1.methods
            (i'.instrument .untrusted c').1.methods := by
        unfold MethodTrace.Instrumentation.instrument
        rw [hc.name]
        exact hmethods
      obtain ⟨hsame, hcs⟩ := ih hsites
      exact ⟨hsame, .cons ⟨hc.name, hc.sourceFile, hms⟩ hcs⟩

end Instrumentation

/-! ### What is woven -/

namespace LoadingUnit

open Instrumentation (lined entered)

variable (origin : Origin) (line : Option LineTrace.Arguments) (cs : List ClassFile)

theorem classes_weave_line : (weave origin line none cs).classes = (lined origin (lineStart line) cs).1 := by
  have hmethod : methodStart line none = none := rfl
  rw [weave, hmethod, Instrumentation.entered_none]

/-- **What the line trace has made of the classes is under what both make of them.** -/
theorem entered_weave (method : Option MethodTrace.Arguments) :
    List.Forall₂ (ClassFile.Changed Method.Entered) (weave origin line none cs).classes
      (weave origin line method cs).classes := by
  rw [classes_weave_line]
  refine ((Instrumentation.changed_entered (methodStart line method) _).2).imp fun c c' h => ?_
  exact h.mono fun _ _ hm => hm.entered

/-- No method is hollow whose lines are traced. -/
def NoHollow : Prop :=
  origin = .untrusted → ∀ c ∈ cs, c.sourceFile.isSome = true → ∀ m ∈ c.methods, ¬ m.Hollow

variable {cs origin}

/-- **What the method trace makes of the classes it makes of them behind the line trace too**, if none is hollow. -/
theorem sameEntry_weave (hcs : ∀ c ∈ cs, Verifier.check .submitted c = .ok ()) (hhollow : NoHollow origin cs)
    (a : MethodTrace.Arguments) :
    (weave origin line (some a) cs).method.map (·.sites) = (weave origin none (some a) cs).method.map (·.sites) ∧
      List.Forall₂ (ClassFile.Changed Method.SameEntry) (weave origin none (some a) cs).classes
        (weave origin line (some a) cs).classes := by
  have hlined : List.Forall₂ (ClassFile.Changed Method.SameEntry) cs (lined origin (lineStart line) cs).1 := by
    refine ((List.forall₂_and_left (p := (· ∈ cs)) _ _).2
      ⟨fun _ hc => hc, (@Instrumentation.changed_lined origin (lineStart line) cs).2⟩).imp fun c c' ⟨hc, h⟩ =>
        ⟨h.name, h.sourceFile, ?_⟩
    refine ((List.forall₂_and_left (p := (· ∈ c.methods)) _ _).2 ⟨fun _ hm => hm, h.methods⟩).imp ?_
    rintro m m' ⟨hm, hline⟩
    refine hline.sameEntry ((Verifier.check_eq_ok_iff.1 (hcs c hc)).2 m hm) fun hsource => ?_
    cases origin with
    | trusted => cases hsource
    | untrusted =>
      cases hstart : lineStart line with
      | none => simp [Instrumentation.lineSource?, hstart] at hsource
      | some i =>
        rw [hstart] at hsource
        exact hhollow rfl c hc hsource m hm
  have hnone : (lined origin (lineStart none) cs).1 = cs := by
    have hline : lineStart none = none := rfl
    rw [hline, Instrumentation.lined_none]
  rw [weave, weave, hnone]
  exact @Instrumentation.sameEntry_entered origin ⟨a, false, #[]⟩ ⟨a, line.isSome, #[]⟩ rfl _ _ hlined

end LoadingUnit

/-! ### The calls of a frame -/

namespace LoadingUnit

variable {u u' : LoadingUnit} {f : Frame} {R : LinkedMethod → LinkedMethod → Prop}

theorem passing_congr (h : Option.Rel R (u.methodOf? f) (u'.methodOf? f))
    (hR : ∀ l l', R l l' → ∀ j, hooksBehind l'.code.toList j = hooksBehind l.code.toList j) (t : Task)
    (s : TaskState) : u'.passing t s f = u.passing t s f := by
  unfold passing codeOf
  generalize u.methodOf? f = o at h
  generalize u'.methodOf? f = o' at h
  cases h with
  | none => rfl
  | some h => simp [hR _ _ h]

theorem ahead_congr (h : Option.Rel R (u.methodOf? f) (u'.methodOf? f))
    (hR : ∀ l l', R l l' → hooksAt l'.code.toList 0 = hooksAt l.code.toList 0) (hnext : f.next = 0) :
    u'.ahead f = u.ahead f := by
  unfold ahead codeOf
  rw [hnext]
  generalize u.methodOf? f = o at h
  generalize u'.methodOf? f = o' at h
  cases h with
  | none => rfl
  | some h => simp [hR _ _ h]

variable {cs : List ClassFile} {origin : Origin} {line : Option LineTrace.Arguments}

/-- **The same calls belong to an instruction** with the line trace alone, and with both. -/
theorem passing_both {method : Option MethodTrace.Arguments} (hu : u.Weaves (weave origin line none cs))
    (hu' : u'.Weaves (weave origin line method cs)) (f : Frame) (t : Task) (s : TaskState) :
    u'.passing t s f = u.passing t s f := by
  have hname : ∀ (c : ClassFile) m m', Method.Entered m m' → m'.name = m.name := by
    rintro - m m' (rfl | ⟨n, rfl⟩) <;> rfl
  refine passing_congr (hu.methodOf?_rel hu' (entered_weave origin line cs method) hname f) ?_ t s
  rintro _ _ ⟨-, m, m', rfl, rfl, hm⟩ j
  exact hm.hooksBehind_eq j

/-- **The same is ahead of a method** with the method trace alone, and with both. -/
theorem ahead_both {a : MethodTrace.Arguments} (hcs : ∀ c ∈ cs, Verifier.check .submitted c = .ok ())
    (hhollow : NoHollow origin cs) (hu : u.Weaves (weave origin none (some a) cs))
    (hu' : u'.Weaves (weave origin line (some a) cs)) {f : Frame} (hnext : f.next = 0) :
    u'.ahead f = u.ahead f := by
  refine ahead_congr (hu.methodOf?_rel hu' (sameEntry_weave line hcs hhollow a).2 (fun _ _ _ hm => hm.name) f) ?_
    hnext
  rintro _ _ ⟨-, m, m', rfl, rfl, hm⟩
  exact hm.front

open MethodTrace.Recording (enterOf?)

/-- Between the instructions of a program lines are reported, and nothing else. -/
theorem Traces.hooksBehind_id {method : Option MethodTrace.Arguments} (h : Traces cs origin line method u)
    (f : Frame) (j : Nat) : ∀ c ∈ (hooksBehind (u.codeOf f) j).filterMap f.hookCall?, c.1 = LineTrace.id := by
  intro c hc
  obtain ⟨i, hi, hcall⟩ := List.mem_filterMap.1 hc
  rcases h.methodOf_cases f with ⟨-, hnone⟩ | ⟨d, hd, m, hm, m', -, hsome, hwoven⟩
  · rw [codeOf, hnone] at hi
    cases hi
  · have hcode : u.codeOf f = m'.code := by
      rw [codeOf, hsome]
      rfl
    rw [hcode] at hi
    rcases hwoven.hooksBehind_eq fun i => (h.verified hd hm).not_isHook with ⟨-, hnone⟩ | ⟨s, n, -, hbehind⟩
    · rw [hnone] at hi
      cases hi
    · rw [hbehind] at hi
      obtain ⟨k, -, hk⟩ := List.mem_filterMap.1 hi
      split at hk
      · obtain ⟨l, -, hl⟩ := Option.bind_eq_some_iff.1 hk
        obtain ⟨t, -, rfl⟩ := Option.map_eq_some_iff.1 hl
        cases hcall
        rfl
      · cases hk

/-- The entries that are reported between instructions are those of another unit. -/
theorem Traces.enters_passing {method : Option MethodTrace.Arguments} (h : Traces cs origin line method u)
    (i : MethodTrace.Instrumentation) (f : Frame) (t : Task) (s : TaskState) :
    (u.passing t s f).filterMap (enterOf? i) =
      (((f.method.code[f.next]?.bind f.hookCall?).filter fun _ => (programMethod? cs f).isNone).bind
        (enterOf? i)).toList := by
  have hnolines : ∀ j, ((hooksBehind (u.codeOf f) j).filterMap f.hookCall?).filterMap (enterOf? i) = [] := by
    intro j
    refine List.filterMap_eq_nil_iff.2 fun c hc => if_neg ?_
    rw [h.hooksBehind_id f j c hc]
    exact Recordings.id_ne.symm
  unfold passing
  cases f.method.code[f.next]?.bind f.hookCall? with
  | none =>
    dsimp only
    split
    · exact hnolines _
    · rfl
  | some c =>
    rcases h.methodOf_cases f with ⟨hp, hm⟩ | ⟨_, _, _, _, _, hp, hm, _⟩
    · simp only [hp, hm, Option.isSome_none, Option.isNone_none, Option.filter_some_pos, Option.bind_some,
        Bool.false_eq_true, if_false]
      rw [List.filterMap_cons]
      cases enterOf? i c <;> rfl
    · simp [hp, hm]

end LoadingUnit

/-! ### The calls of a thread -/

def lineCalls (calls : List (String × HookCall)) : List (String × HookCall) :=
  calls.filter (·.1 == LineTrace.id)

theorem lineCalls_append (l l' : List (String × HookCall)) :
    lineCalls (l ++ l') = lineCalls l ++ lineCalls l' := List.filter_append ..

theorem MethodTrace.Recording.enterOf_congr {i i' : Instrumentation} (h : i'.sites = i.sites) :
    enterOf? i' = enterOf? i := by
  funext c
  simp only [enterOf?, enter?, h]

namespace Solo

open MethodTrace.Recording (enterOf?)

variable {σ : Type} {t : Task} {answer : (r : HostRequest) → StateM σ r.Answer} {x : Solo σ}
  {cs : List ClassFile} {origin : Origin} {line : Option LineTrace.Arguments}

section Congr

variable {α : Type} {F : List (String × HookCall) → List α} (hF : ∀ l l', F (l ++ l') = F l ++ F l')
  {u u' : LoadingUnit} (hu : t.unit.Built)
  (hpassing : ∀ s f, f.Found t.unit → F (u'.passing t s f) = F (u.passing t s f))
  (hahead : ∀ g : Frame, g.Found t.unit → g.next = 0 → F (u'.ahead g) = F (u.ahead g))

include hF hu hpassing hahead

/-- What is told alike of each instruction and of each entry is told alike of a step. -/
theorem calls_congr (hr : x.Reaches t) (hc : x.shared.cancelled = false) :
    F (x.calls t answer u') = F (x.calls t answer u) := by
  cases hx : x.frames with
  | nil => rw [calls_of_nil hx, calls_of_nil hx]
  | cons f outer =>
    rw [calls_of_frames hx, calls_of_frames hx, hF, hF, hpassing _ _ (hr.found hu f (by simp [hx]))]
    cases he : x.entered? t answer with
    | none => rfl
    | some g =>
      obtain ⟨hg, hnext⟩ := found_of_entered hu hr hc he
      exact congrArg _ (hahead g hg hnext)

theorem callsUpTo_congr (hr : x.Reaches t) (hc : ∀ n, ((step t answer)^[n] x).shared.cancelled = false)
    (hstart : ∀ f ∈ x.frames, f.next = 0) (n : Nat) :
    F (x.callsUpTo t answer u' n) = F (x.callsUpTo t answer u n) := by
  induction n with
  | zero =>
    simp only [callsUpTo, List.range_zero, List.flatMap_nil, List.append_nil]
    cases hx : x.frames with
    | nil => rw [ahead_of_nil hx, ahead_of_nil hx]
    | cons f outer =>
      rw [ahead_of_frames hx, ahead_of_frames hx]
      exact hahead f (hr.found hu f (by simp [hx])) (hstart f (by simp [hx]))
  | succ n ih =>
    rw [callsUpTo_succ, callsUpTo_succ, hF, hF, ih,
      calls_congr hF hu hpassing hahead (reaches_iterate t answer hr n) (hc n)]

end Congr

section Both

variable (hu : t.unit.Built) (hr : x.Reaches t) (hc : ∀ n, ((step t answer)^[n] x).shared.cancelled = false)
  (hstart : ∀ f ∈ x.frames, f.next = 0) {method : Option MethodTrace.Arguments} {u u' : LoadingUnit}

include hu hr hc hstart

/-- **The lines of a run are the same** with the line trace alone, and with both. -/
theorem lineCalls_callsUpTo (h : LoadingUnit.Tracing cs origin line none t.unit u)
    (h' : LoadingUnit.Tracing cs origin line method t.unit u') (n : Nat) :
    lineCalls (x.callsUpTo t answer u' n) = lineCalls (x.callsUpTo t answer u n) := by
  have hahead : ∀ {method : Option MethodTrace.Arguments} {u : LoadingUnit},
      LoadingUnit.Tracing cs origin line method t.unit u → ∀ g : Frame, g.Found t.unit → g.next = 0 →
        lineCalls (u.ahead g) = [] := by
    intro method u h g hg hnext
    refine List.filter_eq_nil_iff.2 fun c hc => ?_
    rw [h.ahead_id hu hg hnext c hc]
    decide
  refine callsUpTo_congr lineCalls_append hu (fun s f _ => ?_) (fun g hg hnext => ?_) hr hc hstart n
  · rw [LoadingUnit.passing_both h.traced h'.traced]
  · rw [hahead h g hg hnext, hahead h' g hg hnext]

/-- **The entries of a run are the same** with the method trace alone, and with both, if no method is hollow. -/
theorem enters_callsUpTo_both {a : MethodTrace.Arguments}
    (h : LoadingUnit.Tracing cs origin none (some a) t.unit u)
    (h' : LoadingUnit.Tracing cs origin line (some a) t.unit u') (hhollow : LoadingUnit.NoHollow origin cs)
    (i : MethodTrace.Instrumentation) (n : Nat) :
    (x.callsUpTo t answer u' n).filterMap (enterOf? i) = (x.callsUpTo t answer u n).filterMap (enterOf? i) := by
  refine callsUpTo_congr (F := List.filterMap (enterOf? i)) (fun _ _ => List.filterMap_append ..) hu
    (fun s f _ => ?_) (fun g hg hnext => ?_) hr hc hstart n
  · rw [h.enters_passing, h'.enters_passing]
  · rw [LoadingUnit.ahead_both h.submitted hhollow h.traced h'.traced hnext]

end Both

end Solo

end Confine
