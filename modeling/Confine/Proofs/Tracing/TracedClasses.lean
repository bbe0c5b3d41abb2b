import Confine.Proofs.Tracing.HookCalls
import Confine.Proofs.Tracing.Reverified

/-!
# The classes of a unit with tracers

The line trace and the method trace go through the classes of a unit one by one. What comes of it is the same as if the
line trace went through all of them first.

* `LoadingUnit.weave` — the classes of a program with the calls of its tracers, and these with their sites;
* `LoadingUnit.exists_weaves_of_build` — **a unit that is built with tracers is one of such classes**;
* `MethodTrace.Instrumentation.Grows` — sites are only added, so each call has its own;
* `Method.Woven.hooksBehind_eq` — the hooks behind an instruction are those of its lines, and `Method.Sited.hooksAt_zero` —
  the hook at the start of a method is that of its entry.
-/

namespace Confine

/-! ### One tracer and all classes -/

namespace Instrumentation

/-- Classes that are instrumented one after the other. -/
def instrumentClasses {ι : Type} (step : ι → ClassFile → ClassFile × ι) :
    ι → List ClassFile → List ClassFile × ι
  | i, [] => ([], i)
  | i, c :: cs =>
    let q := step i c
    let rest := instrumentClasses step q.2 cs
    (q.1 :: rest.1, rest.2)

/-- A class with its lines, if there is a line trace. -/
def lineClass (origin : Origin) (line : Option LineTrace.Instrumentation) (c : ClassFile) :
    ClassFile × Option LineTrace.Instrumentation :=
  match line with
  | none => (c, none)
  | some i => ((i.instrument origin c).1, some (i.instrument origin c).2)

/-- A class with its entries, if there is a method trace. -/
def methodClass (origin : Origin) (method : Option MethodTrace.Instrumentation) (c : ClassFile) :
    ClassFile × Option MethodTrace.Instrumentation :=
  match method with
  | none => (c, none)
  | some i => ((i.instrument origin c).1, some (i.instrument origin c).2)

variable (origin : Origin) (line : Option LineTrace.Instrumentation)
  (method : Option MethodTrace.Instrumentation)

def lined (cs : List ClassFile) : List ClassFile × Option LineTrace.Instrumentation :=
  instrumentClasses (lineClass origin) line cs

def entered (cs : List ClassFile) : List ClassFile × Option MethodTrace.Instrumentation :=
  instrumentClasses (methodClass origin) method cs

theorem instrumentClasses_none {ι : Type} {step : Option ι → ClassFile → ClassFile × Option ι}
    (hstep : ∀ c, step none c = (c, none)) (cs : List ClassFile) :
    instrumentClasses step none cs = (cs, none) := by
  induction cs with
  | nil => rfl
  | cons c cs ih => rw [instrumentClasses, hstep, ih]

theorem lined_none (cs : List ClassFile) : lined origin none cs = (cs, none) :=
  instrumentClasses_none (fun _ => rfl) cs

theorem entered_none (cs : List ClassFile) : entered origin none cs = (cs, none) :=
  instrumentClasses_none (fun _ => rfl) cs

theorem instrumentAll_traces_eq (c : ClassFile) : instrumentAll origin c (traces line method) =
    .ok ((methodClass origin method (lineClass origin line c).1).1,
      traces (lineClass origin line c).2 (methodClass origin method (lineClass origin line c).1).2) := by
  cases line <;> cases method <;> rfl

end Instrumentation

namespace LoadingUnit

open Instrumentation (traces lined entered lineClass methodClass)

/-- The class that an entry of a program was read as. -/
structure Reads (e : String × ByteArray) (c : ClassFile) : Prop where
  decoded : ClassFile.decodeBytes? e.2 = some c
  name_eq : c.name = e.1
  submitted : Verifier.check .submitted c = .ok ()

/-- **What the tracers make of the classes of a program**: the line trace first, of all of them. -/
theorem classes_of_defineAll {origin : Origin} {l : List (String × ByteArray)}
    {done classes : List (String × DefinedClass)} {is : List Instrumentation}
    {line : Option LineTrace.Instrumentation} {method : Option MethodTrace.Instrumentation}
    (h : defineAll origin (traces line method) done l = .ok (classes, is)) :
    ∃ cs, List.Forall₂ Reads l cs ∧
      classes = done.reverse ++
        List.zipWith (fun e c => (e.1, definedClass c)) l (entered origin method (lined origin line cs).1).1 ∧
      is = traces (lined origin line cs).2 (entered origin method (lined origin line cs).1).2 := by
  induction l generalizing done line method with
  | nil =>
    simp only [defineAll, Except.ok.injEq, Prod.mk.injEq] at h
    obtain ⟨rfl, rfl⟩ := h
    exact ⟨[], .nil, by simp, rfl⟩
  | cons e rest ih =>
    obtain ⟨d, is₁, he, hrest⟩ := defineAll_cons_eq_ok_iff.1 h
    obtain ⟨c, c', hc, rfl⟩ := define_eq_ok_iff.1 he
    have hmade := hc.instrumented
    rw [Instrumentation.instrumentAll_traces_eq, Except.ok.injEq, Prod.mk.injEq] at hmade
    obtain ⟨rfl, rfl⟩ := hmade
    obtain ⟨cs, hreads, hclasses, his⟩ := ih hrest
    refine ⟨c :: cs, .cons ⟨hc.decoded, hc.name_eq, hc.submitted⟩ hreads, ?_, his⟩
    rw [hclasses, List.reverse_cons, List.append_assoc]
    rfl

end LoadingUnit

/-! ### Sites -/

/-- A method as the method trace leaves it: with the call of its own site at the start, if some instruction is real.
There are no sites if the method is not traced. -/
def Method.Sited (sites : Option (Array MethodTrace.Site)) (className : String) (m m' : Method) : Prop :=
  match sites with
  | none => m' = m
  | some sites =>
    if m.hasRealCode then
      ∃ n, sites[n]? = some (MethodTrace.siteOf className m) ∧ m' = MethodTrace.instrumentMethod n m
    else m' = m

theorem Method.Sited.entered {sites : Option (Array MethodTrace.Site)} {className : String} {m m' : Method}
    (h : m.Sited sites className m') : m.Entered m' := by
  cases sites with
  | none => exact .inl h
  | some sites =>
    unfold Method.Sited at h
    dsimp only at h
    split at h
    · obtain ⟨n, -, rfl⟩ := h
      exact .inr ⟨n, rfl⟩
    · exact .inl h

namespace MethodTrace.Instrumentation

/-- The tracer has got to know more sites, behind those that it knew. -/
structure Grows (i i' : Instrumentation) : Prop where
  arguments : i'.arguments = i.arguments
  withLines : i'.withLines = i.withLines
  sites : i.sites.toList <+: i'.sites.toList

theorem Grows.refl (i : Instrumentation) : i.Grows i := ⟨rfl, rfl, List.prefix_rfl⟩

theorem Grows.trans {i i' i'' : Instrumentation} (h : i.Grows i') (h' : i'.Grows i'') : i.Grows i'' :=
  ⟨h'.arguments.trans h.arguments, h'.withLines.trans h.withLines, h.sites.trans h'.sites⟩

/-- A site keeps its number. -/
theorem Grows.sited {i i' : Instrumentation} (h : i.Grows i') {className : String} {m m' : Method}
    (hm : m.Sited (some i.sites) className m') : m.Sited (some i'.sites) className m' := by
  unfold Method.Sited at hm ⊢
  dsimp only at hm ⊢
  split
  · next hreal =>
    rw [if_pos hreal] at hm
    obtain ⟨n, hn, rfl⟩ := hm
    rw [← Array.getElem?_toList] at hn
    refine ⟨n, ?_, rfl⟩
    rw [← Array.getElem?_toList]
    obtain ⟨more, hmore⟩ := h.sites
    rw [← hmore, List.getElem?_append_left (List.getElem?_eq_some_iff.1 hn).1]
    exact hn
  · next hreal => rwa [if_neg hreal] at hm

/-- **Each method with a real instruction gets the call of its own site.** -/
theorem sited_instrumentMethods (i : Instrumentation) (className : String) (ms : List Method) :
    i.Grows (i.instrumentMethods className ms).2 ∧
      List.Forall₂ (Method.Sited (some (i.instrumentMethods className ms).2.sites) className) ms
        (i.instrumentMethods className ms).1 := by
  induction ms generalizing i with
  | nil => exact ⟨.refl i, .nil⟩
  | cons m ms ih =>
    unfold instrumentMethods
    cases hreal : m.hasRealCode with
    | true =>
      obtain ⟨hgrows, hms⟩ := ih { i with sites := i.sites.push (siteOf className m) }
      have hone : i.Grows { i with sites := i.sites.push (siteOf className m) } :=
        ⟨rfl, rfl, by simp⟩
      have hm : m.Sited (some (i.sites.push (siteOf className m))) className
          (instrumentMethod i.sites.size m) := by
        unfold Method.Sited
        dsimp only
        rw [if_pos hreal]
        exact ⟨i.sites.size, by simp, rfl⟩
      exact ⟨hone.trans hgrows, .cons (hgrows.sited hm) hms⟩
    | false =>
      obtain ⟨hgrows, hms⟩ := ih i
      refine ⟨hgrows, .cons ?_ hms⟩
      unfold Method.Sited
      simp [hreal]

end MethodTrace.Instrumentation

namespace Instrumentation

/-- The sites of the classes of an origin; there are none if these are not traced. -/
def sites? (origin : Origin) (method : Option MethodTrace.Instrumentation) :
    Option (Array MethodTrace.Site) :=
  match origin with
  | .untrusted => method.map (·.sites)
  | .trusted => none

variable {origin : Origin}

/-- The line trace goes through all classes. -/
theorem changed_lined (line : Option LineTrace.Instrumentation) (cs : List ClassFile) :
    ((lined origin line cs).2.map (·.arguments) = line.map (·.arguments)) ∧
      List.Forall₂ (fun c c' => c.Changed (Method.Lined (lineSource? origin line c)) c') cs
        (lined origin line cs).1 := by
  induction cs generalizing line with
  | nil => exact ⟨rfl, .nil⟩
  | cons c cs ih =>
    obtain ⟨harguments, hcs⟩ := ih (lineClass origin line c).2
    have hone : (lineClass origin line c).2.map (·.arguments) = line.map (·.arguments) := by
      cases line with
      | none => rfl
      | some i => exact congrArg some (arguments_instrument i origin c)
    have hsource : lineSource? origin (lineClass origin line c).2 = lineSource? origin line := by
      cases origin <;> cases line <;> rfl
    have hc : c.Changed (Method.Lined (lineSource? origin line c)) (lineClass origin line c).1 := by
      cases line with
      | none => exact .refl (fun m => by cases origin <;> rfl) c
      | some i => exact changed_lineTrace i origin c
    exact ⟨harguments.trans hone, .cons hc (hsource ▸ hcs)⟩

/-- **The method trace goes through all classes.** The sites that it knows in the end are those of all methods that it
has put a call into. -/
theorem changed_entered (method : Option MethodTrace.Instrumentation) (cs : List ClassFile) :
    Option.Rel MethodTrace.Instrumentation.Grows method (entered origin method cs).2 ∧
      List.Forall₂ (fun c c' =>
          c.Changed (Method.Sited (sites? origin (entered origin method cs).2) c.name) c') cs
        (entered origin method cs).1 := by
  induction cs generalizing method with
  | nil =>
    refine ⟨?_, .nil⟩
    cases method with
    | none => exact .none
    | some i => exact .some (.refl i)
  | cons c cs ih =>
    obtain ⟨hgrows, hcs⟩ := ih (methodClass origin method c).2
    have hlast : (entered origin method (c :: cs)).2 =
        (entered origin (methodClass origin method c).2 cs).2 := rfl
    rw [hlast]
    generalize (entered origin (methodClass origin method c).2 cs).2 = last at hgrows hcs
    cases method with
    | none =>
      cases hgrows
      refine ⟨.none, .cons (.refl (fun m => ?_) c) hcs⟩
      cases origin <;> rfl
    | some i =>
      cases hgrows with
      | @some _ i' hgrows =>
        cases origin with
        | trusted => exact ⟨.some hgrows, .cons (.refl (R := Method.Sited none c.name) (fun m => rfl) c) hcs⟩
        | untrusted =>
          obtain ⟨hone, hms⟩ := i.sited_instrumentMethods c.name c.methods
          exact ⟨.some (hone.trans hgrows), .cons ⟨rfl, rfl, hms.imp fun m m' hm => hgrows.sited hm⟩ hcs⟩

end Instrumentation

/-! ### Units -/

/-- A method as it is in a unit with tracers: with its lines, and with its entry in front. -/
def Method.Woven (source : Option String) (sites : Option (Array MethodTrace.Site)) (className : String)
    (m m' : Method) : Prop := ∃ m₁, m.Lined source m₁ ∧ m₁.Sited sites className m'

/-- The classes of a program in a unit with tracers, and the tracers when they have seen them all. -/
structure WovenClasses where
  line : Option LineTrace.Instrumentation
  method : Option MethodTrace.Instrumentation
  classes : List ClassFile

namespace LoadingUnit

open Instrumentation (traces lined entered)

def lineStart (line : Option LineTrace.Arguments) : Option LineTrace.Instrumentation := line.map .start

def methodStart (line : Option LineTrace.Arguments) (method : Option MethodTrace.Arguments) :
    Option MethodTrace.Instrumentation := method.map (⟨·, line.isSome, #[]⟩)

theorem ofRoster_traces_eq (line : Option LineTrace.Arguments) (method : Option MethodTrace.Arguments) :
    Instrumentation.ofRoster (.traces line method) = traces (lineStart line) (methodStart line method) := by
  cases line <;> cases method <;> rfl

/-- The classes are traced, one after the other. -/
def weave (origin : Origin) (line : Option LineTrace.Arguments) (method : Option MethodTrace.Arguments)
    (cs : List ClassFile) : WovenClasses :=
  let q := lined origin (lineStart line) cs
  let q' := entered origin (methodStart line method) q.1
  ⟨q.2, q'.2, q'.1⟩

section Weave

variable (origin : Origin) (line : Option LineTrace.Arguments) (method : Option MethodTrace.Arguments)
  (cs : List ClassFile)

/-- **What becomes of the methods of each class.** -/
theorem changed_weave : List.Forall₂ (fun c c' => c.Changed (Method.Woven
      (Instrumentation.lineSource? origin (lineStart line) c)
      (Instrumentation.sites? origin (weave origin line method cs).method) c.name) c') cs
    (weave origin line method cs).classes := by
  obtain ⟨-, hlined⟩ := @Instrumentation.changed_lined origin (lineStart line) cs
  obtain ⟨-, hentered⟩ := @Instrumentation.changed_entered origin (methodStart line method)
    (lined origin (lineStart line) cs).1
  refine (forall₂_comp hlined hentered).imp ?_
  rintro c c' ⟨c₁, h, h'⟩
  exact (h.comp (h.name ▸ h')).mono fun _ _ hm => hm

theorem arguments_weave : (weave origin line method cs).line.map (·.arguments) = line := by
  rw [weave, (Instrumentation.changed_lined (lineStart line) cs).1]
  cases line <;> rfl

theorem runLineLimit_weave {line : Option LineTrace.Arguments} (h : ∀ b ∈ line, b.runLineLimit = none) :
    ∀ i ∈ (weave origin line method cs).line, i.arguments.runLineLimit = none := by
  intro i hi
  have harguments := arguments_weave origin line method cs
  rw [Option.mem_def.1 hi] at harguments
  exact h _ harguments.symm

theorem grows_weave :
    Option.Rel MethodTrace.Instrumentation.Grows (methodStart line method)
      (weave origin line method cs).method :=
  (Instrumentation.changed_entered _ _).1

theorem methodArguments_weave : (weave origin line method cs).method.map (·.arguments) = method := by
  have hgrows := grows_weave origin line method cs
  generalize (weave origin line method cs).method = o at hgrows
  generalize hstart : methodStart line method = o' at hgrows
  cases hgrows with
  | none => cases method <;> first | rfl | cases hstart
  | some hgrows =>
    obtain ⟨b, rfl, rfl⟩ := Option.map_eq_some_iff.1 hstart
    exact congrArg some hgrows.arguments

end Weave

def entry (c : ClassFile) : String × DefinedClass := (c.name, definedClass c)

/-- **The unit has the classes of a program, traced.** -/
structure Weaves (u : LoadingUnit) (w : WovenClasses) : Prop where
  classes : u.own.classes = w.classes.map entry
  instrumentation : u.own.instrumentation = traces w.line w.method

theorem zipWith_entry {l : List (String × ByteArray)} {cs cs' : List ClassFile}
    (h : List.Forall₂ Reads l cs) (hcs : List.Forall₂ (fun c c' => c'.name = c.name) cs cs') :
    List.zipWith (fun e c => (e.1, definedClass c)) l cs' = cs'.map entry := by
  induction h generalizing cs' with
  | nil =>
    cases hcs
    rfl
  | cons hc _ ih =>
    cases hcs with
    | cons hname hcs => rw [List.zipWith_cons_cons, List.map_cons, ih hcs, entry, hname, hc.name_eq]

/-- **What is built from a plan with tracers.** -/
theorem exists_weaves_of_build {p : Plan} {id : UnitId} {u : LoadingUnit}
    {line : Option LineTrace.Arguments} {method : Option MethodTrace.Arguments}
    (h : build { p with tracers := .traces line method } id = .ok u) :
    ∃ cs, List.Forall₂ Reads p.program.classes cs ∧ u.Weaves (weave p.origin line method cs) := by
  obtain ⟨-, classes, is, hall, rfl⟩ := build_eq_ok_iff.1 h
  rw [ofRoster_traces_eq] at hall
  obtain ⟨cs, hreads, rfl, rfl⟩ := classes_of_defineAll hall
  refine ⟨cs, hreads, ?_, rfl⟩
  exact zipWith_entry hreads ((changed_weave p.origin line method cs).imp fun _ _ h => h.name)

theorem reads_unique {l : List (String × ByteArray)} {cs cs' : List ClassFile} (h : List.Forall₂ Reads l cs)
    (h' : List.Forall₂ Reads l cs') : cs' = cs := by
  induction h generalizing cs' with
  | nil =>
    cases h'
    rfl
  | cons hc _ ih =>
    cases h' with
    | cons hc' h' => rw [ih h', Option.some.inj (hc.decoded.symm.trans hc'.decoded)]

theorem weave_none (origin : Origin) (cs : List ClassFile) :
    weave origin none none cs = ⟨none, none, cs⟩ := by
  have hline : lineStart none = none := rfl
  have hmethod : methodStart none none = none := rfl
  rw [weave, hline, hmethod, Instrumentation.lined_none, Instrumentation.entered_none]

end LoadingUnit

/-! ### The hooks of a traced method -/

namespace Method

variable {source : Option String} {sites : Option (Array MethodTrace.Site)} {className : String}
  {m m₁ m' : Method}

theorem Entered.hooksBehind_eq (h : m.Entered m') (j : Nat) :
    hooksBehind m'.code j = hooksBehind m.code j := by
  rcases h with rfl | ⟨n, rfl⟩
  · rfl
  · exact hooksBehind_cons_of_hook rfl m.code j

theorem Lined.hooksAt_zero (h : m.Lined source m₁) (hm : ∀ i ∈ m.code, i.isHook = false) :
    hooksAt m₁.code 0 = [] := by
  cases source with
  | none =>
    obtain rfl : m₁ = m := h
    unfold hooksAt
    cases hcode : m₁.code with
    | nil => rfl
    | cons i rest => exact List.takeWhile_cons_of_neg (by simp [hm i (by simp [hcode])])
  | some s =>
    obtain ⟨n, rfl⟩ := h
    exact (LineTrace.hooked_insertHooks _ [] m.code).takeWhile_eq_nil hm

/-- **In front of a traced method stands its entry**, if it has one. -/
theorem Sited.hooksAt_zero (h : m.Sited sites className m') (hm : hooksAt m.code 0 = []) :
    ((sites = none ∨ m.hasRealCode = false) ∧ hooksAt m'.code 0 = []) ∨
      ∃ known n, sites = some known ∧ m.hasRealCode = true ∧
        known[n]? = some (MethodTrace.siteOf className m) ∧
        hooksAt m'.code 0 = [MethodTrace.enterHook n m] := by
  cases sites with
  | none =>
    obtain rfl : m' = m := h
    exact .inl ⟨.inl rfl, hm⟩
  | some known =>
    unfold Sited at h
    dsimp only at h
    split at h
    · next hreal =>
      obtain ⟨n, hn, rfl⟩ := h
      refine .inr ⟨known, n, rfl, hreal, hn, ?_⟩
      have hhook : (MethodTrace.instrumentMethod n m).code[0]? = some (MethodTrace.enterHook n m) := rfl
      rw [hooksAt_of_hook hhook rfl]
      exact congrArg _ hm
    · next hreal =>
      subst h
      exact .inl ⟨.inr (by simpa using hreal), hm⟩

theorem Woven.traced (h : m.Woven source sites className m') : m.Traced source m' := by
  obtain ⟨m₁, h, h'⟩ := h
  exact ⟨m₁, h, h'.entered⟩

/-- **Behind the instructions of a traced method stand the hooks of its lines.** -/
theorem Woven.hooksBehind_eq (h : m.Woven source sites className m')
    (hm : ∀ i ∈ m.code, i.isHook = false) :
    (source = none ∧ ∀ j, hooksBehind m'.code j = []) ∨
      ∃ s number, source = some s ∧
        ∀ j, hooksBehind m'.code j = sitedAt (LineTrace.hookOf? s number m) m.code j := by
  obtain ⟨m₁, h, h'⟩ := h
  cases source with
  | none =>
    obtain rfl : m₁ = m := h
    exact .inl ⟨rfl, fun j => (h'.entered.hooksBehind_eq j).trans (hooksBehind_of_not_isHook hm j)⟩
  | some s =>
    obtain ⟨number, rfl⟩ := h
    exact .inr ⟨s, number, rfl, fun j => (h'.entered.hooksBehind_eq j).trans
      (LineTrace.hooksBehind_instrumentMethod hm s number j)⟩

/-- Behind a real instruction stand none. -/
theorem Woven.tidy (h : m.Woven source sites className m') (hm : Verifier.Verified .submitted m) :
    (LinkedMethod.ofMethod m').Tidy := by
  have hcode : ∀ i ∈ m.code, i.isHook = false := fun i => hm.not_isHook
  have hnone : ∀ j, (∀ i, m.code[j]? = some i → i.isMark = false) → hooksBehind m'.code j = [] := by
    intro j hj
    rcases h.hooksBehind_eq hcode with ⟨-, hnone⟩ | ⟨s, number, -, hsited⟩
    · exact hnone j
    · rw [hsited, sitedAt_of_not_isMark _ hj]
  intro k i hi hmark hhook
  rw [← Array.getElem?_toList] at hi
  have hi : m'.code[k]? = some i := hi
  have hat : hookAt m'.code k = false := by simp [hookAt, hi, hhook]
  have hplain : Confine.withoutHooks m'.code = m.code := by
    rw [h.traced.weaves.code]
    exact List.filter_eq_self.2 fun i hi => by simp [hcode i hi]
  have hsame : m.code[keptBefore m'.code k]? = some i := by
    rw [← hplain, getElem?_keptBefore hat, hi]
  have hhooks : hooksAt m'.code (k + 1) = [] := by
    rw [hooksAt_succ (List.getElem?_eq_some_iff.1 hi).1 hat]
    exact hnone _ fun i' hi' => Option.some.inj (hsame.symm.trans hi') ▸ hmark
  show hookAt m'.code (k + 1) = false
  rw [hookAt, Option.any_eq_false]
  intro i' hi'
  by_contra hne
  rw [hooksAt_of_hook hi' (by simpa using hne)] at hhooks
  cases hhooks

end Method

end Confine
