import Confine.Proofs.Loading.Libraries
import Confine.Proofs.Tracing.HookCalls
import Confine.Proofs.Tracing.Transparent

/-!
# The calls of a thread, told from the program without tracers

A thread without tracers goes the way of one with them. The calls that the one with tracers makes belong to steps of the
other: they can be read off the program as it was handed in, and where the tracers have put their hooks.

* `LinkedMethod.Alignment.extra_eq` — what is woven into code without hooks is all its hooks;
* `Solo.Alike.calls_step` — the calls that belong to a step which both threads make are the same;
* `Solo.Alike.exists_callsUpTo` — **so are those of a whole run**.
-/

namespace Confine

/-! ### Aligned methods -/

namespace LinkedMethod.Alignment

variable {m m' : LinkedMethod} (A : m.Alignment m')

theorem extra_eq (hm : ∀ i ∈ m.code, i.isHook = false) (k : Nat) :
    A.extra k = hookAt m'.code.toList k := by
  cases hextra : A.extra k with
  | true =>
    obtain ⟨tracer, name, operands, hcode⟩ := A.hook_of_extra k hextra
    simp [hookAt, hcode, Instruction.isHook]
  | false =>
    have hfetch := A.fetch k hextra
    cases hcode : m'.code[k]? with
    | none => simp [hookAt, hcode]
    | some i =>
      have hi := hm i (Array.mem_of_getElem? (hfetch.trans hcode))
      simp [hookAt, hcode, hi]

theorem back_eq (hm : ∀ i ∈ m.code, i.isHook = false) (k : Nat) :
    A.back k = keptBefore m'.code.toList k := by
  induction k with
  | zero => rw [A.back_zero, keptBefore_zero]
  | succ k ih => rw [A.back_succ, keptBefore_succ, ih, A.extra_eq hm]

theorem back_le_self (k : Nat) : A.back k ≤ k := by
  induction k with
  | zero => exact Nat.le_of_eq A.back_zero
  | succ k ih =>
    rw [A.back_succ]
    split <;> omega

/-- A method has no more than another of its size. -/
theorem extra_of_size (hsize : m'.code.size = m.code.size) (k : Nat) : A.extra k = false := by
  by_contra hne
  have hextra : A.extra k = true := by simpa using hne
  obtain ⟨tracer, name, operands, hcode⟩ := A.hook_of_extra k hextra
  have hk : k < m'.code.size := (Array.getElem?_eq_some_iff.1 hcode).1
  have hend : A.extra m'.code.size = false := by
    by_contra hne
    obtain ⟨_, _, _, hcode⟩ := A.hook_of_extra _ (by simpa using hne)
    simp at hcode
  -- a place that is extra is one too few to get to the end
  have hnext : A.back (k + 1) ≤ k := by
    rw [A.back_succ, hextra]
    exact A.back_le_self k
  have hshort : A.back m'.code.size < m'.code.size := by
    have hmore : ∀ d, A.back (k + 1 + d) ≤ k + d := by
      intro d
      induction d with
      | zero => exact hnext
      | succ d ih =>
        rw [← Nat.add_assoc, A.back_succ]
        split <;> omega
    have := hmore (m'.code.size - (k + 1))
    rw [Nat.add_sub_cancel' hk] at this
    omega
  have hfetch := A.fetch _ hend
  rw [Array.getElem?_eq_none (Nat.le_refl _), Array.getElem?_eq_none_iff] at hfetch
  omega

end LinkedMethod.Alignment

/-! ### Frames of aligned methods -/

namespace Frame

variable {f f' : Frame}

theorem SameValues.hookCall? (h : f.SameValues f') : f'.hookCall? = f.hookCall? := by
  funext i
  have hoperand : f'.operand = f.operand := by
    funext o
    cases o with
    | constant c => rfl
    | slot i => simp [operand, h.locals]
  cases i <;> simp [Frame.hookCall?, hoperand]

theorem SameValues.methodOf? (h : f.SameValues f') (A : f.method.Alignment f'.method)
    (u : LoadingUnit) : u.methodOf? f' = u.methodOf? f := by
  have hname : f'.method.method.name = f.method.method.name := by rw [A.method]
  rw [LoadingUnit.methodOf?, LoadingUnit.methodOf?, h.className, hname]

theorem SameValues.codeOf (h : f.SameValues f') (A : f.method.Alignment f'.method)
    (u : LoadingUnit) : u.codeOf f' = u.codeOf f := by
  rw [LoadingUnit.codeOf, LoadingUnit.codeOf, h.methodOf? A]

end Frame

section Frames

variable {u u' : LoadingUnit} (hu : u.Built) (hu' : u'.Built) (h : u.Counterpart u')

include hu hu' h

/-- Two frames of classes that are not the units' own run the same method. -/
theorem Frame.Found.method_eq {f f' : Frame} (hf : f.Found u) (hf' : f'.Found u')
    (hvalues : f.SameValues f') (A : f.method.Alignment f'.method)
    (hown : u.own.class? f.className = none) : f'.method = f.method := by
  obtain ⟨name, c, hfind, hname, hm⟩ := hf
  obtain ⟨name', c', hfind', hname', hm'⟩ := hf'
  obtain ⟨cf, rfl, rfl, hchecked⟩ := hu.findClass_made hfind
  obtain ⟨cf', rfl, rfl, hchecked'⟩ := hu'.findClass_made hfind'
  have hname : cf.name = f.className := hname
  have hname' : cf'.name = f.className := hname'.trans hvalues.className
  have hown' : u'.own.class? f.className = none := by
    have hrel := h.class?_rel f.className
    rw [hown] at hrel
    generalize u'.own.class? f.className = o at hrel
    cases hrel
    rfl
  have hsame : u'.findClass f.className = u.findClass f.className := by
    unfold LoadingUnit.findClass LoadingUnit.layers
    rw [LoadingUnit.findIn, LoadingUnit.findIn, hown, hown', h.policy, h.parents]
  rw [hname] at hfind
  rw [hname', hsame, hfind] at hfind'
  have hclass : LinkedClass.ofClassFile cf = .ofClassFile cf' := Option.some.inj hfind'
  have hmethod := LinkedClass.method?_of_mem hchecked hm
  have hmethod' := LinkedClass.method?_of_mem hchecked' hm'
  have hnames : f'.method.method.name = f.method.method.name := by rw [A.method]
  rw [← hclass, hnames, hmethod] at hmethod'
  exact (Option.some.inj hmethod').symm

/-- **Which hooks are extra, and where a frame stands**: in the units' own classes all hooks are extra, and the place
counts what is no hook; in other classes no hook is. -/
theorem Frame.Found.extra_eq (hplain : u.own.HookFree) {f f' : Frame} (hf : f.Found u)
    (hf' : f'.Found u') (hvalues : f.SameValues f') (A : f.method.Alignment f'.method) (k : Nat) :
    A.extra k = (hookAt f'.method.code.toList k && (u'.own.class? f'.className).isSome) := by
  have hrel := h.class?_rel f.className
  rw [hvalues.className]
  cases hown : u.own.class? f.className with
  | none =>
    have hmethod := hf.method_eq hu hu' h hf' hvalues A hown
    rw [hown] at hrel
    generalize u'.own.class? f.className = o at hrel
    cases hrel
    rw [A.extra_of_size (by rw [hmethod])]
    simp
  | some c =>
    rw [hown] at hrel
    generalize u'.own.class? f.className = o at hrel
    cases hrel
    rw [A.extra_eq (hplain _ c hown _ (hf.method?_eq hu hown).1)]
    simp

end Frames

theorem Frame.executes_eq {t t' : Task} {s s' : TaskState} {f f' : Frame}
    (h : Query.Rel Outcome.Alike (Step.frame t 0 s f) (Step.frame t' 0 s' f')) :
    f'.executes t' s' = f.executes t s := by
  unfold Frame.executes
  generalize Step.frame t 0 s f = q at h
  generalize Step.frame t' 0 s' f' = q' at h
  cases h with
  | done ho => cases ho <;> rfl
  | ask _ => rfl

theorem keptBefore_of_not_isHook {code : List Instruction} (h : ∀ i ∈ code, i.isHook = false) (k : Nat) :
    keptBefore code k = k := by
  induction k with
  | zero => exact keptBefore_zero code
  | succ k ih =>
    have hat : hookAt code k = false := by
      cases hk : code[k]? with
      | none => simp [hookAt, hk]
      | some i => simp [hookAt, hk, h i (List.mem_of_getElem? hk)]
    rw [keptBefore_succ, ih, hat]
    rfl

/-- **The calls that belong to an instruction which both threads execute are the same.** -/
theorem LoadingUnit.passing_alike {t t' : Task} (hu : t.unit.Built) (hu' : t'.unit.Built)
    (ht : t.Counterpart t') (hplain : t.unit.own.HookFree) {s s' : TaskState} (hs : s.Alike s')
    {f f' : Frame} (hf : f.Found t.unit) (hf' : f'.Found t'.unit) (hvalues : f.SameValues f')
    (A : f.method.Alignment f'.method) (hplace : f.next = A.back f'.next)
    (hextra : A.extra f'.next = false) {outer : List Frame} (hread : t.ReadsNoClass (f :: outer)) :
    t'.unit.passing t' s' f' = t'.unit.passing t s f := by
  have hfetch := A.fetch f'.next hextra
  rw [← hplace] at hfetch
  have hexecutes := Frame.executes_eq (Step.frame_alike ht hs hvalues A hplace hextra hread 0).1
  have hindex : hooksBehind (t'.unit.codeOf f) (keptBefore f'.method.code.toList f'.next) =
      hooksBehind (t'.unit.codeOf f) (keptBefore f.method.code.toList f.next) := by
    cases hown : t.unit.own.class? f.className with
    | none =>
      have hown' : t'.unit.own.class? f'.className = none := by
        have hrel := ht.unit.class?_rel f.className
        rw [hown] at hrel
        rw [hvalues.className]
        generalize t'.unit.own.class? f.className = o at hrel
        cases hrel
        rfl
      rw [← hvalues.codeOf A, hf'.codeOf_eq hu', hown']
      rfl
    | some c =>
      have hnone := hplain _ c hown _ (hf.method?_eq hu hown).1
      rw [keptBefore_of_not_isHook fun i hi => hnone i (Array.mem_toList_iff.1 hi), hplace,
        A.back_eq hnone]
  unfold LoadingUnit.passing
  rw [hfetch, hvalues.hookCall?, hvalues.methodOf? A, hvalues.codeOf A, hexecutes, hindex]

theorem Frame.Shadow.ahead_eq {f f' : Frame} (h : f.Shadow f') (u : LoadingUnit) (hf : f.next = 0)
    (hf' : f'.next = 0) : u.ahead f' = u.ahead f := by
  obtain ⟨A, -⟩ := h.place
  rw [LoadingUnit.ahead, LoadingUnit.ahead, h.toSameValues.hookCall?, h.toSameValues.codeOf A, hf, hf']

namespace Solo

variable {σ : Type} {t : Task} {answer : (r : HostRequest) → StateM σ r.Answer} {x : Solo σ}

theorem callsUpTo_of_ended {n k : Nat} {r : Except Fault Value} (u : LoadingUnit)
    (h : ((step t answer)^[n] x).stand = .ended r) :
    x.callsUpTo t answer u (n + k) = x.callsUpTo t answer u n := by
  induction k with
  | zero => rfl
  | succ k ih =>
    have hsame := iterate_of_le t answer h (Nat.le_add_right n k)
    have hframes : ((step t answer)^[n + k] x).frames = [] := by rw [hsame, frames, h]
    rw [← Nat.add_assoc, callsUpTo_succ, ih, calls_of_nil hframes, List.append_nil]

theorem callsUpTo_eq_of_ended {m n : Nat} {r r' : Except Fault Value} (u : LoadingUnit)
    (h : ((step t answer)^[m] x).stand = .ended r) (h' : ((step t answer)^[n] x).stand = .ended r') :
    x.callsUpTo t answer u n = x.callsUpTo t answer u m := by
  rcases Nat.le_total m n with hle | hle
  · obtain ⟨k, rfl⟩ := Nat.exists_eq_add_of_le hle
    exact callsUpTo_of_ended u h
  · obtain ⟨k, rfl⟩ := Nat.exists_eq_add_of_le hle
    exact (callsUpTo_of_ended u h').symm

theorem frames_of_start (s : TaskState) (className methodName : String) (arguments : List Value) (w : σ) :
    (Solo.start t s className methodName arguments w).frames = [] ∨
      ∃ f c, (Solo.start t s className methodName arguments w).frames = [f] ∧
        Frame.forCall c methodName arguments none = .ok f := by
  unfold Solo.start
  cases hp : Activation.start t s className methodName arguments with
  | mk r s' =>
    cases r with
    | error e => exact .inl rfl
    | ok f =>
      obtain ⟨c, _, hcall⟩ := Activation.exists_of_start (congrArg Prod.fst hp)
      exact .inr ⟨f, c, rfl, hcall⟩

theorem next_of_start (s : TaskState) (className methodName : String) (arguments : List Value) (w : σ) :
    ∀ f ∈ (Solo.start t s className methodName arguments w).frames, f.next = 0 := by
  rcases @frames_of_start _ t s className methodName arguments w with hnone | ⟨f, c, hframes, hcall⟩
  · simp [hnone]
  · obtain ⟨m, -, rfl⟩ := Frame.forCall_eq_ok hcall
    simp [hframes]

theorem recordings_of_start (s : TaskState) (className methodName : String) (arguments : List Value) (w : σ) :
    (Solo.start t s className methodName arguments w).shared.recordings = s.recordings ∧
      (Solo.start t s className methodName arguments w).shared.cancelled = s.cancelled := by
  have hload : ((s.load t className).2).recordings = s.recordings ∧
      ((s.load t className).2).cancelled = s.cancelled := by
    unfold TaskState.load
    split
    split <;> exact ⟨rfl, rfl⟩
  have hstart : (Activation.start t s className methodName arguments).2 = (s.load t className).2 := rfl
  rw [← hstart] at hload
  unfold Solo.start
  generalize Activation.start t s className methodName arguments = p at hload
  obtain ⟨r, s'⟩ := p
  cases r <;> exact hload

end Solo

namespace Solo.Alike

variable {σ : Type} {t t' : Task} {answer : (r : HostRequest) → StateM σ r.Answer} {x x' : Solo σ}

theorem frames_shadow (h : x.Alike x') : ShadowStack x.frames x'.frames := by
  have hstand := h.stand
  unfold frames
  generalize x.stand = a at hstand
  generalize x'.stand = b at hstand
  cases hstand with
  | running hf => exact hf
  | ended r => exact .nil

/-- Two threads enter methods together, whose frames shadow each other. -/
theorem entered?_rel (h : x.Alike x') (hstep : (x.step t answer).Alike (x'.step t' answer)) :
    Option.Rel Frame.Shadow (x.entered? t answer) (x'.entered? t' answer) := by
  have hlength : x'.frames.length = x.frames.length := by
    have hf := h.frames_shadow
    generalize x.frames = fs at hf
    generalize x'.frames = fs' at hf
    cases hf with
    | nil => rfl
    | cons hf ho => simp [ho.length_eq]
  have hf := hstep.frames_shadow
  unfold entered?
  rw [hlength]
  generalize (x.step t answer).frames = fs at hf
  generalize (x'.step t' answer).frames = fs' at hf
  cases hf with
  | nil => exact .none
  | @cons f f' outer outer' hf ho =>
    dsimp only
    rw [← ho.length_eq]
    split
    · exact .some hf
    · exact .none

/-- The same calls are ahead of the methods that they enter. -/
theorem entered_ahead (hu : t.unit.Built) (hu' : t'.unit.Built) (h : x.Alike x') (hr : x.Reaches t)
    (hr' : x'.Reaches t') (hc : x.shared.cancelled = false) (hstep : (x.step t answer).Alike (x'.step t' answer)) :
    (x'.entered? t' answer).map t'.unit.ahead = (x.entered? t answer).map t'.unit.ahead := by
  have hc' : x'.shared.cancelled = false := h.shared.cancelled_eq.trans hc
  have hrel := h.entered?_rel hstep
  cases he : x.entered? t answer with
  | none =>
    rw [he] at hrel
    generalize x'.entered? t' answer = o at hrel
    cases hrel
    rfl
  | some g =>
    rw [he] at hrel
    cases he' : x'.entered? t' answer with
    | none =>
      rw [he'] at hrel
      cases hrel
    | some g' =>
      rw [he'] at hrel
      cases hrel with
      | some hg => exact congrArg some (hg.ahead_eq _ (found_of_entered hu hr hc he).2 (found_of_entered hu' hr' hc' he').2)

/-- **The calls that belong to a step.** Both threads make the step, and the same calls belong to it; or the one with
tracers runs a hook, and none do. -/
theorem calls_step (hu : t.unit.Built) (hu' : t'.unit.Built) (ht : t.Counterpart t')
    (hplain : t.unit.own.HookFree) (h : x.Alike x') (hr : x.Reaches t) (hr' : x'.Reaches t')
    (hc : x.shared.cancelled = false) (hread : x.ReadsNoClass t) :
    ((x.step t answer).Alike (x'.step t' answer) ∧
        x'.calls t' answer t'.unit = x.calls t answer t'.unit) ∨
      (x.Alike (x'.step t' answer) ∧ x'.calls t' answer t'.unit = []) := by
  have hc' : x'.shared.cancelled = false := h.shared.cancelled_eq.trans hc
  have hq' : x'.shared.recordings.Quiet := h.shared.quiet.2
  cases hx : x.stand with
  | ended r =>
    have hx' := (h.ended_iff r).2 hx
    have hframes : x.frames = [] := by rw [frames, hx]
    have hframes' : x'.frames = [] := by rw [frames, hx']
    rw [step_of_ended t answer hx, step_of_ended t' answer hx', calls_of_nil hframes,
      calls_of_nil hframes']
    exact .inl ⟨h, rfl⟩
  | running fs =>
    obtain ⟨fs', hx', hf⟩ := h.exists_running hx
    cases hf with
    | nil =>
      rw [calls_of_nil (frames_of_stand hx), calls_of_nil (frames_of_stand hx')]
      refine .inl ⟨h.step_of_rel answer hx hx' ?_ ?_, rfl⟩
      · simp only [Activation.step, hc, hc', Bool.false_eq_true, if_false]
        exact .done (.ended h.shared _)
      · simp [Activation.nextWrites, hc, hc']
    | @cons f f' outer outer' hf ho =>
      obtain ⟨A, hplace⟩ := hf.place
      have hvalues := hf.toSameValues
      have hfound : f.Found t.unit := hr.found hu f (by simp [frames_of_stand hx])
      have hfound' : f'.Found t'.unit := hr'.found hu' f' (by simp [frames_of_stand hx'])
      cases hextra : A.extra f'.next with
      | false =>
        -- both threads are at the same instruction
        left
        obtain ⟨hstep, hwrites⟩ := Activation.step_alike_of_shared ht h.shared hvalues A hplace hextra ho
          (hread _ hx) 0
        have halike := h.step_of_rel answer hx hx' hstep hwrites
        have hpassing := LoadingUnit.passing_alike hu hu' ht hplain h.shared hfound hfound' hvalues A hplace
          hextra (hread _ hx)
        refine ⟨halike, ?_⟩
        rw [calls_of_frames (frames_of_stand hx), calls_of_frames (frames_of_stand hx'), hpassing]
        rw [entered_ahead hu hu' h hr hr' hc halike]
      | true =>
        -- the second one is at a hook that the first one does not have
        right
        obtain ⟨s'', hlt, hstep, hs'', hf', hwrites⟩ :=
          @Activation.step_alike_of_extra t' _ _ f f' outer outer' h.shared hvalues A hplace hextra ho hc 0
        refine ⟨(h.step_of_hook answer hx hx' hlt hstep hs'' hf' hwrites).1, ?_⟩
        have hown := hfound.extra_eq hu hu' ht.unit hplain hfound' hvalues A f'.next
        rw [hextra, eq_comm, Bool.and_eq_true] at hown
        obtain ⟨tracer, name, operands, hhook⟩ := A.hook_of_extra _ hextra
        rw [calls_at_hook hu' hr' hx' hc' hq' hhook, if_pos hown.2]

section Runs

variable (hu : t.unit.Built) (hu' : t'.unit.Built) (htidy' : t'.unit.Tidy) (ht : t.Counterpart t')
  (hplain : t.unit.own.HookFree) (h : x.Alike x') (hr : x.Reaches t) (hr' : x'.Reaches t')
  (hc : x.shared.cancelled = false) (hread : x.NeverReads t answer)
  (hstart : x'.ahead t'.unit = x.ahead t'.unit)

include hu hu' htidy' ht hplain h hr hr' hc hread hstart

/-- **Wherever the thread with tracers comes, the other comes too**, and the same calls belong to the steps up to there. -/
theorem exists_callsUpTo (n' : Nat) :
    ∃ n, ((Solo.step t answer)^[n] x).Alike ((Solo.step t' answer)^[n'] x') ∧
      x'.callsUpTo t' answer t'.unit n' = x.callsUpTo t answer t'.unit n := by
  have hc' : x'.shared.cancelled = false := h.shared.cancelled_eq.trans hc
  have hq' : x'.shared.recordings.Quiet := h.shared.quiet.2
  induction n' with
  | zero => exact ⟨0, h, by simp [callsUpTo, hstart]⟩
  | succ n' ih =>
    obtain ⟨n, halike, hcalls⟩ := ih
    have hlive : ((Solo.step t answer)^[n] x).shared.cancelled = false :=
      halike.shared.cancelled_eq.symm.trans (live_iterate hu' htidy' hr' hc' hq' n')
    rw [callsUpTo_succ, hcalls, Function.iterate_succ_apply']
    rcases halike.calls_step hu hu' ht hplain (reaches_iterate t answer hr n)
      (reaches_iterate t' answer hr' n') hlive (hread n) with ⟨hboth, hsame⟩ | ⟨hone, hnone⟩
    · refine ⟨n + 1, ?_, ?_⟩
      · rw [Function.iterate_succ_apply']
        exact hboth
      · rw [callsUpTo_succ, hsame]
    · exact ⟨n, hone, by rw [hnone, List.append_nil]⟩

end Runs

end Solo.Alike

end Confine
