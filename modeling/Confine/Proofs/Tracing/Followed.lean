import Confine.Proofs.Tracing.Around

/-!
# One tracer among all tracers of a task

What calls into tracers and trusted work do to the line trace and to the method trace of a task, whatever other tracers
there are.

* `Recordings.findSome?_onHook` — a call changes the first recording of its name, and tells of a line;
* `Recordings.lineTrace?_onHook` — the line trace gets the lines of its own calls, and no others;
* `Recordings.methodTrace?_onHook` — the method trace gets its own calls, and is told of lines;
* `Recordings.lineTrace?_start`, `Recordings.methodTrace?_start` — how they start.
-/

namespace Confine

namespace Recording

def asLine? : Recording → Option LineTrace.Recording
  | lineTrace r => some r
  | _ => none

def asMethod? : Recording → Option MethodTrace.Recording
  | methodTrace r => some r
  | _ => none

theorem snd_onLine (r : LineTrace.Recording) (line : LineTrace.LastLine) (e : LineEvent) :
    (onLine r line e).2 = (r.onLine line e).2 := by
  unfold onLine
  generalize r.onLine line e = q
  obtain ⟨_ | _ | _, r⟩ := q <;> rfl

end Recording

def LineTrace.Recording.afterHook (r : LineTrace.Recording) (id : String) (call : HookCall) (thread : Nat) :
    LineTrace.Recording :=
  if id = LineTrace.id then (line? call thread).elim r fun p => (r.onLine p.1 p.2).2 else r

namespace Recordings

theorem lineTrace?_eq (rs : Recordings) : rs.lineTrace? = rs.entries.findSome? Recording.asLine? := rfl

def methodTrace? (rs : Recordings) : Option MethodTrace.Recording := rs.entries.findSome? Recording.asMethod?

/-! ### Calls -/

section Calls

variable {α : Type} {f : Recording → Option α} {g : α → α} {id : String} {call : HookCall} {thread : Nat}

/-- A call changes the first recording of its name. What `f` makes of the first recording that it is about changes by
`g`, if `f` is about all recordings of the name, or `g` changes nothing. -/
theorem findSome?_callFirst (hcalled : ∀ r, r.id = id → f (r.onHook call thread).2 = (f r).map g)
    (hunseen : ∀ r, r.id = id → f r = Option.none → ∀ a, g a = a) (hother : ∀ r, r.id ≠ id → (f r).map g = f r)
    (before entries : List Recording) :
    (callFirst id call thread before entries).2.findSome? f =
      (before.reverse.findSome? f).or ((entries.findSome? f).map g) := by
  induction entries generalizing before with
  | nil => simp [callFirst]
  | cons r rest ih =>
    unfold callFirst
    by_cases hr : r.id = id
    · simp only [beq_iff_eq.2 hr, if_true, List.reverseAux_eq, List.findSome?_append, List.findSome?_cons, hcalled r hr]
      cases hf : f r with
      | some a => rfl
      | none =>
        -- the recording that is called is none that `f` is about, so `g` changes nothing behind it either
        have hg : (rest.findSome? f).map g = rest.findSome? f := by
          rw [Option.map_congr fun a _ => hunseen r hr hf a, Option.map_id']
        rw [Option.map_none, hg]
    · have hkept := hother r hr
      simp only [beq_eq_false_iff_ne.2 hr, Bool.false_eq_true, if_false, ih, List.reverse_cons, List.findSome?_append,
        List.findSome?_cons, List.findSome?_nil, Option.or_assoc]
      cases hf : f r with
      | some a =>
        rw [hf] at hkept
        exact congrArg _ hkept.symm
      | none => rfl

/-- Behind a call some recordings may be told of a line, each time by `h`. -/
theorem findSome?_onHook {h : α → LineEvent → α}
    (hcalled : ∀ r, r.id = id → f (r.onHook call thread).2 = (f r).map g)
    (hunseen : ∀ r, r.id = id → f r = Option.none → ∀ a, g a = a) (hother : ∀ r, r.id ≠ id → (f r).map g = f r)
    (htold : ∀ r e, f (r.tellLine e) = (f r).map (h · e)) (rs : Recordings) :
    ∃ lines : List LineEvent, (rs.onHook id call thread).2.entries.findSome? f =
      (rs.entries.findSome? f).map fun a => lines.foldl h (g a) := by
  obtain ⟨entries, collected⟩ := rs
  have hcall := findSome?_callFirst hcalled hunseen hother [] entries
  unfold onHook
  dsimp only
  generalize callFirst id call thread [] entries = q at hcall ⊢
  obtain ⟨reaction?, after⟩ := q
  dsimp only at hcall ⊢
  rw [List.reverse_nil, List.findSome?_nil, Option.none_or] at hcall
  have tell (e : LineEvent) (subscribers : List LineTrace.Subscriber) (rs : Recordings) :
      ∃ lines : List LineEvent, (subscribers.foldl (Recordings.tell e) rs).entries.findSome? f =
        (rs.entries.findSome? f).map fun a => lines.foldl h a := by
    induction subscribers generalizing rs with
    | nil => exact ⟨[], Option.map_id'.symm⟩
    | cons s subscribers ih =>
      obtain ⟨lines, hlines⟩ := ih (rs.tell e s)
      rw [List.foldl_cons, hlines]
      cases s with
      | methodTrace =>
        refine ⟨e :: lines, ?_⟩
        have hmap : f ∘ (fun r : Recording => r.tellLine e) = Option.map (h · e) ∘ f := funext fun r => htold r e
        simp only [Recordings.tell, List.findSome?_map, hmap, ← List.map_findSome?, Option.map_map]
        rfl
      | collector name => exact ⟨lines, rfl⟩
  split
  · next e _ =>
    obtain ⟨lines, hlines⟩ := tell e (reaction?.getD .goOn).subscribers ⟨after, collected⟩
    exact ⟨lines, by rw [hlines, hcall, Option.map_map]; rfl⟩
  · exact ⟨[], hcall⟩

end Calls

/-- **The line trace gets the lines of its own calls**, and no others. -/
theorem lineTrace?_onHook (rs : Recordings) (id : String) (call : HookCall) (thread : Nat) :
    (rs.onHook id call thread).2.lineTrace? = rs.lineTrace?.map (·.afterHook id call thread) := by
  have hfollows := @findSome?_onHook _ Recording.asLine? (·.afterHook id call thread) id call thread (fun r _ => r)
    (fun r hr => ?called) (fun r hr hnone a => ?unseen) (fun r hr => ?other) (fun r e => ?told) rs
  case called =>
    subst hr
    cases r with
    | lineTrace r =>
      simp only [Recording.onHook, Recording.asLine?, Recording.id, LineTrace.Recording.afterHook, if_true,
        Option.map_some]
      cases LineTrace.Recording.line? call thread with
      | none => rfl
      | some p => exact congrArg some (Recording.snd_onLine r p.1 p.2)
    | _ => rfl
  case unseen =>
    subst hr
    cases r with
    | lineTrace r => cases hnone
    | _ => rfl
  case other =>
    cases r with
    | lineTrace r => exact congrArg some (if_neg (Ne.symm hr))
    | _ => rfl
  case told => cases r <;> rfl
  have hsame : ∀ (lines : List LineEvent) (r : LineTrace.Recording), lines.foldl (fun r _ => r) r = r :=
    fun lines r => by induction lines <;> simp_all
  obtain ⟨lines, hlines⟩ := hfollows
  simp only [hsame] at hlines
  exact hlines

/-- **The method trace gets its own calls**, and is told of lines. -/
theorem methodTrace?_onHook (rs : Recordings) (id : String) (call : HookCall) (thread : Nat) :
    ∃ lines : List LineEvent, (rs.onHook id call thread).2.methodTrace? = rs.methodTrace?.map fun r =>
      lines.foldl MethodTrace.Recording.onLine (if id = MethodTrace.id then r.onHook call else r) := by
  refine @findSome?_onHook _ Recording.asMethod? (fun r => if id = MethodTrace.id then r.onHook call else r)
    id call thread MethodTrace.Recording.onLine (fun r hr => ?_) (fun r hr hnone a => ?_) (fun r hr => ?_)
    (fun r e => ?_) rs
  · -- the method trace is called
    subst hr
    cases r with
    | lineTrace r =>
      simp only [Recording.onHook]
      cases LineTrace.Recording.line? call thread <;> rfl
    | _ => rfl
  · -- there is none
    subst hr
    cases r with
    | methodTrace r => cases hnone
    | _ => rfl
  · -- another tracer is called
    cases r with
    | methodTrace r => exact congrArg some (if_neg (Ne.symm hr))
    | _ => rfl
  · cases r <;> rfl

/-! ### Trusted work -/

section Work

variable (rs : Recordings) (s : LineTrace.Subscriber)

theorem lineTrace?_resetLines : rs.resetLines.lineTrace? = rs.lineTrace?.map (·.reset) := by
  rw [lineTrace?_eq, lineTrace?_eq, resetLines, List.findSome?_map, List.map_findSome?]
  congr 1
  funext r
  cases r <;> rfl

theorem lineTrace?_subscribe : (rs.subscribe s).lineTrace? = rs.lineTrace?.map (·.subscribe s) := by
  rw [lineTrace?_eq, lineTrace?_eq, subscribe, List.findSome?_map, List.map_findSome?]
  congr 1
  funext r
  cases r <;> rfl

theorem methodTrace?_resetLines : rs.resetLines.methodTrace? = rs.methodTrace? := by
  rw [methodTrace?, methodTrace?, resetLines, List.findSome?_map]
  congr 1
  funext r
  cases r <;> rfl

theorem methodTrace?_subscribe : (rs.subscribe s).methodTrace? = rs.methodTrace? := by
  rw [methodTrace?, methodTrace?, subscribe, List.findSome?_map]
  congr 1
  funext r
  cases r <;> rfl

end Work

/-! ### Starting -/

theorem exists_of_mapM_start {n : Nat} {is : List Instrumentation} {entries : List Recording}
    (h : is.mapM (Recording.start n) = .ok entries) : ∀ r ∈ entries, ∃ i ∈ is, Recording.start n i = .ok r := by
  have hstarts := forall₂_of_mapM_start h
  clear h
  induction hstarts with
  | nil => simp
  | @cons i r _ _ hr _ ih =>
    refine List.forall_mem_cons.2 ⟨⟨i, by simp, hr⟩, fun q hq => ?_⟩
    obtain ⟨j, hj, hq⟩ := ih q hq
    exact ⟨j, List.mem_cons_of_mem i hj, hq⟩

section Start

variable {n : Nat} {is : List Instrumentation} {rs : Recordings}

theorem exists_of_start (h : start n is = .ok rs) : ∃ entries, is.mapM (Recording.start n) = .ok entries ∧
    (rs = ⟨entries, []⟩ ∨ rs = subscribe ⟨entries, []⟩ .methodTrace) := by
  unfold start at h
  cases hentries : is.mapM (Recording.start n) with
  | error e => simp [hentries, bind, Except.bind] at h
  | ok entries =>
    simp only [hentries, bind, Except.bind, Except.ok.injEq] at h
    refine ⟨entries, rfl, ?_⟩
    rw [← h]
    split
    · exact .inr rfl
    · exact .inl rfl

/-- **The line trace starts with nothing**, and its own arguments. -/
theorem lineTrace?_start (h : start n is = .ok rs) {r : LineTrace.Recording} (hr : rs.lineTrace? = some r) :
    ∃ i, .lineTrace i ∈ is ∧ r.arguments = i.arguments ∧ r.threads = [] := by
  obtain ⟨entries, hentries, hrs⟩ := exists_of_start h
  have hfound : ∃ q, entries.findSome? Recording.asLine? = some q ∧ r.arguments = q.arguments ∧
      r.threads = q.threads := by
    rcases hrs with rfl | rfl
    · exact ⟨r, hr, rfl, rfl⟩
    · rw [lineTrace?_subscribe] at hr
      obtain ⟨q, hq, rfl⟩ := Option.map_eq_some_iff.1 hr
      exact ⟨q, hq, rfl, rfl⟩
  obtain ⟨q, hq, hr⟩ := hfound
  obtain ⟨p, hp, hpq⟩ := List.exists_of_findSome?_eq_some hq
  obtain rfl : p = .lineTrace q := by
    cases p <;> cases hpq
    rfl
  obtain ⟨i, hi, hstart⟩ := exists_of_mapM_start hentries _ hp
  cases i with
  | lineTrace i =>
    cases hstart
    exact ⟨i, hi, hr⟩
  | methodTrace i => exact absurd (id_of_start hstart) (show LineTrace.id ≠ MethodTrace.id by decide)
  | probe a active => exact absurd (id_of_start hstart) (show LineTrace.id ≠ Probe.id by decide)

/-- **The method trace starts with nothing**, and what it knows of its unit. -/
theorem methodTrace?_start (h : start n is = .ok rs) {r : MethodTrace.Recording} (hr : rs.methodTrace? = some r) :
    .methodTrace r.instrumentation ∈ is ∧ r.steps = #[] := by
  obtain ⟨entries, hentries, hrs⟩ := exists_of_start h
  have hfound : entries.findSome? Recording.asMethod? = some r := by
    rcases hrs with rfl | rfl
    · exact hr
    · rwa [methodTrace?_subscribe] at hr
  obtain ⟨p, hp, hpr⟩ := List.exists_of_findSome?_eq_some hfound
  obtain rfl : p = .methodTrace r := by
    cases p <;> cases hpr
    rfl
  obtain ⟨i, hi, hstart⟩ := exists_of_mapM_start hentries _ hp
  cases i with
  | lineTrace i => exact absurd (id_of_start hstart) (show MethodTrace.id ≠ LineTrace.id by decide)
  | methodTrace i =>
    simp only [Recording.start, MethodTrace.Recording.start] at hstart
    split at hstart
    · cases hstart
    · cases hstart
      exact ⟨hi, rfl⟩
  | probe a active => exact absurd (id_of_start hstart) (show MethodTrace.id ≠ Probe.id by decide)

end Start

end Recordings

end Confine
