import Confine.Tracing.Tracer
import Mathlib.Data.List.Forall2

/-!
# What tracers report of values

Tracers report values as they are printed.  Of an exception that is its text, not its number: two recordings whose calls
had similar values (`Value.Similar`) report the same (`Recordings.Match.results`), and calls with similar values keep
them so (`Recordings.Match.onHook`).
-/

namespace Confine

/-- The values are the same, or the same exception with two numbers. -/
inductive Value.Similar : Value → Value → Prop where
  | refl (v : Value) : Similar v v
  | exception (i j : Nat) (e : Exception) : Similar (.exception i e) (.exception j e)

namespace Value.Similar

variable {v v' : Value} {vs vs' : List Value}

theorem toJson (h : v.Similar v') : v'.toJson = v.toJson := by cases h <;> rfl

theorem typeName (h : v.Similar v') : v'.typeName = v.typeName := by cases h <;> rfl

theorem map_eq {α : Type} {f : Value → α} (hf : ∀ v v', Similar v v' → f v' = f v)
    (h : List.Forall₂ Similar vs vs') : vs'.map f = vs.map f := by
  induction h with
  | nil => rfl
  | cons hv _ ih => rw [List.map_cons, List.map_cons, hf _ _ hv, ih]

end Value.Similar

/-! ### One tracer -/

variable {operands operands' : List Value} (h : List.Forall₂ Value.Similar operands operands')

include h

theorem LineTrace.Recording.line?_similar (name : String) (thread : Nat) :
    line? ⟨name, operands'⟩ thread = line? ⟨name, operands⟩ thread := by
  unfold line?
  dsimp only
  split
  · rfl
  -- operands of a line are no exceptions, so they are the same in both calls
  · split
    · rcases h with _ | ⟨⟨⟩, _ | ⟨⟨⟩, _ | ⟨⟨⟩, _ | ⟨⟨⟩, ⟨⟩⟩⟩⟩⟩
      rfl
    · next hno =>
      split
      · rcases h with _ | ⟨⟨⟩, _ | ⟨⟨⟩, _ | ⟨⟨⟩, _ | ⟨⟨⟩, ⟨⟩⟩⟩⟩⟩
        exact absurd rfl (hno _ _ _ _)
      · rfl

theorem MethodTrace.Recording.zipWith_similar (names : List String) :
    names.zipWith (fun name v => Argument.mk name v.toJson) operands' =
      names.zipWith (fun name v => Argument.mk name v.toJson) operands := by
  induction h generalizing names with
  | nil => rfl
  | cons hv _ ih =>
    cases names with
    | nil => rfl
    | cons name names => rw [List.zipWith_cons_cons, List.zipWith_cons_cons, hv.toJson, ih]

theorem MethodTrace.Recording.enter?_similar (i : Instrumentation) (name : String) :
    enter? i ⟨name, operands'⟩ = enter? i ⟨name, operands⟩ := by
  unfold enter?
  dsimp only
  split
  · rfl
  · cases h with
    | nil => rfl
    | @cons v v' vs vs' hv h =>
      cases hv with
      | exception _ _ _ => rfl
      | refl =>
        cases v with
        | int n =>
          dsimp only
          cases n.toInt with
          | negSucc n => rfl
          | ofNat n =>
            refine congrArg (Option.bind _) (funext fun n => ?_)
            refine congrArg (Option.bind _) (funext fun site => ?_)
            cases site.hasReceiver with
            | false => dsimp only; rw [zipWith_similar h]
            | true =>
              cases h with
              | nil => rfl
              | cons hv h => dsimp only; rw [zipWith_similar h, hv.toJson]
        | _ => rfl

omit h

/-- Two recordings differ in the numbers of exceptions that the probe has been shown only. -/
inductive Recording.Match : Recording → Recording → Prop where
  | lineTrace (r : LineTrace.Recording) : Match (.lineTrace r) (.lineTrace r)
  | methodTrace (r : MethodTrace.Recording) : Match (.methodTrace r) (.methodTrace r)
  | probe {r r' : Probe.Recording} (ha : r'.arguments = r.arguments) (hactive : r'.active = r.active)
      (hcounts : r'.counts = r.counts)
      (hcalls : r'.calls.toList.map Probe.Call.toJson = r.calls.toList.map Probe.Call.toJson) :
      Match (.probe r) (.probe r')

namespace Recording.Match

variable {r r' : Recording}

theorem refl (r : Recording) : r.Match r := by
  cases r with
  | lineTrace r => exact .lineTrace r
  | methodTrace r => exact .methodTrace r
  | probe r => exact .probe rfl rfl rfl rfl

theorem id_eq (hr : r.Match r') : r'.id = r.id := by cases hr <;> rfl

theorem report (hr : r.Match r') : r'.report = r.report := by
  cases hr with
  | lineTrace r => rfl
  | methodTrace r => rfl
  | probe ha hactive hcounts hcalls =>
    simp only [Recording.report, Probe.Recording.report, Json.ofList, hactive, hcalls]

theorem tellLine (hr : r.Match r') (e : LineEvent) : (r.tellLine e).Match (r'.tellLine e) := by
  cases hr with
  | lineTrace r => exact .lineTrace r
  | methodTrace r => exact .methodTrace _
  | probe ha hactive hcounts hcalls => exact .probe ha hactive hcounts hcalls

include h

theorem onHook (hr : r.Match r') (name : String) (thread : Nat) :
    (r'.onHook ⟨name, operands'⟩ thread).1 = (r.onHook ⟨name, operands⟩ thread).1 ∧
      (r.onHook ⟨name, operands⟩ thread).2.Match (r'.onHook ⟨name, operands'⟩ thread).2 := by
  cases hr with
  | lineTrace r =>
    unfold Recording.onHook
    dsimp only
    rw [LineTrace.Recording.line?_similar h]
    exact ⟨rfl, .refl _⟩
  | methodTrace r =>
    unfold Recording.onHook MethodTrace.Recording.onHook
    dsimp only
    rw [MethodTrace.Recording.enter?_similar h]
    exact ⟨rfl, .refl _⟩
  | @probe r r' ha hactive hcounts hcalls =>
    have hlength : r'.calls.size = r.calls.size := by
      have hlength := congrArg List.length hcalls
      simpa using hlength
    have hnth : (r'.count? thread).getD 0 = (r.count? thread).getD 0 := by
      unfold Probe.Recording.count?
      rw [hcounts]
    unfold Recording.onHook Probe.Recording.onHook
    dsimp only
    refine ⟨by simp only [Array.size_push, hlength, ha], .probe ha hactive (by rw [hcounts, hnth]) ?_⟩
    have hcall : Probe.Call.toJson ⟨name, operands', thread, (r'.count? thread).getD 0 + 1⟩ =
        Probe.Call.toJson ⟨name, operands, thread, (r.count? thread).getD 0 + 1⟩ := by
      have hvalues := Value.Similar.map_eq (fun _ _ hv => hv.toJson) h
      have htypes := Value.Similar.map_eq (f := fun v => Json.str v.typeName)
        (fun _ _ hv => by rw [hv.typeName]) h
      simp only [Probe.Call.toJson, Json.ofList, hvalues, htypes, hnth]
    simp only [Array.toList_push, List.map_append, List.map_cons, List.map_nil, hcalls, hcall]

end Recording.Match

/-! ### All tracers -/

omit h

/-- All tracers of two tasks have recorded the same, but for the numbers of exceptions. -/
structure Recordings.Match (rs rs' : Recordings) : Prop where
  entries : List.Forall₂ Recording.Match rs.entries rs'.entries
  collected : rs'.collected = rs.collected

namespace Recordings.Match

variable {rs rs' : Recordings}

theorem refl (rs : Recordings) : rs.Match rs := ⟨List.forall₂_same.2 fun r _ => .refl r, rfl⟩

theorem results (hrs : rs.Match rs') : rs'.results = rs.results := by
  have hfold : ∀ {entries entries' : List Recording}, List.Forall₂ Recording.Match entries entries' →
      ∀ l : List (String × Json),
        entries'.foldl (fun l r => Json.insertField r.id r.report l) l =
          entries.foldl (fun l r => Json.insertField r.id r.report l) l := by
    intro entries entries' he
    induction he with
    | nil => exact fun _ => rfl
    | cons hr _ ih =>
      intro l
      rw [List.foldl_cons, List.foldl_cons, hr.id_eq, hr.report, ih]
  exact hfold hrs.entries []

theorem tell (hrs : rs.Match rs') (e : LineEvent) (s : LineTrace.Subscriber) :
    (rs.tell e s).Match (rs'.tell e s) := by
  obtain ⟨he, hc⟩ := hrs
  cases s with
  | methodTrace =>
    refine ⟨?_, hc⟩
    exact List.forall₂_map_left_iff.2 (List.forall₂_map_right_iff.2 (he.imp fun _ _ hr => hr.tellLine e))
  | collector name => exact ⟨he, by simp only [Recordings.tell, hc]⟩

theorem tellAll (hrs : rs.Match rs') (e : LineEvent) (l : List LineTrace.Subscriber) :
    (l.foldl (Recordings.tell e) rs).Match (l.foldl (Recordings.tell e) rs') := by
  induction l generalizing rs rs' with
  | nil => exact hrs
  | cons s l ih => exact ih (hrs.tell e s)

include h

theorem callFirst (id name : String) (thread : Nat) {before before' entries entries' : List Recording}
    (hb : List.Forall₂ Recording.Match before before')
    (he : List.Forall₂ Recording.Match entries entries') :
    (Recordings.callFirst id ⟨name, operands'⟩ thread before' entries').1 =
        (Recordings.callFirst id ⟨name, operands⟩ thread before entries).1 ∧
      List.Forall₂ Recording.Match (Recordings.callFirst id ⟨name, operands⟩ thread before entries).2
        (Recordings.callFirst id ⟨name, operands'⟩ thread before' entries').2 := by
  induction he generalizing before before' with
  | nil => exact ⟨rfl, List.rel_reverse hb⟩
  | @cons r r' rest rest' hr hrest ih =>
    unfold Recordings.callFirst
    rw [hr.id_eq]
    split
    · obtain ⟨hreaction, hr⟩ := hr.onHook h name thread
      refine ⟨congrArg some hreaction, ?_⟩
      simp only [List.reverseAux_eq]
      exact List.rel_append (List.rel_reverse hb) (.cons hr hrest)
    · exact ih (.cons hr hb)

/-- **A call with similar values comes to the same.** -/
theorem onHook (hrs : rs.Match rs') (id name : String) (thread : Nat) :
    (rs'.onHook id ⟨name, operands'⟩ thread).1 = (rs.onHook id ⟨name, operands⟩ thread).1 ∧
      (rs.onHook id ⟨name, operands⟩ thread).2.Match
        (rs'.onHook id ⟨name, operands'⟩ thread).2 := by
  obtain ⟨hreaction, hentries⟩ := callFirst h id name thread .nil hrs.entries
  have hcalled : Recordings.Match
      ⟨(Recordings.callFirst id ⟨name, operands⟩ thread [] rs.entries).2, rs.collected⟩
      ⟨(Recordings.callFirst id ⟨name, operands'⟩ thread [] rs'.entries).2, rs'.collected⟩ :=
    ⟨hentries, hrs.collected⟩
  unfold Recordings.onHook
  dsimp only
  rw [hreaction]
  split
  · exact ⟨rfl, hcalled.tellAll _ _⟩
  · exact ⟨rfl, hcalled⟩

end Recordings.Match

end Confine
