import Confine.Proofs.Tracing.Limited

/-!
# The line trace among other tracers

* `Recordings.Around` — the other tracers of a task;
* `Recordings.Around.onHook_of_ne`, `Recordings.Around.onHook_line` — calls into other tracers see nothing of the line
  trace, and a line that it counts is told to those that want it;
* `Recordings.Around.results_fill` — its result stands between those of the others;
* `Recordings.start_around` — tracers start with any arguments of the line trace, or with none.
-/

namespace Confine

open LineTrace (LastLine)

/-! ### Calls -/

namespace Recording

@[simp] theorem id_onHook (r : Recording) (call : HookCall) (thread : Nat) :
    (r.onHook call thread).2.id = r.id := by
  cases r with
  | lineTrace r =>
    unfold onHook
    dsimp only
    split <;> rfl
  | methodTrace r => rfl
  | probe r => rfl

@[simp] theorem id_tellLine (r : Recording) (e : LineEvent) : (r.tellLine e).id = r.id := by
  cases r <;> rfl

@[simp] theorem id_subscribe (r : Recording) (s : LineTrace.Subscriber) :
    (r.subscribe s).id = r.id := by
  cases r <;> rfl

theorem line_onHook {r : Recording} (h : r.id ≠ LineTrace.id) (call : HookCall) (thread : Nat) :
    (r.onHook call thread).1.line = none := by
  cases r with
  | lineTrace r => exact absurd rfl h
  | methodTrace r => rfl
  | probe r => rfl

end Recording

namespace Recordings

theorem callFirst_append {id : String} {front : List Recording} (h : ∀ r ∈ front, r.id ≠ id)
    (call : HookCall) (thread : Nat) (before rest : List Recording) :
    callFirst id call thread before (front ++ rest) =
      callFirst id call thread (front.reverse ++ before) rest := by
  induction front generalizing before with
  | nil => rfl
  | cons r front ih =>
    obtain ⟨hr, hfront⟩ := List.forall_mem_cons.1 h
    simp [callFirst, hr, ih hfront]

theorem callFirst_cons {id : String} {r : Recording} (h : r.id = id) (call : HookCall)
    (thread : Nat) (before rest : List Recording) :
    callFirst id call thread before (r :: rest) =
      (some (r.onHook call thread).1, before.reverse ++ (r.onHook call thread).2 :: rest) := by
  simp [callFirst, h, List.reverseAux_eq]

theorem cases_of_id (id : String) (l : List Recording) :
    (∀ r ∈ l, r.id ≠ id) ∨
      ∃ front r rest, l = front ++ r :: rest ∧ r.id = id ∧ ∀ r ∈ front, r.id ≠ id := by
  cases h : l.find? (·.id == id) with
  | none => exact .inl (by simpa using h)
  | some r =>
    obtain ⟨hr, front, rest, hl, hfront⟩ := List.find?_eq_some_iff_append.1 h
    exact .inr ⟨front, r, rest, hl, by simpa using hr, by simpa using hfront⟩

theorem onHook_eq (o : Option Reaction) {id : String} {call : HookCall} {thread : Nat}
    {rs : Recordings} {entries : List Recording}
    (h : callFirst id call thread [] rs.entries = (o, entries))
    (hline : (o.getD .goOn).line = Option.none) :
    rs.onHook id call thread = ((o.getD .goOn).signal, ⟨entries, rs.collected⟩) := by
  unfold onHook
  simp only [h, hline]

/-- **All tracers of a task but its line trace**, those before it and those behind it. -/
structure Around where
  front : List Recording
  rest : List Recording
  collected : List (String × LineEvent)
  front_ne : ∀ r ∈ front, r.id ≠ LineTrace.id
  rest_ne : ∀ r ∈ rest, r.id ≠ LineTrace.id

namespace Around

variable (c : Around)

def fill (r : LineTrace.Recording) : Recordings := ⟨c.front ++ .lineTrace r :: c.rest, c.collected⟩

theorem lineTrace?_fill (r : LineTrace.Recording) : (c.fill r).lineTrace? = some r := by
  obtain ⟨front, rest, collected, hfront, -⟩ := c
  unfold fill lineTrace?
  dsimp only
  induction front with
  | nil => rfl
  | cons p front ih =>
    obtain ⟨hp, hrest⟩ := List.forall_mem_cons.1 hfront
    cases p with
    | lineTrace r => exact absurd rfl hp
    | methodTrace r => exact ih hrest
    | probe r => exact ih hrest

def tell (e : LineEvent) : LineTrace.Subscriber → Around
  | .methodTrace => { c with
      front := c.front.map (·.tellLine e)
      rest := c.rest.map (·.tellLine e)
      front_ne := by simpa using c.front_ne
      rest_ne := by simpa using c.rest_ne }
  | .collector name => { c with collected := (name, e) :: c.collected }

theorem tell_fill (e : LineEvent) (s : LineTrace.Subscriber) (r : LineTrace.Recording) :
    (c.fill r).tell e s = (c.tell e s).fill r := by
  cases s with
  | methodTrace => simp [Recordings.tell, tell, fill, Recording.tellLine]
  | collector name => rfl

theorem tellAll_fill (e : LineEvent) (l : List LineTrace.Subscriber) (r : LineTrace.Recording) :
    l.foldl (Recordings.tell e) (c.fill r) = (l.foldl (tell · e) c).fill r := by
  induction l generalizing c with
  | nil => rfl
  | cons s l ih => rw [List.foldl_cons, tell_fill, ih, List.foldl_cons]

/-- **Calls into other tracers see nothing of the line trace.** -/
theorem onHook_of_ne {id : String} (hid : id ≠ LineTrace.id) (call : HookCall) (thread : Nat) :
    ∃ signal, ∃ c' : Around, ∀ r, (c.fill r).onHook id call thread = (signal, c'.fill r) := by
  have hline : ∀ r, (Recording.lineTrace r).id ≠ id := fun _ => hid.symm
  rcases cases_of_id id c.front with hfront | ⟨a, p, b, hfront, hp, ha⟩
  · have hbefore : ∀ (r) (rest : List Recording), (∀ q ∈ rest, q.id ≠ id) →
        ∀ q ∈ c.front ++ .lineTrace r :: rest, q.id ≠ id := by
      intro r rest hrest q hq
      rcases List.mem_append.1 hq with hq | hq
      · exact hfront q hq
      · rcases List.mem_cons.1 hq with rfl | hq
        · exact hline r
        · exact hrest q hq
    rcases cases_of_id id c.rest with hrest | ⟨a, p, b, hrest, hp, ha⟩
    · -- nobody has the name
      refine ⟨_, c, fun r => onHook_eq Option.none ?_ rfl⟩
      have hcall := callFirst_append (hbefore r c.rest hrest) call thread [] []
      simpa [fill, callFirst] using hcall
    · -- somebody behind the line trace has the name
      have hp_line := Recording.line_onHook (hp ▸ hid) call thread
      refine ⟨(p.onHook call thread).1.signal,
        { c with rest := a ++ (p.onHook call thread).2 :: b, rest_ne := ?_ }, fun r => ?_⟩
      · have hne := c.rest_ne
        rw [hrest] at hne
        simpa only [List.forall_mem_append, List.forall_mem_cons, Recording.id_onHook] using hne
      · refine onHook_eq (some (p.onHook call thread).1) ?_ hp_line
        have hcall := callFirst_append (hbefore r a ha) call thread [] (p :: b)
        rw [callFirst_cons hp] at hcall
        simpa [fill, hrest] using hcall
  · -- somebody before the line trace has the name
    have hp_line := Recording.line_onHook (hp ▸ hid) call thread
    refine ⟨(p.onHook call thread).1.signal,
      { c with front := a ++ (p.onHook call thread).2 :: b, front_ne := ?_ }, fun r => ?_⟩
    · have hne := c.front_ne
      rw [hfront] at hne
      simpa only [List.forall_mem_append, List.forall_mem_cons, Recording.id_onHook] using hne
    · refine onHook_eq (some (p.onHook call thread).1) ?_ hp_line
      have hcall := callFirst_append ha call thread [] (p :: (b ++ .lineTrace r :: c.rest))
      rw [callFirst_cons hp] at hcall
      simpa [fill, hfront] using hcall

/-- A call into the line trace. The others are told about a line that is counted. -/
theorem onHook_line (r : LineTrace.Recording) (call : HookCall) (thread : Nat) :
    (c.fill r).onHook LineTrace.id call thread =
      match LineTrace.Recording.line? call thread with
      | Option.none => (Option.none, c.fill r)
      | some (line, e) =>
        match r.onLine line e with
        | (.coalesced, r) => (Option.none, c.fill r)
        | (.counted, r) => (Option.none, (r.subscribers.foldl (tell · e) c).fill r)
        | (.beyond limit, r) =>
          (some (LineTrace.Recording.limitSignal r.arguments limit), c.fill r) := by
  have hcall : callFirst LineTrace.id call thread [] (c.fill r).entries =
      (some ((Recording.lineTrace r).onHook call thread).1,
        c.front ++ ((Recording.lineTrace r).onHook call thread).2 :: c.rest) := by
    show callFirst LineTrace.id call thread [] (c.front ++ .lineTrace r :: c.rest) = _
    have hfound := @callFirst_cons LineTrace.id (.lineTrace r) rfl call thread
    rw [callFirst_append c.front_ne, hfound]
    simp
  unfold Recordings.onHook
  simp only [hcall, Option.getD_some, Recording.onHook]
  cases LineTrace.Recording.line? call thread with
  | none => rfl
  | some p =>
    simp only [Recording.onLine]
    generalize r.onLine p.1 p.2 = q
    obtain ⟨reached, r⟩ := q
    cases reached with
    | coalesced => rfl
    | counted => exact congrArg (Prod.mk _) (c.tellAll_fill p.2 r.subscribers r)
    | beyond limit => rfl

end Around

/-! ### Results -/

theorem mem_insertField {k : String} {w : Json} {l : List (String × Json)} {e : String × Json}
    (h : e ∈ Json.insertField k w l) : e = (k, w) ∨ e ∈ l := by
  induction l with
  | nil => exact .inl (List.mem_singleton.1 h)
  | cons f l ih =>
    unfold Json.insertField at h
    split at h
    · exact (List.mem_cons.1 h).imp_right (List.mem_cons_of_mem f)
    · split at h
      · exact List.mem_cons.1 h
      · rcases List.mem_cons.1 h with rfl | h
        · exact .inr List.mem_cons_self
        · exact (ih h).imp_right (List.mem_cons_of_mem f)

theorem ne_of_mem_insertField {k : String} (hk : k ≠ LineTrace.id) (w : Json)
    {l : List (String × Json)} (h : ∀ e ∈ l, e.1 ≠ LineTrace.id) :
    ∀ e ∈ Json.insertField k w l, e.1 ≠ LineTrace.id := by
  intro e he
  rcases mem_insertField he with rfl | he
  · exact hk
  · exact h e he

/-- The result of another tracer goes before that of the line trace, or behind it. -/
theorem insertField_around {k : String} (hk : k ≠ LineTrace.id) (w : Json)
    {front rest : List (String × Json)} (h : ∀ e ∈ front ++ rest, e.1 ≠ LineTrace.id) :
    ∃ front' rest', (∀ e ∈ front' ++ rest', e.1 ≠ LineTrace.id) ∧ ∀ v,
      Json.insertField k w (front ++ (LineTrace.id, v) :: rest) =
        front' ++ (LineTrace.id, v) :: rest' := by
  have hbeq : (k == LineTrace.id) = false := beq_false_of_ne hk
  induction front with
  | nil =>
    by_cases hlt : k < LineTrace.id
    · refine ⟨[(k, w)], rest, List.forall_mem_cons.2 ⟨hk, h⟩, fun v => ?_⟩
      simp [Json.insertField, hbeq, hlt]
    · refine ⟨[], Json.insertField k w rest, ne_of_mem_insertField hk w h, fun v => ?_⟩
      simp [Json.insertField, hbeq, hlt]
  | cons f front ih =>
    obtain ⟨hf, htail⟩ := List.forall_mem_cons.1 h
    by_cases heq : (k == f.1) = true
    · refine ⟨(k, w) :: front, rest, List.forall_mem_cons.2 ⟨hk, htail⟩, fun v => ?_⟩
      simp [Json.insertField, heq]
    · by_cases hlt : k < f.1
      · refine ⟨(k, w) :: f :: front, rest, List.forall_mem_cons.2 ⟨hk, h⟩, fun v => ?_⟩
        simp [Json.insertField, heq, hlt]
      · obtain ⟨front', rest', hall, hins⟩ := ih htail
        refine ⟨f :: front', rest', List.forall_mem_cons.2 ⟨hf, hall⟩, fun v => ?_⟩
        simp [Json.insertField, heq, hlt, hins]

theorem exists_insertField {l : List (String × Json)} (h : ∀ e ∈ l, e.1 ≠ LineTrace.id) :
    ∃ front rest, (∀ e ∈ front ++ rest, e.1 ≠ LineTrace.id) ∧ ∀ v,
      Json.insertField LineTrace.id v l = front ++ (LineTrace.id, v) :: rest := by
  induction l with
  | nil => exact ⟨[], [], by simp, fun v => rfl⟩
  | cons f l ih =>
    obtain ⟨hf, hl⟩ := List.forall_mem_cons.1 h
    have hne : (LineTrace.id == f.1) = false := beq_false_of_ne hf.symm
    by_cases hlt : LineTrace.id < f.1
    · exact ⟨[], f :: l, h, fun v => by simp [Json.insertField, hne, hlt]⟩
    · obtain ⟨front, rest, hall, hins⟩ := ih hl
      exact ⟨f :: front, rest, List.forall_mem_cons.2 ⟨hf, hall⟩, fun v => by
        simp [Json.insertField, hne, hlt, hins]⟩

theorem ne_of_mem_results {entries : List Recording} (hentries : ∀ p ∈ entries, p.id ≠ LineTrace.id)
    {l : List (String × Json)} (h : ∀ e ∈ l, e.1 ≠ LineTrace.id) :
    ∀ e ∈ entries.foldl (fun l r => Json.insertField r.id r.report l) l, e.1 ≠ LineTrace.id := by
  induction entries generalizing l with
  | nil => exact h
  | cons p entries ih =>
    obtain ⟨hp, hentries⟩ := List.forall_mem_cons.1 hentries
    exact ih hentries (ne_of_mem_insertField hp _ h)

theorem results_around {entries : List Recording} (hentries : ∀ p ∈ entries, p.id ≠ LineTrace.id)
    {front rest : List (String × Json)} (h : ∀ e ∈ front ++ rest, e.1 ≠ LineTrace.id) :
    ∃ front' rest', (∀ e ∈ front' ++ rest', e.1 ≠ LineTrace.id) ∧ ∀ v,
      entries.foldl (fun l r => Json.insertField r.id r.report l)
        (front ++ (LineTrace.id, v) :: rest) = front' ++ (LineTrace.id, v) :: rest' := by
  induction entries generalizing front rest with
  | nil => exact ⟨front, rest, h, fun _ => rfl⟩
  | cons p entries ih =>
    obtain ⟨hp, hentries⟩ := List.forall_mem_cons.1 hentries
    obtain ⟨front₁, rest₁, h₁, hins⟩ := insertField_around hp p.report h
    obtain ⟨front₂, rest₂, h₂, hfold⟩ := ih hentries h₁
    exact ⟨front₂, rest₂, h₂, fun v => by rw [List.foldl_cons, hins, hfold]⟩

/-- **The result of the line trace stands between those of the others.** -/
theorem Around.results_fill (c : Around) :
    ∃ front rest, (∀ e ∈ front ++ rest, e.1 ≠ LineTrace.id) ∧ ∀ r : LineTrace.Recording,
      (c.fill r).results = front ++ (LineTrace.id, r.report.toJson) :: rest := by
  obtain ⟨front₁, rest₁, h₁, hins⟩ := exists_insertField (ne_of_mem_results c.front_ne (l := [])
    (by simp))
  obtain ⟨front₂, rest₂, h₂, hfold⟩ := results_around c.rest_ne h₁
  refine ⟨front₂, rest₂, h₂, fun r => ?_⟩
  show (c.front ++ .lineTrace r :: c.rest).foldl _ [] = _
  rw [List.foldl_append, List.foldl_cons, ← hfold, ← hins]
  rfl

/-! ### Starting -/

theorem id_of_start {n : Nat} {i : Instrumentation} {r : Recording} (h : Recording.start n i = .ok r) :
    r.id = i.id := by
  cases i with
  | lineTrace i =>
    cases h
    rfl
  | methodTrace i =>
    unfold Recording.start at h
    dsimp only at h
    cases hs : MethodTrace.Recording.start i n with
    | error e => simp [hs, Except.mapError, Except.map] at h
    | ok q =>
      simp only [hs, Except.mapError, Except.map, Except.ok.injEq] at h
      exact h ▸ rfl
  | probe a active =>
    unfold Recording.start at h
    dsimp only at h
    cases hs : Probe.Recording.start a active with
    | error e => simp [hs, Except.mapError, Except.map] at h
    | ok q =>
      simp only [hs, Except.mapError, Except.map, Except.ok.injEq] at h
      exact h ▸ rfl

/-- Tracers start one by one. -/
theorem forall₂_of_mapM_start {n : Nat} {is : List Instrumentation} {entries : List Recording}
    (h : is.mapM (Recording.start n) = .ok entries) :
    List.Forall₂ (fun i r => Recording.start n i = .ok r) is entries := by
  induction is generalizing entries with
  | nil =>
    cases h
    exact .nil
  | cons i is ih =>
    rw [List.mapM_cons] at h
    cases hr : Recording.start n i with
    | error e => simp [hr, bind, Except.bind] at h
    | ok r =>
      cases hrest : is.mapM (Recording.start n) with
      | error e => simp [hr, hrest, bind, Except.bind] at h
      | ok rest =>
        simp only [hr, hrest, bind, Except.bind, pure, Except.pure, Except.ok.injEq] at h
        subst h
        exact .cons hr (ih hrest)

theorem ne_of_mapM_start {n : Nat} {is : List Instrumentation} {entries : List Recording}
    (h : is.mapM (Recording.start n) = .ok entries) (his : ∀ i ∈ is, i.id ≠ LineTrace.id) :
    ∀ r ∈ entries, r.id ≠ LineTrace.id := by
  have hids := forall₂_of_mapM_start h
  clear h
  induction hids with
  | nil => simp
  | cons hr _ ih =>
    obtain ⟨hi, his⟩ := List.forall_mem_cons.1 his
    exact List.forall_mem_cons.2 ⟨id_of_start hr ▸ hi, ih his⟩

/-- **Tracers start whatever the arguments of the line trace are**, or fail whatever they are. -/
theorem start_around {front rest : List Instrumentation} (hfront : ∀ i ∈ front, i.id ≠ LineTrace.id)
    (hrest : ∀ i ∈ rest, i.id ≠ LineTrace.id) (n : Nat) :
    (∃ e, ∀ i, start n (front ++ .lineTrace i :: rest) = .error e) ∨
      ∃ c : Around, ∃ subscribers, ∀ i, start n (front ++ .lineTrace i :: rest) =
        .ok (c.fill ⟨i.arguments, [], subscribers⟩) := by
  have hstart : ∀ i : LineTrace.Instrumentation, start n (front ++ .lineTrace i :: rest) =
      match front.mapM (Recording.start n), rest.mapM (Recording.start n) with
      | .error e, _ => .error e
      | .ok _, .error e => .error e
      | .ok f, .ok g =>
        let rs : Recordings := ⟨f ++ .lineTrace (.start i.arguments) :: g, []⟩
        .ok (if f.any (·.wantsLines) || g.any (·.wantsLines) then rs.subscribe .methodTrace
          else rs) := by
    intro i
    unfold start
    rw [List.mapM_append, List.mapM_cons]
    -- a tracer that cannot be started fails the whole, whatever line trace stands between
    cases front.mapM (Recording.start n) with
    | error e => rfl
    | ok f =>
      cases rest.mapM (Recording.start n) with
      | error e => rfl
      | ok g => simp [bind, Except.bind, pure, Except.pure, Recording.start, Recording.wantsLines]
  cases hf : front.mapM (Recording.start n) with
  | error e => exact .inl ⟨e, fun i => by rw [hstart, hf]⟩
  | ok f =>
    cases hg : rest.mapM (Recording.start n) with
    | error e => exact .inl ⟨e, fun i => by rw [hstart, hf, hg]⟩
    | ok g =>
      have hf_ne := ne_of_mapM_start hf hfront
      have hg_ne := ne_of_mapM_start hg hrest
      right
      -- subscribers are told to all of them, the line trace included
      by_cases hwants : (f.any (·.wantsLines) || g.any (·.wantsLines)) = true
      · refine ⟨⟨f.map (·.subscribe .methodTrace), g.map (·.subscribe .methodTrace), [],
          by simpa using hf_ne, by simpa using hg_ne⟩, [.methodTrace], fun i => ?_⟩
        rw [hstart, hf, hg]
        dsimp only
        rw [if_pos hwants]
        simp [subscribe, Around.fill, Recording.subscribe, LineTrace.Recording.subscribe,
          LineTrace.Recording.start]
      · refine ⟨⟨f, g, [], hf_ne, hg_ne⟩, [], fun i => ?_⟩
        rw [hstart, hf, hg]
        dsimp only
        rw [if_neg hwants]
        rfl

end Recordings

end Confine
