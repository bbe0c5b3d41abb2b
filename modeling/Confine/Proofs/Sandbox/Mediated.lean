import Confine.Proofs.Sandbox.Secrecy

/-!
# Decisions that instructions call for

`Instruction.decision?` says which decision an instruction calls for, by its operands and by what has been granted:
one for each sensitive call to the host whose operands have the right types, and one for each class that the
unit's own policy refuses.

Main statement: `Activity.turn_mediated`.  A turn logs that decision and no other; it asks the host only for what the decision
has just granted, shows the program only what that is about (`Reveals`), and ends the thread where
it is denied.
-/

namespace Confine

/-! ### Questions with their answers -/

/-- A question to the host, and its answer. -/
structure Exchange where
  request : HostRequest
  answer : request.Answer

/-- The permission that a question to the host needs. -/
def HostRequest.permission? : HostRequest → Option Permission
  | clock => none
  | getEnv name => some (.readEnv name)
  | writeFile path _ => some (.writeFile ⟨path⟩)
  | workingDirectory => some (.readProperty "user.dir")

namespace Query

variable {α β : Type} {P : List Exchange → α → Prop}

/-- The computation comes to something with these questions, in order, and these answers. -/
inductive Comes : Query α → List Exchange → α → Prop where
  | done (a : α) : Comes (.done a) [] a
  | ask {r : HostRequest} {resume : r.Answer → Query α} {l : List Exchange} {b : α} (a : r.Answer)
      (h : Comes (resume a) l b) : Comes (.ask r resume) (⟨r, a⟩ :: l) b

/-- Whatever the answers are, `P` holds of the exchanges and of what the computation comes to. -/
def Ends (P : List Exchange → α → Prop) (q : Query α) : Prop := ∀ l a, q.Comes l a → P l a

theorem ends_done {a : α} (h : P [] a) : (done a).Ends P := by
  rintro _ _ ⟨⟩
  exact h

theorem ends_ask {r : HostRequest} {resume : r.Answer → Query α}
    (h : ∀ a, (resume a).Ends fun l => P (⟨r, a⟩ :: l)) : (ask r resume).Ends P := by
  rintro _ _ (_ | ⟨a, hl⟩)
  exact h a _ _ hl

theorem Ends.mono {Q : List Exchange → α → Prop} {q : Query α} (h : q.Ends P)
    (hPQ : ∀ l a, P l a → Q l a) : q.Ends Q := fun l a ha => hPQ l a (h l a ha)

theorem Ends.map {Q : List Exchange → β → Prop} {q : Query α} {f : α → β} (h : q.Ends P)
    (hPQ : ∀ l a, P l a → Q l (f a)) : (q.map f).Ends Q := by
  induction q generalizing P Q with
  | done a => exact ends_done (hPQ _ _ (h _ _ (.done a)))
  | ask r resume ih =>
    exact ends_ask fun a => ih a (P := fun l => P (⟨r, a⟩ :: l))
      (fun l b hb => h _ _ (.ask a hb)) fun l b hb => hPQ _ _ hb

end Query

/-! ### Decisions -/

/-- The text that lies so far beneath the top of the stack, if that is a text. -/
def OperandStack.text? (s : OperandStack) (depth : Nat) : Option String :=
  match s.values[depth]? with
  | some (.text x) => some x
  | _ => none

/-- The decision about a class, if the unit's own policy refuses it. -/
def LoadingUnit.refusal? (u : LoadingUnit) (className : String) : Option Decision :=
  if u.refuses className then some ⟨.loadClass className, false⟩ else none

section Decisions

variable (t : Task) (g : GrantSet) (s : TaskState)

/-- The decision that an instruction calls for, with its operands on the stack. A class file may be read if
the unit has it, a thread started if there is room for it; all else is as it was granted. -/
def Instruction.decision? (stack : OperandStack) : Instruction → Option Decision
  | .host .writeFile =>
    (stack.text? 1).map fun path => ⟨.writeFile ⟨path⟩, g.implies (.writeFile ⟨path⟩)⟩
  | .host .getEnv => (stack.text? 0).map fun name => ⟨.readEnv name, g.implies (.readEnv name)⟩
  | .host .getProperty =>
    (stack.text? 0).map fun name => ⟨.readProperty name, g.implies (.readProperty name)⟩
  | .host .exit =>
    match stack.values with
    | .int _ :: _ => some ⟨.exit, g.implies .exit⟩
    | _ => none
  | .host .setStreams => some ⟨.setStreams, g.implies .setStreams⟩
  | .host .readFile =>
    (stack.text? 0).map fun path => ⟨.readFile ⟨path⟩, (t.unit.classFile? path).isSome⟩
  | .host (.spawn _ _) =>
    if s.cancelled then none else some ⟨.createThread, s.liveThreads < t.maxExtraThreads⟩
  | .host .loadClass => (stack.text? 0).bind t.unit.refusal?
  | .invokeStatic className _ | .new className => t.unit.refusal? className
  | .invokeVirtual _ arity =>
    match stack.values.drop arity.toNat with
    | .object _ className :: _ => t.unit.refusal? className
    | _ => none
  | _ => none

/-- The decision that the next turn of a thread calls for. A thread that has been cancelled makes none. -/
def Activity.decision? : Activity → Option Decision
  | starting className _ => t.unit.refusal? className
  | running (f :: _) =>
    if s.cancelled then none
    else (f.method.code[f.next]?).bind (·.decision? t g s f.stack)
  | _ => none

/-- What a program sees with a permission that the grants imply, after these exchanges: what the host has answered to
just that question, a property that is the same everywhere, or the unit's own class file. -/
inductive Reveals : Permission → List Exchange → Value → Prop where
  | env {name : String} (h : g.implies (.readEnv name) = true) (text : Option String) :
      Reveals (.readEnv name) [⟨.getEnv name, text⟩] (text.elim .null .text)
  | workingDirectory (h : g.implies (.readProperty "user.dir") = true) (dir : Option String) :
      Reveals (.readProperty "user.dir") [⟨.workingDirectory, dir⟩] (dir.elim .null .text)
  | property {name : String} (h : g.implies (.readProperty name) = true) (hname : name ≠ "user.dir") :
      Reveals (.readProperty name) [] ((Step.fixedProperty? name).elim .null .text)
  | file {path text : String} (h : t.unit.classFile? path = some text) :
      Reveals (.readFile ⟨path⟩) [] (.text text)

end Decisions

attribute [local simp] Instruction.decision?

theorem Reveals.asked {t : Task} {g : GrantSet} {p : Permission} {v : Value} {asked : List Exchange}
    (h : Reveals t g p asked v) : asked.length ≤ 1 ∧
      ∀ x ∈ asked, ∀ q, x.request.permission? = some q → q = p ∧ g.implies p = true := by
  cases h with
  | env h text => simp [HostRequest.permission?, h]
  | workingDirectory h dir => simp [HostRequest.permission?, h]
  | property h hname => simp
  | file h => simp

/-- The call gives the program something to see that it needs a permission for. -/
def HostCall.isSource : HostCall → Bool
  | getEnv | getProperty | readFile => true
  | _ => false

def Outcome.shared : Outcome → TaskState
  | next s _ | call s _ _ | ret s _ | raise s _ _ | fault s _ | wait s _ _ => s

/-- The instruction has raised an exception, or has ended the thread. -/
def Outcome.isAbrupt : Outcome → Bool
  | raise _ _ _ | fault _ _ => true
  | _ => false

/-- The instruction `i` of the frame `f` has asked and ended as its decision says. -/
structure Outcome.Mediated (t : Task) (g : GrantSet) (s : TaskState) (f : Frame) (i : Instruction)
    (asked : List Exchange) (o : Outcome) : Prop where
  /-- what is logged is the decision -/
  log : o.shared.confinements =
    s.confinements.recordAll t.capability (i.decision? t g s f.stack).toList
  single : asked.length ≤ 1
  /-- what is asked has just been granted -/
  granted : ∀ x ∈ asked, ∀ p, x.request.permission? = some p →
    i.decision? t g s f.stack = some ⟨p, true⟩ ∧ g.implies p = true
  /-- what is denied has no effect and ends the thread -/
  denied : ∀ p, i.decision? t g s f.stack = some ⟨p, false⟩ → (∀ c, p ≠ .loadClass c) →
    asked = [] ∧ o = .fault (s.record t p false) (.security p)
  /-- what is seen has just been granted -/
  revealed : ∀ call, i = .host call → call.isSource = true → o.isAbrupt = false →
    ∃ p v name stack s', i.decision? t g s f.stack = some ⟨p, true⟩ ∧ Reveals t g p asked v ∧
      f.stack = .add stack (.text name) ∧ o = .next s' (f.withStack (stack.add v))

/-! ### Operands -/

namespace OperandStack

variable {s s' : OperandStack}

@[simp] theorem text?_add_zero (s : OperandStack) (x : String) : (s.add (.text x)).text? 0 = some x :=
  rfl

@[simp] theorem text?_add_succ (s : OperandStack) (v : Value) (depth : Nat) :
    (s.add v).text? (depth + 1) = s.text? depth := rfl

theorem exists_eq_add {v : Value} {rest : List Value} (h : s.values = v :: rest) :
    ∃ s' : OperandStack, s'.values = rest ∧ s = s'.add v := by
  obtain ⟨values, size, hsize⟩ := s
  subst h
  subst hsize
  exact ⟨⟨rest, rest.length, rfl⟩, rfl, rfl⟩

theorem text?_of_popText {e : Exception} (h : s.popText = .error e) : s.text? 0 = none := by
  unfold text?
  split
  · next x hx =>
    obtain ⟨rest, hrest⟩ : ∃ rest, s.values = .text x :: rest := by
      cases hs : s.values with
      | nil => simp [hs] at hx
      | cons v rest => exact ⟨rest, by simpa [hs] using hx⟩
    obtain ⟨s', -, hs'⟩ := exists_eq_add hrest
    rw [popText_eq_ok_iff.2 hs'] at h
    cases h
  · rfl

end OperandStack

namespace Step

variable {α : Type} {t : Task} {g : GrantSet} {s s₁ : TaskState} {f f₁ : Frame}

/-! ### Instructions that decide about classes, or about nothing -/

/-- An instruction logs the decisions `ds` and asks for nothing but the time. -/
def Logged (t : Task) (s : TaskState) (ds : List Decision) (asked : List Exchange) (o : Outcome) :
    Prop :=
  o.shared.confinements = s.confinements.recordAll t.capability ds ∧ asked.length ≤ 1 ∧
    ∀ x ∈ asked, x.request = .clock

variable {ds : List Decision}

theorem logged_done {o : Outcome}
    (h : o.shared.confinements = s.confinements.recordAll t.capability ds) :
    (Query.done o).Ends (Logged t s ds) :=
  Query.ends_done ⟨h, by simp, by simp⟩

theorem logged_attempt (h : s₁.confinements = s.confinements.recordAll t.capability ds)
    {r : Except Exception α} {k : α → Query Outcome} (hk : ∀ a, r = .ok a → (k a).Ends (Logged t s ds)) :
    (attempt s₁ f r k).Ends (Logged t s ds) := by
  cases r with
  | ok a => exact hk a rfl
  | error e => exact logged_done h

theorem logged_push (h : s₁.confinements = s.confinements.recordAll t.capability ds)
    (stack : OperandStack) (v : Value) : (push s₁ f stack v).Ends (Logged t s ds) :=
  logged_attempt h fun _ _ => logged_done h

theorem logged_clock {resume : Time.Timestamp → Query Outcome}
    (h : ∀ now, ∃ o, resume now = .done o ∧
      o.shared.confinements = s.confinements.recordAll t.capability ds) :
    (Query.ask .clock resume).Ends (Logged t s ds) := by
  refine Query.ends_ask fun now => ?_
  obtain ⟨o, ho, hs⟩ := h now
  rw [ho]
  exact Query.ends_done ⟨hs, by simp, by simp⟩

theorem confinements_load (t : Task) (s : TaskState) (name : String) :
    (s.load t name).2.confinements =
      s.confinements.recordAll t.capability (t.unit.refusal? name).toList := by
  have hconf : (s.load t name).2.confinements =
      (t.unit.loadClass s.classSets name (some t.capability) s.confinements).2 := by
    unfold TaskState.load
    split
    split <;> simp_all
  rw [hconf, LoadingUnit.loadClass, LoadingUnit.refusal?]
  dsimp only
  split <;> rfl

theorem logged_withClass {name : String} {k : TaskState → LinkedClass → Query Outcome}
    (hk : ∀ s₁ c, s₁.confinements =
        s.confinements.recordAll t.capability (t.unit.refusal? name).toList →
      (k s₁ c).Ends (Logged t s (t.unit.refusal? name).toList)) :
    (withClass t s f name k).Ends (Logged t s (t.unit.refusal? name).toList) := by
  have hload := confinements_load t s name
  exact logged_attempt hload fun c _ => hk _ c hload

/-- An instruction that decides about a class or about nothing, and logs what it decides, is mediated. -/
theorem Logged.mediated {i : Instruction} {asked : List Exchange} {o : Outcome}
    (h : Logged t s (i.decision? t g s f.stack).toList asked o)
    (hi : ∀ call, i = .host call → call.isSource = false)
    (hd : ∀ p b, i.decision? t g s f.stack = some ⟨p, b⟩ → ∃ c, p = .loadClass c) :
    o.Mediated t g s f i asked where
  log := h.1
  single := h.2.1
  granted := by
    intro x hx p hp
    rw [h.2.2 x hx] at hp
    cases hp
  denied := by
    intro p hp hclass
    obtain ⟨c, hc⟩ := hd p false hp
    exact absurd hc (hclass c)
  revealed := by
    intro call hcall hsource
    rw [hi call hcall] at hsource
    cases hsource

/-! ### Sensitive calls -/

variable {i : Instruction} {p : Permission}

theorem mediated_raise (hdec : i.decision? t g s f.stack = none) (r : Raised) :
    (raise s f r).Ends (Outcome.Mediated t g s f i) := by
  refine Query.ends_done ⟨by rw [hdec]; rfl, by simp, by simp, ?_, ?_⟩
  · rintro p hp
    rw [hdec] at hp
    cases hp
  · rintro call - - ⟨⟩

theorem mediated_fault (hdec : i.decision? t g s f.stack = some ⟨p, false⟩) :
    (fault (s.record t p false) (.security p)).Ends (Outcome.Mediated t g s f i) := by
  refine Query.ends_done ⟨by rw [hdec]; rfl, by simp, by simp, ?_, ?_⟩
  · intro q hq _
    rw [hdec] at hq
    cases hq
    exact ⟨rfl, rfl⟩
  · rintro call - - ⟨⟩

/-- What a granted permission is about is asked for, and nothing else. -/
theorem mediated_granted (hdec : i.decision? t g s f.stack = some ⟨p, true⟩) {asked : List Exchange}
    {o : Outcome} (hlog : o.shared.confinements = (s.record t p true).confinements)
    (hsingle : asked.length ≤ 1)
    (hasked : ∀ x ∈ asked, ∀ q, x.request.permission? = some q → q = p ∧ g.implies p = true)
    (hrevealed : ∀ call, i = .host call → call.isSource = true → o.isAbrupt = false →
      ∃ v name stack s', Reveals t g p asked v ∧ f.stack = .add stack (.text name) ∧
        o = .next s' (f.withStack (stack.add v))) : o.Mediated t g s f i asked := by
  refine ⟨by rw [hdec, hlog]; rfl, hsingle, fun x hx q hq => ?_, fun q hq => ?_,
    fun call hcall hsource ho => ?_⟩
  · obtain ⟨rfl, himplies⟩ := hasked x hx q hq
    exact ⟨hdec, himplies⟩
  · rw [hdec] at hq
    cases hq
  · obtain ⟨v, name, stack, s', hv⟩ := hrevealed call hcall hsource ho
    exact ⟨p, v, name, stack, s', hdec, hv⟩

theorem mediated_require (hg : s.Grants t g)
    (hdec : i.decision? t g s f.stack = some ⟨p, g.implies p⟩) {k : TaskState → Query Outcome}
    (hk : g.implies p = true → i.decision? t g s f.stack = some ⟨p, true⟩ →
      (k (s.record t p true)).Ends (Outcome.Mediated t g s f i)) :
    (require t s p k).Ends (Outcome.Mediated t g s f i) := by
  unfold require TaskState.check Confinements.check
  dsimp only
  rw [hg p]
  cases hp : g.implies p with
  | true => exact hk hp (hp ▸ hdec)
  | false => exact mediated_fault (hp ▸ hdec)

/-- What a granted permission is about is pushed, if there is room. -/
theorem mediated_push (hdec : i.decision? t g s f.stack = some ⟨p, true⟩) {name : String}
    {stack : OperandStack} (hstack : f.stack = stack.add (.text name)) {asked : List Exchange}
    {v : Value} (hv : Reveals t g p asked v) :
    (push (s.record t p true) f stack v).Ends
      fun l => Outcome.Mediated t g s f i (asked ++ l) := by
  obtain ⟨hsingle, hasked⟩ := hv.asked
  unfold push
  cases hpush : stack.push v with
  | error e =>
    refine Query.ends_done ?_
    rw [List.append_nil]
    exact mediated_granted hdec rfl hsingle hasked (by rintro call - - ⟨⟩)
  | ok stack' =>
    refine Query.ends_done ?_
    rw [List.append_nil]
    have hadd : stack' = stack.add v := by
      unfold OperandStack.push at hpush
      split at hpush <;> cases hpush
      rfl
    refine mediated_granted hdec rfl hsingle hasked ?_
    rintro call - - -
    exact ⟨v, name, stack, _, hv, hstack, by rw [hadd]⟩

theorem mediated_popText (hnone : f.stack.text? 0 = none → i.decision? t g s f.stack = none)
    {k : String × OperandStack → Query Outcome}
    (hk : ∀ name stack, f.stack = stack.add (.text name) →
      (k (name, stack)).Ends (Outcome.Mediated t g s f i)) :
    (attempt s f f.stack.popText k).Ends (Outcome.Mediated t g s f i) := by
  cases hp : f.stack.popText with
  | ok q => exact hk q.1 q.2 (OperandStack.popText_eq_ok_iff.1 hp)
  | error e => exact mediated_raise (hnone (OperandStack.text?_of_popText hp)) _

theorem writeFile_mediated (hg : s.Grants t g) :
    (writeFile t s f).Ends (Outcome.Mediated t g s f (.host .writeFile)) := by
  have hnone (h : f.stack.text? 1 = none) :
      (Instruction.host .writeFile).decision? t g s f.stack = none := by
    simp [h]
  unfold writeFile
  cases hp : f.stack.pop with
  | error e =>
    refine mediated_raise (hnone ?_) _
    cases hvalues : f.stack.values with
    | nil => simp [OperandStack.text?, hvalues]
    | cons v rest =>
      obtain ⟨stack, -, hstack⟩ := OperandStack.exists_eq_add hvalues
      rw [OperandStack.pop_eq_ok_iff.2 hstack] at hp
      cases hp
  | ok q =>
    obtain ⟨contents, below⟩ := q
    have hcontents := OperandStack.pop_eq_ok_iff.1 hp
    dsimp only [attempt]
    cases hp' : below.popText with
    | error e =>
      refine mediated_raise (hnone ?_) _
      rw [hcontents, OperandStack.text?_add_succ, OperandStack.text?_of_popText hp']
    | ok q =>
      obtain ⟨path, stack⟩ := q
      -- both are there, and the decision is about this path
      have hpath := OperandStack.popText_eq_ok_iff.1 hp'
      have hdec : (Instruction.host .writeFile).decision? t g s f.stack =
          some ⟨.writeFile ⟨path⟩, g.implies (.writeFile ⟨path⟩)⟩ := by
        simp [hcontents, hpath]
      refine mediated_require hg hdec fun himplies hdec => Query.ends_ask fun written => ?_
      have hmediated : ∀ {o : Outcome},
          o.shared.confinements = (s.record t (.writeFile ⟨path⟩) true).confinements →
          o.Mediated t g s f (.host .writeFile) [⟨.writeFile path contents.shown, written⟩] := by
        intro o hlog
        refine mediated_granted hdec hlog (by simp) ?_ ?_
        · simp [HostRequest.permission?, himplies]
        · rintro call ⟨⟩ ⟨⟩
      cases written with
      | ok u => exact Query.ends_done (hmediated rfl)
      | error message => exact Query.ends_done (hmediated rfl)

theorem getEnv_mediated (hg : s.Grants t g) :
    (getEnv t s f).Ends (Outcome.Mediated t g s f (.host .getEnv)) := by
  refine mediated_popText (fun h => by simp [h]) fun name stack hstack => ?_
  have hdec : (Instruction.host .getEnv).decision? t g s f.stack =
      some ⟨.readEnv name, g.implies (.readEnv name)⟩ := by
    simp [hstack]
  refine mediated_require hg hdec fun himplies hdec => Query.ends_ask fun text => ?_
  have hpush := mediated_push hdec hstack (.env himplies text)
  cases text <;> exact hpush

theorem getProperty_mediated (hg : s.Grants t g) :
    (getProperty t s f).Ends (Outcome.Mediated t g s f (.host .getProperty)) := by
  refine mediated_popText (fun h => by simp [h]) fun name stack hstack => ?_
  have hdec : (Instruction.host .getProperty).decision? t g s f.stack =
      some ⟨.readProperty name, g.implies (.readProperty name)⟩ := by
    simp [hstack]
  refine mediated_require hg hdec fun himplies hdec => ?_
  by_cases hname : name = "user.dir"
  · subst hname
    rw [if_pos rfl]
    refine Query.ends_ask fun dir => ?_
    have hpush := mediated_push hdec hstack (.workingDirectory himplies dir)
    cases dir <;> exact hpush
  · rw [if_neg hname]
    have hpush := mediated_push hdec hstack (.property himplies hname)
    cases hp : fixedProperty? name <;> rw [hp] at hpush <;> exact hpush

theorem exit_mediated (hg : s.Grants t g) :
    (exit t s f).Ends (Outcome.Mediated t g s f (.host .exit)) := by
  unfold exit
  cases hp : f.stack.popInt with
  | error e =>
    refine mediated_raise ?_ _
    unfold Instruction.decision?
    dsimp only
    split
    · next n rest heq =>
      obtain ⟨stack, -, hstack⟩ := OperandStack.exists_eq_add heq
      rw [OperandStack.popInt_eq_ok_iff.2 hstack] at hp
      cases hp
    · rfl
  | ok q =>
    have hstack := OperandStack.popInt_eq_ok_iff.1 hp
    have hdec : (Instruction.host .exit).decision? t g s f.stack = some ⟨.exit, g.implies .exit⟩ := by
      simp [hstack]
    dsimp only [attempt]
    exact mediated_require hg hdec fun himplies => by cases himplies

theorem setStreams_mediated (hg : s.Grants t g) :
    (require t s .setStreams fun s => next s f).Ends
      (Outcome.Mediated t g s f (.host .setStreams)) :=
  mediated_require hg rfl fun himplies => by cases himplies

theorem readFile_mediated :
    (readFile t s f).Ends (Outcome.Mediated t g s f (.host .readFile)) := by
  refine mediated_popText (fun h => by simp [h]) fun path stack hstack => ?_
  have hdec : (Instruction.host .readFile).decision? t g s f.stack =
      some ⟨.readFile ⟨path⟩, (t.unit.classFile? path).isSome⟩ := by
    simp [hstack]
  dsimp only
  cases hfile : t.unit.classFile? path with
  | some text =>
    rw [hfile] at hdec
    exact mediated_push hdec hstack (.file hfile)
  | none =>
    rw [hfile] at hdec
    exact mediated_fault hdec

theorem spawn_mediated (className methodName : String) :
    (spawn t s f className methodName).Ends
      (Outcome.Mediated t g s f (.host (.spawn className methodName))) := by
  have notSource : ∀ call, Instruction.host (.spawn className methodName) = .host call →
      call.isSource = false := by
    rintro call ⟨⟩
    rfl
  unfold spawn TaskState.spawn
  by_cases hc : s.cancelled = true
  · -- a thread that is cancelled is told so, and nothing is decided
    have hdec : (Instruction.host (.spawn className methodName)).decision? t g s f.stack = none :=
      if_pos hc
    simp only [hc, if_true]
    refine Query.ends_done ⟨by rw [hdec]; rfl, by simp, by simp, ?_, ?_⟩
    · intro p hp
      rw [hdec] at hp
      cases hp
    · rintro call - - ⟨⟩
  · have hdec : (Instruction.host (.spawn className methodName)).decision? t g s f.stack =
        some ⟨.createThread, s.liveThreads < t.maxExtraThreads⟩ := if_neg hc
    simp only [hc, if_false, Bool.false_eq_true]
    by_cases hl : s.liveThreads < t.maxExtraThreads
    · rw [decide_eq_true hl] at hdec
      simp only [hl, decide_true, if_true]
      unfold push
      cases f.stack.push _ with
      | error e =>
        exact Query.ends_done (mediated_granted hdec rfl (by simp) (by simp) (by rintro call - - ⟨⟩))
      | ok stack =>
        refine Query.ends_done (mediated_granted hdec rfl (by simp) (by simp) ?_)
        intro call hcall hsource
        rw [notSource call hcall] at hsource
        cases hsource
    · rw [decide_eq_false hl] at hdec
      simp only [hl, decide_false, if_false]
      exact mediated_fault hdec

/-! ### All instructions -/

theorem refusal?_eq_some {u : LoadingUnit} {name : String} {p : Permission} {b : Bool}
    (h : u.refusal? name = some ⟨p, b⟩) : p = .loadClass name ∧ b = false := by
  unfold LoadingUnit.refusal? at h
  split at h <;> cases h
  exact ⟨rfl, rfl⟩

theorem mediated_of_plain {q : Query Outcome} (hdec : i.decision? t g s f.stack = none)
    (hi : ∀ call, i = .host call → call.isSource = false) (h : q.Ends (Logged t s [])) :
    q.Ends (Outcome.Mediated t g s f i) := by
  refine h.mono fun l o ho => Logged.mediated (by rwa [hdec]) hi ?_
  rintro p b hp
  rw [hdec] at hp
  cases hp

theorem mediated_of_load {q : Query Outcome} (name : String)
    (hdec : i.decision? t g s f.stack = t.unit.refusal? name)
    (hi : ∀ call, i = .host call → call.isSource = false)
    (h : q.Ends (Logged t s (t.unit.refusal? name).toList)) :
    q.Ends (Outcome.Mediated t g s f i) := by
  refine h.mono fun l o ho => Logged.mediated (by rwa [hdec]) hi ?_
  rintro p b hp
  rw [hdec] at hp
  exact ⟨name, (refusal?_eq_some hp).1⟩

theorem loadClass_mediated :
    (loadClass t s f).Ends (Outcome.Mediated t g s f (.host .loadClass)) := by
  refine mediated_popText (fun h => by simp [h]) fun name stack hstack => ?_
  refine mediated_of_load name (by simp [hstack])
    (by rintro call ⟨⟩; rfl) ?_
  exact logged_withClass fun s₁ c h => logged_push h _ _

/-- **A call to the host asks and ends as its decision says.** -/
theorem host_mediated (hg : s.Grants t g) (thread : Nat) (call : HostCall) :
    (host t thread s f call).Ends (Outcome.Mediated t g s f (.host call)) := by
  have same : s.confinements = s.confinements.recordAll t.capability [] := rfl
  have notSource {call : HostCall} (h : call.isSource = false) :
      ∀ call', Instruction.host call = .host call' → call'.isSource = false := by
    rintro _ ⟨⟩
    exact h
  have writes (c : Console) (newline : Bool) :
      (writeText s f thread c newline).Ends (Logged t s []) :=
    logged_attempt same fun p _ => logged_clock fun now => ⟨_, rfl, rfl⟩
  cases call with
  | print => exact mediated_of_plain rfl (notSource rfl) (writes _ _)
  | println => exact mediated_of_plain rfl (notSource rfl) (writes _ _)
  | eprint => exact mediated_of_plain rfl (notSource rfl) (writes _ _)
  | eprintln => exact mediated_of_plain rfl (notSource rfl) (writes _ _)
  | readFile => exact readFile_mediated
  | writeFile => exact writeFile_mediated hg
  | getEnv => exact getEnv_mediated hg
  | getProperty => exact getProperty_mediated hg
  | exit => exact exit_mediated hg
  | setStreams => exact setStreams_mediated hg
  | spawn c m => exact spawn_mediated c m
  | join =>
    refine mediated_of_plain rfl (notSource rfl) (logged_attempt same fun p _ => ?_)
    dsimp only
    split
    · exact logged_done rfl
    · split <;> exact logged_done rfl
  | sleep =>
    refine mediated_of_plain rfl (notSource rfl) (logged_attempt same fun p _ => ?_)
    dsimp only
    split <;> exact logged_done rfl
  | time =>
    refine mediated_of_plain rfl (notSource rfl) (logged_clock fun now => ?_)
    unfold push
    cases f.stack.push _ with
    | ok stack => exact ⟨_, rfl, rfl⟩
    | error e => exact ⟨_, rfl, rfl⟩
  | loadClass => exact loadClass_mediated

theorem logged_hook (thread : Nat) (tracer name : String) (operands : List HookOperand) :
    (hook thread s f tracer name operands).Ends (Logged t s []) := by
  unfold hook
  dsimp only
  split <;> exact logged_done rfl

theorem logged_jumpOn (wanted : Bool) (l : Label) : (jumpOn s f wanted l).Ends (Logged t s []) := by
  refine logged_attempt rfl fun p _ => ?_
  dsimp only
  split
  · exact logged_attempt rfl fun _ _ => logged_done rfl
  · exact logged_done rfl

theorem invokeVirtual_mediated (name : String) (arity : UInt16) :
    (invokeVirtual t s f name arity.toNat).Ends
      (Outcome.Mediated t g s f (.invokeVirtual name arity)) := by
  unfold invokeVirtual
  have hbelow {vs : List Value} {below : OperandStack}
      (h : f.stack.popMany arity.toNat = .ok (vs, below)) :
      below.values = f.stack.values.drop arity.toNat := by
    unfold OperandStack.popMany at h
    split at h <;> cases h
    rfl
  -- without an object under the arguments there is no class to decide about
  have hnone (h : ∀ id className rest,
      f.stack.values.drop arity.toNat ≠ .object id className :: rest) :
      (Instruction.invokeVirtual name arity).decision? t g s f.stack = none := by
    unfold Instruction.decision?
    dsimp only
    split
    · next id className rest heq => exact absurd heq (h id className rest)
    · rfl
  cases hp : f.stack.popMany arity.toNat with
  | error e =>
    refine mediated_raise (hnone fun id className rest heq => ?_) _
    unfold OperandStack.popMany at hp
    split at hp
    · next hlt =>
      rw [List.drop_eq_nil_of_le (by rw [f.stack.length_eq]; omega)] at heq
      cases heq
    · cases hp
  | ok q =>
    obtain ⟨arguments, below⟩ := q
    dsimp only [attempt]
    cases hp' : below.popObject with
    | error e =>
      refine mediated_raise (hnone fun id className rest heq => ?_) _
      obtain ⟨stack, -, hstack⟩ := OperandStack.exists_eq_add ((hbelow hp).trans heq)
      rw [OperandStack.popObject_eq_ok_iff.2 hstack] at hp'
      cases hp'
    | ok q =>
      obtain ⟨⟨id, className⟩, stack⟩ := q
      have hobject := OperandStack.popObject_eq_ok_iff.1 hp'
      refine mediated_of_load className ?_ (by simp) (logged_withClass fun s₁ c h => ?_)
      · have hdrop := (hbelow hp).symm
        rw [hobject] at hdrop
        simp [hdrop]
      · exact logged_attempt h fun callee _ => logged_done h

/-- **An instruction asks and ends as its decision says.** -/
theorem instruction_mediated (hg : s.Grants t g) (thread : Nat) (i : Instruction) :
    (instruction t thread s f i).Ends (Outcome.Mediated t g s f i) := by
  have done {o : Outcome} (h : o.shared.confinements = s.confinements) :
      (Query.done o).Ends (Logged t s []) := logged_done h
  have pushes (stack : OperandStack) (v : Value) : (push s f stack v).Ends (Logged t s []) :=
    logged_push rfl stack v
  have tries {α : Type} (r : Except Exception α) {k : α → Query Outcome}
      (hk : ∀ a, (k a).Ends (Logged t s [])) : (attempt s f r k).Ends (Logged t s []) :=
    logged_attempt rfl fun a _ => hk a
  cases i with
  | host call => exact host_mediated hg thread call
  | invokeStatic c m =>
    refine mediated_of_load c rfl (by simp) ?_
    unfold instruction invokeStatic
    refine logged_withClass fun s₁ cls h => ?_
    dsimp only
    split
    · exact logged_done h
    · exact logged_attempt h fun p _ => logged_attempt h fun callee _ => logged_done h
  | new c =>
    refine mediated_of_load c rfl (by simp) ?_
    simp only [instruction, Heap.newObject]
    refine logged_withClass fun s₁ cls h => logged_push ?_ _ _
    exact h
  | invokeVirtual m n => exact invokeVirtual_mediated m n
  | label l => exact mediated_of_plain rfl (by simp) (done rfl)
  | lineNumber n l => exact mediated_of_plain rfl (by simp) (done rfl)
  | frame depth =>
    refine mediated_of_plain rfl (by simp) ?_
    unfold instruction
    dsimp only
    split <;> exact done rfl
  | push c => exact mediated_of_plain rfl (by simp) (pushes _ _)
  | load i => exact mediated_of_plain rfl (by simp) (tries _ fun v => pushes _ _)
  | store i => exact mediated_of_plain rfl (by simp) (tries _ fun p => tries _ fun g => done rfl)
  | binary op =>
    exact mediated_of_plain rfl (by simp) (tries _ fun _ => tries _ fun _ => tries _ fun _ => pushes _ _)
  | neg => exact mediated_of_plain rfl (by simp) (tries _ fun _ => pushes _ _)
  | not => exact mediated_of_plain rfl (by simp) (tries _ fun _ => pushes _ _)
  | dup => exact mediated_of_plain rfl (by simp) (tries _ fun _ => tries _ fun _ => pushes _ _)
  | pop => exact mediated_of_plain rfl (by simp) (tries _ fun _ => done rfl)
  | swap =>
    exact mediated_of_plain rfl (by simp) (tries _ fun _ => tries _ fun _ => tries _ fun _ => pushes _ _)
  | jump l => exact mediated_of_plain rfl (by simp) (tries _ fun _ => done rfl)
  | jumpIf l => exact mediated_of_plain rfl (by simp) (logged_jumpOn true l)
  | jumpIfNot l => exact mediated_of_plain rfl (by simp) (logged_jumpOn false l)
  | getField field => exact mediated_of_plain rfl (by simp) (tries _ fun _ => pushes _ _)
  | putField field =>
    exact mediated_of_plain rfl (by simp) (tries _ fun _ => tries _ fun _ => done rfl)
  | newException kind =>
    exact mediated_of_plain rfl (by simp) (tries _ fun _ => logged_push rfl _ _)
  | throw =>
    refine mediated_of_plain rfl (by simp) (tries _ fun p => ?_)
    dsimp only
    split <;> exact done rfl
  | ret => exact mediated_of_plain rfl (by simp) (done rfl)
  | retValue => exact mediated_of_plain rfl (by simp) (tries _ fun _ => done rfl)
  | hook tracer name operands => exact mediated_of_plain rfl (by simp) (logged_hook thread _ _ _)

end Step

/-! ### Turns -/

/-- The turn `u` of a thread has asked and ended as its decision says. -/
structure Turn.Mediated (t : Task) (g : GrantSet) (s : TaskState) (a : Activity)
    (asked : List Exchange) (u : Turn) : Prop where
  /-- what is logged is the decision -/
  log : u.shared.confinements =
    s.confinements.recordAll t.capability (a.decision? t g s).toList
  single : asked.length ≤ 1
  /-- what is asked has just been granted -/
  granted : ∀ x ∈ asked, ∀ p, x.request.permission? = some p →
    a.decision? t g s = some ⟨p, true⟩ ∧ g.implies p = true
  /-- what is denied has no effect and ends the thread -/
  denied : ∀ p, a.decision? t g s = some ⟨p, false⟩ → (∀ c, p ≠ .loadClass c) →
    asked = [] ∧ u = .ended (s.record t p false) (.error (.security p))
  /-- what is seen has just been granted; where nothing is seen an exception has been caught -/
  revealed : ∀ f outer call, a = .running (f :: outer) →
    f.method.code[f.next]? = some (.host call) → call.isSource = true →
    ∀ s' f' outer', u = .moved s' (.running (f' :: outer')) →
      (∃ id e, f'.stack = .single (.exception id e)) ∨
      ∃ p v name stack, a.decision? t g s = some ⟨p, true⟩ ∧ Reveals t g p asked v ∧
        f.stack = .add stack (.text name) ∧ outer' = outer ∧
        f' = { f with next := f.next + 1, stack := stack.add v }

namespace Turn

variable {t : Task} {g : GrantSet} {s : TaskState} {a : Activity}

/-- A turn with nothing to decide, or about a class only, asks for nothing but the time. -/
theorem mediated_of_quiet {asked : List Exchange} {u : Turn}
    (hlog : u.shared.confinements =
      s.confinements.recordAll t.capability (a.decision? t g s).toList)
    (hsingle : asked.length ≤ 1) (hasked : ∀ x ∈ asked, x.request = .clock)
    (hd : ∀ p b, a.decision? t g s = some ⟨p, b⟩ → ∃ c, p = .loadClass c)
    (ha : ∀ f outer i, a = .running (f :: outer) → f.method.code[f.next]? = some i →
      ∀ s' b, u ≠ .moved s' b) : u.Mediated t g s a asked where
  log := hlog
  single := hsingle
  granted := by
    intro x hx p hp
    rw [hasked x hx] at hp
    cases hp
  denied := by
    intro p hp hclass
    obtain ⟨c, hc⟩ := hd p false hp
    exact absurd hc (hclass c)
  revealed := fun f outer call hf hcall _ s' f' outer' hu =>
    absurd hu (ha f outer _ hf hcall s' _)

/-- Calls, returns and handlers log nothing. -/
theorem confinements_ofProgress_finish (now : Nat) (outer : List Frame) (o : Outcome) :
    (ofProgress now (Activation.finish t outer o)).shared.confinements = o.shared.confinements := by
  have unwound (s : TaskState) (frames : List Frame) (r : Raised) :
      (ofProgress now (Activation.unwind t s frames r)).shared.confinements = s.confinements := by
    unfold Activation.unwind
    dsimp only
    split
    · rfl
    · split
      · cases r <;> rfl
      · rfl
  cases o with
  | next s f => rfl
  | call s f callee =>
    unfold Activation.finish Activation.enter
    dsimp only
    split
    · exact unwound _ _ _
    · rfl
  | ret s v =>
    cases outer with
    | nil => rfl
    | cons f outer => cases v <;> rfl
  | raise s f r => exact unwound _ _ _
  | fault s e => rfl
  | wait s f w => cases w <;> rfl

theorem caught_of_unwind {now : Nat} {s s' : TaskState} {frames outer : List Frame} {r : Raised}
    {f : Frame}
    (h : ofProgress now (Activation.unwind t s frames r) = .moved s' (.running (f :: outer))) :
    ∃ id e, f.stack = .single (.exception id e) := by
  unfold Activation.unwind at h
  dsimp only at h
  split at h
  · cases h
  · split at h
    · cases r <;> cases h <;> exact ⟨_, _, rfl⟩
    · cases h

/-- A turn does what its instruction does. -/
theorem mediated_of_outcome {f : Frame} {i : Instruction} (hi : f.method.code[f.next]? = some i)
    {outer : List Frame}
    (hdec : (Activity.running (f :: outer)).decision? t g s = i.decision? t g s f.stack)
    {asked : List Exchange} {o : Outcome}
    (ho : o.Mediated t g s { f with next := f.next + 1 } i asked) (now : Nat) :
    (ofProgress now (Activation.finish t outer o)).Mediated t g s (.running (f :: outer)) asked where
  log := by
    rw [confinements_ofProgress_finish, ho.log, hdec]
  single := ho.single
  granted := by
    rw [hdec]
    exact ho.granted
  denied := by
    intro p hp hclass
    rw [hdec] at hp
    obtain ⟨hasked, rfl⟩ := ho.denied p hp hclass
    exact ⟨hasked, rfl⟩
  revealed := by
    rintro f outer call ⟨⟩ hcall hsource s' f' outer' hu
    obtain rfl := Option.some.inj (hi.symm.trans hcall)
    cases habrupt : o.isAbrupt with
    -- the call threw, so what comes behind is its handler
    | true =>
      cases o with
      | raise s₁ f₁ r => exact .inl (caught_of_unwind hu)
      | fault s₁ e => cases hu
      | _ => cases habrupt
    | false =>
      -- the call went through, so its source was granted
      obtain ⟨p, v, name, stack, s₁, hp, hv, hstack, rfl⟩ := ho.revealed call rfl hsource habrupt
      cases hu
      exact .inr ⟨p, v, name, stack, hdec.trans hp, hv, hstack, rfl, rfl⟩

end Turn

theorem Activation.confinements_start (t : Task) (s : TaskState) (className methodName : String)
    (arguments : List Value) : (start t s className methodName arguments).2.confinements =
      s.confinements.recordAll t.capability (t.unit.refusal? className).toList :=
  Step.confinements_load t s className

namespace Activity

variable {t : Task} {g : GrantSet} {s : TaskState}

theorem idle_mediated {a : Activity} {u : Turn} (hu : u.shared = s)
    (hnone : a.decision? t g s = none)
    (ha : ∀ f outer i, a = .running (f :: outer) → f.method.code[f.next]? = some i →
      ∀ s' b, u ≠ .moved s' b) : (Query.done u).Ends (Turn.Mediated t g s a) :=
  Query.ends_done <| Turn.mediated_of_quiet (by rw [hu, hnone]; rfl) (by simp) (by simp)
    (by simp [hnone]) ha

theorem running_mediated (hg : s.Grants t g) (frames : List Frame) (thread now : Nat) :
    ((running frames).turn t thread now s).Ends (Turn.Mediated t g s (.running frames)) := by
  simp only [turn, Activation.step]
  by_cases hc : s.cancelled = true
  · rw [if_pos hc]
    refine idle_mediated rfl ?_ (by simp [Turn.ofProgress])
    cases frames with
    | nil => rfl
    | cons f outer => exact if_pos hc
  rw [if_neg hc]
  cases frames with
  | nil => exact idle_mediated rfl rfl (by simp)
  | cons f outer =>
    have hdec : (running (f :: outer)).decision? t g s =
        (f.method.code[f.next]?).bind (·.decision? t g s f.stack) := if_neg hc
    dsimp only [Step.frame]
    cases hi : f.method.code[f.next]? with
    | none =>
      -- there is no instruction, so none that decides
      rw [hi] at hdec
      have hlog := Turn.confinements_ofProgress_finish (t := t) now outer (.ret s none)
      refine Query.ends_done (Turn.mediated_of_quiet (hlog.trans (by rw [hdec]; rfl)) (by simp)
        (by simp) (by simp [hdec]) ?_)
      rintro f outer i ⟨⟩ hcode
      rw [hi] at hcode
      cases hcode
    | some i =>
      rw [hi] at hdec
      have hinstruction :=
        Step.instruction_mediated hg thread i (f := { f with next := f.next + 1 })
      exact (hinstruction.map (f := Activation.finish t outer)
        (Q := fun l p => (Turn.ofProgress now p).Mediated t g s (.running (f :: outer)) l)
        fun l o ho => Turn.mediated_of_outcome hi hdec ho now).map fun l p hp => hp

/-- **A turn asks and ends as its decision says.** -/
theorem turn_mediated (hg : s.Grants t g) (a : Activity) (thread now : Nat) :
    (a.turn t thread now s).Ends (Turn.Mediated t g s a) := by
  cases a with
  | starting c m =>
    have ends {u : Turn} (hu : u.shared = (Activation.start t s c m []).2) :
        (Query.done u).Ends (Turn.Mediated t g s (.starting c m)) :=
      Query.ends_done <| Turn.mediated_of_quiet
        (by rw [hu]; exact Activation.confinements_start t s c m []) (by simp) (by simp)
        (fun p b hp => ⟨c, (Step.refusal?_eq_some hp).1⟩) (by simp)
    simp only [turn]
    split <;> exact ends rfl
  | running frames => exact running_mediated hg frames thread now
  | sleeping frames wake =>
    simp only [turn]
    split
    · exact idle_mediated rfl rfl (by simp)
    · split <;> exact idle_mediated rfl rfl (by simp)
  | joining frames index =>
    simp only [turn]
    split
    · exact idle_mediated rfl rfl (by simp)
    · split <;> exact idle_mediated rfl rfl (by simp)

end Activity

end Confine
