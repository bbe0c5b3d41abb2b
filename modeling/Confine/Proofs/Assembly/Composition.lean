import Confine.Assembly.Assembler
import Confine.Proofs.Text.Numeral

/-!
# Texts put one after the other

`Assembly.assemble_append` — what a text adds to the classes of the lines before it does not depend on these
lines: a text that starts with a class adds the classes that it assembles to alone, and a text without one adds
to the open class the methods that it would add to a bare class. Faults move down by the lines before them.

A run of the assembler goes on alike from a state and from the same state with more before it
(`State.moved`), and a class that starts ends whatever class was open (`State.outcome_reopen`).
-/

namespace Confine

/-! ### Lines -/

namespace Text

theorem linesFrom_eq_append (done : List (List Char)) (rev s : List Char) :
    linesFrom done rev s = done.reverse ++ linesFrom [] rev s := by
  induction s generalizing done rev with
  | nil => cases rev <;> simp [linesFrom]
  | cons c s ih =>
    by_cases hc : c = '\n'
    · rw [linesFrom, if_pos hc, ih, linesFrom, if_pos hc, ih [closeLine rev]]
      simp
    · rw [linesFrom, if_neg hc, ih, linesFrom, if_neg hc]

def Whole (s : List Char) : Prop := ∀ c ∈ s.getLast?, c = '\n'

instance (s : List Char) : Decidable (Whole s) := s.getLast?.decidableForallMem

theorem lines_append {s : List Char} (h : Whole s) (rest : List Char) :
    lines (s ++ rest) = lines s ++ lines rest := by
  suffices ∀ rev, (s = [] → rev = []) → linesFrom [] rev (s ++ rest) = linesFrom [] rev s ++ lines rest from
    this [] fun _ => rfl
  induction s with
  | nil =>
    intro rev hrev
    rw [hrev rfl]
    rfl
  | cons c s ih =>
    intro rev _
    have hrest : Whole s := by
      cases s with
      | nil => nofun
      | cons d s => simpa [Whole, List.getLast?_cons_cons] using h
    by_cases hc : c = '\n'
    · rw [List.cons_append, linesFrom, if_pos hc, linesFrom_eq_append, linesFrom, if_pos hc,
        linesFrom_eq_append [closeLine rev], ih hrest [] fun _ => rfl, List.append_assoc]
    · have hs : s ≠ [] := by
        rintro rfl
        exact hc (h c rfl)
      rw [List.cons_append, linesFrom, if_neg hc, linesFrom, if_neg hc,
        ih hrest (c :: rev) fun h => absurd h hs]

end Text

/-- The class with the methods of another behind its own, and with the source file of the other if it names
one. -/
def ClassFile.extended (c b : ClassFile) : ClassFile :=
  ⟨c.name, b.sourceFile.or c.sourceFile, c.methods ++ b.methods⟩

namespace Assembly

/-! ### Runs over lines -/

def Fault.down (f : Fault) (k : Nat) : Fault := { f with line := f.line + k }

def Place.mapClass (a : OpenClass → OpenClass) : Place → Place
  | .outside => .outside
  | .inClass c => .inClass (a c)
  | .inMethod c m => .inMethod (a c) m

def Statement.IsClass : Statement → Prop
  | .startClass _ => True
  | _ => False

instance : DecidablePred Statement.IsClass := fun st =>
  match st with
  | .startClass _ => .isTrue trivial
  | .source _ | .startMethod _ | .locals _ | .handler .. | .finish | .label _ | .line _ => .isFalse nofun

/-- The first statement of the lines, if there is one before a line that cannot be read. -/
def Statement.first? : List (List Char) → Option Statement
  | [] => none
  | l :: ls =>
    match Statement.ofLine? l with
    | .error _ => none
    | .ok none => first? ls
    | .ok (some st) => some st

/-- Nothing stands before the first class of the lines. -/
def StartsClass (ls : List (List Char)) : Prop := ∀ st ∈ Statement.first? ls, st.IsClass

instance (ls : List (List Char)) : Decidable (StartsClass ls) :=
  inferInstanceAs (Decidable (∀ st ∈ Statement.first? ls, st.IsClass))

def Body (ls : List (List Char)) : Prop :=
  ∀ l ∈ ls, ∀ st ∈ (Statement.ofLine? l).toOption.join, ¬ st.IsClass

instance (ls : List (List Char)) : Decidable (Body ls) :=
  inferInstanceAs (Decidable (∀ l ∈ ls, ∀ st ∈ (Statement.ofLine? l).toOption.join, ¬ st.IsClass))

theorem Body.not_isClass {ls : List (List Char)} (h : Body ls) {l : List Char} (hl : l ∈ ls) {st : Statement}
    (hst : Statement.ofLine? l = .ok (some st)) : ¬ st.IsClass := h l hl st (by rw [hst]; rfl)

theorem Body.tail {l : List Char} {ls : List (List Char)} (h : Body (l :: ls)) : Body ls :=
  fun l hl => h l (.tail _ hl)

namespace State

theorem takeLines_append {s s' : State} {n : Nat} {ls : List (List Char)} (h : s.takeLines n ls = .ok s')
    (ks : List (List Char)) : s.takeLines n (ls ++ ks) = s'.takeLines (n + ls.length) ks := by
  induction ls generalizing s n with
  | nil => cases h; rfl
  | cons l ls ih =>
    rw [takeLines] at h
    rw [List.cons_append, takeLines]
    cases hl : s.takeLine n l with
    | error f => rw [hl] at h; cases h
    | ok t =>
      rw [hl] at h
      have hrest := ih h
      simpa [Nat.add_assoc, Nat.add_comm 1] using hrest

def outcome (s : State) (n : Nat) (ls : List (List Char)) : Except Fault (List ClassFile) := do
  let s ← s.takeLines n ls
  s.finish

theorem outcome_append {s s' : State} {n : Nat} {ls : List (List Char)} (h : s.takeLines n ls = .ok s')
    (ks : List (List Char)) : s.outcome n (ls ++ ks) = s'.outcome (n + ls.length) ks := by
  rw [outcome, takeLines_append h]
  rfl

def Closed (s : State) : Prop := ∀ c m, s.place ≠ .inMethod c m

theorem Closed.finish {s : State} (h : s.Closed) : s.finish = .ok s.allClasses.reverse := by
  unfold State.finish
  split
  · next c m hplace => exact absurd hplace (h c m)
  · rfl

theorem finish_eq_ok {s : State} {cs : List ClassFile} (h : s.finish = .ok cs) :
    s.Closed ∧ s.allClasses.reverse = cs := by
  have hclosed : s.Closed := by
    intro c m hplace
    rw [State.finish, hplace] at h
    cases h
  rw [hclosed.finish] at h
  exact ⟨hclosed, Except.ok.inj h⟩

theorem outcome_eq_ok {s : State} {n : Nat} {ls : List (List Char)} {cs : List ClassFile}
    (h : s.outcome n ls = .ok cs) :
    ∃ s', s.takeLines n ls = .ok s' ∧ s'.Closed ∧ s'.allClasses.reverse = cs := by
  rw [outcome] at h
  cases hs : s.takeLines n ls with
  | error f => rw [hs] at h; cases h
  | ok s' =>
    rw [hs] at h
    exact ⟨s', rfl, finish_eq_ok h⟩

/-! ### What the latest line was makes no difference -/

/-- The line of the latest statement is asked for only while a method is open. -/
theorem Closed.outcome_line {s : State} (h : s.Closed) (line n : Nat) (ls : List (List Char)) :
    s.outcome n ls = State.outcome { s with line } n ls := by
  induction ls generalizing n with
  | nil =>
    have h' : State.Closed { s with line } := h
    exact h.finish.trans h'.finish.symm
  | cons l ls ih =>
    unfold outcome takeLines takeLine
    cases Statement.ofLine? l with
    | error cause => rfl
    | ok st =>
      cases st with
      | none => exact ih (n + 1)
      | some st => rfl

/-! ### More before a state -/

/-- The state with the classes `d` and `k` lines before it, and with its open class changed. -/
def moved (d : List ClassFile) (a : OpenClass → OpenClass) (k : Nat) (s : State) : State :=
  ⟨s.done ++ d, s.place.mapClass a, s.line + k⟩

variable {d : List ClassFile} {a : OpenClass → OpenClass} {k : Nat}

/-- The change keeps what the statements of a class body do: it is about earlier methods and an earlier name of
the source file. -/
structure Keeps (a : OpenClass → OpenClass) : Prop where
  source : ∀ c file, a { c with sourceFile := some file } = { a c with sourceFile := some file }
  methods : ∀ c m, a { c with methods := m :: c.methods } = { a c with methods := m :: (a c).methods }

/-- **No statement takes notice of the classes and methods before it**, but for a class that ends the open one. -/
theorem take_moved (ha : Keeps a) {st : Statement} (hst : a = id ∨ ¬ st.IsClass)
    (s : State) : (s.moved d a k).take st = (s.take st).map (moved d a k) := by
  obtain ⟨done, place, line⟩ := s
  cases st with
  | startClass operands =>
    -- only a class directive names a class by itself, and there the names stay as they are
    obtain rfl : a = id := hst.resolve_right fun h => h trivial
    cases place with
    | inMethod c m => rfl
    | _ =>
      simp only [take, moved, Place.mapClass, id]
      cases operand operands 0 <;> rfl
  | source file =>
    cases place with
    | outside => rfl
    | _ => simp [take, moved, Place.mapClass, Except.map, ha.source]
  | finish =>
    cases place with
    | inMethod c m => simp [take, moved, Place.mapClass, Except.map, ha.methods]
    | _ => rfl
  | startMethod operands =>
    cases place with
    | inClass c =>
      simp only [take, moved, Place.mapClass]
      cases OpenMethod.ofOperands operands <;> rfl
    | _ => rfl
  | line l =>
    cases place with
    | inMethod c m =>
      simp only [take, moved, Place.mapClass, inMethod]
      cases m.addLine l <;> rfl
    | _ => rfl
  | _ => cases place <;> rfl

theorem takeLines_moved (ha : Keeps a) {ls : List (List Char)}
    (hls : a = id ∨ Body ls)
    (s : State) (n : Nat) : (s.moved d a k).takeLines (n + k) ls =
      ((s.takeLines n ls).map (moved d a k)).mapError (·.down k) := by
  induction ls generalizing s n with
  | nil => rfl
  | cons l ls ih =>
    have hrest := ih (hls.imp_right Body.tail)
    unfold takeLines takeLine
    cases hst : Statement.ofLine? l with
    | error cause => rfl
    | ok st =>
      cases st with
      | none => simpa [Nat.add_right_comm] using hrest s (n + 1)
      | some st =>
        have htake := take_moved (d := d) (k := k) ha
          (hls.imp_right fun h => h.not_isClass (.head _) hst) { s with line := n }
        have hline : { s.moved d a k with line := n + k } = moved d a k { s with line := n } := rfl
        dsimp only
        rw [hline, htake]
        cases State.take { s with line := n } st with
        | error cause => rfl
        | ok s' => simpa [Nat.add_right_comm, Except.map] using hrest s' (n + 1)

/-- **What the lines add to classes that have ended** is what they make alone. -/
theorem outcome_moved (s : State) (n : Nat) (ls : List (List Char)) : (s.moved d id k).outcome (n + k) ls =
    ((s.outcome n ls).map (d.reverse ++ ·)).mapError (·.down k) := by
  have hkeeps : Keeps id := ⟨fun _ _ => rfl, fun _ _ => rfl⟩
  rw [outcome, takeLines_moved hkeeps (.inl rfl), outcome]
  cases s.takeLines n ls with
  | error fault => rfl
  | ok s' =>
    obtain ⟨done, place, line⟩ := s'
    show (moved d id k ⟨done, place, line⟩).finish =
      (((⟨done, place, line⟩ : State).finish).map (d.reverse ++ ·)).mapError (·.down k)
    cases place with
    | inMethod c m => rfl
    | _ => simp [finish, moved, Place.mapClass, allClasses, Except.map, Except.mapError]

/-! ### A class that starts -/

/-- What comes of a text that starts with a class does not depend on whether a class is open. -/
theorem Closed.outcome_reopen {s : State} (hs : s.Closed) {ls : List (List Char)} (hls : StartsClass ls)
    (line n : Nat) : s.outcome n ls = State.outcome ⟨s.allClasses, .outside, line⟩ n ls := by
  induction ls generalizing n with
  | nil => exact hs.finish
  | cons l ls ih =>
    rw [StartsClass, Statement.first?] at hls
    unfold outcome takeLines takeLine
    cases hst : Statement.ofLine? l with
    | error cause => rfl
    | ok st =>
      rw [hst] at hls
      cases st with
      | none => exact ih hls (n + 1)
      | some st =>
        have hclass : st.IsClass := hls st rfl
        obtain ⟨operands, rfl⟩ : ∃ operands, st = .startClass operands := by
          cases st <;> first | exact ⟨_, rfl⟩ | cases hclass
        have htake : State.take { s with line := n } (.startClass operands) =
            State.take ⟨s.allClasses, .outside, n⟩ (.startClass operands) := by
          obtain ⟨done, place, _⟩ := s
          cases place with
          | inMethod c m => exact absurd rfl (hs c m)
          | _ => rfl
        dsimp only
        rw [htake]

theorem startsClass_of_outcome {s : State} (hs : s.place = .outside) {n : Nat} {ls : List (List Char)}
    {cs : List ClassFile} (h : s.outcome n ls = .ok cs) : StartsClass ls := by
  induction ls generalizing n with
  | nil => nofun
  | cons l ls ih =>
    rw [StartsClass, Statement.first?]
    unfold outcome takeLines takeLine at h
    cases hst : Statement.ofLine? l with
    | error cause => nofun
    | ok st =>
      rw [hst] at h
      cases st with
      | none => exact ih h
      | some st =>
        rintro _ ⟨⟩
        cases st with
        | startClass operands => trivial
        | _ =>
          simp only [take, inMethod, hs] at h
          cases h

/-! ### The body of a class -/

/-- A statement that is taken leaves a class open, and it ends one only to start another. -/
theorem take_eq_ok {s s' : State} {st : Statement} (h : s.take st = .ok s') :
    s'.place ≠ .outside ∧ (s'.done = s.done ∨ st.IsClass) := by
  obtain ⟨done, place, line⟩ := s
  cases st with
  | startClass operands =>
    refine ⟨?_, .inr trivial⟩
    cases place with
    | inMethod c m => cases h
    | _ =>
      simp only [take] at h
      cases hname : operand operands 0 <;> rw [hname] at h <;> cases h
      nofun
  | startMethod operands =>
    cases place with
    | inClass c =>
      simp only [take] at h
      cases hm : OpenMethod.ofOperands operands <;> rw [hm] at h <;> cases h
      exact ⟨nofun, .inl rfl⟩
    | _ => cases h
  | line l =>
    cases place with
    | inMethod c m =>
      simp only [take, inMethod] at h
      cases hm : m.addLine l <;> rw [hm] at h <;> cases h
      exact ⟨nofun, .inl rfl⟩
    | _ => cases h
  | _ => cases place <;> cases h <;> exact ⟨nofun, .inl rfl⟩

theorem takeLine_eq_ok {s s' : State} {n : Nat} {l : List Char} (h : s.takeLine n l = .ok s') :
    s' = s ∨ ∃ st, Statement.ofLine? l = .ok (some st) ∧ State.take { s with line := n } st = .ok s' := by
  rw [takeLine] at h
  split at h
  · cases h
  · exact .inl (Except.ok.inj h).symm
  · next st hst =>
    split at h
    · cases h
    · next t htake => exact .inr ⟨st, hst, htake.trans (congrArg _ (Except.ok.inj h))⟩

/-- Lines with a statement leave a class open, and those of a body leave the classes before it as they are. -/
theorem takeLines_eq_ok {s s' : State} {n : Nat} {ls : List (List Char)} (h : s.takeLines n ls = .ok s') :
    (s' = s ∨ s'.place ≠ .outside) ∧ (Body ls → s'.done = s.done) := by
  induction ls generalizing s n with
  | nil => cases h; exact ⟨.inl rfl, fun _ => rfl⟩
  | cons l ls ih =>
    rw [takeLines] at h
    cases hl : s.takeLine n l with
    | error fault => rw [hl] at h; cases h
    | ok t =>
      rw [hl] at h
      obtain ⟨hplace, hdone⟩ := ih h
      have hbody (hls : Body (l :: ls)) : s'.done = t.done := hdone hls.tail
      rcases takeLine_eq_ok hl with rfl | ⟨st, hst, htake⟩
      · exact ⟨hplace, hbody⟩
      · obtain ⟨hopen, hkept⟩ := take_eq_ok htake
        refine ⟨.inr (hplace.elim (fun h => h ▸ hopen) id), fun hls => (hbody hls).trans ?_⟩
        exact hkept.resolve_right (hls.not_isClass (.head _) hst)

end State

/-- An open class with the methods and the source file of `c` before its own. -/
def OpenClass.onto (c b : OpenClass) : OpenClass :=
  ⟨c.name, b.sourceFile.or c.sourceFile, b.methods ++ c.methods⟩

theorem OpenClass.toClassFile_onto (c b : OpenClass) :
    (c.onto b).toClassFile = c.toClassFile.extended b.toClassFile := by
  simp [onto, toClassFile, ClassFile.extended]

/-- **What the body of a class adds to an open class** is what it adds to a bare one. -/
theorem State.outcome_body {ls : List (List Char)} (hls : Body ls) (d : List ClassFile) (c : OpenClass)
    (name : String) (line n k : Nat) : ∃ r : Except Fault ClassFile,
      State.outcome ⟨[], .inClass ⟨name, none, []⟩, line⟩ n ls = r.map ([·]) ∧
      State.outcome ⟨d, .inClass c, line + k⟩ (n + k) ls =
        (r.map fun b => d.reverse ++ [c.toClassFile.extended b]).mapError (·.down k) := by
  have hkeeps : Keeps c.onto := ⟨fun _ _ => rfl, fun _ _ => rfl⟩
  have hmoved : (⟨d, .inClass c, line + k⟩ : State) =
    moved d c.onto k ⟨[], .inClass ⟨name, none, []⟩, line⟩ := rfl
  rw [hmoved, outcome, outcome, takeLines_moved hkeeps (.inr hls)]
  cases h : State.takeLines ⟨[], .inClass ⟨name, none, []⟩, line⟩ n ls with
  | error fault => exact ⟨.error fault, rfl, rfl⟩
  | ok s =>
    obtain ⟨hplace, hdone⟩ := takeLines_eq_ok h
    obtain ⟨done, place, line'⟩ := s
    obtain rfl : done = [] := hdone hls
    cases place with
    | outside =>
      rcases hplace with heq | hne
      · cases heq
      · exact absurd rfl hne
    | inMethod b m => exact ⟨.error ⟨line', .missingEnd⟩, rfl, rfl⟩
    | inClass b =>
      refine ⟨.ok b.toClassFile, rfl, ?_⟩
      show Except.ok ((c.onto b).toClassFile :: d).reverse = .ok (d.reverse ++ [c.toClassFile.extended b.toClassFile])
      rw [c.toClassFile_onto, List.reverse_cons]

/-! ### Texts -/

variable {t₁ t₂ : String} {cs₁ : List ClassFile}

theorem assemble_eq_ok {t : String} {cs : List ClassFile} (h : assemble t = .ok cs) :
    ∃ s : State, State.initial.takeLines 1 (Text.lines t.toList) = .ok s ∧ s.Closed ∧
      s.allClasses.reverse = cs := State.outcome_eq_ok h

theorem assemble_append_of_takeLines (hwhole : Text.Whole t₁.toList) {s : State}
    (hs : State.initial.takeLines 1 (Text.lines t₁.toList) = .ok s) :
    assemble (t₁ ++ t₂) = s.outcome (1 + (Text.lines t₁.toList).length) (Text.lines t₂.toList) := by
  have h : assemble (t₁ ++ t₂) = State.initial.outcome 1 (Text.lines (t₁ ++ t₂).toList) := rfl
  rw [h, String.toList_append, Text.lines_append hwhole, State.outcome_append hs]

/-- **A text that starts with a class goes on as it starts alone.** -/
theorem assemble_append_of_startsClass (hwhole : Text.Whole t₁.toList) (h₁ : assemble t₁ = .ok cs₁)
    (h₂ : StartsClass (Text.lines t₂.toList)) : assemble (t₁ ++ t₂) =
      ((assemble t₂).map (cs₁ ++ ·)).mapError (·.down (Text.lines t₁.toList).length) := by
  obtain ⟨s, hs, hclosed, rfl⟩ := assemble_eq_ok h₁
  rw [assemble_append_of_takeLines hwhole hs, hclosed.outcome_reopen h₂ (0 + (Text.lines t₁.toList).length)]
  exact State.outcome_moved .initial 1 (Text.lines t₂.toList)

def bareClass : String := ".class C\n"

/-- **A text without a class adds to the open class** what it adds to a bare class. -/
theorem assemble_append_of_body (hwhole : Text.Whole t₁.toList) {c : ClassFile}
    (h₁ : assemble t₁ = .ok (cs₁ ++ [c])) (h₂ : Body (Text.lines t₂.toList)) :
    ∃ r : Except Fault ClassFile, assemble (bareClass ++ t₂) = r.map ([·]) ∧
      assemble (t₁ ++ t₂) = (r.map fun b => cs₁ ++ [c.extended b]).mapError
        (·.down ((Text.lines t₁.toList).length - 1)) := by
  obtain ⟨s, hs, hclosed, hclasses⟩ := assemble_eq_ok h₁
  -- the body is read behind a class of its own, so that its faults have a place to be counted from
  have hbare : State.initial.takeLines 1 (Text.lines bareClass.toList) =
    .ok ⟨[], .inClass ⟨"C", none, []⟩, 1⟩ := by decide
  have hbareLines : (Text.lines bareClass.toList).length = 1 := by decide
  have hopen : s.place ≠ .outside := by
    intro hplace
    -- a text that ends outside of a class has closed all of its classes, so it is the empty one
    rcases (State.takeLines_eq_ok hs).1 with rfl | hne
    · simp [State.initial, State.allClasses] at hclasses
    · exact hne hplace
  have hlines : (Text.lines t₁.toList).length ≠ 0 := by
    intro hlength
    rw [List.length_eq_zero_iff.1 hlength] at hs
    cases hs
    exact hopen rfl
  obtain ⟨d, place, line⟩ := s
  cases place with
  | outside => exact absurd rfl hopen
  | inMethod c' m => exact absurd rfl (hclosed c' m)
  | inClass c' =>
    obtain ⟨rfl, hc⟩ := List.append_inj' ((List.reverse_cons ..).symm.trans hclasses) rfl
    obtain rfl := List.singleton_inj.1 hc
    obtain ⟨r, hr, hafter⟩ := State.outcome_body h₂ d c' "C" 1 2 ((Text.lines t₁.toList).length - 1)
    refine ⟨r, ?_, ?_⟩
    · -- behind a bare class
      rw [assemble_append_of_takeLines (by decide) hbare, hbareLines]
      exact hr
    · -- behind the first text, whose last class is still open
      rw [assemble_append_of_takeLines hwhole hs, hclosed.outcome_line (1 + ((Text.lines t₁.toList).length - 1)),
        ← hafter]
      congr 1
      omega

/-- **Texts can be assembled one by one.** Let a text of whole lines assemble. A text that assembles too adds its
classes behind it, and one that starts with a class and fails does so with the same cause, further down by the
lines before it. A text in which no class starts adds to the open class the methods, and the source file if it
names one, that it adds to a bare class, with the same instructions, labels, lines and handlers, or it fails as
it does there. So nothing of a method or of a class bears on what is read after it. -/
theorem assemble_append (hwhole : Text.Whole t₁.toList) (h₁ : assemble t₁ = .ok cs₁) :
    (∀ cs₂, assemble t₂ = .ok cs₂ → assemble (t₁ ++ t₂) = .ok (cs₁ ++ cs₂)) ∧
    (StartsClass (Text.lines t₂.toList) → ∀ n cause, assemble t₂ = .error ⟨n, cause⟩ →
      assemble (t₁ ++ t₂) = .error ⟨n + (Text.lines t₁.toList).length, cause⟩) ∧
    (Body (Text.lines t₂.toList) → ∀ cs c, cs₁ = cs ++ [c] →
      (∀ bs, assemble (bareClass ++ t₂) = .ok bs → ∃ b, bs = [b] ∧
        assemble (t₁ ++ t₂) = .ok (cs ++ [c.extended b])) ∧
      ∀ n cause, assemble (bareClass ++ t₂) = .error ⟨n, cause⟩ →
        assemble (t₁ ++ t₂) = .error ⟨n + ((Text.lines t₁.toList).length - 1), cause⟩) := by
  refine ⟨fun cs₂ h₂ => ?_, fun hstarts n cause h₂ => ?_, ?_⟩
  · -- the second text assembles
    have hstarts : StartsClass (Text.lines t₂.toList) := State.startsClass_of_outcome rfl h₂
    rw [assemble_append_of_startsClass hwhole h₁ hstarts, h₂]
    rfl
  · -- it starts a class and has a fault, which is counted from its own first line
    rw [assemble_append_of_startsClass hwhole h₁ hstarts, h₂]
    rfl
  · -- it goes on with the class that the first text has left open
    rintro hbody cs c rfl
    obtain ⟨r, hbare, hafter⟩ := assemble_append_of_body hwhole h₁ hbody
    rw [hbare, hafter]
    cases r with
    | error fault => exact ⟨nofun, by rintro n cause ⟨⟩; rfl⟩
    | ok b => exact ⟨by rintro bs ⟨⟩; exact ⟨b, rfl, rfl⟩, nofun⟩

def loopText : String := ".class A\n.method m\nL:\njump L\n.end\n"

def loopClass : ClassFile := ⟨"A", none, [⟨"m", false, [], 1, [.label ⟨0⟩, .jump ⟨0⟩], []⟩]⟩

/-- A second class starts anew, a second one without an end is missed on its own last line, and a second method
has its own labels: its `L` is its second one. -/
theorem assemble_append_loopText : assemble loopText = .ok [loopClass] ∧
    assemble (loopText ++ loopText) = .ok [loopClass, loopClass] ∧
    assemble (loopText ++ "; B\n.class B\n.method n\nK:") = .error ⟨9, .missingEnd⟩ ∧
    assemble (loopText ++ ".method n\njump K\nL:\nK:\n.end") =
      .ok [loopClass.extended ⟨"C", none, [⟨"n", false, [], 1, [.jump ⟨0⟩, .label ⟨1⟩, .label ⟨0⟩], []⟩]⟩] := by
  have hloop : assemble loopText = .ok [loopClass] := by decide +kernel
  have happend (t : String) := @assemble_append loopText t _ (by decide) hloop
  refine ⟨hloop, (happend loopText).1 _ hloop, ?_, ?_⟩
  · exact (happend "; B\n.class B\n.method n\nK:").2.1 (by decide +kernel) 4 .missingEnd (by decide +kernel)
  · obtain ⟨b, hb, hall⟩ := ((happend ".method n\njump K\nL:\nK:\n.end").2.2 (by decide +kernel) [] loopClass
      rfl).1
      [⟨"C", none, [⟨"n", false, [], 1, [.jump ⟨0⟩, .label ⟨1⟩, .label ⟨0⟩], []⟩]⟩] (by decide +kernel)
    cases hb
    exact hall

end Assembly

end Confine
