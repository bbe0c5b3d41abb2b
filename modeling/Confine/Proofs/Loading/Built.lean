import Confine.Loading.Unit
import Confine.Proofs.Program.Verified
import Confine.Proofs.Text.Numeral

/-!
# Units that have been built

* `LoadingUnit.define_eq_ok_iff` — a class is defined exactly if its bytes are a class of its name, which passes the
  checks, can be instrumented, and passes them again;
* `LoadingUnit.Built` — the unit has been built, and so have those it stands on;
* `LoadingUnit.Built.made`, `LoadingUnit.Built.checked` — every class of such a unit was read and instrumented, and
  has passed the checks as it runs;
* `Sample` — a program that prints a variable of its environment, and the unit that it makes.
-/

namespace Confine.Instrumentation

/-- One tracer works on what those before it have made of a class. -/
theorem instrumentAll_cons_eq_ok_iff {origin : Origin} {i : Instrumentation} {is is' : List Instrumentation}
    {c c' : ClassFile} : instrumentAll origin c (i :: is) = .ok (c', is') ↔
      ∃ c₁ j js, i.instrument origin c = .ok (c₁, j) ∧ instrumentAll origin c₁ is = .ok (c', js) ∧
        is' = j :: js := by
  rw [instrumentAll]
  cases hi : i.instrument origin c with
  | error fault => simp [bind, Except.bind]
  | ok p =>
    obtain ⟨c₁, j⟩ := p
    cases hrest : instrumentAll origin c₁ is with
    | error fault => simp [hrest, bind, Except.bind]
    | ok q =>
      simp only [hrest, bind, Except.bind, Except.ok.injEq, Prod.mk.injEq]
      constructor
      · rintro ⟨rfl, rfl⟩
        exact ⟨c₁, j, q.2, ⟨rfl, rfl⟩, hrest, rfl⟩
      · rintro ⟨_, _, js, ⟨rfl, rfl⟩, hjs, rfl⟩
        cases hrest.symm.trans hjs
        exact ⟨rfl, rfl⟩

end Confine.Instrumentation

namespace Confine.LoadingUnit

/-! ### Defining classes -/

/-- One class of a program, from its bytes to how it runs. -/
structure Defines (origin : Origin) (is is' : List Instrumentation) (name : String)
    (bytes : ByteArray) (c c' : ClassFile) : Prop where
  decoded : ClassFile.decodeBytes? bytes = some c
  name_eq : c.name = name
  submitted : Verifier.check .submitted c = .ok ()
  instrumented : Instrumentation.instrumentAll origin c is = .ok (c', is')
  checked : Verifier.check .instrumented c' = .ok ()

/-- A class as it runs, with its file. -/
def definedClass (c : ClassFile) : DefinedClass := ⟨LinkedClass.ofClassFile c, c.encode⟩

theorem define_eq_ok_iff {origin : Origin} {is is' : List Instrumentation} {name : String}
    {bytes : ByteArray} {d : DefinedClass} :
    define origin is name bytes = .ok (d, is') ↔
      ∃ c c', Defines origin is is' name bytes c c' ∧ d = definedClass c' := by
  constructor
  · intro h
    -- the steps of a definition one after the other: each either fails, or is one part of `Defines`
    unfold define at h
    cases hd : ClassFile.decodeBytes? bytes with
    | none => simp [hd, bind, Except.bind] at h
    | some c =>
      simp only [hd, bind, Except.bind] at h
      by_cases hn : c.name = name
      · simp only [hn, bne_self_eq_false, Bool.false_eq_true, if_false] at h
        cases hs : Verifier.check .submitted c with
        | error e => simp [hs, Except.mapError] at h
        | ok _ =>
          cases hi : Instrumentation.instrumentAll origin c is with
          | error e => simp [hs, hi, Except.mapError] at h
          | ok p =>
            obtain ⟨c', is''⟩ := p
            cases hc : Verifier.check .instrumented c' with
            | error e => simp [hs, hi, hc, Except.mapError] at h
            | ok _ =>
              simp only [hs, hi, hc, Except.mapError, Except.ok.injEq, Prod.mk.injEq] at h
              obtain ⟨rfl, rfl⟩ := h
              exact ⟨c, c', ⟨hd, hn, hs, hi, hc⟩, rfl⟩
      · simp [hn] at h
  · -- and with all the parts given, the definition computes
    rintro ⟨c, c', ⟨hd, hn, hs, hi, hc⟩, rfl⟩
    simp [define, hd, hn, hs, hi, hc, bind, Except.bind, Except.mapError, definedClass]

theorem defineAll_cons_eq_ok_iff {origin : Origin} {is is' : List Instrumentation}
    {done classes : List (String × DefinedClass)} {e : String × ByteArray}
    {rest : List (String × ByteArray)} :
    defineAll origin is done (e :: rest) = .ok (classes, is') ↔
      ∃ d is₁, define origin is e.1 e.2 = .ok (d, is₁) ∧
        defineAll origin is₁ ((e.1, d) :: done) rest = .ok (classes, is') := by
  obtain ⟨name, bytes⟩ := e
  simp only [defineAll]
  cases h : define origin is name bytes with
  | error fault => simp
  | ok p =>
    obtain ⟨d, is₁⟩ := p
    simp only [Except.ok.injEq, Prod.mk.injEq]
    exact ⟨fun hd => ⟨d, is₁, ⟨rfl, rfl⟩, hd⟩, fun ⟨_, _, ⟨hd, hi⟩, h⟩ => hd ▸ hi ▸ h⟩

def Checked (c : LinkedClass) : Prop :=
  ∃ cf, c = LinkedClass.ofClassFile cf ∧ Verifier.check .instrumented cf = .ok ()

/-- The class was read, checked and instrumented. -/
def Made (name : String) (d : DefinedClass) : Prop :=
  ∃ origin is is' bytes c c', Defines origin is is' name bytes c c' ∧ d = definedClass c'

/-- What is true of every class that is defined is true of all classes. -/
theorem forall_of_defineAll {P : String → DefinedClass → Prop} {origin : Origin} {is is' : List Instrumentation}
    {done classes : List (String × DefinedClass)} {l : List (String × ByteArray)}
    (h : defineAll origin is done l = .ok (classes, is'))
    (hdefine : ∀ {is is' name bytes d}, define origin is name bytes = .ok (d, is') → P name d)
    (hd : ∀ e ∈ done, P e.1 e.2) : ∀ e ∈ classes, P e.1 e.2 := by
  induction l generalizing is done with
  | nil =>
    simp only [defineAll, Except.ok.injEq, Prod.mk.injEq] at h
    exact fun e he => hd e (List.mem_reverse.1 (h.1 ▸ he))
  | cons b rest ih =>
    obtain ⟨d, is₁, hb, hrest⟩ := defineAll_cons_eq_ok_iff.1 h
    refine ih hrest fun e he => ?_
    rcases List.mem_cons.1 he with rfl | he
    · exact hdefine hb
    · exact hd e he

theorem made_of_define {origin : Origin} {is is' : List Instrumentation} {name : String} {bytes : ByteArray}
    {d : DefinedClass} (h : define origin is name bytes = .ok (d, is')) : Made name d := by
  obtain ⟨c, c', hc, rfl⟩ := define_eq_ok_iff.1 h
  exact ⟨_, _, _, _, c, c', hc, rfl⟩

/-! ### Building -/

theorem build_eq_ok_iff {p : Plan} {id : UnitId} {u : LoadingUnit} :
    build p id = .ok u ↔ p.policy.validate = .ok () ∧ ∃ classes is,
      defineAll p.origin (Instrumentation.ofRoster p.tracers) [] p.program.classes =
        .ok (classes, is) ∧
      u = ⟨⟨id, p.program.digest, p.policy, is, classes⟩, (p.parent.map layers).getD []⟩ := by
  obtain ⟨program, parent, policy, tracers, origin⟩ := p
  unfold build
  cases hv : policy.validate with
  | error e => simp [Except.mapError, bind, Except.bind]
  | ok _ =>
    cases hd : defineAll origin (Instrumentation.ofRoster tracers) [] program.classes with
    | error e => simp [Except.mapError, bind, Except.bind]
    | ok q =>
      obtain ⟨classes, is⟩ := q
      cases parent <;>
        simp only [Except.mapError, bind, Except.bind, Except.ok.injEq, Prod.mk.injEq,
          true_and, Option.map_none, Option.map_some, Option.getD_none, Option.getD_some] <;>
        exact ⟨fun h => ⟨classes, is, ⟨rfl, rfl⟩, h.symm⟩, fun ⟨_, _, ⟨hc, hi⟩, h⟩ => by
          rw [h, ← hc, ← hi]⟩

/-- The unit has been built, on top of units that have been built. -/
inductive Built : LoadingUnit → Prop where
  | build {p : Plan} {id : UnitId} {u : LoadingUnit} (hp : ∀ v, p.parent = some v → Built v)
      (h : LoadingUnit.build p id = .ok u) : Built u

theorem getNamed?_mem {α : Type} {name : String} {l : List (String × α)} {a : α}
    (h : getNamed? name l = some a) : (name, a) ∈ l := by
  unfold getNamed? at h
  obtain ⟨e, he, rfl⟩ := Option.map_eq_some_iff.1 h
  have hn := List.find?_some he
  simp only [beq_iff_eq] at hn
  exact hn ▸ List.mem_of_find?_eq_some he

theorem getNamed?_rel {α β : Type} {R : String → α → β → Prop} {l : List (String × α)}
    {l' : List (String × β)} (h : List.Forall₂ (fun e e' => e'.1 = e.1 ∧ R e.1 e.2 e'.2) l l')
    (name : String) : Option.Rel (R name) (getNamed? name l) (getNamed? name l') := by
  unfold getNamed?
  induction h with
  | nil => exact .none
  | @cons e e' _ _ he _ ih =>
    rw [List.find?_cons, List.find?_cons, he.1]
    split
    · next heq =>
      have hname : e.1 = name := by simpa using heq
      exact .some (hname ▸ he.2)
    · exact ih

/-- **Every class of a unit that has been built was read, checked and instrumented.** -/
theorem Built.made {u : LoadingUnit} (h : Built u) :
    ∀ l ∈ u.layers, ∀ e ∈ l.classes, Made e.1 e.2 := by
  induction h with
  | @build p id u hp h ih =>
    obtain ⟨-, classes, is, hc, rfl⟩ := build_eq_ok_iff.1 h
    intro l hl e he
    rcases List.mem_cons.1 hl with rfl | hl
    · exact forall_of_defineAll hc (fun h => made_of_define h) (by simp) e he
    · cases hv : p.parent with
      | none => simp [hv] at hl
      | some v =>
        simp only [hv, Option.map_some, Option.getD_some] at hl
        exact ih v hv l hl e he

/-- **Every class of a unit that has been built passed the checks.** -/
theorem Built.checked {u : LoadingUnit} (h : Built u) :
    ∀ l ∈ u.layers, ∀ name c, l.class? name = some c → Checked c := by
  intro l hl name c hname
  obtain ⟨d, hd, rfl⟩ := Option.map_eq_some_iff.1 hname
  obtain ⟨_, _, _, _, _, cf, hdefines, rfl⟩ := h.made l hl _ (getNamed?_mem hd)
  exact ⟨cf, rfl, hdefines.checked⟩

end Confine.LoadingUnit

namespace Confine

/-! ### A program -/

namespace Sample

open LoadingUnit

/-- The characters of the class file. -/
def characters : List Char :=
  "[\"Main\",\"Main.java\",[[\"main\",true,[],1,[\x7b\"label\":0\x7d,".toList ++
  "\x7b\"line_number\":[1,0]\x7d,\x7b\"push\":\x7b\"str\":\"HOME\"\x7d\x7d,".toList ++
  "\x7b\"native\":\"get_env\"\x7d,\x7b\"store\":0\x7d,\x7b\"load\":0\x7d,".toList ++
  "\x7b\"native\":\"println\"\x7d,\"return\",\x7b\"label\":1\x7d,\x7b\"frame\":[1]\x7d,".toList ++
  "\x7b\"native\":\"println\"\x7d,\"return\"],[[0,1,1,null]]]]]".toList

@[irreducible] def bytes : ByteArray := (String.ofList characters).toUTF8

/-- The class that it writes. -/
def main : ClassFile :=
  ⟨"Main", some "Main.java", [⟨"main", true, [], 1,
    [.label ⟨0⟩, .lineNumber 1 ⟨0⟩, .push (.text "HOME"), .host .getEnv, .store 0, .load 0,
      .host .println, .ret, .label ⟨1⟩, .frame 1, .host .println, .ret],
    [⟨⟨0⟩, ⟨1⟩, ⟨1⟩, none⟩]⟩]⟩

theorem decodeBytes?_bytes : ClassFile.decodeBytes? bytes = some main := by
  unfold bytes ClassFile.decodeBytes?
  rw [Text.Glyph.ofBytes_toUTF8, Text.Glyph.ofText, String.toList_ofList]
  decide +kernel

def plan : Plan := .ofProgram ⟨[("Main", bytes)], ""⟩

def unit : LoadingUnit := ⟨⟨⟨1⟩, "", .default, [], [("Main", definedClass main)]⟩, []⟩

theorem build_plan : build plan ⟨1⟩ = .ok unit := by
  have hd : define .untrusted [] "Main" bytes = .ok (definedClass main, []) :=
    define_eq_ok_iff.2 ⟨main, main, ⟨decodeBytes?_bytes, rfl, rfl, rfl, rfl⟩, rfl⟩
  have hall : defineAll .untrusted [] [] [("Main", bytes)] =
      .ok ([("Main", definedClass main)], []) :=
    defineAll_cons_eq_ok_iff.2 ⟨definedClass main, [], hd, rfl⟩
  exact build_eq_ok_iff.2 ⟨rfl, _, _, hall, rfl⟩

theorem built_unit : unit.Built := .build (fun _ h => by cases h) build_plan

end Sample

end Confine
