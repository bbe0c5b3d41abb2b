import Confine.Proofs.Machine.Reachable
import Confine.Sandbox.Execute

/-!
# Looking classes up, and loading them

A class can be looked up without a trace, and it can be loaded, which the layers note.  Both go down the layers of a
unit in the same way.

* `FoundAt` — the layer that a class is taken from: the nearest that defines it, if those before it may ask;
* `LoadingUnit.findIn_eq_some_iff`, `LoadingUnit.loadIn_eq_ok_iff` — what the two find;
* `Records` — what the layers note of a load;
* `LoadingUnit.Loads` — the notes that a chain of layers may come to have;
* `LoadingUnit.Loads.consistent` — **what is looked up is what is loaded, and that is noted exactly**.
-/

namespace Confine

open LoadingUnit (ClassSets)

/-! ### The layer that a class is taken from -/

/-- **The class is taken from the layer `k`**: it is the nearest that defines it, and those before it may ask. -/
structure FoundAt (name : String) (layers : List Layer) (k : Nat) (c : LinkedClass) : Prop where
  defined : ∃ l, layers[k]? = some l ∧ l.class? name = some c
  nearest : ∀ b ∈ layers.take k, b.class? name = none
  delegated : ∀ b ∈ layers.take k, b.policy.mayDelegate name = true

section FoundAt

variable {name : String} {l : Layer} {layers : List Layer} {k : Nat} {c : LinkedClass}

theorem not_foundAt_nil : ¬ FoundAt name [] k c := by
  rintro ⟨⟨l, hl, -⟩, -, -⟩
  cases hl

theorem foundAt_zero : FoundAt name (l :: layers) 0 c ↔ l.class? name = some c :=
  ⟨fun h => by simpa using h.defined, fun h => ⟨⟨l, rfl, h⟩, by simp, by simp⟩⟩

theorem foundAt_succ : FoundAt name (l :: layers) (k + 1) c ↔
    l.class? name = none ∧ l.policy.mayDelegate name = true ∧ FoundAt name layers k c := by
  constructor
  · rintro ⟨hdefined, hnearest, hdelegated⟩
    obtain ⟨hl, hnearest⟩ := List.forall_mem_cons.1 hnearest
    obtain ⟨hmay, hdelegated⟩ := List.forall_mem_cons.1 hdelegated
    exact ⟨hl, hmay, hdefined, hnearest, hdelegated⟩
  · rintro ⟨hl, hmay, hdefined, hnearest, hdelegated⟩
    exact ⟨hdefined, List.forall_mem_cons.2 ⟨hl, hnearest⟩, List.forall_mem_cons.2 ⟨hmay, hdelegated⟩⟩

theorem exists_foundAt_cons {P : Nat → Prop} : (∃ k, FoundAt name (l :: layers) k c ∧ P k) ↔
    l.class? name = some c ∧ P 0 ∨
      l.class? name = none ∧ l.policy.mayDelegate name = true ∧ ∃ k, FoundAt name layers k c ∧ P (k + 1) := by
  constructor
  · rintro ⟨_ | k, hfound, hk⟩
    · exact .inl ⟨foundAt_zero.1 hfound, hk⟩
    · obtain ⟨hl, hmay, hfound⟩ := foundAt_succ.1 hfound
      exact .inr ⟨hl, hmay, k, hfound, hk⟩
  · rintro (⟨hl, hk⟩ | ⟨hl, hmay, k, hfound, hk⟩)
    · exact ⟨0, foundAt_zero.2 hl, hk⟩
    · exact ⟨k + 1, foundAt_succ.2 ⟨hl, hmay, hfound⟩, hk⟩

theorem FoundAt.lt (h : FoundAt name layers k c) : k < layers.length := by
  obtain ⟨l, hl, -⟩ := h.defined
  exact (List.getElem?_eq_some_iff.1 hl).1

end FoundAt

/-! ### What layers note -/

/-- **What the layers note of a load** that comes to the layer `first` and takes the class from the layer `last`. -/
structure Records (name : String) (first last : Nat) (sets sets' : List ClassSets) : Prop where
  length : sets'.length = sets.length
  /-- the layer that the class is taken from has handed it out -/
  provided : ∀ {i s s'}, sets[i]? = some s → sets'[i]? = some s' →
    ∀ n, n ∈ s'.provided ↔ n ∈ s.provided ∨ n = name ∧ i = last
  /-- all layers from the first to this one have got it -/
  loaded : ∀ {i s s'}, sets[i]? = some s → sets'[i]? = some s' →
    ∀ n, n ∈ s'.loaded ↔ n ∈ s.loaded ∨ n = name ∧ first ≤ i ∧ i ≤ last

namespace LoadingUnit

theorem mem_insertName {n name : String} {l : List String} :
    n ∈ insertName name l ↔ n = name ∨ n ∈ l := by
  induction l with
  | nil => simp [insertName]
  | cons a rest ih =>
    unfold insertName
    split
    · next heq =>
      obtain rfl : name = a := by simpa using heq
      simp
    · split
      · simp
      · simp only [List.mem_cons, ih]
        tauto

/-- The notes of layers from which a class is loaded, the nearest that defines it being the layer `k`. -/
def noted (name : String) : Nat → List ClassSets → List ClassSets
  | 0, sets => (sets.headD .empty).provide name :: sets.tail
  | k + 1, sets => (sets.headD .empty).receive name :: noted name k sets.tail

theorem getElem?_noted {name : String} {k : Nat} {sets : List ClassSets} (hk : k < sets.length) (i : Nat) :
    (noted name k sets)[i]? = sets[i]?.map fun s =>
      if i < k then s.receive name else if i = k then s.provide name else s := by
  induction k generalizing sets i with
  | zero =>
    obtain ⟨s, sets, rfl⟩ := List.exists_cons_of_length_pos hk
    cases i <;> simp [noted]
  | succ k ih =>
    obtain ⟨s, sets, rfl⟩ := List.exists_cons_of_length_pos (Nat.zero_lt_of_lt hk)
    cases i with
    | zero => simp [noted]
    | succ i => simp [noted, ih (Nat.lt_of_succ_lt_succ hk)]

/-- Behind layers that are not asked, the notes are those of the layers that are. -/
theorem getElem?_take_append_noted {name : String} {first k : Nat} {sets : List ClassSets}
    (hk : first + k < sets.length) (i : Nat) :
    (sets.take first ++ noted name k (sets.drop first))[i]? = sets[i]?.map fun s =>
      if first ≤ i ∧ i < first + k then s.receive name
      else if i = first + k then s.provide name else s := by
  have hfirst : (sets.take first).length = first := by simp; omega
  have hdrop : k < (sets.drop first).length := by simp; omega
  by_cases hi : i < first
  · rw [List.getElem?_append_left (by omega), List.getElem?_take_of_lt hi]
    have hne : ¬ (first ≤ i ∧ i < first + k) ∧ i ≠ first + k := by omega
    simp [hne]
  · rw [List.getElem?_append_right (by omega), getElem?_noted hdrop, List.getElem?_drop, hfirst,
      show first + (i - first) = i by omega]
    have hlt : i - first < k ↔ first ≤ i ∧ i < first + k := by omega
    have heq : i - first = k ↔ i = first + k := by omega
    simp only [hlt, heq]

theorem length_noted {name : String} {k : Nat} {sets : List ClassSets} (hk : k < sets.length) :
    (noted name k sets).length = sets.length := by
  induction k generalizing sets with
  | zero =>
    obtain ⟨s, sets, rfl⟩ := List.exists_cons_of_length_pos hk
    rfl
  | succ k ih =>
    obtain ⟨s, sets, rfl⟩ := List.exists_cons_of_length_pos (Nat.zero_lt_of_lt hk)
    exact congrArg (· + 1) (ih (Nat.lt_of_succ_lt_succ hk))

theorem records_noted {name : String} {first k : Nat} {sets : List ClassSets}
    (hk : first + k < sets.length) :
    Records name first (first + k) sets (sets.take first ++ noted name k (sets.drop first)) where
  length := by
    have hdrop : k < (sets.drop first).length := by simp; omega
    rw [List.length_append, length_noted hdrop, List.length_take, List.length_drop]
    omega
  -- only the unit that provides the class counts it as provided
  provided := by
    intro i s s' hs hs' n
    rw [getElem?_take_append_noted hk, hs] at hs'
    obtain rfl := Option.some.inj hs'
    split
    · next hi =>
      have hne : i ≠ first + k := by omega
      simp [ClassSets.receive, hne]
    · split
      · next heq => simp [ClassSets.provide, mem_insertName, heq, or_comm]
      · next hne => simp [hne]
  -- every unit on the way to the provider, itself included, counts it as loaded
  loaded := by
    intro i s s' hs hs' n
    rw [getElem?_take_append_noted hk, hs] at hs'
    obtain rfl := Option.some.inj hs'
    split
    · next hi =>
      have hle : first ≤ i ∧ i ≤ first + k := by omega
      simp [ClassSets.receive, mem_insertName, hle, or_comm]
    · split
      · next heq => simp [ClassSets.provide, mem_insertName, heq, or_comm]
      · next hi hne =>
        have hnot : ¬ (first ≤ i ∧ i ≤ first + k) := by omega
        simp [hnot]

/-! ### What the two find -/

section

variable {name : String} {l : Layer} {layers : List Layer} {sets sets' : List ClassSets} {c : LinkedClass}

theorem findIn_cons_eq_some_iff : findIn name (l :: layers) = some c ↔ l.class? name = some c ∨
    l.class? name = none ∧ l.policy.mayDelegate name = true ∧ findIn name layers = some c := by
  rw [findIn]
  cases l.class? name with
  | some d => simp
  | none => simp only [Option.ite_none_right_eq_some, true_and, reduceCtorEq, false_or]

theorem loadIn_cons_eq_ok_iff : loadIn name (l :: layers) sets = .ok (c, sets') ↔
    l.class? name = some c ∧ sets' = (sets.headD .empty).provide name :: sets.tail ∨
      l.class? name = none ∧ l.policy.mayDelegate name = true ∧
        ∃ below, loadIn name layers sets.tail = .ok (c, below) ∧
          sets' = (sets.headD .empty).receive name :: below := by
  rw [loadIn]
  cases l.class? name with
  | some d =>
    simp only [Except.ok.injEq, Prod.mk.injEq, Option.some.injEq, reduceCtorEq, false_and, or_false]
    exact and_congr_right' eq_comm
  | none =>
    cases l.policy.mayDelegate name with
    | false => simp
    | true =>
      cases loadIn name layers sets.tail with
      | error e => simp
      | ok q =>
        obtain ⟨d, below⟩ := q
        simp only [if_true, Except.ok.injEq, Prod.mk.injEq, reduceCtorEq, false_and, false_or, true_and]
        constructor
        · rintro ⟨rfl, rfl⟩
          exact ⟨below, ⟨rfl, rfl⟩, rfl⟩
        · rintro ⟨_, ⟨rfl, rfl⟩, rfl⟩
          exact ⟨rfl, rfl⟩

/-- **A class is found in the layer that it is taken from.** -/
theorem findIn_eq_some_iff : findIn name layers = some c ↔ ∃ k, FoundAt name layers k c := by
  induction layers with
  | nil => simp [findIn, not_foundAt_nil]
  | cons l layers ih =>
    have hcons := @exists_foundAt_cons name l layers c fun _ => True
    simp only [and_true] at hcons
    rw [findIn_cons_eq_some_iff, hcons, ih]

/-- **A class is loaded from the layer that it is taken from**, and noted on the way. -/
theorem loadIn_eq_ok_iff : loadIn name layers sets = .ok (c, sets') ↔
    ∃ k, FoundAt name layers k c ∧ sets' = noted name k sets := by
  induction layers generalizing sets sets' with
  | nil => simp [loadIn, not_foundAt_nil]
  | cons l layers ih =>
    rw [loadIn_cons_eq_ok_iff, exists_foundAt_cons]
    simp only [ih, noted]
    constructor
    · rintro (hown | ⟨hl, hmay, _, ⟨k, hfound, rfl⟩, rfl⟩)
      · exact .inl hown
      · exact .inr ⟨hl, hmay, k, hfound, rfl⟩
    · rintro (hown | ⟨hl, hmay, k, hfound, rfl⟩)
      · exact .inl hown
      · exact .inr ⟨hl, hmay, _, ⟨k, hfound, rfl⟩, rfl⟩

end

/-! ### Loads through a chain -/

/-- What a load leaves of the notes of a chain, through the unit that begins at the layer `first`. A load that fails
leaves them as they are. -/
def setsAfter (first : Nat) (sets : List ClassSets) :
    Except LoadFault (LinkedClass × List ClassSets) → List ClassSets
  | .ok (_, below) => sets.take first ++ below
  | .error _ => sets

/-- **The notes that a chain of layers may come to have.** Classes are loaded through its unit, and through those that
it stands on. -/
inductive Loads (u : LoadingUnit) : List ClassSets → Prop where
  | start : Loads u u.noneLoaded
  | load {sets : List ClassSets} {v : LoadingUnit} {first : Nat} (h : Loads u sets)
      (hv : v.layers = u.layers.drop first) (name : String) (cap : Option Capability)
      (s : Confinements) : Loads u (setsAfter first sets (v.loadClass (sets.drop first) name cap s).1)

/-- **What a unit finds and loads**, which begins at the layer `first` of a chain with the notes `sets`. -/
structure LoadsWhatItFinds (v : LoadingUnit) (first : Nat) (sets : List ClassSets) : Prop where
  /-- it finds a class in the nearest layer that defines it, if those before it may ask -/
  found : ∀ name c, v.findClass name = some c ↔ ∃ k, FoundAt name v.layers k c
  /-- so it finds none below that no policy makes loadable -/
  forbidden : ∀ name, LoadingPolicy.isForbidden name = true → v.findClass name = v.own.class? name
  /-- what it finds is what it loads, with whatever capability -/
  agree : ∀ name cap s c, v.findClass name = some c ↔
    ∃ below, (v.loadClass (sets.drop first) name cap s).1 = .ok (c, below)
  /-- the layers note it, from the first to the one that the class is taken from -/
  succeeds : ∀ {name cap s c below}, (v.loadClass (sets.drop first) name cap s).1 = .ok (c, below) →
    ∃ k, FoundAt name v.layers k c ∧ Records name first (first + k) sets (sets.take first ++ below)
  /-- a task on the unit is left with these notes -/
  succeedsFor : ∀ {t : Task} {s s' : TaskState} {name c}, t.unit = v → s.classSets = sets.drop first →
    s.load t name = (.ok c, s') → ∃ k, FoundAt name v.layers k c ∧
      Records name first (first + k) sets (sets.take first ++ s'.classSets)
  /-- and with those it had, if it cannot load the class -/
  failsFor : ∀ {t : Task} {s s' : TaskState} {name e}, t.unit = v → s.load t name = (.error e, s') →
    s'.classSets = s.classSets

/-- **What is looked up in a chain of layers, and what is loaded and noted.** -/
structure Consistent (u : LoadingUnit) (sets : List ClassSets) : Prop where
  /-- every unit of the chain loads what it finds -/
  loads : ∀ {v : LoadingUnit} {first : Nat}, v.layers = u.layers.drop first → v.LoadsWhatItFinds first sets
  /-- a layer has handed out classes of its own, and those it has got -/
  provided : ∀ {i : Nat} {l : Layer} {s : ClassSets}, u.layers[i]? = some l → sets[i]? = some s →
    ∀ n ∈ s.provided, n ∈ l.definedClasses ∧ n ∈ s.loaded
  /-- what passes for the entry point of a task is found when the task begins, in whatever state -/
  entry : ∀ {e}, Sandbox.checkEntry u e = .ok () → ∀ {t : Task} (s : TaskState), t.unit = u →
    ∃ c m, u.findClass e.className = some c ∧ c.method? e.methodName = some m ∧
      ∃ s', WorkRest.resume t s .none e.work = .call s' .none
        ⟨c.name, m, 0, Frame.localsFor m.method [], .empty⟩ true [.ret (.ref 0)]

end LoadingUnit

/-! ### Tasks -/

namespace TaskState

variable {t : Task} {s s' : TaskState} {name : String}

theorem load_eq_ok_iff {c : LinkedClass} : s.load t name = (.ok c, s') ↔ ∃ sets,
    (t.unit.loadClass s.classSets name (some t.capability) s.confinements).1 = .ok (c, sets) ∧
      s' = { s with
        classSets := sets
        confinements :=
          (t.unit.loadClass s.classSets name (some t.capability) s.confinements).2 } := by
  unfold load
  generalize t.unit.loadClass s.classSets name (some t.capability) s.confinements = p
  obtain ⟨_ | q, confinements⟩ := p
  · simp
  · obtain ⟨d, sets⟩ := q
    simp only [Prod.mk.injEq, Except.ok.injEq]
    constructor
    · rintro ⟨rfl, rfl⟩
      exact ⟨sets, ⟨rfl, rfl⟩, rfl⟩
    · rintro ⟨_, ⟨rfl, rfl⟩, rfl⟩
      exact ⟨rfl, rfl⟩

theorem classSets_of_load_error {e : Exception} (h : s.load t name = (.error e, s')) :
    s'.classSets = s.classSets := by
  unfold load at h
  generalize t.unit.loadClass s.classSets name (some t.capability) s.confinements = p at h
  obtain ⟨_ | q, confinements⟩ := p
  · cases h
    rfl
  · cases h

end TaskState

namespace LoadingUnit

section

variable {u v : LoadingUnit} {first : Nat} {sets : List ClassSets}

theorem loadClass_eq_ok_iff {name : String} {cap : Option Capability} {s : Confinements} {c : LinkedClass}
    {below : List ClassSets} : (v.loadClass sets name cap s).1 = .ok (c, below) ↔
      ∃ k, FoundAt name v.layers k c ∧ below = noted name k sets := loadIn_eq_ok_iff

theorem records_of_foundAt {name : String} {k : Nat} {c : LinkedClass}
    (hlength : sets.length = u.layers.length) (hv : v.layers = u.layers.drop first)
    (hfound : FoundAt name v.layers k c) :
    Records name first (first + k) sets (sets.take first ++ noted name k (sets.drop first)) := by
  have hlt := hfound.lt
  rw [hv, List.length_drop] at hlt
  exact records_noted (by omega)

theorem loadsWhatItFinds (hlength : sets.length = u.layers.length)
    (hv : v.layers = u.layers.drop first) : v.LoadsWhatItFinds first sets where
  found _ _ := findIn_eq_some_iff
  forbidden := by
    intro name hname
    have hmay : v.own.policy.mayDelegate name = false := by simp [LoadingPolicy.mayDelegate, hname]
    rw [findClass, layers, findIn]
    cases v.own.class? name with
    | some c => rfl
    | none => simp [hmay]
  agree name cap s c := by
    rw [findClass, findIn_eq_some_iff]
    simp only [loadClass_eq_ok_iff]
    exact ⟨fun ⟨k, hk⟩ => ⟨_, k, hk, rfl⟩, fun ⟨_, k, hk, _⟩ => ⟨k, hk⟩⟩
  succeeds := by
    intro name cap s c below h
    obtain ⟨k, hfound, rfl⟩ := loadClass_eq_ok_iff.1 h
    exact ⟨k, hfound, records_of_foundAt hlength hv hfound⟩
  succeedsFor := by
    rintro t s s' name c rfl hsets h
    obtain ⟨_, hload, rfl⟩ := TaskState.load_eq_ok_iff.1 h
    obtain ⟨k, hfound, rfl⟩ := loadClass_eq_ok_iff.1 hload
    rw [hsets]
    exact ⟨k, hfound, records_of_foundAt hlength hv hfound⟩
  failsFor _ h := TaskState.classSets_of_load_error h

theorem exists_load_of_findClass {t : Task} {name : String} {c : LinkedClass}
    (h : t.unit.findClass name = some c) (s : TaskState) : ∃ s', s.load t name = (.ok c, s') := by
  obtain ⟨k, hk⟩ := findIn_eq_some_iff.1 h
  exact ⟨_, TaskState.load_eq_ok_iff.2 ⟨_, loadClass_eq_ok_iff.2 ⟨k, hk, rfl⟩, rfl⟩⟩

/-- A class that a task on the unit loads is one that the unit finds. -/
theorem findClass_of_load {t : Task} {s s' : TaskState} {name : String} {c : LinkedClass}
    (h : s.load t name = (.ok c, s')) : t.unit.findClass name = some c := by
  obtain ⟨_, hload, -⟩ := TaskState.load_eq_ok_iff.1 h
  obtain ⟨k, hk, -⟩ := loadClass_eq_ok_iff.1 hload
  exact findIn_eq_some_iff.2 ⟨k, hk⟩

/-- **What passes for an entry point can be called**, in whatever state a task on the unit is. -/
theorem start_of_checkEntry {e : EntryPoint} {t : Task} (h : Sandbox.checkEntry t.unit e = .ok ())
    (s : TaskState) : ∃ c m, t.unit.findClass e.className = some c ∧
      c.method? e.methodName = some m ∧ ∃ s', Activation.start t s e.className e.methodName [] =
        (.ok ⟨c.name, m, 0, Frame.localsFor m.method [], .empty⟩, s') := by
  unfold Sandbox.checkEntry at h
  split at h
  · cases h
  next c hc =>
  split at h
  · cases h
  next m hm =>
  split at h
  · next hkind =>
    rw [Bool.and_eq_true, List.isEmpty_iff] at hkind
    obtain ⟨hstatic, hparams⟩ := hkind
    obtain ⟨s', hload⟩ := exists_load_of_findClass hc s
    have hcall : Frame.forCall c e.methodName [] none =
        .ok ⟨c.name, m, 0, Frame.localsFor m.method [], .empty⟩ := by
      simp [Frame.forCall, hm, Method.requiredSlots, Method.firstParamSlot, hstatic, hparams]
    refine ⟨c, m, hc, hm, s', ?_⟩
    simp only [Activation.start, hload, Except.mapError, bind, Except.bind, hcall]
  · cases h

/-! ### Every sequence of loads -/

/-- As many layers, as many notes, and each has handed out classes of its own, and those it has got. -/
structure NotesOk (u : LoadingUnit) (sets : List ClassSets) : Prop where
  length : sets.length = u.layers.length
  provided : ∀ {i : Nat} {l : Layer} {s : ClassSets}, u.layers[i]? = some l → sets[i]? = some s →
    ∀ n ∈ s.provided, n ∈ l.definedClasses ∧ n ∈ s.loaded

theorem notesOk_noneLoaded : u.NotesOk u.noneLoaded where
  length := by simp [noneLoaded]
  provided := by
    intro i l s hl hs n hn
    have hempty : s = .empty := by
      rw [noneLoaded, List.getElem?_map, hl] at hs
      exact (Option.some.inj hs).symm
    rw [hempty] at hn
    cases hn

/-- A load that succeeds keeps the notes in order. -/
theorem NotesOk.of_records {name : String} {k : Nat} {c : LinkedClass} {sets' : List ClassSets}
    (h : u.NotesOk sets) (hv : v.layers = u.layers.drop first) (hfound : FoundAt name v.layers k c)
    (hrecords : Records name first (first + k) sets sets') : u.NotesOk sets' where
  length := hrecords.length.trans h.length
  provided := by
    intro i l s' hl hs' n hn
    obtain ⟨s, hs⟩ : ∃ s, sets[i]? = some s := by
      obtain ⟨hlt, -⟩ := List.getElem?_eq_some_iff.1 hs'
      exact ⟨_, List.getElem?_eq_getElem (hrecords.length ▸ hlt)⟩
    rw [hrecords.loaded hs hs']
    rcases (hrecords.provided hs hs' n).1 hn with hn | ⟨rfl, rfl⟩
    · obtain ⟨hdefined, hloaded⟩ := h.provided hl hs n hn
      exact ⟨hdefined, .inl hloaded⟩
    · obtain ⟨l', hl', hc⟩ := hfound.defined
      rw [hv, List.getElem?_drop, hl] at hl'
      obtain rfl := Option.some.inj hl'
      obtain ⟨d, hd, -⟩ := Option.map_eq_some_iff.1 hc
      exact ⟨List.mem_map.2 ⟨_, getNamed?_mem hd, rfl⟩, .inr ⟨rfl, by omega, Nat.le_refl _⟩⟩

theorem Loads.notesOk (h : u.Loads sets) : u.NotesOk sets := by
  induction h with
  | start => exact notesOk_noneLoaded
  | @load sets v first _ hv name cap s ih =>
    cases hload : (v.loadClass (sets.drop first) name cap s).1 with
    | error e => exact ih
    | ok q =>
      obtain ⟨c, below⟩ := q
      obtain ⟨k, hfound, rfl⟩ := loadClass_eq_ok_iff.1 hload
      exact ih.of_records hv hfound (records_of_foundAt ih.length hv hfound)

/-- **What is looked up is what is loaded, and that is noted exactly**, behind any loads through a chain. -/
theorem Loads.consistent (h : u.Loads sets) : u.Consistent sets where
  loads hv := loadsWhatItFinds h.notesOk.length hv
  provided hl hs := h.notesOk.provided hl hs
  entry := by
    rintro e he t s rfl
    obtain ⟨c, m, hc, hm, s', hstart⟩ := start_of_checkEntry he s
    refine ⟨c, m, hc, hm, s', ?_⟩
    simp only [EntryPoint.work, WorkRest.resume, WorkStep.perform, Operand.values, hstart]

end

/-! ### A unit on a library -/

namespace Stacked

/-- A layer of one class, with the policy that asks for all that may be asked for. -/
def layer (id : Nat) (c : ClassFile) : Layer := ⟨⟨id⟩, "", .default, [], [(c.name, definedClass c)]⟩

def unit : LoadingUnit :=
  ⟨layer 2 ⟨"Main", none, [⟨"main", true, [], 0, [.ret], []⟩]⟩, [layer 1 ⟨"Lib", none, []⟩]⟩

end Stacked

/-- The program has loaded a class of the library: both layers have got it, and the library has handed it out. -/
theorem Loads.consistent_stacked : ∃ sets, Stacked.unit.Loads sets ∧ Stacked.unit.Consistent sets ∧
    sets = [⟨[], ["Lib"]⟩, ⟨["Lib"], ["Lib"]⟩] ∧
      Sandbox.checkEntry Stacked.unit ⟨"Main", "main"⟩ = .ok () := by
  have h : Stacked.unit.Loads _ :=
    .load (v := Stacked.unit) .start (List.drop_zero).symm "Lib" none default
  exact ⟨_, h, h.consistent, rfl, rfl⟩

end LoadingUnit

end Confine
