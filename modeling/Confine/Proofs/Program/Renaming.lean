import Confine.Proofs.Program.Relabelled
import Confine.Proofs.Program.Verified
import Mathlib.Data.Fintype.Sum

/-!
# Classes under other labels

* `ClassFile.Separates.exists_injective` — a renaming that keeps the labels of each method apart can be taken to be
  injective on all labels;
* `Verifier.check_relabel` — the checks of a class pass, or fail with the same fault but for the label that it
  names, whatever the labels are;
* `LinkedMethod.place?_relabel`, `LinkedMethod.handlers_relabel` — labels and handlers come to the same places.
-/

namespace Confine

/-! ### Injective renamings -/

instance : Finite Label :=
  .of_injective (fun l => l.index.toFin) fun a b h => by
    cases a
    cases b
    simpa using UInt32.toFin_inj.1 h

/-- A renaming that keeps some labels apart can be made to keep all apart. -/
theorem exists_injective_eqOn {ρ : Label → Label} {ms : List Label} (h : Set.InjOn ρ {l | l ∈ ms}) :
    ∃ σ : Label → Label, Function.Injective σ ∧ ∀ l ∈ ms, σ l = ρ l := by
  have := Fintype.ofFinite Label
  have hcoe : Set.InjOn ρ (ms.toFinset : Set Label) := by simpa using h
  obtain ⟨g, hg⟩ := Finset.exists_equiv_extend_of_card_eq (t := Finset.univ) Finset.card_univ.symm
    (Finset.subset_univ (ms.toFinset.image ρ)) hcoe
  refine ⟨fun l => g l, Subtype.val_injective.comp g.injective, fun l hl => hg l ?_⟩
  simpa using hl

theorem lookup_map_of_injective {σ : Label → Label} (hσ : Function.Injective σ) {α : Type} (l : Label)
    (entries : List (Label × α)) :
    (entries.map fun e => (σ e.1, e.2)).lookup (σ l) = entries.lookup l := by
  induction entries with
  | nil => rfl
  | cons e entries ih =>
    have hbeq : (σ l == σ e.1) = (l == e.1) := Bool.eq_iff_iff.2 (by simp [hσ.eq_iff])
    rw [List.map_cons, List.lookup_cons, List.lookup_cons, hbeq, ih]

theorem contains_map_of_injective {σ : Label → Label} (hσ : Function.Injective σ) (l : Label)
    (ls : List Label) : (ls.map σ).contains (σ l) = ls.contains l := by
  simp [hσ.eq_iff]

/-! ### Classes -/

def Method.relabelAll (ρ : Nat → Label → Label) (ms : List Method) : List Method :=
  ms.mapIdx fun i m => m.relabel (ρ i)

@[simp] theorem Method.relabelAll_nil (ρ : Nat → Label → Label) : relabelAll ρ [] = [] := rfl

@[simp] theorem Method.relabelAll_cons (ρ : Nat → Label → Label) (m : Method) (ms : List Method) :
    relabelAll ρ (m :: ms) = m.relabel (ρ 0) :: relabelAll (fun i => ρ (i + 1)) ms := List.mapIdx_cons

namespace ClassFile

/-- The class with the labels of each method renamed, by its place in the class. -/
def relabel (ρ : Nat → Label → Label) (c : ClassFile) : ClassFile :=
  { c with methods := Method.relabelAll ρ c.methods }

/-- The renaming keeps the labels of each method apart. -/
def Separates (ρ : Nat → Label → Label) (c : ClassFile) : Prop :=
  ∀ i m, c.methods[i]? = some m → Set.InjOn (ρ i) {l | l ∈ m.mentions}

theorem relabel_congr {ρ σ : Nat → Label → Label} {c : ClassFile}
    (h : ∀ i m, c.methods[i]? = some m → ∀ l ∈ m.mentions, ρ i l = σ i l) : c.relabel ρ = c.relabel σ := by
  have hmethods : Method.relabelAll ρ c.methods = Method.relabelAll σ c.methods := by
    refine List.ext_getElem? fun i => ?_
    rw [Method.relabelAll, Method.relabelAll, List.getElem?_mapIdx, List.getElem?_mapIdx]
    cases hm : c.methods[i]? with
    | none => rfl
    | some m => exact congrArg some (Method.relabel_congr (h i m hm))
  rw [relabel, relabel, hmethods]

/-- **A renaming that keeps the labels of each method apart** may as well be injective. -/
theorem Separates.exists_injective {ρ : Nat → Label → Label} {c : ClassFile} (h : c.Separates ρ) :
    ∃ σ : Nat → Label → Label, (∀ i, Function.Injective (σ i)) ∧
      (∀ i m, c.methods[i]? = some m → ∀ l ∈ m.mentions, σ i l = ρ i l) ∧ c.relabel σ = c.relabel ρ := by
  have hone (i : Nat) : ∃ σ : Label → Label, Function.Injective σ ∧
      ∀ m, c.methods[i]? = some m → ∀ l ∈ m.mentions, σ l = ρ i l := by
    cases hm : c.methods[i]? with
    | none => exact ⟨id, Function.injective_id, nofun⟩
    | some m =>
      obtain ⟨σ, hσ, heq⟩ := exists_injective_eqOn (h i m hm)
      exact ⟨σ, hσ, by rintro _ ⟨⟩; exact heq⟩
  choose σ hσ heq using hone
  exact ⟨σ, hσ, heq, relabel_congr heq⟩

/-- Classes that are the same up to their labels are so by some renaming. -/
theorem relabels_iff_exists_relabel {c c' : ClassFile} :
    c.Relabels c' ↔ ∃ ρ, c.Separates ρ ∧ c' = c.relabel ρ := by
  -- one renaming of each method is gathered into one function of the method's place
  suffices ∀ {ms ms' : List Method}, List.Forall₂ Method.Relabels ms ms' ↔ ∃ ρ : Nat → Label → Label,
      (∀ i m, ms[i]? = some m → Set.InjOn (ρ i) {l | l ∈ m.mentions}) ∧ ms' = Method.relabelAll ρ ms by
    constructor
    · intro h
      obtain ⟨ρ, hρ, hmethods⟩ := this.1 h.methods
      obtain ⟨name, sourceFile, methods⟩ := c'
      obtain rfl : name = _ := h.name
      obtain rfl : sourceFile = _ := h.sourceFile
      exact ⟨ρ, hρ, congrArg (ClassFile.mk _ _) hmethods⟩
    · rintro ⟨ρ, hρ, rfl⟩
      exact ⟨rfl, rfl, this.2 ⟨ρ, hρ, rfl⟩⟩
  intro ms ms'
  constructor
  · intro h
    induction h with
    | nil => exact ⟨fun _ => id, nofun, rfl⟩
    | cons hm _ ih =>
      obtain ⟨ρ, hρ, rfl⟩ := hm
      obtain ⟨ρs, hρs, rfl⟩ := ih
      refine ⟨fun i => Nat.rec ρ (fun i _ => ρs i) i, ?_, ?_⟩
      · -- the first method, and those behind it
        rintro (_ | i) m hm
        · cases hm
          exact hρ
        · exact hρs i m hm
      · rw [Method.relabelAll_cons]
        rfl
  · rintro ⟨ρ, hρ, rfl⟩
    induction ms generalizing ρ with
    | nil => exact .nil
    | cons m ms ih =>
      rw [Method.relabelAll_cons]
      exact .cons ⟨ρ 0, hρ 0 m rfl, rfl⟩ (ih _ fun i => hρ (i + 1))

end ClassFile

/-! ### Parts of a method -/

namespace Method

variable (σ : Label → Label) (m : Method)

theorem labels_relabel : (m.relabel σ).labels = m.labels.map σ := by
  have hlabel (i : Instruction) : (i.relabel σ).label? = i.label?.map σ := by cases i <;> rfl
  rw [labels, labels, relabel, List.filterMap_map, List.map_filterMap]
  exact congrArg (List.filterMap · m.code) (funext hlabel)

theorem jumpTargets_relabel : (m.relabel σ).jumpTargets = m.jumpTargets.map σ := by
  have htarget (i : Instruction) : (i.relabel σ).jumpTarget? = i.jumpTarget?.map σ := by cases i <;> rfl
  rw [jumpTargets, jumpTargets, relabel, List.filterMap_map, List.map_filterMap]
  exact congrArg (List.filterMap · m.code) (funext htarget)

end Method

/-! ### Checks -/

namespace MethodFault

def unlabelled : MethodFault → MethodFault
  | duplicateLabel _ => duplicateLabel default
  | undefinedLabel _ => undefinedLabel default
  | missingFrame _ => missingFrame default
  | fault => fault

end MethodFault

def VerifyFault.unlabelled : VerifyFault → VerifyFault
  | method c m fault => method c m fault.unlabelled
  | fault => fault

namespace Verifier

variable {σ : Label → Label} (hσ : Function.Injective σ)

include hσ

theorem firstRepeated?_map (seen ls : List Label) :
    firstRepeated? (seen.map σ) (ls.map σ) = (firstRepeated? seen ls).map σ := by
  induction ls generalizing seen with
  | nil => rfl
  | cons l ls ih =>
    have hrest := ih (l :: seen)
    rw [List.map_cons] at hrest
    rw [List.map_cons, firstRepeated?, firstRepeated?, contains_map_of_injective hσ, hrest]
    split <;> rfl

omit hσ in
theorem referenced_relabel (m : Method) : referenced (m.relabel σ) = (referenced m).map σ := by
  have hmentions (i : Instruction) : mentions (i.relabel σ) = (mentions i).map σ := by cases i <;> rfl
  have hcode : (m.relabel σ).code.flatMap mentions = (m.code.flatMap mentions).map σ := by
    rw [Method.relabel, List.flatMap_map, List.map_flatMap]
    exact congrArg (List.flatMap · m.code) (funext hmentions)
  have hhandlers : ((m.relabel σ).handlers.flatMap fun h => [h.start, h.stop, h.target]) =
      (m.handlers.flatMap fun h => [h.start, h.stop, h.target]).map σ := by
    rw [Method.relabel, List.flatMap_map, List.map_flatMap]
    rfl
  rw [referenced, referenced, hcode, hhandlers, List.map_append]

theorem checkLabels_relabel (m : Method) : (checkLabels (m.relabel σ)).mapError MethodFault.unlabelled =
    (checkLabels m).mapError MethodFault.unlabelled := by
  have hrepeated : firstRepeated? [] (m.labels.map σ) = (firstRepeated? [] m.labels).map σ :=
    firstRepeated?_map hσ [] m.labels
  have hundefined : ((referenced m).map σ).find? (!(m.labels.map σ).contains ·) =
      ((referenced m).find? (!m.labels.contains ·)).map σ := by
    rw [List.find?_map]
    exact congrArg (fun p => ((referenced m).find? p).map σ)
      (funext fun l => congrArg not (contains_map_of_injective hσ l _))
  unfold checkLabels
  dsimp only
  rw [Method.labels_relabel, referenced_relabel, hrepeated, hundefined]
  cases firstRepeated? [] m.labels with
  | some l => rfl
  | none => cases (referenced m).find? (!m.labels.contains ·) <;> rfl

theorem checkFramed_map (targets : List Label) (pending : List Pending) :
    (checkFramed (targets.map σ) (pending.map fun p => ⟨σ p.label, p.framed⟩)).mapError
        MethodFault.unlabelled =
      (checkFramed targets pending).mapError MethodFault.unlabelled := by
  have hfilter : ((pending.map fun p => (⟨σ p.label, p.framed⟩ : Pending)).filter fun p =>
        !p.framed && (targets.map σ).contains p.label).map (·.label) =
      ((pending.filter fun p => !p.framed && targets.contains p.label).map (·.label)).map σ := by
    rw [List.filter_map, List.map_map, List.map_map]
    refine congrArg (List.map _) (List.filter_congr fun p _ => ?_)
    exact congrArg (!p.framed && ·) (contains_map_of_injective hσ p.label targets)
  unfold checkFramed unframed?
  rw [hfilter]
  cases (pending.filter fun p => !p.framed && targets.contains p.label).map (·.label) <;> rfl

theorem checkFrames_relabel (targets : List Label) (pending : List Pending) (index : Nat)
    (code : List Instruction) :
    (checkFrames (targets.map σ) (pending.map fun p => ⟨σ p.label, p.framed⟩) index
        (code.map (·.relabel σ))).mapError MethodFault.unlabelled =
      (checkFrames targets pending index code).mapError MethodFault.unlabelled := by
  induction code generalizing pending index with
  | nil => exact checkFramed_map hσ targets pending
  | cons i code ih =>
    have hframed := checkFramed_map hσ targets pending
    cases i with
    | label l => exact ih (⟨l, false⟩ :: pending) (index + 1)
    | lineNumber n l => exact ih pending (index + 1)
    -- a frame frames what is pending, and is refused if nothing is
    | frame n =>
      have hrest := ih (pending.map fun p => { p with framed := true }) (index + 1)
      rw [List.map_map] at hrest
      rw [List.map_cons]
      simp only [Instruction.relabel, checkFrames, List.isEmpty_map]
      split
      · rfl
      · rw [List.map_map]
        exact hrest
    | _ =>
      -- an instruction ends what is pending, which is framed or not whatever its label is called
      rw [List.map_cons]
      simp only [Instruction.relabel, checkFrames]
      generalize checkFramed targets pending = x at hframed
      generalize checkFramed (targets.map σ) _ = y at hframed
      cases x <;> cases y <;> first | cases hframed | skip
      · exact hframed
      · exact ih [] (index + 1)

omit hσ in
theorem checkOperands_relabel (mode : Mode) (maxLocals : UInt16) (code : List Instruction) :
    checkAll (checkOperands mode maxLocals) (code.map (·.relabel σ)) =
      checkAll (checkOperands mode maxLocals) code := by
  induction code with
  | nil => rfl
  | cons i code ih =>
    have hi : checkOperands mode maxLocals (i.relabel σ) = checkOperands mode maxLocals i := by
      cases i <;> rfl
    rw [List.map_cons, checkAll, checkAll, hi, ih]

omit hσ in
theorem mapError_seq {ε δ : Type} {f : ε → δ} {x x' y y' : Except ε Unit}
    (hx : x'.mapError f = x.mapError f) (hy : y'.mapError f = y.mapError f) :
    (do x'; y').mapError f = (do x; y).mapError f := by
  cases x <;> cases x' <;> first | exact hx | exact hy | cases hx

/-- **A method is checked whatever its labels are.** -/
theorem checkMethod_relabel (mode : Mode) (m : Method) :
    (checkMethod mode (m.relabel σ)).mapError MethodFault.unlabelled =
      (checkMethod mode m).mapError MethodFault.unlabelled := by
  have htargets : targets (m.relabel σ) = (targets m).map σ := by
    rw [targets, targets, Method.jumpTargets_relabel, List.map_append]
    simp [Method.relabel, Handler.relabel, Function.comp_def]
  have hframes := checkFrames_relabel hσ (targets m) [] 0 m.code
  rw [← htargets] at hframes
  have hoperands := checkOperands_relabel (σ := σ) mode m.maxLocals m.code
  refine mapError_seq rfl (mapError_seq (checkLabels_relabel hσ m) (mapError_seq hframes ?_))
  exact congrArg (Except.mapError _) hoperands

end Verifier

theorem Verifier.checkMethods_relabel {σ : Nat → Label → Label} (hσ : ∀ i, Function.Injective (σ i)) (mode : Mode)
    (className : String) (seen : List String) (ms : List Method) :
    (checkMethods mode className seen (Method.relabelAll σ ms)).mapError VerifyFault.unlabelled =
      (checkMethods mode className seen ms).mapError VerifyFault.unlabelled := by
  induction ms generalizing σ seen with
  | nil => rfl
  | cons m ms ih =>
    have hm := checkMethod_relabel (hσ 0) mode m
    have hname : (m.relabel (σ 0)).name = m.name := rfl
    rw [Method.relabelAll_cons, checkMethods, checkMethods, hname]
    split
    · rfl
    · generalize checkMethod mode m = x at hm
      generalize checkMethod mode (m.relabel (σ 0)) = y at hm
      cases x <;> cases y <;> first | cases hm | skip
      · exact congrArg (fun fault => Except.error (VerifyFault.method className m.name fault)) (Except.error.inj hm)
      · exact ih (fun i => hσ (i + 1)) (m.name :: seen)

/-- **A class is checked whatever its labels are.** -/
theorem Verifier.check_relabel {σ : Nat → Label → Label} (hσ : ∀ i, Function.Injective (σ i)) (mode : Mode)
    (c : ClassFile) : (check mode (c.relabel σ)).mapError VerifyFault.unlabelled =
      (check mode c).mapError VerifyFault.unlabelled := checkMethods_relabel hσ mode c.name [] c.methods

/-! ### Places -/

namespace LinkedMethod

theorem placesFrom_relabel {σ : Label → Label} (found : List (Label × Nat)) (place : Nat) (code : List Instruction) :
    placesFrom (found.map fun e => (σ e.1, e.2)) place (code.map (·.relabel σ)) =
      (placesFrom found place code).map fun e => (σ e.1, e.2) := by
  induction code generalizing found place with
  | nil => rfl
  | cons i code ih =>
    cases i with
    | label l => exact ih ((l, place) :: found) (place + 1)
    | _ => exact ih found (place + 1)

variable {σ : Label → Label} (hσ : Function.Injective σ) (m : Method)

include hσ

/-- **Labels stand in the same places.** -/
theorem place?_relabel (l : Label) : (ofMethod (m.relabel σ)).place? (σ l) = (ofMethod m).place? l := by
  have hplaces := placesFrom_relabel (σ := σ) [] 0 m.code
  exact (congrArg (List.lookup (σ l)) hplaces).trans (lookup_map_of_injective hσ l _)

/-- **Handlers cover the same places.** -/
theorem handlers_relabel : (ofMethod (m.relabel σ)).handlers = (ofMethod m).handlers := by
  show (m.handlers.map (·.relabel σ)).map (fun h => (⟨((ofMethod (m.relabel σ)).place? h.start).getD 0,
    ((ofMethod (m.relabel σ)).place? h.stop).getD 0, ((ofMethod (m.relabel σ)).place? h.target).getD 0,
    h.kind⟩ : LinkedHandler)) = _
  rw [List.map_map]
  refine List.map_congr_left fun h _ => ?_
  simp only [Function.comp_apply, Handler.relabel, place?_relabel hσ m]
  rfl

end LinkedMethod

end Confine
