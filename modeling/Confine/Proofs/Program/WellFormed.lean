import Confine.Proofs.Program.Verified

/-!
# Which classes the verifier accepts

The verifier goes through the code of a method once and keeps the labels behind which no real instruction has come
yet.  What it accepts can be said without that: by the instructions that stand between a label and a frame.

* `FramesLabelled`, `LabelsFramed` — the rules for frames, by the code in front of a frame and behind a label;
* `Verifier.framesOk_iff` — what the pass over the code finds out, behind any labels;
* `Verifier.check_eq_ok_iff_wellFormed` — **the verifier accepts exactly the well-formed classes**.
-/

namespace Confine

/-! ### The rules -/

/-- Control may come to the label by a jump or as the target of a handler. -/
def Method.IsTarget (m : Method) (l : Label) : Prop :=
  (∃ i ∈ m.code, i.jumpTarget? = some l) ∨ ∃ h ∈ m.handlers, h.target = l

/-- A label stands in front of every frame, and no real instruction between the two. -/
def FramesLabelled (code : List Instruction) : Prop :=
  ∀ before depth after, code = before ++ .frame depth :: after →
    ∃ front l marks, before = front ++ .label l :: marks ∧ ∀ i ∈ marks, i.isMark = true

/-- A frame stands in the code, and no real instruction in front of it. -/
def FrameAhead (code : List Instruction) : Prop :=
  ∃ marks depth rest, code = marks ++ .frame depth :: rest ∧ ∀ i ∈ marks, i.isMark = true

/-- Behind every label of a kind a frame comes before the next real instruction. -/
def LabelsFramed (target : Label → Prop) (code : List Instruction) : Prop :=
  ∀ before l after, code = before ++ .label l :: after → target l → FrameAhead after

/-- **The rules for a method.** -/
structure Method.WellFormed (mode : Verifier.Mode) (m : Method) : Prop where
  /-- the locals hold the parameters, and the receiver of an instance method -/
  locals : m.params.length + (if m.isStatic then 0 else 1) ≤ m.maxLocals.toNat
  /-- no label is defined twice -/
  labels : ∀ (p q : Nat) l, m.code[p]? = some (.label l) → m.code[q]? = some (.label l) → p = q
  /-- every label that is named is defined -/
  jumps : ∀ i ∈ m.code, ∀ l, i.jumpTarget? = some l → .label l ∈ m.code
  lines : ∀ line l, .lineNumber line l ∈ m.code → .label l ∈ m.code
  handlers : ∀ h ∈ m.handlers,
    .label h.start ∈ m.code ∧ .label h.stop ∈ m.code ∧ .label h.target ∈ m.code
  /-- a frame belongs to a label -/
  frames : FramesLabelled m.code
  /-- a label that control may come to has a frame -/
  targets : LabelsFramed m.IsTarget m.code
  /-- every slot that is named is one of a local -/
  load : ∀ i, .load i ∈ m.code → i < m.maxLocals
  store : ∀ i, .store i ∈ m.code → i < m.maxLocals
  operands : ∀ tracer name operands, .hook tracer name operands ∈ m.code →
    ∀ i, HookOperand.slot i ∈ operands → i < m.maxLocals
  /-- code that somebody handed in has no hooks -/
  noHooks : mode = .submitted → ∀ tracer name operands, .hook tracer name operands ∉ m.code

/-- **The rules for a class.** -/
structure ClassFile.WellFormed (mode : Verifier.Mode) (c : ClassFile) : Prop where
  names : c.methods.Pairwise fun m m' => m.name ≠ m'.name
  methods : ∀ m ∈ c.methods, m.WellFormed mode

/-! ### Frames -/

theorem frameAhead_cons {i : Instruction} {rest : List Instruction} :
    FrameAhead (i :: rest) ↔ (∃ depth, i = .frame depth) ∨ (i.isMark = true ∧ FrameAhead rest) := by
  constructor
  · rintro ⟨marks, depth, behind, hcode, hmarks⟩
    rcases List.cons_eq_append_iff.1 hcode with ⟨rfl, hcons⟩ | ⟨marks', rfl, hrest⟩
    · exact .inl ⟨depth, (List.cons.inj hcons).1.symm⟩
    · obtain ⟨hi, hmarks'⟩ := List.forall_mem_cons.1 hmarks
      exact .inr ⟨hi, marks', depth, behind, hrest, hmarks'⟩
  · rintro (⟨depth, rfl⟩ | ⟨hi, marks, depth, behind, rfl, hmarks⟩)
    · exact ⟨[], depth, rest, rfl, by simp⟩
    · exact ⟨i :: marks, depth, behind, rfl, List.forall_mem_cons.2 ⟨hi, hmarks⟩⟩

theorem not_frameAhead_nil : ¬ FrameAhead [] := by
  rintro ⟨marks, depth, rest, hcode, -⟩
  simp at hcode

theorem labelsFramed_cons {target : Label → Prop} {i : Instruction} {rest : List Instruction} :
    LabelsFramed target (i :: rest) ↔
      (∀ l, i = .label l → target l → FrameAhead rest) ∧ LabelsFramed target rest := by
  constructor
  · refine fun h => ⟨?_, fun before l after hrest => ?_⟩
    · rintro l rfl
      exact h [] l rest rfl
    · exact h (i :: before) l after (by rw [hrest, List.cons_append])
  · rintro ⟨hi, hrest⟩ before l after hcode
    rcases List.cons_eq_append_iff.1 hcode with ⟨rfl, hcons⟩ | ⟨before', rfl, hafter⟩
    · obtain ⟨hl, rfl⟩ := List.cons.inj hcons
      exact hi l hl.symm
    · exact hrest before' l after hafter

/-- A label stands in front of every frame; `behind` says whether one does in front of the code. -/
def FramesLabelledBehind (behind : Prop) (code : List Instruction) : Prop :=
  ∀ before depth after, code = before ++ .frame depth :: after →
    (∃ front l marks, before = front ++ .label l :: marks ∧ ∀ i ∈ marks, i.isMark = true) ∨
      (behind ∧ ∀ i ∈ before, i.isMark = true)

theorem framesLabelledBehind_false {code : List Instruction} :
    FramesLabelledBehind False code ↔ FramesLabelled code := by
  simp [FramesLabelledBehind, FramesLabelled]

theorem framesLabelledBehind_cons {behind : Prop} {i : Instruction} {rest : List Instruction} :
    FramesLabelledBehind behind (i :: rest) ↔ (∀ depth, i = .frame depth → behind) ∧
      FramesLabelledBehind ((∃ l, i = .label l) ∨ (behind ∧ i.isMark = true)) rest := by
  constructor
  · refine fun h => ⟨?_, fun before depth after hrest => ?_⟩
    · rintro depth rfl
      rcases h [] depth rest rfl with ⟨front, l, marks, hnil, -⟩ | ⟨hbehind, -⟩
      · simp at hnil
      · exact hbehind
    · rcases h (i :: before) depth after (by rw [hrest, List.cons_append]) with
        ⟨front, l, marks, hbefore, hmarks⟩ | ⟨hbehind, hmarks⟩
      · rcases List.cons_eq_append_iff.1 hbefore with ⟨-, hcons⟩ | ⟨front', -, hbefore'⟩
        · obtain ⟨hl, rfl⟩ := List.cons.inj hcons
          exact .inr ⟨.inl ⟨l, hl.symm⟩, hmarks⟩
        · exact .inl ⟨front', l, marks, hbefore', hmarks⟩
      · obtain ⟨hi, hmarks⟩ := List.forall_mem_cons.1 hmarks
        exact .inr ⟨.inr ⟨hbehind, hi⟩, hmarks⟩
  · rintro ⟨hi, hrest⟩ before depth after hcode
    rcases List.cons_eq_append_iff.1 hcode with ⟨rfl, hcons⟩ | ⟨before', rfl, hafter⟩
    · exact .inr ⟨hi depth (List.cons.inj hcons).1.symm, by simp⟩
    · rcases hrest before' depth after hafter with
        ⟨front, l, marks, rfl, hmarks⟩ | ⟨⟨l, rfl⟩ | ⟨hbehind, himark⟩, hmarks⟩
      · exact .inl ⟨i :: front, l, marks, rfl, hmarks⟩
      · exact .inl ⟨[], l, before', rfl, hmarks⟩
      · exact .inr ⟨hbehind, List.forall_mem_cons.2 ⟨himark, hmarks⟩⟩

namespace Verifier

theorem settled_cons {targets : List Label} {pending : List Pending} {l : Label} :
    Settled targets (⟨l, false⟩ :: pending) ↔ l ∉ targets ∧ Settled targets pending := by
  rw [Settled, List.forall_mem_cons, Settled]
  simp

/-- **What the pass over the code finds out**, behind `pending` labels: each frame has a label, and each
label that is a target has a frame, those that are pending with it. -/
theorem framesOk_iff {targets : List Label} {pending : List Pending} {code : List Instruction} :
    FramesOk targets pending code ↔ FramesLabelledBehind (pending ≠ []) code ∧
      LabelsFramed (· ∈ targets) code ∧ (Settled targets pending ∨ FrameAhead code) := by
  -- a label adds to what is pending, a frame settles it, and a real instruction must find it settled
  induction code generalizing pending with
  | nil => simp [FramesOk, FramesLabelledBehind, LabelsFramed, not_frameAhead_nil]
  | cons i rest ih =>
    rw [framesLabelledBehind_cons, labelsFramed_cons, frameAhead_cons]
    cases i with
    | label l =>
      simp only [FramesOk, ih, settled_cons]
      simp [Instruction.isMark]
      tauto
    | lineNumber line l => simp [FramesOk, ih, Instruction.isMark]
    | frame depth =>
      simp [FramesOk, ih, Instruction.isMark, settled_framed]
      tauto
    | _ =>
      simp [FramesOk, ih, Instruction.isMark, settled_nil]
      tauto

/-! ### Methods and classes -/

variable {mode : Mode} {m : Method}

theorem mem_labels {l : Label} : l ∈ m.labels ↔ .label l ∈ m.code := by
  rw [Method.labels, List.mem_filterMap]
  constructor
  · rintro ⟨i, hi, hl⟩
    exact label?_eq_some_iff.1 hl ▸ hi
  · exact fun h => ⟨_, h, rfl⟩

/-- Labels are not repeated if each stands in one place. -/
theorem nodup_labels_iff : m.labels.Nodup ↔ ∀ (p q : Nat) l, m.code[p]? = some (.label l) →
    m.code[q]? = some (.label l) → p = q := by
  rw [Method.labels, List.Nodup, List.pairwise_filterMap, List.pairwise_iff_getElem]
  constructor
  · intro h p q l hp hq
    obtain ⟨hplt, hp⟩ := List.getElem?_eq_some_iff.1 hp
    obtain ⟨hqlt, hq⟩ := List.getElem?_eq_some_iff.1 hq
    rcases Nat.lt_trichotomy p q with hlt | heq | hlt
    · exact absurd rfl (h p q hplt hqlt hlt l (label?_eq_some_iff.2 hp) l (label?_eq_some_iff.2 hq))
    · exact heq
    · exact absurd rfl (h q p hqlt hplt hlt l (label?_eq_some_iff.2 hq) l (label?_eq_some_iff.2 hp))
  · rintro h p q hp hq hlt l hl l' hl' rfl
    have heq := h p q l (List.getElem?_eq_some_iff.2 ⟨hp, label?_eq_some_iff.1 hl⟩)
      (List.getElem?_eq_some_iff.2 ⟨hq, label?_eq_some_iff.1 hl'⟩)
    exact absurd heq (Nat.ne_of_lt hlt)

theorem mem_targets {l : Label} : l ∈ targets m ↔ m.IsTarget l := by
  simp only [targets, Method.jumpTargets, List.mem_append, List.mem_filterMap, List.mem_map,
    Method.IsTarget]

theorem forall_mem_referenced_iff {P : Label → Prop} : (∀ l ∈ referenced m, P l) ↔
    (∀ i ∈ m.code, ∀ l, i.jumpTarget? = some l → P l) ∧
      (∀ line l, .lineNumber line l ∈ m.code → P l) ∧
      ∀ h ∈ m.handlers, P h.start ∧ P h.stop ∧ P h.target := by
  have hcode : (∀ l ∈ m.code.flatMap mentions, P l) ↔
      (∀ i ∈ m.code, ∀ l, i.jumpTarget? = some l → P l) ∧
        ∀ line l, .lineNumber line l ∈ m.code → P l := by
    simp only [List.mem_flatMap, forall_exists_index, and_imp]
    constructor
    · refine fun h => ⟨fun i hi l hl => h l i hi ?_, fun line l hi => h l _ hi (by simp [mentions])⟩
      cases i <;> simp_all [Instruction.jumpTarget?, mentions]
    · rintro ⟨hjumps, hlines⟩ l i hi hl
      cases i with
      | jump l' | jumpIf l' | jumpIfNot l' =>
        obtain rfl := List.mem_singleton.1 hl
        exact hjumps _ hi l rfl
      | lineNumber line l' =>
        obtain rfl := List.mem_singleton.1 hl
        exact hlines line l hi
      | _ => cases hl
  have hhandlers : (∀ l ∈ m.handlers.flatMap fun h => [h.start, h.stop, h.target], P l) ↔
      ∀ h ∈ m.handlers, P h.start ∧ P h.stop ∧ P h.target :=
    List.forall_mem_flatMap.trans (forall₂_congr fun h _ => by simp)
  rw [referenced, List.forall_mem_append, hcode, hhandlers, and_assoc]

theorem checkOperands_iff : (∀ i ∈ m.code, checkOperands mode m.maxLocals i = .ok ()) ↔
    (∀ i, .load i ∈ m.code → i < m.maxLocals) ∧ (∀ i, .store i ∈ m.code → i < m.maxLocals) ∧
      (∀ tracer name operands, .hook tracer name operands ∈ m.code →
        ∀ i, HookOperand.slot i ∈ operands → i < m.maxLocals) ∧
      (mode = .submitted → ∀ tracer name operands, .hook tracer name operands ∉ m.code) := by
  have slot : ∀ i : UInt16, checkSlots m.maxLocals [i] = .ok () ↔ i < m.maxLocals := fun i => by
    simp [checkSlots_eq_ok_iff, UInt16.lt_iff_toNat_lt]
  have slots : ∀ operands, checkSlots m.maxLocals (hookSlots operands) = .ok () ↔
      ∀ i, HookOperand.slot i ∈ operands → i < m.maxLocals := fun operands => by
    simp only [checkSlots_eq_ok_iff, hookSlots, List.mem_filterMap, UInt16.lt_iff_toNat_lt]
    constructor
    · exact fun h i hi => h i ⟨_, hi, rfl⟩
    · rintro h i ⟨o, ho, hoi⟩
      cases o with
      | constant c => cases hoi
      | slot j =>
        obtain rfl := Option.some.inj hoi
        exact h j ho
  constructor
  · refine fun h => ⟨fun i hi => (slot i).1 (h _ hi), fun i hi => (slot i).1 (h _ hi),
      fun tracer name operands hi => ?_, ?_⟩
    · -- a hook is refused for its mode before its slots are looked at
      have hchecked := h _ hi
      simp only [checkOperands] at hchecked
      split at hchecked
      · cases hchecked
      · exact (slots operands).1 hchecked
    · rintro rfl tracer name operands hi
      cases h _ hi
  · rintro ⟨hload, hstore, hhook, hnone⟩ i hi
    cases i with
    | load i => exact (slot i).2 (hload i hi)
    | store i => exact (slot i).2 (hstore i hi)
    | hook tracer name operands =>
      rw [checkOperands, if_neg fun hmode => hnone hmode tracer name operands hi]
      exact (slots operands).2 (hhook tracer name operands hi)
    | _ => rfl

/-- **The verifier accepts exactly the well-formed methods.** -/
theorem verified_iff_wellFormed : Verified mode m ↔ m.WellFormed mode := by
  have hframes : checkFrames (targets m) [] 0 m.code = .ok () ↔
      FramesLabelled m.code ∧ LabelsFramed m.IsTarget m.code := by
    rw [checkFrames_eq_ok_iff, framesOk_iff]
    simp [settled_nil, framesLabelledBehind_false, LabelsFramed, mem_targets]
  constructor
  · rintro ⟨hlocals, hnodup, hdefined, hok, hoperands⟩
    obtain ⟨hjumps, hlines, hhandlers⟩ := forall_mem_referenced_iff.1 hdefined
    simp only [mem_labels] at hjumps hlines hhandlers
    obtain ⟨hlabelled, hframed⟩ := hframes.1 hok
    obtain ⟨hload, hstore, hhook, hnone⟩ := checkOperands_iff.1 hoperands
    exact ⟨hlocals, nodup_labels_iff.1 hnodup, hjumps, hlines, hhandlers, hlabelled, hframed, hload,
      hstore, hhook, hnone⟩
  · intro h
    refine ⟨h.locals, nodup_labels_iff.2 h.labels, ?_, hframes.2 ⟨h.frames, h.targets⟩,
      checkOperands_iff.2 ⟨h.load, h.store, h.operands, h.noHooks⟩⟩
    simp only [forall_mem_referenced_iff, mem_labels]
    exact ⟨h.jumps, h.lines, h.handlers⟩

end Verifier

/-- **The verifier accepts exactly the well-formed classes.** -/
theorem Verifier.check_eq_ok_iff_wellFormed {mode : Mode} {c : ClassFile} :
    check mode c = .ok () ↔ c.WellFormed mode := by
  rw [check_eq_ok_iff, List.Nodup, List.pairwise_map]
  simp only [verified_iff_wellFormed]
  exact ⟨fun ⟨hnames, hmethods⟩ => ⟨hnames, hmethods⟩, fun h => ⟨h.names, h.methods⟩⟩

end Confine
