import Confine.Proofs.Assembly.RoundTrip
import Confine.Proofs.Sandbox.RelabelledRuns

/-!
# What labels are called

Labels tie jumps, handlers and lines to places in the code. What they are called is nobody's business:

* `ClassFile.SameUnder` — checks, tracers and places do not see it;
* `LoadingUnit.RunsAs` — and no run does, unless it reads the text of a class.

Main statement: `label_names_irrelevant`. A program that is rebuilt from its disassembly is a case of it: the assembler
numbers the labels anew, in the order in which the text mentions them.
-/

namespace Confine

/-! ### One class -/

/-- **The names of its labels do not matter to a class**, under a renaming of the labels of each method. -/
structure ClassFile.SameUnder (ρ : Nat → Label → Label) (c : ClassFile) : Prop where
  /-- the checks pass, or fail with the same fault, whatever label it names -/
  checked : ∀ mode, (Verifier.check mode (c.relabel ρ)).mapError VerifyFault.unlabelled =
    (Verifier.check mode c).mapError VerifyFault.unlabelled
  /-- the line trace puts the same hooks in the same places, and notes the same -/
  lineTraced : ∀ (i : LineTrace.Instrumentation) (origin : Origin), i.instrument origin (c.relabel ρ) =
    ((i.instrument origin c).1.relabel ρ, (i.instrument origin c).2)
  /-- and so does the method trace -/
  methodTraced : ∀ (i : MethodTrace.Instrumentation) (origin : Origin), i.instrument origin (c.relabel ρ) =
    ((i.instrument origin c).1.relabel ρ, (i.instrument origin c).2)
  /-- labels and handlers come to the same places -/
  placed : ∀ k m, c.methods[k]? = some m →
    (∀ l ∈ m.mentions, (LinkedMethod.ofMethod (m.relabel (ρ k))).place? (ρ k l) = (LinkedMethod.ofMethod m).place? l) ∧
      (LinkedMethod.ofMethod (m.relabel (ρ k))).handlers = (LinkedMethod.ofMethod m).handlers

theorem ClassFile.Separates.sameUnder {ρ : Nat → Label → Label} {c : ClassFile} (h : c.Separates ρ) :
    c.SameUnder ρ where
  checked := by
    obtain ⟨σ, hσ, -, heq⟩ := h.exists_injective
    intro mode
    rw [← heq, Verifier.check_relabel hσ]
  lineTraced i origin := by
    have hi := Instrumentation.instrument_relabel_of_separates h (i := .lineTrace i) trivial origin
    simp only [Instrumentation.instrument, Except.map, Except.ok.injEq, Prod.mk.injEq,
      Instrumentation.lineTrace.injEq] at hi
    exact Prod.ext hi.1 hi.2
  methodTraced i origin := by
    have hi := Instrumentation.instrument_relabel_of_separates h (i := .methodTrace i) trivial origin
    simp only [Instrumentation.instrument, Except.map, Except.ok.injEq, Prod.mk.injEq,
      Instrumentation.methodTrace.injEq] at hi
    exact Prod.ext hi.1 hi.2
  placed k m hm := by
    obtain ⟨σ, hσ, hagree⟩ := exists_injective_eqOn (h k m hm)
    have heq : m.relabel (ρ k) = m.relabel σ := Method.relabel_congr fun l hl => (hagree l hl).symm
    rw [heq]
    refine ⟨fun l hl => ?_, LinkedMethod.handlers_relabel hσ m⟩
    rw [← hagree l hl, LinkedMethod.place?_relabel hσ m l]

theorem ClassFile.Legible.relabel {c : ClassFile} (h : c.Legible) (ρ : Nat → Label → Label) :
    (c.relabel ρ).Legible where
  name := h.name
  sourceFile := h.sourceFile
  methods := by
    intro m hm
    obtain ⟨i, hi, rfl⟩ := List.mem_mapIdx.1 hm
    exact (h.methods _ (List.getElem_mem hi)).relabel (ρ i)

/-! ### Units -/

namespace LoadingUnit

/-- **Runs in the one unit are runs in the other**: the same outcome, output, log, traces and answers, and the same host
behind them. Only a run that has read a class file of its unit is free to differ behind that. -/
structure RunsAs (u u' : LoadingUnit) : Prop where
  /-- entry points, where the log of the result says what has been read -/
  executes : ∀ {σ : Type} (host : Host (StateM σ)) (sb : Sandbox) (r : RegistryId) (sets : List ClassSets)
    (a : ExecutionArguments) (e : EntryPoint) (w : σ),
    (∃ x, (Sandbox.execute host sb r u sets a e w).1.outcome = .ok x ∧ ∃ d ∈ x.permissionLog, u.Shows d) ∨
      Sandbox.execute host sb r u' sets a e w = Sandbox.execute host sb r u sets a e w
  /-- trusted work -/
  works : ∀ {σ : Type} (host : Host (StateM σ)) (sb : Sandbox) (r : RegistryId) (sets : List ClassSets)
    (a : ExecutionArguments) (work : List WorkStep) (w : σ),
    Sandbox.RunReads host sb r sets a work w u ∨
      Sandbox.executeWork host sb r u' sets a work w = Sandbox.executeWork host sb r u sets a work w
  /-- and threads under any scheduler -/
  schedules : ∀ (sb : Sandbox) (r : RegistryId) (sets : List ClassSets) (a : ExecutionArguments),
    Agree (fun P P' => P'.state = P.state ∧ ∀ {work acts c}, P.task.Schedules P.state work acts c →
        P.state.HasRead P.task c.shared ∨ ∃ acts' c', P'.task.Schedules P'.state work acts' c' ∧
          acts'.flatMap Act.asked = acts.flatMap Act.asked ∧ c.Relabels c')
      (sb.prepare r u sets a) (sb.prepare r u' sets a)

theorem Relabels.runsAs {u u' : LoadingUnit} (h : u.Relabels u') : u.RunsAs u' where
  executes host sb r sets a e w := Sandbox.execute_relabels h host sb r sets a e w
  works host sb r sets a work w := Sandbox.executeWork_relabels host sb r sets a work w h
  schedules sb r sets a := by
    refine (Sandbox.prepare_relabels h sb r sets a).imp fun P P' _ hP => ?_
    obtain ⟨-, -, hstate, htask⟩ := hP
    refine ⟨hstate, fun {work acts c} hacts => ?_⟩
    rw [hstate]
    exact hacts.relabels htask

/-- **Two plans make units that run as each other**, or fail with the same fault, whatever label it names. -/
def Plan.BuildsAs (p p' : Plan) : Prop := ∀ id, Agree (fun u u' => u.RunsAs u' ∧ u'.RunsAs u)
  ((build p id).mapError LoadFault.unlabelled) ((build p' id).mapError LoadFault.unlabelled)

theorem Plan.BuildsAs.exists_runsAs {p p' : Plan} (h : p.BuildsAs p') {id : UnitId} {u : LoadingUnit}
    (hu : build p id = .ok u) : ∃ u', build p' id = .ok u' ∧ u.RunsAs u' := by
  have hagree := h id
  rw [hu] at hagree
  cases hu' : build p' id with
  | error fault =>
    rw [hu'] at hagree
    cases hagree
  | ok u' =>
    rw [hu'] at hagree
    cases hagree with
    | ok h => exact ⟨u', rfl, h.1⟩

theorem buildsAs_of_relabels {p : Plan} (htracers : ∀ a ∈ p.tracers.members, a.Unlabelled) {program : Compiled}
    (hprogram : p.program.Relabels program) {parent : Option LoadingUnit}
    (hparent : Option.Rel Relabels p.parent parent) :
    p.BuildsAs { p with program := program, parent := parent } := fun id =>
  (build_agree htracers hprogram hparent id).imp fun _ _ _ h => ⟨h.runsAs, h.symm.runsAs⟩

end LoadingUnit

/-- **Label names carry no meaning.** Under every renaming that keeps the labels of each method apart, a class is checked
and traced as before, and its labels and handlers come to the same places. Programs whose classes are the same up to such
a renaming, on top of such units, make units that run as each other, with tracers that put no labels into the code. So
a program that is rebuilt from the texts of its classes runs as the program that it was, if the names in them can be
read back. -/
theorem label_names_irrelevant :
    (∀ {ρ : Nat → Label → Label} {c : ClassFile}, c.Separates ρ → c.SameUnder ρ ∧ c.Relabels (c.relabel ρ)) ∧
    (∀ {p : LoadingUnit.Plan} {program : Compiled} {parent : Option LoadingUnit},
      (∀ a ∈ p.tracers.members, a.Unlabelled) → p.program.Relabels program →
      Option.Rel LoadingUnit.Relabels p.parent parent →
      p.BuildsAs { p with program := program, parent := parent }) ∧
    ∀ {cs : List ClassFile}, (∀ c ∈ cs, c.Legible) →
      ∃ program, Assembly.compile (String.join (cs.map Assembly.disassemble)) = .ok program ∧
        ∀ {p : LoadingUnit.Plan} {source : String}, (∀ a ∈ p.tracers.members, a.Unlabelled) →
          p.program = .ofClasses cs source → p.BuildsAs { p with program := program } := by
  refine ⟨fun h => ⟨h.sameUnder, ClassFile.relabels_iff_exists_relabel.2 ⟨_, h, rfl⟩⟩,
    fun htracers hprogram hparent => LoadingUnit.buildsAs_of_relabels htracers hprogram hparent,
    fun {cs} hcs => ⟨.ofClasses (cs.map ClassFile.renumbered) (String.join (cs.map Assembly.disassemble)), ?_, ?_⟩⟩
  · rw [Assembly.compile, Assembly.assemble_disassemblies hcs]
    rfl
  · intro p source htracers hprogram
    have hrelabels : List.Forall₂ ClassFile.Relabels cs (cs.map ClassFile.renumbered) :=
      List.forall₂_map_right_iff.2 (List.forall₂_same.2 fun c _ => c.relabels_renumbered)
    have hparent : Option.Rel LoadingUnit.Relabels p.parent p.parent := by
      cases p.parent with
      | none => exact .none
      | some u => exact .some (.refl u)
    exact LoadingUnit.buildsAs_of_relabels htracers
      (hprogram.symm ▸ Compiled.relabels_ofClasses hrelabels source _) hparent

namespace Sample

open LoadingUnit

def shifted (_ : Nat) (l : Label) : Label := ⟨l.index + 7⟩

theorem separates_shifted : main.Separates shifted := by
  rintro i m - ⟨a⟩ - ⟨b⟩ - hab
  exact congrArg Label.mk ((UInt32.add_left_inj 7).1 (Label.mk.inj hab))

theorem legible_main : main.Legible := by
  refine ⟨by decide, by simp +decide, ?_⟩
  simp only [main, List.mem_singleton, forall_eq]
  exact ⟨by decide, by decide, by simp, by simp [Instruction.Legible], by simp +decide⟩

def tracedPlan : Plan := { OfClass.plan main with tracers := .traces (some .default) (some .default) }

def shiftedProgram : Compiled := .ofClasses [main.relabel shifted] ""

/-- The run of the sample where it may see `HOME`. -/
def seeingHome (u : LoadingUnit) : Sandbox.Execution × World :=
  Sandbox.execute World.host .empty ⟨0⟩ u [] { ExecutionArguments.default with permissions := ⟨[.readEnv "HOME"]⟩ }
    .default (Sandbox.keyedWorld .empty "1")

/-- With both tracers the sample runs to its end, and does so under other labels and when it is rebuilt from the text of
those. -/
theorem label_names_irrelevant_shifted : main.Separates shifted ∧ main.SameUnder shifted ∧
    (main.relabel shifted).Legible ∧ (∀ a ∈ tracedPlan.tracers.members, a.Unlabelled) ∧
    tracedPlan.program.Relabels shiftedProgram ∧
    ∃ u u' u'' program, build tracedPlan ⟨1⟩ = .ok u ∧
      build { tracedPlan with program := shiftedProgram } ⟨1⟩ = .ok u' ∧
      Assembly.compile (String.join ([main.relabel shifted].map Assembly.disassemble)) = .ok program ∧
      build { tracedPlan with program := program } ⟨1⟩ = .ok u'' ∧
      (seeingHome u).1.outcome.toOption.map (·.completed) = some true ∧
      seeingHome u' = seeingHome u ∧ seeingHome u'' = seeingHome u := by
  obtain ⟨hsame, hbuilds, hrebuilt⟩ := label_names_irrelevant
  have hlegible := legible_main.relabel shifted
  have hunlabelled : ∀ a ∈ tracedPlan.tracers.members, a.Unlabelled := by
    simp [tracedPlan, Roster.traces, Tracer.Unlabelled]
  have hrelabels : tracedPlan.program.Relabels shiftedProgram :=
    Compiled.relabels_ofClasses (.cons (hsame separates_shifted).2 .nil) "" ""
  have hbuild : build tracedPlan ⟨1⟩ = .ok (OfClass.unit main (some .default) (some .default)) :=
    OfClass.build_plan rfl (by decide)
  have hlog : (seeingHome (OfClass.unit main (some .default) (some .default))).1.outcome.toOption.map
      (fun x => (x.completed, x.permissionLog)) = some (true, [⟨.readEnv "HOME", true⟩]) := by
    decide +kernel
  generalize OfClass.unit main (some .default) (some .default) = u at hbuild hlog
  -- what has been granted is to see a variable, so nothing is excepted
  have hseen {v v' : LoadingUnit} (hv : seeingHome v = seeingHome u) (h : v.RunsAs v') :
      seeingHome v' = seeingHome u := by
    rcases h.executes World.host .empty ⟨0⟩ [] { ExecutionArguments.default with permissions := ⟨[.readEnv "HOME"]⟩ }
      .default (Sandbox.keyedWorld .empty "1") with ⟨x, hx, d, hd, path, text, -, rfl⟩ | h
    · rw [← hv, seeingHome, hx] at hlog
      rw [(Prod.mk.inj (Option.some.inj hlog)).2] at hd
      simp at hd
    · exact h.trans hv
  obtain ⟨u', hu', hruns⟩ := (hbuilds hunlabelled hrelabels .none).exists_runsAs hbuild
  obtain ⟨program, hcompiles, hprogram⟩ := hrebuilt (List.forall_mem_singleton.2 hlegible)
  obtain ⟨u'', hu'', hruns'⟩ := (@hprogram { tracedPlan with program := shiftedProgram } "" hunlabelled rfl).exists_runsAs hu'
  have hcompleted : (seeingHome u).1.outcome.toOption.map (·.completed) = some true := by
    have h := congrArg (Option.map Prod.fst) hlog
    rwa [Option.map_map] at h
  exact ⟨separates_shifted, (hsame separates_shifted).1, hlegible, hunlabelled, hrelabels, u, u', u'', program, hbuild,
    hu', hcompiles, hu'', hcompleted, hseen rfl hruns, hseen (hseen rfl hruns) hruns'⟩

end Sample

end Confine
