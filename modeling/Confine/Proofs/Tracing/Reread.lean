import Confine.Proofs.Json.Rearranged
import Confine.Tracing.MethodTrace.Basic

/-!
# Reports of tracers, read back

* `LineTrace.Result.readsAs` — **the report of a line trace is read as it was written**, in any order of its fields;
* `MethodTrace.Step.readBack` — what is read of a step: that a receiver was `null` is not told;
* `MethodTrace.Result.readsAs` — **the report of a method trace is read as that**, if its values are plain.
-/

namespace Confine

open Json (Doc Exact Nests ReadsAs Rearranges exact_nat_iff exact_ofList_iff exact_obj_iff)
open Json.Doc (Slot)

/-! ### Line traces -/

namespace LineTrace

theorem LimitAction.readsAs (a : LimitAction) : ReadsAs LimitAction.ofDoc? LimitAction.toJson a a := by
  cases a <;> exact .of_plain trivial (by decide)

theorem Arguments.readsAs {a : Arguments} (h : Exact a.toJson) : ReadsAs Arguments.ofDoc? Arguments.toJson a a := by
  have hfields := exact_obj_iff.1 h
  simp only [List.forall_mem_cons, exact_nat_iff] at hfields
  obtain ⟨hsteps, hlimit, -, -, hunsynchronized, -⟩ := hfields
  have hlimit : ReadsAs (Doc.option? Doc.count?) (.ofOption .nat) a.runLineLimit a.runLineLimit := by
    have hread := @ReadsAs.option _ _ Doc.count? .nat a.runLineLimit (fun n => n) ?_ ?_ ?_
    · simpa using hread
    · intro n hn
      rw [hn] at hlimit
      exact .count (exact_nat_iff.1 hlimit)
    · exact fun n _ => trivial
    · exact fun n _ heq => by cases heq
  refine ⟨fun hf => ?_⟩
  simp [ofDoc?, toJson, hf.record?_toDoc, Slot.withDefault, (ReadsAs.count hsteps).rearranged hf, hlimit.rearranged hf,
    (LimitAction.readsAs _).rearranged hf, (ReadsAs.bool _).rearranged hf,
    (ReadsAs.count hunsynchronized).rearranged hf]

theorem step_readsAs {s : LineEvent} (h : Exact (stepJson s)) : ReadsAs step? stepJson s s := by
  have hfields := exact_obj_iff.1 h
  simp only [List.forall_mem_cons, exact_nat_iff] at hfields
  obtain ⟨-, -, hthread, -⟩ := hfields
  refine ⟨fun hf => ?_⟩
  simp [step?, stepJson, hf.record?_toDoc, Slot.required, (ReadsAs.str _).rearranged hf,
    (ReadsAs.uint32 s.line).rearranged hf, (ReadsAs.count hthread).rearranged hf]

/-- **The report of a line trace is read as it was written.** -/
theorem Result.readsAs {r : Result} (h : Exact r.toJson) : ReadsAs Result.ofDoc? Result.toJson r r := by
  have hfields := exact_obj_iff.1 h
  simp only [List.forall_mem_cons, exact_nat_iff, exact_ofList_iff] at hfields
  obtain ⟨harguments, hsteps, hlines, -⟩ := hfields
  have hsteps : ReadsAs (Doc.list? step?) (.ofList stepJson) r.steps r.steps := by
    have hread := ReadsAs.list (g := fun s => s) fun s hs => step_readsAs (hsteps s hs)
    rwa [List.map_id'] at hread
  refine ⟨fun hf => ?_⟩
  simp [ofDoc?, toJson, hf.record?_toDoc, Slot.required, (Arguments.readsAs harguments).rearranged hf,
    hsteps.rearranged hf, (ReadsAs.count hlines).rearranged hf]

theorem Result.nests (r : Result) : Nests 3 r.toJson := by
  have hlimit : (Json.ofOption .nat r.arguments.runLineLimit).Plain := by cases r.arguments.runLineLimit <;> trivial
  have haction : r.arguments.limitAction.toJson.Plain := by cases r.arguments.limitAction <;> trivial
  simp [toJson, Arguments.toJson, stepJson, Nests.obj_iff, Nests.ofList_iff, Nests.plain, hlimit, haction]

end LineTrace

/-! ### Method traces -/

namespace MethodTrace

theorem Arguments.readsAs {a : Arguments} (h : Exact a.toJson) : ReadsAs Arguments.ofDoc? Arguments.toJson a a := by
  have hfields := exact_obj_iff.1 h
  simp only [List.forall_mem_cons, exact_nat_iff] at hfields
  refine ⟨fun hf => ?_⟩
  simp [ofDoc?, toJson, hf.record?_toDoc, Slot.withDefault, (ReadsAs.count hfields.1).rearranged hf]

theorem Argument.readsAs {a : Argument} (h : a.value.Plain) : ReadsAs Argument.ofDoc? Argument.toJson a a := by
  refine ⟨fun hf => ?_⟩
  simp [ofDoc?, toJson, hf.record?_toDoc, Slot.required, (ReadsAs.str _).rearranged hf, (ReadsAs.any h).rearranged hf]

namespace Step

def Plain : Step → Prop
  | line _ _ => True
  | enter _ receiver arguments => (∀ v ∈ receiver, v.Plain) ∧ ∀ a ∈ arguments, a.value.Plain

/-- What is read of a step: a receiver that is `null` is none. -/
def readBack : Step → Step
  | line source n => line source n
  | enter method receiver arguments => enter method (Json.present receiver) arguments

theorem nests {s : Step} (h : s.Plain) : Nests 3 s.toJson := by
  cases s with
  | line source n => simp [toJson, Nests.obj_iff, Nests.plain]
  | enter method receiver arguments =>
    have hreceiver := Json.plain_getD h.1
    have harguments : ∀ a ∈ arguments, Nests 1 a.toJson := fun a ha => by
      simp [Argument.toJson, Nests.obj_iff, Nests.plain, h.2 a ha]
    simpa [toJson, Nests.obj_iff, Nests.ofList_iff, Nests.plain, hreceiver] using harguments

/-- The type of a step is found in any order of its fields, and its other fields are read by themselves. -/
theorem ofDoc?_of_perm {type : String} {rest fields : List (String × Json)}
    (h : fields.Perm (("type", .str type) :: rest)) (hnodup : ("type" :: rest.map (·.1)).Nodup)
    (hnests : Nests Doc.maxDepth (.obj fields)) :
    ∃ rest', rest'.Perm rest ∧ ofDoc? (Json.obj fields).toDoc = ofType? type (Json.obj rest').toDoc := by
  have hany : (Json.obj fields).toDoc.any? = some (Json.obj fields).sorted := Doc.toJson?_toDoc hnests
  have htype : Doc.slotNamed? (Json.toDocFields fields) "type" = some (.given (Json.str type).toDoc) :=
    Doc.slotNamed?_toDocFields (f := ("type", .str type)) ((h.map Prod.fst).nodup_iff.2 hnodup)
      (h.mem_iff.2 List.mem_cons_self)
  have hothers : (Json.toDocFields fields).filter (·.1 != some "type") =
      Json.toDocFields (fields.filter (·.1 != "type")) := by
    simp only [Json.toDocFields_eq_map, List.filter_map]
    rfl
  refine ⟨fields.filter (·.1 != "type"), ?_, ?_⟩
  · refine (h.filter _).trans ?_
    have hrest : rest.filter (·.1 != "type") = rest := by
      refine List.filter_eq_self.2 fun e he => bne_iff_ne.2 fun heq => ?_
      exact (List.nodup_cons.1 hnodup).1 (List.mem_map.2 ⟨e, he, heq⟩)
    simp [hrest]
  · simp only [Json.toDoc] at hany ⊢
    simp [ofDoc?, hany, htype, hothers, Slot.required, Json.toDoc, Doc.str?]

/-- **A step is read in any order of its fields.** -/
theorem readsAs {s : Step} (h : s.Plain) : ReadsAs ofDoc? toJson s s.readBack := by
  refine ⟨fun {f} hf => ?_⟩
  have hnests : Nests Doc.maxDepth (f s.toJson) := (hf.nests (nests h)).mono (by decide)
  cases s with
  | line source n =>
    obtain ⟨fields, heq, hperm⟩ := @Rearranges.obj f hf
      [("type", .str "line"), ("source", .str source), ("line", .nat n.toNat)] (by simp)
    rw [toJson, heq] at hnests ⊢
    simp only [List.map_cons, List.map_nil, hf.plain (Json.plain_str _), hf.plain (Json.plain_nat _)] at hperm
    obtain ⟨rest, hrest, hread⟩ := ofDoc?_of_perm hperm (by simp) hnests
    have hn : (Json.nat n.toNat).toDoc.uint32? = some n := Json.Faithful.uint32.read_encode n
    rw [hread]
    simp [ofType?, Doc.record?_of_perm hrest, readBack, Slot.required, Json.Faithful.str.read_encode, hn]
  | enter method receiver arguments =>
    have hreceiver := Json.plain_getD h.1
    have harguments := (ReadsAs.list (g := fun a => a) fun a ha => Argument.readsAs (h.2 a ha)).rearranged hf
    obtain ⟨fields, heq, hperm⟩ := @Rearranges.obj f hf
      [("type", .str "enter"), ("method", .str method), ("receiver", receiver.getD .null),
        ("arguments", .ofList Argument.toJson arguments)] (by simp)
    rw [toJson, heq] at hnests ⊢
    simp only [List.map_cons, List.map_nil, hf.plain (Json.plain_str _), hf.plain hreceiver] at hperm
    obtain ⟨rest, hrest, hread⟩ := ofDoc?_of_perm hperm (by simp) hnests
    have hpresent : (Slot.given (receiver.getD .null).toDoc).optional Doc.any? = some (Json.present receiver) :=
      Doc.optional_anyWithin? h.1 0
    rw [List.map_id'] at harguments
    rw [hread]
    simp [ofType?, Doc.record?_of_perm hrest, readBack, Slot.required, Json.Faithful.str.read_encode, hpresent,
      harguments]

end Step

namespace Result

def Plain (r : Result) : Prop := ∀ s ∈ r.steps, s.Plain

def readBack (r : Result) : Result := ⟨r.arguments, r.steps.map Step.readBack⟩

/-- **The report of a method trace is read as it was written**, but that a receiver was `null` is not told. -/
theorem readsAs {r : Result} (h : r.Plain) (hexact : Exact r.toJson) : ReadsAs ofDoc? toJson r r.readBack := by
  have hfields := exact_obj_iff.1 hexact
  simp only [List.forall_mem_cons] at hfields
  have hsteps := ReadsAs.list fun s hs => Step.readsAs (h s hs)
  refine ⟨fun hf => ?_⟩
  simp [ofDoc?, toJson, readBack, hf.record?_toDoc, Slot.required, (Arguments.readsAs hfields.1).rearranged hf,
    hsteps.rearranged hf]

theorem nests {r : Result} (h : r.Plain) : Nests 5 r.toJson := by
  have hsteps : ∀ s ∈ r.steps, Nests 3 s.toJson := fun s hs => Step.nests (h s hs)
  simpa [toJson, Arguments.toJson, Nests.obj_iff, Nests.ofList_iff, Nests.plain] using hsteps

end Result

end MethodTrace

end Confine
