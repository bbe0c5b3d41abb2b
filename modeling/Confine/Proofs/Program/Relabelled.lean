import Confine.Program.ClassFile
import Mathlib.Data.Fintype.Card
import Mathlib.Data.List.Nodup

/-!
# Methods up to the names of their labels

A method reads the same under other labels, as long as different labels stay different. Among all those the one
whose labels are 0, 1, 2, … as they are first mentioned is singled out; the labels of handlers are mentioned
before those of the code.

* `Method.relabels_renumbered` — every method is that one up to its labels;
* `Method.renumbered_eq_self_iff` — it is that one itself iff its labels are so numbered;
* `Method.numbered_renumbered` — what is renumbered is so numbered.
-/

namespace Confine

/-! ### First mentions -/

theorem eraseDups_concat (ms : List Label) (l : Label) :
    (ms ++ [l]).eraseDups = if l ∈ ms then ms.eraseDups else ms.eraseDups ++ [l] := by
  rw [List.eraseDups_append]
  by_cases h : l ∈ ms <;> simp [List.removeAll, List.eraseDups_cons, h]

theorem nodup_eraseDups (ms : List Label) : ms.eraseDups.Nodup := by
  induction ms using List.reverseRecOn with
  | nil => simp
  | append_singleton ms l ih =>
    rw [eraseDups_concat]
    split
    · exact ih
    · next h => exact ih.append (List.nodup_singleton l) (by simpa using h)

theorem length_le_of_nodup {ms : List Label} (h : ms.Nodup) : ms.length ≤ UInt32.size := by
  have hinj : Function.Injective fun l : Label => l.index.toFin := by
    intro a b h
    cases a
    cases b
    simpa using UInt32.toFin_inj.1 h
  have hcard := (h.map hinj).length_le_card
  simpa using hcard

theorem length_eraseDups_le (ms : List Label) : ms.eraseDups.length ≤ UInt32.size :=
  length_le_of_nodup (nodup_eraseDups ms)

/-- Renaming keeps the order of first mentions. -/
theorem eraseDups_map {ρ : Label → Label} {ms : List Label} (h : Set.InjOn ρ {l | l ∈ ms}) :
    (ms.map ρ).eraseDups = ms.eraseDups.map ρ := by
  induction ms using List.reverseRecOn with
  | nil => rfl
  | append_singleton ms l ih =>
    have hms := ih (h.mono fun _ ha => List.mem_append_left _ ha)
    have hmem : ρ l ∈ ms.map ρ ↔ l ∈ ms := by
      refine ⟨fun hl => ?_, List.mem_map_of_mem⟩
      obtain ⟨a, ha, heq⟩ := List.mem_map.1 hl
      have hal : a = l := h (List.mem_append_left _ ha) (by simp) heq
      exact hal ▸ ha
    rw [List.map_append, List.map_singleton, eraseDups_concat, eraseDups_concat, hms]
    simp only [hmem]
    split <;> simp

namespace Label

/-- The label as one who numbers labels in the order in which `ms` mentions them calls it. -/
def number (ms : List Label) (l : Label) : Label := ⟨UInt32.ofNat (ms.eraseDups.idxOf l)⟩

variable {ms : List Label} {a b l : Label}

theorem idxOf_lt (h : l ∈ ms) : ms.eraseDups.idxOf l < ms.eraseDups.length :=
  List.idxOf_lt_length_of_mem (List.mem_eraseDups.2 h)

theorem number_toNat (h : l ∈ ms) : (number ms l).index.toNat = ms.eraseDups.idxOf l :=
  Nat.mod_eq_of_lt ((idxOf_lt h).trans_le (length_eraseDups_le ms))

theorem number_injOn : Set.InjOn (number ms) {l | l ∈ ms} := by
  intro a ha b hb h
  have hidx : ms.eraseDups.idxOf a = ms.eraseDups.idxOf b := by
    rw [← number_toNat ha, ← number_toNat hb, h]
  exact (List.idxOf_inj (List.mem_eraseDups.2 ha)).1 hidx

theorem number_append (h : l ∈ ms) (more : List Label) : number (ms ++ more) l = number ms l := by
  rw [number, List.eraseDups_append, List.idxOf_append_of_mem (List.mem_eraseDups.2 h)]
  rfl

theorem map_number_toNat (ms : List Label) :
    ms.eraseDups.map (fun l => (number ms l).index.toNat) = List.range ms.eraseDups.length := by
  refine List.ext_getElem (by simp) fun i hi hi' => ?_
  have hlt : i < ms.eraseDups.length := by simpa using hi
  rw [List.getElem_map, List.getElem_range, number_toNat (List.mem_eraseDups.1 (List.getElem_mem hlt)),
    (nodup_eraseDups ms).idxOf_getElem i hlt]

theorem ext_toNat (h : a.index.toNat = b.index.toNat) : a = b := by
  cases a
  cases b
  exact congrArg mk (UInt32.toNat_inj.1 h)

theorem map_toNat_eq_range_iff : ms.eraseDups.map (·.index.toNat) = List.range ms.eraseDups.length ↔
    ∀ l ∈ ms, number ms l = l := by
  rw [← map_number_toNat, List.map_inj_left]
  refine forall_congr' fun l => ?_
  rw [List.mem_eraseDups]
  refine imp_congr_right fun _ => ⟨fun h => ext_toNat h.symm, fun h => by rw [h]⟩

end Label

/-! ### Renaming -/

namespace Instruction

def mention? : Instruction → Option Label
  | label l | lineNumber _ l | jump l | jumpIf l | jumpIfNot l => some l
  | _ => none

def relabel (ρ : Label → Label) : Instruction → Instruction
  | label l => label (ρ l)
  | lineNumber n l => lineNumber n (ρ l)
  | jump l => jump (ρ l)
  | jumpIf l => jumpIf (ρ l)
  | jumpIfNot l => jumpIfNot (ρ l)
  | i => i

theorem mention?_relabel (ρ : Label → Label) (i : Instruction) :
    (i.relabel ρ).mention? = i.mention?.map ρ := by
  cases i <;> rfl

theorem relabel_congr {ρ σ : Label → Label} {i : Instruction} (h : ∀ l ∈ i.mention?, ρ l = σ l) :
    i.relabel ρ = i.relabel σ := by
  cases i <;> simp_all [relabel, mention?]

theorem relabel_id (i : Instruction) : i.relabel id = i := by
  cases i <;> rfl

end Instruction

namespace Handler

def mentions (h : Handler) : List Label := [h.start, h.stop, h.target]

def relabel (ρ : Label → Label) (h : Handler) : Handler := ⟨ρ h.start, ρ h.stop, ρ h.target, h.kind⟩

end Handler

namespace Method

/-- The labels that the method mentions: those of its handlers first, then those of its code. -/
def mentions (m : Method) : List Label :=
  m.handlers.flatMap Handler.mentions ++ m.code.filterMap Instruction.mention?

def relabel (ρ : Label → Label) (m : Method) : Method :=
  { m with code := m.code.map (·.relabel ρ), handlers := m.handlers.map (·.relabel ρ) }

theorem mentions_relabel (ρ : Label → Label) (m : Method) :
    (m.relabel ρ).mentions = m.mentions.map ρ := by
  have hhandlers : (m.handlers.map (·.relabel ρ)).flatMap Handler.mentions =
      (m.handlers.flatMap Handler.mentions).map ρ := by
    rw [List.map_flatMap, List.flatMap_map]
    rfl
  have hcode : (m.code.map (·.relabel ρ)).filterMap Instruction.mention? =
      (m.code.filterMap Instruction.mention?).map ρ := by
    rw [List.filterMap_map, List.map_filterMap]
    exact congrArg (List.filterMap · m.code) (funext fun i => i.mention?_relabel ρ)
  rw [mentions, relabel, hhandlers, hcode, ← List.map_append]
  rfl

theorem relabel_congr {ρ σ : Label → Label} {m : Method} (h : ∀ l ∈ m.mentions, ρ l = σ l) :
    m.relabel ρ = m.relabel σ := by
  have hcode : m.code.map (·.relabel ρ) = m.code.map (·.relabel σ) :=
    List.map_congr_left fun i hi => Instruction.relabel_congr fun l hl =>
      h l (List.mem_append_right _ (List.mem_filterMap.2 ⟨i, hi, hl⟩))
  have hhandlers : m.handlers.map (·.relabel ρ) = m.handlers.map (·.relabel σ) := by
    refine List.map_congr_left fun hd hhd => ?_
    have hl : ∀ l ∈ hd.mentions, ρ l = σ l := fun l hl =>
      h l (List.mem_append_left _ (List.mem_flatMap.2 ⟨hd, hhd, hl⟩))
    simp only [Handler.mentions, List.mem_cons, List.not_mem_nil, or_false, forall_eq_or_imp,
      forall_eq] at hl
    obtain ⟨hstart, hstop, htarget⟩ := hl
    simp only [Handler.relabel, hstart, hstop, htarget]
  rw [relabel, relabel, hcode, hhandlers]

theorem relabel_eq_self_iff {ρ : Label → Label} {m : Method} :
    m.relabel ρ = m ↔ ∀ l ∈ m.mentions, ρ l = l := by
  refine ⟨fun h l hl => ?_, fun h => ?_⟩
  · have hmap : m.mentions.map ρ = m.mentions.map id := by
      rw [← mentions_relabel, h, List.map_id]
    exact List.map_inj_left.1 hmap l hl
  · have hid : m.relabel id = m := by
      simp [relabel, Instruction.relabel_id, Handler.relabel]
    exact (relabel_congr h).trans hid

/-- The method `m'` is `m` up to an injective renaming of its labels. -/
def Relabels (m m' : Method) : Prop :=
  ∃ ρ : Label → Label, Set.InjOn ρ {l | l ∈ m.mentions} ∧ m' = m.relabel ρ

/-- The labels are 0, 1, 2, … in the order in which they are first mentioned. -/
def Numbered (m : Method) : Prop :=
  m.mentions.eraseDups.map (·.index.toNat) = List.range m.mentions.eraseDups.length

instance (m : Method) : Decidable m.Numbered := inferInstanceAs (Decidable (_ = _))

/-- The method with its labels numbered in the order in which they are first mentioned. -/
def renumbered (m : Method) : Method := m.relabel (Label.number m.mentions)

theorem relabels_renumbered (m : Method) : m.Relabels m.renumbered :=
  ⟨Label.number m.mentions, Label.number_injOn, rfl⟩

theorem renumbered_eq_self_iff {m : Method} : m.renumbered = m ↔ m.Numbered :=
  relabel_eq_self_iff.trans Label.map_toNat_eq_range_iff.symm

theorem numbered_renumbered (m : Method) : m.renumbered.Numbered := by
  rw [Numbered, renumbered, mentions_relabel, eraseDups_map Label.number_injOn, List.map_map,
    List.length_map]
  exact Label.map_number_toNat m.mentions

end Method

namespace ClassFile

/-- The class with the labels of its methods numbered in the order in which they are first mentioned. -/
def renumbered (c : ClassFile) : ClassFile := { c with methods := c.methods.map Method.renumbered }

/-- The class `c'` is `c` up to an injective renaming of the labels of each method. -/
structure Relabels (c c' : ClassFile) : Prop where
  name : c'.name = c.name
  sourceFile : c'.sourceFile = c.sourceFile
  methods : List.Forall₂ Method.Relabels c.methods c'.methods

theorem relabels_renumbered (c : ClassFile) : c.Relabels c.renumbered where
  name := rfl
  sourceFile := rfl
  methods := List.forall₂_map_right_iff.2 (List.forall₂_same.2 fun m _ => m.relabels_renumbered)

theorem renumbered_eq_self_iff {c : ClassFile} :
    c.renumbered = c ↔ ∀ m ∈ c.methods, m.Numbered := by
  have hmethods : c.renumbered = c ↔ c.methods.map Method.renumbered = c.methods.map id := by
    cases c
    simp [renumbered]
  rw [hmethods, List.map_inj_left]
  exact forall₂_congr fun m _ => Method.renumbered_eq_self_iff

theorem renumbered_renumbered (c : ClassFile) : c.renumbered.renumbered = c.renumbered := by
  refine renumbered_eq_self_iff.2 fun m hm => ?_
  obtain ⟨m, -, rfl⟩ := List.mem_map.1 hm
  exact m.numbered_renumbered

end ClassFile

end Confine
