import Confine.Proofs.Program.Codec
import Mathlib.Data.List.Perm.Basic

/-!
# Values whose fields stand in another order

A value of any kind is read with the fields of its objects in the order of their names.

* `Json.sorted` — a value with its fields in that order;
* `Json.Doc.toJson?_toDoc` — **that is how a document of any kind is read**, unless it nests too deep;
* `Json.Rearranges` — a function on values that changes nothing but the order of fields, as `sorted` does;
* `Json.Rearranges.record?_toDoc` — **a record is found in any order of its fields**;
* `Json.ReadsAs` — data of a kind is read from what it is written as, in any order of fields.
-/

namespace Confine.Json

/-! ### Values without parts -/

def Plain : Json → Prop
  | .arr _ | .obj _ => False
  | _ => True

@[simp] theorem plain_null : Plain .null := trivial

@[simp] theorem plain_bool (b : Bool) : Plain (.bool b) := trivial

@[simp] theorem plain_nat (n : Nat) : Plain (.nat n) := trivial

@[simp] theorem plain_str (s : String) : Plain (.str s) := trivial

theorem plain_getD {v : Option Json} (h : ∀ w ∈ v, w.Plain) : (v.getD .null).Plain := by
  cases v with
  | none => trivial
  | some w => exact h w rfl

/-- A value that nests at most so deep. -/
inductive Nests : Nat → Json → Prop where
  | plain {n : Nat} {v : Json} (h : v.Plain) : Nests n v
  | arr {n : Nat} {items : List Json} (h : ∀ v ∈ items, Nests n v) : Nests (n + 1) (.arr items)
  | obj {n : Nat} {fields : List (String × Json)} (h : ∀ f ∈ fields, Nests n f.2) : Nests (n + 1) (.obj fields)

theorem Nests.obj_iff {n : Nat} {fields : List (String × Json)} :
    Nests (n + 1) (.obj fields) ↔ ∀ f ∈ fields, Nests n f.2 :=
  ⟨fun | .obj h => h, .obj⟩

theorem Nests.ofList_iff {α : Type} {n : Nat} {encode : α → Json} {l : List α} :
    Nests (n + 1) (.ofList encode l) ↔ ∀ a ∈ l, Nests n (encode a) :=
  ⟨fun | .arr h => List.forall_mem_map.1 h, fun h => .arr (List.forall_mem_map.2 h)⟩

theorem Nests.mono {n m : Nat} {v : Json} (h : Nests n v) (hnm : n ≤ m) : Nests m v := by
  induction h generalizing m with
  | plain h => exact .plain h
  | arr _ ih =>
    obtain ⟨m, rfl⟩ := Nat.exists_eq_succ_of_ne_zero (show m ≠ 0 by omega)
    exact .arr fun v hv => ih v hv (by omega)
  | obj _ ih =>
    obtain ⟨m, rfl⟩ := Nat.exists_eq_succ_of_ne_zero (show m ≠ 0 by omega)
    exact .obj fun f hf => ih f hf (by omega)

/-! ### Fields in the order of their names -/

def Increasing (fields : List (String × Json)) : Prop := fields.Pairwise fun f g => f.1 < g.1

section Increasing

variable {k : String} {v : Json} {fields : List (String × Json)}

theorem not_any_iff : ¬ fields.any (·.1 == k) = true ↔ ∀ f ∈ fields, f.1 ≠ k := by
  simp only [List.any_eq_true, beq_iff_eq, not_exists, not_and, ne_eq]

theorem Increasing.lookup_eq_some (h : Increasing fields) (hk : (k, v) ∈ fields) : fields.lookup k = some v := by
  induction fields with
  | nil => cases hk
  | cons f fields ih =>
    obtain ⟨hf, hfields⟩ := List.pairwise_cons.1 h
    rcases List.mem_cons.1 hk with rfl | hk
    · simp
    · have hne : k ≠ f.1 := fun heq => String.lt_irrefl f.1 (heq ▸ hf (k, v) hk)
      rw [List.lookup_cons, beq_false_of_ne hne]
      exact ih hfields hk

/-- Where the value of each field is changed by `f`, so is what is found by a name. -/
theorem lookup_map (fields : List (String × Json)) (f : Json → Json) (k : String) :
    (fields.map fun e => (e.1, f e.2)).lookup k = (fields.lookup k).map f := by
  induction fields with
  | nil => rfl
  | cons e fields ih =>
    rw [List.map_cons, List.lookup_cons, List.lookup_cons, ih]
    cases k == e.1 <;> rfl

theorem perm_insertField (h : ∀ f ∈ fields, f.1 ≠ k) : (insertField k v fields).Perm ((k, v) :: fields) := by
  induction fields with
  | nil => exact .refl _
  | cons f fields ih =>
    obtain ⟨hf, hfields⟩ := List.forall_mem_cons.1 h
    unfold insertField
    rw [if_neg (by simpa using hf.symm)]
    split
    · exact .refl _
    · exact ((ih hfields).cons f).trans (.swap ..)

theorem insertField_of_lt (h : ∀ f ∈ fields, k < f.1) : insertField k v fields = (k, v) :: fields := by
  cases fields with
  | nil => rfl
  | cons f fields =>
    have hlt := h f List.mem_cons_self
    have hne : (k == f.1) = false := beq_eq_false_iff_ne.2 fun heq => String.lt_irrefl _ (heq ▸ hlt)
    simp [insertField, hne, hlt]

/-- A field goes where its name stands in the order. -/
theorem Increasing.insertField (h : Increasing fields) (hk : ∀ f ∈ fields, f.1 ≠ k) :
    Increasing (insertField k v fields) := by
  induction fields with
  | nil => exact List.pairwise_singleton _ _
  | cons f fields ih =>
    obtain ⟨hf, hfields⟩ := List.pairwise_cons.1 h
    obtain ⟨hkf, hkfields⟩ := List.forall_mem_cons.1 hk
    unfold Json.insertField
    rw [if_neg (by simpa using hkf.symm)]
    split
    · next hlt =>
      refine List.pairwise_cons.2 ⟨fun g hg => ?_, h⟩
      rcases List.mem_cons.1 hg with rfl | hg
      · exact hlt
      · exact String.lt_trans hlt (hf g hg)
    · next hlt =>
      have hfk : f.1 < k := String.not_le.1 fun hle => hkf (String.le_antisymm (String.not_lt.1 hlt) hle)
      refine List.pairwise_cons.2 ⟨fun g hg => ?_, ih hfields hkfields⟩
      rcases List.mem_cons.1 ((perm_insertField hkfields).mem_iff.1 hg) with rfl | hg
      · exact hfk
      · exact hf g hg

/-- Fields of new names go to their places one by one. -/
theorem foldl_insertField {entries : List (String × Json)} (h : Increasing fields)
    (hnodup : (entries.map (·.1) ++ fields.map (·.1)).Nodup) :
    Increasing (entries.foldl (fun l e => insertField e.1 e.2 l) fields) ∧
      (entries.foldl (fun l e => insertField e.1 e.2 l) fields).Perm (entries ++ fields) := by
  induction entries generalizing fields with
  | nil => exact ⟨h, .refl _⟩
  | cons e entries ih =>
    obtain ⟨he, hnodup⟩ := List.nodup_cons.1 hnodup
    have hk : ∀ f ∈ fields, f.1 ≠ e.1 := fun f hf heq =>
      he (List.mem_append_right _ (List.mem_map.2 ⟨f, hf, heq⟩))
    have hperm : (insertField e.1 e.2 fields).Perm (e :: fields) := perm_insertField hk
    have hnodup' : (entries.map (·.1) ++ (insertField e.1 e.2 fields).map (·.1)).Nodup := by
      refine ((hperm.map (·.1)).append_left _).nodup_iff.2 (List.perm_middle.nodup_iff.2 ?_)
      exact List.nodup_cons.2 ⟨he, hnodup⟩
    obtain ⟨hincreasing, hall⟩ := ih (h.insertField hk) hnodup'
    exact ⟨hincreasing, hall.trans ((hperm.append_left _).trans List.perm_middle)⟩

end Increasing

/-! ### Sorted values -/

mutual

/-- A value whose objects have their fields in the order of their names. Of fields of one name the last one counts. -/
def sorted : Json → Json
  | .arr items => .arr (sortedItems items)
  | .obj fields => .obj (sortedFields fields)
  | v => v

def sortedItems : List Json → List Json
  | [] => []
  | v :: rest => sorted v :: sortedItems rest

def sortedFields : List (String × Json) → List (String × Json)
  | [] => []
  | (k, v) :: rest =>
    if (sortedFields rest).any (·.1 == k) then sortedFields rest
    else insertField k (sorted v) (sortedFields rest)

end

theorem sortedItems_eq_map (items : List Json) : sortedItems items = items.map sorted := by
  induction items with
  | nil => rfl
  | cons v items ih => simp [sortedItems, ih]

theorem sorted_of_plain {v : Json} (h : v.Plain) : v.sorted = v := by
  cases v with
  | arr => exact h.elim
  | obj => exact h.elim
  | _ => rfl

/-- A value that is sorted has the fields that it had. -/
theorem mem_sortedFields {fields : List (String × Json)} {e : String × Json} (h : e ∈ sortedFields fields) :
    ∃ f ∈ fields, e = (f.1, f.2.sorted) := by
  induction fields with
  | nil => cases h
  | cons f fields ih =>
    have hrest : e ∈ sortedFields fields → ∃ g ∈ f :: fields, e = (g.1, g.2.sorted) := fun he =>
      let ⟨g, hg, heq⟩ := ih he
      ⟨g, List.mem_cons_of_mem f hg, heq⟩
    unfold sortedFields at h
    split at h
    · exact hrest h
    · next hnew =>
      have hk := not_any_iff.1 hnew
      rcases List.mem_cons.1 ((perm_insertField hk).mem_iff.1 h) with rfl | he
      · exact ⟨f, List.mem_cons_self, rfl⟩
      · exact hrest he

theorem perm_sortedFields {fields : List (String × Json)} (h : (fields.map (·.1)).Nodup) :
    (sortedFields fields).Perm (fields.map fun f => (f.1, f.2.sorted)) := by
  induction fields with
  | nil => exact .refl _
  | cons f fields ih =>
    obtain ⟨hf, hfields⟩ := List.nodup_cons.1 h
    have hk : ∀ g ∈ sortedFields fields, g.1 ≠ f.1 := by
      intro g hg heq
      obtain ⟨e, he, rfl⟩ := mem_sortedFields hg
      exact hf (List.mem_map.2 ⟨e, he, heq⟩)
    rw [sortedFields, if_neg (not_any_iff.2 hk)]
    exact (perm_insertField hk).trans ((ih hfields).cons _)

theorem sortedFields_of_increasing {fields : List (String × Json)} (h : Increasing fields) :
    sortedFields fields = fields.map fun f => (f.1, f.2.sorted) := by
  induction fields with
  | nil => rfl
  | cons f fields ih =>
    obtain ⟨hf, hfields⟩ := List.pairwise_cons.1 h
    have hlt : ∀ g ∈ fields.map (fun f => (f.1, f.2.sorted)), f.1 < g.1 := List.forall_mem_map.2 hf
    have hk : ∀ g ∈ fields.map (fun f => (f.1, f.2.sorted)), g.1 ≠ f.1 := fun g hg heq =>
      String.lt_irrefl _ (heq ▸ hlt g hg)
    rw [sortedFields, ih hfields, if_neg (not_any_iff.2 hk), insertField_of_lt hlt, List.map_cons]

theorem increasing_sortedFields (fields : List (String × Json)) : Increasing (sortedFields fields) := by
  induction fields with
  | nil => exact .nil
  | cons f fields ih =>
    unfold sortedFields
    split
    · exact ih
    · next hnew => exact ih.insertField (not_any_iff.1 hnew)

mutual

/-- **A sorted value stays as it is** when it is sorted again. -/
theorem sorted_sorted (v : Json) : v.sorted.sorted = v.sorted := by
  match v with
  | .null | .bool _ | .int _ | .real _ | .str _ => rfl
  | .arr items => simp only [sorted, sortedItems_sortedItems items]
  | .obj fields =>
    have hsame : (sortedFields fields).map (fun f => (f.1, f.2.sorted)) = sortedFields fields :=
      (List.map_congr_left fun f hf => by rw [sorted_of_mem_sortedFields fields f hf]).trans (List.map_id' _)
    simp only [sorted, sortedFields_of_increasing (increasing_sortedFields fields), hsame]

theorem sortedItems_sortedItems (items : List Json) : sortedItems (sortedItems items) = sortedItems items := by
  match items with
  | [] => rfl
  | v :: items => simp only [sortedItems, sorted_sorted v, sortedItems_sortedItems items]

theorem sorted_of_mem_sortedFields (fields : List (String × Json)) : ∀ f ∈ sortedFields fields, f.2.sorted = f.2 := by
  match fields with
  | [] => simp [sortedFields]
  | (k, v) :: fields =>
    intro f hf
    unfold sortedFields at hf
    split at hf
    · exact sorted_of_mem_sortedFields fields f hf
    · next hnew =>
      rcases List.mem_cons.1 ((perm_insertField (not_any_iff.1 hnew)).mem_iff.1 hf) with rfl | hf
      · exact sorted_sorted v
      · exact sorted_of_mem_sortedFields fields f hf

end

/-- Two values are the same but for the order of the fields of objects. -/
def Same (v w : Json) : Prop := v.sorted = w.sorted

theorem same_sorted (v : Json) : v.Same v.sorted := (sorted_sorted v).symm

/-- **A value of any kind is read with its fields in order**, if it nests no deeper than may be. -/
theorem Doc.toJson?_toDoc {depth : Nat} {v : Json} (h : Nests depth v) : v.toDoc.toJson? depth = some v.sorted := by
  induction h with
  | @plain n v h =>
    cases v with
    | arr => exact h.elim
    | obj => exact h.elim
    | _ => cases n <;> rfl
  | @arr n items _ ih =>
    have hitems : toJsons? n (toDocs items) = some (sortedItems items) := by
      clear * - ih
      induction items with
      | nil => rfl
      | cons v items hind =>
        obtain ⟨hv, hitems⟩ := List.forall_mem_cons.1 ih
        simp [toDocs, toJsons?, sortedItems, hv, hind hitems]
    simp [toDoc, toJson?, sorted, hitems]
  | @obj n fields _ ih =>
    have hfields : toJsonFields? n (toDocFields fields) = some (sortedFields fields) := by
      clear * - ih
      induction fields with
      | nil => rfl
      | cons f fields hind =>
        obtain ⟨hv, hfields⟩ := List.forall_mem_cons.1 ih
        simp [toDocFields, toJsonFields?, sortedFields, hv, hind hfields]
    simp [toDoc, toJson?, sorted, hfields]

theorem Doc.anyWithin?_toDoc {v : Json} (h : v.Plain) (outer : Nat) : v.toDoc.anyWithin? outer = some v := by
  rw [anyWithin?, toJson?_toDoc (.plain h), sorted_of_plain h]

/-- What is read of a value of any kind that may be absent: `null` is absent. -/
def present : Option Json → Option Json
  | some .null => none
  | v => v

theorem present_some_eq_none_iff {v : Json} : present (some v) = none ↔ v = .null := by
  cases v <;> simp [present]

/-- **A plain value that is `null` is read as an absent one**, and any other as it was written. -/
theorem Doc.optional_anyWithin? {v : Option Json} (h : ∀ w ∈ v, w.Plain) (outer : Nat) :
    (Doc.Slot.given (v.getD .null).toDoc).optional (Doc.anyWithin? outer) = some (present v) := by
  cases v with
  | none => rfl
  | some w =>
    have hread := Doc.anyWithin?_toDoc (h w rfl) outer
    cases w with
    | null => rfl
    | _ => exact congrArg (Option.map some) hread

/-! ### Other orders -/

/-- A function on values that changes nothing but the order of the fields of objects, where names are distinct. -/
structure Rearranges (f : Json → Json) : Prop where
  plain : ∀ {v}, v.Plain → f v = v
  arr : ∀ items, f (.arr items) = .arr (items.map f)
  obj : ∀ {fields}, (fields.map (·.1)).Nodup →
    ∃ fields', f (.obj fields) = .obj fields' ∧ fields'.Perm (fields.map fun e => (e.1, f e.2))
  nests : ∀ {n v}, Nests n v → Nests n (f v)

theorem Rearranges.id : Rearranges fun v => v where
  plain _ := rfl
  arr items := by rw [List.map_id']
  obj {fields} _ := ⟨fields, rfl, by rw [List.map_id']⟩
  nests h := h

theorem Nests.sorted {n : Nat} {v : Json} (h : Nests n v) : Nests n v.sorted := by
  induction h with
  | plain h => exact (sorted_of_plain h).symm ▸ .plain h
  | arr _ ih =>
    rw [Json.sorted, sortedItems_eq_map]
    exact .arr (List.forall_mem_map.2 ih)
  | obj _ ih =>
    refine .obj fun e he => ?_
    obtain ⟨f, hf, rfl⟩ := mem_sortedFields he
    exact ih f hf

theorem Rearranges.sorted : Rearranges sorted where
  plain := sorted_of_plain
  arr items := by rw [Json.sorted, sortedItems_eq_map]
  obj {fields} h := ⟨sortedFields fields, rfl, perm_sortedFields h⟩
  nests := Nests.sorted

namespace Rearranges

variable {f : Json → Json}

/-- **Every field of a record is found by its name**, in any order of the fields. -/
theorem record?_toDoc (hf : Rearranges f) {fields : List (String × Json)} {names : List String}
    (hfields : fields.map (·.1) = names) (hnodup : names.Nodup) :
    (f (.obj fields)).toDoc.record? names = some (fields.map fun e => .given (f e.2).toDoc) := by
  obtain ⟨fields', heq, hperm⟩ := hf.obj (hfields ▸ hnodup)
  rw [heq, Doc.record?_of_perm hperm ((List.map_map ..).trans hfields) hnodup, List.map_map]
  rfl

end Rearranges

/-! ### Data in any order of its fields -/

/-- Data that is written as a value is read as `b`, whatever the order of fields. -/
structure ReadsAs {α β : Type} (read : Doc → Option β) (encode : α → Json) (a : α) (b : β) : Prop where
  rearranged : ∀ {f : Json → Json}, Rearranges f → read (f (encode a)).toDoc = some b

namespace ReadsAs

theorem of_plain {α β : Type} {read : Doc → Option β} {encode : α → Json} {a : α} {b : β} (h : (encode a).Plain)
    (hread : read (encode a).toDoc = some b) : ReadsAs read encode a b := ⟨fun hf => by rw [hf.plain h, hread]⟩

theorem str (s : String) : ReadsAs Doc.str? .str s s := .of_plain trivial rfl

theorem bool (b : Bool) : ReadsAs Doc.bool? .bool b b := .of_plain trivial rfl

theorem count {n : Nat} (h : n < 2 ^ 64) : ReadsAs Doc.count? .nat n n := .of_plain trivial (Doc.count?_toDoc h)

theorem uint32 (n : UInt32) : ReadsAs Doc.uint32? (fun n => .nat n.toNat) n n :=
  .of_plain trivial (Faithful.uint32.read_encode n)

theorem any {v : Json} (h : v.Plain) : ReadsAs Doc.any? (fun v => v) v v :=
  .of_plain h (Doc.anyWithin?_toDoc h 0)

theorem list {α β : Type} {read : Doc → Option β} {encode : α → Json} {l : List α} {g : α → β}
    (h : ∀ a ∈ l, ReadsAs read encode a (g a)) : ReadsAs (Doc.list? read) (.ofList encode) l (l.map g) := by
  refine ⟨fun {f} hf => ?_⟩
  rw [ofList, hf.arr]
  show (toDocs ((l.map encode).map f)).mapM read = some (l.map g)
  rw [toDocs_eq_map]
  induction l with
  | nil => rfl
  | cons a l ih =>
    obtain ⟨ha, hl⟩ := List.forall_mem_cons.1 h
    have hrest := ih hl
    simp only [List.map_map] at hrest ⊢
    simp [ha.rearranged hf, hrest]

/-- A value that may be absent, where none is written as absent. -/
theorem option {α β : Type} {read : Doc → Option β} {encode : α → Json} {a : Option α} {g : α → β}
    (h : ∀ b ∈ a, ReadsAs read encode b (g b)) (hplain : ∀ b ∈ a, (encode b).Plain)
    (hnull : ∀ b ∈ a, (encode b).toDoc ≠ .null) : ReadsAs (Doc.option? read) (.ofOption encode) a (a.map g) := by
  refine ⟨fun {f} hf => ?_⟩
  cases a with
  | none =>
    rw [ofOption, hf.plain plain_null]
    rfl
  | some a =>
    have hread := (h a rfl).rearranged hf
    rw [hf.plain (hplain a rfl)] at hread
    rw [ofOption, hf.plain (hplain a rfl)]
    unfold Doc.option?
    split
    · next heq => exact absurd heq (hnull a rfl)
    · rw [hread]
      rfl

end ReadsAs

end Confine.Json
