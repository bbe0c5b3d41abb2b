import Confine.Program.Codec
import Confine.Proofs.Json.Parsed
import Mathlib.Algebra.Group.Nat.Defs

/-!
# Class files read back

* `Json.Faithful` — data of a kind is read as it was written, and no text loses any of it;
* `ClassFile.faithful` — **class files are faithful**, with all that they hold;
* `ClassFile.decodeBytes?_encode`, `classList?_classListText` — so a class file is read from its bytes, and a list of
  class files from its text.
-/

namespace Confine.Json

open Json.Doc (Slot)

/-- Data of a kind is read from the document that it is written as, and a text holds that document
without loss. -/
structure Faithful {α : Type} (read : Doc → Option α) (encode : α → Json) : Prop where
  exact : ∀ a, Exact (encode a)
  read_encode : ∀ a, read (encode a).toDoc = some a

/-! ### Plain data -/

theorem exact_nat {n : Nat} (h : n < 2 ^ 64) : Exact (.nat n) :=
  .int (by omega) (by omega)

theorem exact_nat_iff {n : Nat} : Exact (.nat n) ↔ n < 2 ^ 64 := by
  refine ⟨fun h => ?_, exact_nat⟩
  cases h with
  | int _ hhigh => exact Int.ofNat_lt.1 hhigh

theorem exact_arr_iff {items : List Json} : Exact (.arr items) ↔ ∀ v ∈ items, Exact v :=
  ⟨fun | .arr h => h, .arr⟩

theorem exact_obj_iff {fields : List (String × Json)} : Exact (.obj fields) ↔ ∀ f ∈ fields, Exact f.2 :=
  ⟨fun | .obj h => h, .obj⟩

mutual

/-- Whether a text holds a value without loss. -/
def isExact : Json → Bool
  | .int n => decide (-2 ^ 63 ≤ n) && decide (n < 2 ^ 64)
  | .real _ => false
  | .arr items => areExact items
  | .obj fields => fieldsExact fields
  | _ => true

def areExact : List Json → Bool
  | [] => true
  | v :: rest => isExact v && areExact rest

def fieldsExact : List (String × Json) → Bool
  | [] => true
  | (_, v) :: rest => isExact v && fieldsExact rest

end

mutual

theorem exact_of_isExact {v : Json} (h : v.isExact = true) : Exact v := by
  match v with
  | .null => exact .null
  | .bool b => exact .bool b
  | .int n =>
    simp only [isExact, Bool.and_eq_true, decide_eq_true_eq] at h
    exact .int h.1 h.2
  | .str s => exact .str s
  | .arr items => exact .arr (exact_of_areExact h)
  | .obj fields => exact .obj (exact_of_fieldsExact h)

theorem exact_of_areExact {items : List Json} (h : areExact items = true) : ∀ v ∈ items, Exact v := by
  match items with
  | [] => simp
  | v :: items =>
    obtain ⟨hv, hitems⟩ := Bool.and_eq_true_iff.1 h
    exact List.forall_mem_cons.2 ⟨exact_of_isExact hv, exact_of_areExact hitems⟩

theorem exact_of_fieldsExact {fields : List (String × Json)} (h : fieldsExact fields = true) :
    ∀ f ∈ fields, Exact f.2 := by
  match fields with
  | [] => simp
  | (k, v) :: fields =>
    obtain ⟨hv, hfields⟩ := Bool.and_eq_true_iff.1 h
    exact List.forall_mem_cons.2 ⟨exact_of_isExact hv, exact_of_fieldsExact hfields⟩

end

theorem areExact_eq_all (items : List Json) : areExact items = items.all isExact := by
  induction items with
  | nil => rfl
  | cons v items ih => simp [areExact, ih]

theorem fieldsExact_eq_all (fields : List (String × Json)) : fieldsExact fields = fields.all (·.2.isExact) := by
  induction fields with
  | nil => rfl
  | cons f fields ih => simp [fieldsExact, ih]

theorem isExact_of_exact {v : Json} (h : Exact v) : v.isExact = true := by
  induction h with
  | int low high =>
    simp only [isExact, Bool.and_eq_true, decide_eq_true_eq]
    exact ⟨low, high⟩
  | arr _ ih => rw [isExact, areExact_eq_all, List.all_eq_true.2 ih]
  | obj _ ih => rw [isExact, fieldsExact_eq_all, List.all_eq_true.2 ih]
  | _ => rfl

instance (v : Json) : Decidable (Exact v) := decidable_of_iff (v.isExact = true) ⟨exact_of_isExact, isExact_of_exact⟩

theorem exact_ofList_iff {α : Type} {encode : α → Json} {l : List α} :
    Exact (.ofList encode l) ↔ ∀ a ∈ l, Exact (encode a) :=
  exact_arr_iff.trans List.forall_mem_map

theorem Faithful.bool : Faithful Doc.bool? .bool := ⟨.bool, fun _ => rfl⟩

theorem Faithful.str : Faithful Doc.str? .str := ⟨.str, fun _ => rfl⟩

theorem Doc.nat?_toDoc {bound n : Nat} (h : n < bound) : (Json.nat n).toDoc.nat? bound = some n :=
  if_pos h

theorem Doc.count?_toDoc {n : Nat} (h : n < 2 ^ 64) : (Json.nat n).toDoc.count? = some n := Doc.nat?_toDoc h

theorem Faithful.uint16 : Faithful Doc.uint16? fun n => .nat n.toNat where
  exact n := exact_nat (Nat.lt_trans n.toNat_lt (by decide))
  read_encode n := by simp [Doc.uint16?, Doc.nat?_toDoc (show n.toNat < UInt16.size from n.toNat_lt)]

theorem Faithful.uint32 : Faithful Doc.uint32? fun n => .nat n.toNat where
  exact n := exact_nat (Nat.lt_trans n.toNat_lt (by decide))
  read_encode n := by simp [Doc.uint32?, Doc.nat?_toDoc (show n.toNat < UInt32.size from n.toNat_lt)]

theorem Faithful.int64 : Faithful Doc.int64? fun n => .int n.toInt where
  exact n := .int n.le_toInt (Int.lt_trans n.toInt_lt (by decide))
  read_encode n := by
    have hrange : Int64.minValue.toInt ≤ n.toInt ∧ n.toInt ≤ Int64.maxValue.toInt :=
      ⟨n.minValue_le_toInt, n.toInt_le⟩
    have hread : (Json.int n.toInt).toDoc.int? Int64.minValue.toInt Int64.maxValue.toInt =
        some n.toInt := if_pos hrange
    rw [Doc.int64?, hread, Option.map_some, Int64.ofInt_toInt]

theorem toDocs_eq_map (items : List Json) : toDocs items = items.map toDoc := by
  induction items with
  | nil => rfl
  | cons v items ih => simp [toDocs, ih]

theorem toDocFields_eq_map (fields : List (String × Json)) :
    toDocFields fields = fields.map fun f => (some f.1, f.2.toDoc) := by
  induction fields with
  | nil => rfl
  | cons f fields ih => simp [toDocFields, ih]

theorem Doc.list?_toDoc {α : Type} {read : Doc → Option α} {encode : α → Json} {l : List α}
    (h : ∀ a ∈ l, read (encode a).toDoc = some a) : (Json.ofList encode l).toDoc.list? read = some l := by
  show (toDocs (l.map encode)).mapM read = some l
  rw [toDocs_eq_map]
  induction l with
  | nil => rfl
  | cons a l ih =>
    obtain ⟨ha, hl⟩ := List.forall_mem_cons.1 h
    have hrest := ih hl
    rw [List.map_map] at hrest
    simp [ha, hrest]

theorem Faithful.list {α : Type} {read : Doc → Option α} {encode : α → Json}
    (h : Faithful read encode) : Faithful (Doc.list? read) (.ofList encode) where
  exact _ := exact_ofList_iff.2 fun a _ => h.exact a
  read_encode _ := Doc.list?_toDoc fun a _ => h.read_encode a

/-! ### Records -/

section Record

variable {fields : List (String × Json)}

theorem Doc.slotNamed?_toDocFields (hnodup : (fields.map (·.1)).Nodup) {f : String × Json}
    (hf : f ∈ fields) : slotNamed? (toDocFields fields) f.1 = some (.given f.2.toDoc) := by
  have hnamed : fieldsNamed f.1 (toDocFields fields) = [f.2.toDoc] := by
    induction fields with
    | nil => cases hf
    | cons g fields ih =>
      obtain ⟨hg, hnodup⟩ := List.nodup_cons.1 hnodup
      rcases List.mem_cons.1 hf with rfl | hf
      · have hnone : fieldsNamed f.1 (toDocFields fields) = [] := by
          rw [fieldsNamed, toDocFields_eq_map, List.filterMap_map, List.filterMap_eq_nil_iff]
          intro g hmem
          have hne : g.1 ≠ f.1 := fun heq => hg (List.mem_map.2 ⟨g, hmem, heq⟩)
          simp [hne]
        simpa [fieldsNamed, toDocFields] using hnone
      · have hne : g.1 ≠ f.1 := fun heq => hg (List.mem_map.2 ⟨f, hf, heq.symm⟩)
        simpa [fieldsNamed, toDocFields, hne] using ih hnodup hf
  rw [slotNamed?, hnamed]

/-- **Every field of a record is found by its name**, in any order of the fields. -/
theorem Doc.record?_of_perm {fields' : List (String × Json)} (h : fields'.Perm fields) {names : List String}
    (hfields : fields.map (·.1) = names) (hnodup : names.Nodup) :
    (Json.obj fields').toDoc.record? names = some (fields.map fun f => .given f.2.toDoc) := by
  subst hfields
  have hnodup' : (fields'.map (·.1)).Nodup := (h.map (·.1)).nodup_iff.2 hnodup
  have hnames : (toDocFields fields').all (·.1.isSome) = true := by
    simp [toDocFields_eq_map]
  have hslots : ∀ l ⊆ fields, (l.map (·.1)).mapM (slotNamed? (toDocFields fields')) =
      some (l.map fun f => .given f.2.toDoc) := by
    intro l hl
    induction l with
    | nil => rfl
    | cons f l ih =>
      obtain ⟨hf, hl⟩ := List.cons_subset.1 hl
      simp [slotNamed?_toDocFields hnodup' (h.mem_iff.2 hf), ih hl]
  rw [toDoc, record?, if_pos hnames]
  exact hslots fields (List.Subset.refl _)

theorem Doc.record?_toDoc {names : List String} (hfields : fields.map (·.1) = names)
    (hnodup : names.Nodup) :
    (Json.obj fields).toDoc.record? names = some (fields.map fun f => .given f.2.toDoc) :=
  record?_of_perm (.refl _) hfields hnodup

end Record

section Slots

theorem Doc.Slot.required_given {α : Type} {read : Doc → Option α} {d : Doc} {a : α} (h : read d = some a) :
    (Slot.given d).required read = some a := h

variable {α : Type} {read : Doc → Option α} {encode : α → Json} (h : Faithful read encode)

include h

theorem Faithful.required (a : α) : (Slot.given (encode a).toDoc).required read = some a :=
  h.read_encode a

theorem Faithful.withDefault (default a : α) :
    (Slot.given (encode a).toDoc).withDefault default read = some a :=
  h.read_encode a

theorem Faithful.optional (hnull : ∀ a, (encode a).toDoc ≠ .null) (a : Option α) :
    (Slot.given (Json.ofOption encode a).toDoc).optional read = some a := by
  cases a with
  | none => rfl
  | some a =>
    show Doc.option? read (encode a).toDoc = some (some a)
    unfold Doc.option?
    split
    · next heq => exact absurd heq (hnull a)
    · rw [h.read_encode, Option.map_some]

theorem exact_ofOption (a : Option α) : Exact (.ofOption encode a) := by
  cases a with
  | none => exact .null
  | some a => exact h.exact a

theorem Faithful.content (a : α) : Doc.content read (some (encode a).toDoc) = some a :=
  h.read_encode a

end Slots

/-! ### Choices -/

@[simp] theorem Doc.choice?_str (s : String) : (Json.str s).toDoc.choice? = some (s, none) := rfl

@[simp] theorem Doc.choice?_choice (tag : String) (v : Json) :
    (Json.choice tag v).toDoc.choice? = some (tag, some v.toDoc) := rfl

theorem exact_choice {tag : String} {v : Json} (h : Exact v) : Exact (.choice tag v) :=
  .obj (by simpa using h)

end Confine.Json

namespace Confine

open Json (Doc Exact Faithful exact_choice)

/-! ### Operands -/

theorem Constant.faithful : Faithful Constant.ofDoc? Constant.toJson where
  exact c := by
    cases c with
    | null => exact .str _
    | bool b => exact exact_choice (.bool b)
    | int n => exact exact_choice (Faithful.int64.exact n)
    | text s => exact exact_choice (.str s)
  read_encode c := by
    cases c with
    | null => simp [Constant.ofDoc?, Constant.toJson, Doc.noContent]
    | bool b => simp [Constant.ofDoc?, Constant.toJson, Faithful.bool.content]
    | int n => simp [Constant.ofDoc?, Constant.toJson, Faithful.int64.content]
    | text s => simp [Constant.ofDoc?, Constant.toJson, Faithful.str.content]

theorem Label.faithful : Faithful Label.ofDoc? Label.toJson where
  exact l := Faithful.uint32.exact l.index
  read_encode l := by simp [Label.ofDoc?, Label.toJson, Faithful.uint32.read_encode]

theorem BinaryOp.faithful : Faithful BinaryOp.ofDoc? BinaryOp.toJson where
  exact op := .str _
  read_encode op := by cases op <;> decide

theorem methodRef?_toDoc (c m : String) : methodRef? (methodRefJson c m).toDoc = some (c, m) := by
  simp [methodRef?, methodRefJson, Doc.record?_toDoc, Faithful.str.required]

theorem exact_methodRefJson (c m : String) : Exact (methodRefJson c m) :=
  .obj (by simp [Exact.str])

theorem HostCall.faithful : Faithful HostCall.ofDoc? HostCall.toJson where
  exact call := by
    cases call with
    | spawn c m => exact exact_choice (exact_methodRefJson c m)
    | _ => exact .str _
  read_encode call := by
    cases call with
    | spawn c m => simp [HostCall.ofDoc?, HostCall.toJson, Doc.content, methodRef?_toDoc]
    | _ => simp [HostCall.ofDoc?, HostCall.toJson, Doc.noContent]

theorem HookOperand.faithful : Faithful HookOperand.ofDoc? HookOperand.toJson where
  exact o := by
    cases o with
    | constant c => exact exact_choice (Constant.faithful.exact c)
    | slot i => exact exact_choice (Faithful.uint16.exact i)
  read_encode o := by
    cases o with
    | constant c => simp [HookOperand.ofDoc?, HookOperand.toJson, Constant.faithful.content]
    | slot i => simp [HookOperand.ofDoc?, HookOperand.toJson, Faithful.uint16.content]

/-! ### Instructions -/

theorem Instruction.exact_toJson (i : Instruction) : Exact i.toJson := by
  cases i with
  | label l => exact exact_choice (Label.faithful.exact l)
  | lineNumber line start =>
    exact exact_choice (.obj (by simp [Faithful.uint32.exact line, Label.faithful.exact start]))
  | frame depth => exact exact_choice (.obj (by simp [Faithful.uint16.exact depth]))
  | push c => exact exact_choice (Constant.faithful.exact c)
  | load i => exact exact_choice (Faithful.uint16.exact i)
  | store i => exact exact_choice (Faithful.uint16.exact i)
  | binary op => exact exact_choice (BinaryOp.faithful.exact op)
  | jump l => exact exact_choice (Label.faithful.exact l)
  | jumpIf l => exact exact_choice (Label.faithful.exact l)
  | jumpIfNot l => exact exact_choice (Label.faithful.exact l)
  | invokeStatic c m => exact exact_choice (exact_methodRefJson c m)
  | invokeVirtual m n =>
    exact exact_choice (.obj (by simp [Exact.str, Faithful.uint16.exact n]))
  | new c => exact exact_choice (.str c)
  | getField f => exact exact_choice (.str f)
  | putField f => exact exact_choice (.str f)
  | newException k => exact exact_choice (.str k)
  | host call => exact exact_choice (HostCall.faithful.exact call)
  | hook tracer name operands =>
    exact exact_choice (.obj (by simp [Exact.str, HookOperand.faithful.list.exact operands]))
  | _ => exact .str _

theorem lineNumber?_toDoc (line : UInt32) (start : Label) :
    lineNumber? (Json.obj [("line", .nat line.toNat), ("start", start.toJson)]).toDoc =
      some (.lineNumber line start) := by
  simp [lineNumber?, Doc.record?_toDoc, Faithful.uint32.required, Label.faithful.required]

theorem frame?_toDoc (depth : UInt16) :
    frame? (Json.obj [("stack", .nat depth.toNat)]).toDoc = some (.frame depth) := by
  simp [frame?, Doc.record?_toDoc, Faithful.uint16.required]

theorem invokeVirtual?_toDoc (m : String) (n : UInt16) :
    invokeVirtual? (Json.obj [("method", .str m), ("args", .nat n.toNat)]).toDoc =
      some (.invokeVirtual m n) := by
  simp [invokeVirtual?, Doc.record?_toDoc, Faithful.str.required, Faithful.uint16.required]

theorem hook?_toDoc (tracer name : String) (operands : List HookOperand) :
    hook? (Json.obj [("plugin", .str tracer), ("name", .str name),
      ("args", .ofList HookOperand.toJson operands)]).toDoc =
        some (.hook tracer name operands) := by
  simp [hook?, Doc.record?_toDoc, Faithful.str.required, HookOperand.faithful.list.required]

theorem Instruction.ofDoc?_toDoc (i : Instruction) : ofDoc? i.toJson.toDoc = some i := by
  cases i with
  | label l => simp [ofDoc?, toJson, Label.faithful.content]
  | lineNumber line start => simp [ofDoc?, toJson, Doc.content, lineNumber?_toDoc]
  | frame depth => simp [ofDoc?, toJson, Doc.content, frame?_toDoc]
  | push c => simp [ofDoc?, toJson, Constant.faithful.content]
  | load i => simp [ofDoc?, toJson, Faithful.uint16.content]
  | store i => simp [ofDoc?, toJson, Faithful.uint16.content]
  | binary op => simp [ofDoc?, toJson, BinaryOp.faithful.content]
  | jump l => simp [ofDoc?, toJson, Label.faithful.content]
  | jumpIf l => simp [ofDoc?, toJson, Label.faithful.content]
  | jumpIfNot l => simp [ofDoc?, toJson, Label.faithful.content]
  | invokeStatic c m => simp [ofDoc?, toJson, Doc.content, methodRef?_toDoc]
  | invokeVirtual m n => simp [ofDoc?, toJson, Doc.content, invokeVirtual?_toDoc]
  | new c => simp [ofDoc?, toJson, Faithful.str.content]
  | getField f => simp [ofDoc?, toJson, Faithful.str.content]
  | putField f => simp [ofDoc?, toJson, Faithful.str.content]
  | newException k => simp [ofDoc?, toJson, Faithful.str.content]
  | host call => simp [ofDoc?, toJson, HostCall.faithful.content]
  | hook tracer name operands => simp [ofDoc?, toJson, Doc.content, hook?_toDoc]
  | _ => simp [ofDoc?, toJson, Doc.noContent]

/-- **Every instruction is read as it was written.** -/
theorem Instruction.faithful : Faithful Instruction.ofDoc? Instruction.toJson :=
  ⟨Instruction.exact_toJson, Instruction.ofDoc?_toDoc⟩

/-! ### Classes -/

theorem str_toDoc_ne_null (s : String) : (Json.str s).toDoc ≠ .null := by
  simp [Json.toDoc]

theorem Handler.faithful : Faithful Handler.ofDoc? Handler.toJson where
  exact h := .obj (by
    simp [Label.faithful.exact, Json.exact_ofOption Faithful.str h.kind])
  read_encode h := by
    simp [ofDoc?, toJson, Doc.record?_toDoc, Label.faithful.required,
      Faithful.str.optional str_toDoc_ne_null]

theorem Method.faithful : Faithful Method.ofDoc? Method.toJson where
  exact m := .obj (by
    simp [Exact.str, Exact.bool, Faithful.uint16.exact, Faithful.str.list.exact,
      Instruction.faithful.list.exact, Handler.faithful.list.exact])
  read_encode m := by
    simp [ofDoc?, toJson, Doc.record?_toDoc, Faithful.str.required, Faithful.bool.required,
      Faithful.str.list.required, Faithful.uint16.required, Instruction.faithful.list.required,
      Handler.faithful.list.withDefault]

/-- **A class file is read as it was written.** -/
theorem ClassFile.faithful : Faithful ClassFile.ofDoc? ClassFile.toJson where
  exact c := .obj (by
    simp [Exact.str, Json.exact_ofOption Faithful.str, Method.faithful.list.exact])
  read_encode c := by
    simp [ofDoc?, toJson, Doc.record?_toDoc, Faithful.str.required,
      Faithful.str.optional str_toDoc_ne_null, Method.faithful.list.required]

/-- **The bytes of a class file are those of one class.** -/
theorem ClassFile.decodeBytes?_encode (c : ClassFile) :
    decodeBytes? c.encode.toUTF8 = some c := by
  have hdoc : Doc.ofGlyphs? (Text.Glyph.ofText c.encode) = some c.toJson.toDoc :=
    Doc.ofText?_compact (ClassFile.faithful.exact c)
  rw [decodeBytes?, decode?, Text.Glyph.ofBytes_toUTF8, hdoc]
  exact ClassFile.faithful.read_encode c

theorem ClassFile.encode_injective : Function.Injective ClassFile.encode := by
  intro c d h
  have hc := decodeBytes?_encode c
  rw [h, decodeBytes?_encode d] at hc
  exact (Option.some.inj hc).symm

/-- **A list of class files is read from its text**, also with a line feed at its end. -/
theorem classList?_classListText (classes : List ClassFile) :
    classList? (classListText classes) = some classes ∧
      classList? (classListText classes ++ "\n") = some classes := by
  obtain ⟨hplain, hended⟩ := Doc.ofText?_indented (ClassFile.faithful.list.exact classes)
  have hread := ClassFile.faithful.list.read_encode classes
  exact ⟨by simp [classList?, classListText, hplain, hread],
    by simp [classList?, classListText, hended, hread]⟩

end Confine
