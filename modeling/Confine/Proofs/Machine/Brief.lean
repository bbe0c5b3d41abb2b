import Confine.Proofs.Machine.Reachable
import Confine.Proofs.Text.Numeral
import Confine.Proofs.Tracing.Quiet

/-!
# Texts and messages within limits

`Limits` — how many bytes the texts and the messages of exceptions may have that are values of a program, and how many
objects there may be. `Value.Brief b`, `Frame.Brief b` and `TaskState.Brief b` keep to limits.

* `Value.Brief.shown_le` — what a value is printed as may be as long as a message with a kind in front;
* `BinaryOp.apply_brief` — **the texts that an operation makes keep to the limit for texts**;
* `Frame.forCall_brief` — a call keeps to the limits that its arguments keep to;
* `Recordings.Brief.onHook` — what tracers throw keeps to the limits.
-/

namespace Confine

/-! ### Limits -/

/-- How many bytes texts and messages may have, and how many objects there may be. -/
structure Limits where
  /-- for texts, and for the names of classes and the kinds of exceptions -/
  text : Nat
  /-- for the messages of exceptions -/
  message : Nat
  objects : Nat

namespace Limits

instance : LE Limits := ⟨fun b b' => b.text ≤ b'.text ∧ b.message ≤ b'.message ∧ b.objects ≤ b'.objects⟩

/-- The limits leave room for the texts that an operation makes, and for the messages of the exceptions that instructions
raise. -/
structure Ample (b : Limits) : Prop where
  text : BinaryOp.maxTextBytes ≤ b.text
  message : 2 * b.text + b.objects + 8 ≤ b.message

/-- The limits for one object or exception more. -/
def after (b : Limits) : Limits := ⟨b.text, b.message + b.text + 2, b.objects + 1⟩

theorem le_after (b : Limits) : b ≤ b.after :=
  ⟨Nat.le_refl _, Nat.le_add_right_of_le (Nat.le_add_right _ _), Nat.le_succ _⟩

theorem Ample.after {b : Limits} (h : b.Ample) : b.after.Ample := by
  have htext := h.text
  have hmessage := h.message
  refine ⟨htext, ?_⟩
  simp only [Limits.after, BinaryOp.maxTextBytes] at *
  omega

end Limits

def Exception.Brief (b : Limits) (e : Exception) : Prop :=
  e.kind.utf8ByteSize ≤ b.text ∧ e.message.utf8ByteSize ≤ b.message

/-- The exception keeps to the limits if a handler can take it. -/
def Exception.Fair (b : Limits) (e : Exception) : Prop := e.uncatchable = false → e.Brief b

def Value.Brief (b : Limits) : Value → Prop
  | .text s => s.utf8ByteSize ≤ b.text
  | .object id c => id ≤ b.objects ∧ c.utf8ByteSize ≤ b.text
  | .exception _ e => e.Brief b
  | _ => True

def OperandStack.Brief (b : Limits) (s : OperandStack) : Prop := ∀ v ∈ s.values, v.Brief b

structure Heap.Brief (b : Limits) (h : Heap) : Prop where
  objects : h.objects.size ≤ b.objects
  fields : ∀ o ∈ h.objects, ∀ f ∈ o, f.2.Brief b

/-- The texts of an instruction that may come into values. -/
def Instruction.texts : Instruction → List String
  | .push (.text s) => [s]
  | .invokeStatic c m => [c, m]
  | .invokeVirtual m _ => [m]
  | .new c => [c]
  | .newException kind => [kind]
  | _ => []

/-- The texts of a class as it runs: its name, how messages name its methods, and the texts in their code. -/
def LinkedClass.texts (c : LinkedClass) : List String :=
  c.name :: c.methods.flatMap fun m =>
    m.method.descriptor c.name :: m.code.toList.flatMap Instruction.texts

/-- The texts of a unit: those of its classes, and the class files. -/
def LoadingUnit.texts (u : LoadingUnit) : List String :=
  u.layers.flatMap fun l => l.classes.flatMap fun e => e.2.file :: e.2.linked.texts

structure Frame.Brief (b : Limits) (f : Frame) : Prop where
  locals : ∀ v ∈ f.locals, v.Brief b
  stack : f.stack.Brief b
  code : ∀ i ∈ f.method.code, ∀ x ∈ i.texts, x.utf8ByteSize ≤ b.text

/-- The messages that the tracer throws and handlers can take keep to the limit. -/
def Recording.Brief (limit : Nat) : Recording → Prop
  | .probe r => ∀ n e, Probe.Recording.signal? r.arguments n = some (.throw e) →
      e.message.utf8ByteSize ≤ limit
  | _ => True

def Recordings.Brief (limit : Nat) (rs : Recordings) : Prop := ∀ r ∈ rs.entries, r.Brief limit

structure TaskState.Brief (b : Limits) (s : TaskState) : Prop where
  heap : s.heap.Brief b
  recordings : s.recordings.Brief b.text

/-! #### Wider limits -/

section Mono

variable {b b' : Limits}

theorem Exception.Brief.mono {e : Exception} (h : e.Brief b) (hb : b ≤ b') : e.Brief b' :=
  ⟨h.1.trans hb.1, h.2.trans hb.2.1⟩

theorem Value.Brief.mono {v : Value} (h : v.Brief b) (hb : b ≤ b') : v.Brief b' := by
  cases v with
  | text s => exact Nat.le_trans h hb.1
  | object id c => exact ⟨h.1.trans hb.2.2, h.2.trans hb.1⟩
  | exception id e => exact Exception.Brief.mono h hb
  | _ => trivial

theorem Heap.Brief.mono {h : Heap} (hh : h.Brief b) (hb : b ≤ b') : h.Brief b' :=
  ⟨hh.objects.trans hb.2.2, fun o ho f hf => (hh.fields o ho f hf).mono hb⟩

theorem Frame.Brief.mono {f : Frame} (h : f.Brief b) (hb : b ≤ b') : f.Brief b' :=
  ⟨fun v hv => (h.locals v hv).mono hb, fun v hv => (h.stack v hv).mono hb,
    fun i hi x hx => (h.code i hi x hx).trans hb.1⟩

theorem Recording.Brief.mono {limit limit' : Nat} {r : Recording} (h : r.Brief limit)
    (hle : limit ≤ limit') : r.Brief limit' := by
  cases r with
  | probe r => exact fun n e he => (h n e he).trans hle
  | _ => trivial

theorem TaskState.Brief.mono {s : TaskState} (h : s.Brief b) (hb : b ≤ b') : s.Brief b' :=
  ⟨h.heap.mono hb, fun r hr => (h.recordings r hr).mono hb.1⟩

end Mono

/-! ### Values -/

section Values

variable {b : Limits}

theorem Value.typeName_le (v : Value) : v.typeName.utf8ByteSize ≤ 9 := by
  have hnames : ∀ s ∈ ["null", "bool", "int", "string", "object", "exception"],
      s.utf8ByteSize ≤ 9 := by decide
  cases v <;> exact hnames _ (by simp [typeName])

theorem Value.brief_ofConstant {c : Constant} (h : ∀ s, c = .text s → s.utf8ByteSize ≤ b.text) :
    (Value.ofConstant c).Brief b := by
  cases c with
  | text s => exact h s rfl
  | _ => trivial

/-- What a value is printed as may be as long as a message with a kind in front. -/
theorem Value.Brief.shown_le (hb : b.Ample) {v : Value} (h : v.Brief b) :
    v.shown.utf8ByteSize ≤ b.message + b.text + 2 := by
  have htext := hb.text
  have hmessage := hb.message
  rw [BinaryOp.maxTextBytes] at htext
  cases v with
  | null =>
    have hnull : "null".utf8ByteSize = 4 := by decide
    show "null".utf8ByteSize ≤ _
    omega
  | bool x =>
    have hbool : (Value.bool x).shown.utf8ByteSize ≤ 5 := by cases x <;> decide
    omega
  | int n =>
    have hint := Text.utf8ByteSize_toString_int64_le n
    show (toString n.toInt).utf8ByteSize ≤ _
    omega
  | text s =>
    have hs : s.utf8ByteSize ≤ b.text := h
    show s.utf8ByteSize ≤ _
    omega
  | object id c =>
    obtain ⟨hid, hc⟩ := h
    have hlt : id < 10 ^ (b.objects + 1) :=
      calc id ≤ b.objects + 1 := Nat.le_succ_of_le hid
        _ < 10 ^ (b.objects + 1) := Nat.lt_pow_self (by decide)
    have hdigits := Text.utf8ByteSize_toString_le (Nat.succ_pos _) hlt
    have hat : "@".utf8ByteSize = 1 := by decide
    show (c ++ "@" ++ toString id).utf8ByteSize ≤ _
    rw [String.utf8ByteSize_append, String.utf8ByteSize_append]
    omega
  | exception id e =>
    obtain ⟨hkind, hmsg⟩ := h
    have hcolon : ": ".utf8ByteSize = 2 := by decide
    show e.text.utf8ByteSize ≤ _
    rw [Exception.text]
    split
    · omega
    · rw [String.utf8ByteSize_append, String.utf8ByteSize_append]
      omega

end Values

/-! ### Exceptions that instructions raise -/

namespace Exception

variable {b : Limits}

theorem Brief.fair {e : Exception} (h : e.Brief b) : e.Fair b := fun _ => h

theorem brief_of_names (hb : b.Ample) {e : Exception} (hkind : e.kind.utf8ByteSize ≤ 64)
    (hmessage : e.message.utf8ByteSize ≤ 2 * b.text + 8) : e.Brief b := by
  have htext := hb.text
  have hlong := hb.message
  rw [BinaryOp.maxTextBytes] at htext
  exact ⟨by omega, by omega⟩

theorem fair_of_short (hb : b.Ample) {e : Exception} (hkind : e.kind.utf8ByteSize ≤ 64)
    (hmessage : e.message.utf8ByteSize ≤ 64) : e.Fair b := by
  have htext := hb.text
  rw [BinaryOp.maxTextBytes] at htext
  exact (brief_of_names hb hkind (by omega)).fair

theorem fair_of_uncatchable (b : Limits) {e : Exception} (h : e.uncatchable = true) : e.Fair b := by
  intro he
  rw [h] at he
  cases he

theorem fair_verifyError (b : Limits) (message : String) : (verifyError message).Fair b :=
  fair_of_uncatchable b rfl

theorem fair_expected (hb : b.Ample) {wanted : String} (hwanted : wanted.utf8ByteSize ≤ 16) (v : Value) :
    (expected wanted v).Fair b := by
  have hv := v.typeName_le
  have hexpected : "expected ".utf8ByteSize = 9 := by decide
  have hfound : ", found ".utf8ByteSize = 8 := by decide
  refine fair_of_short hb (by decide : "TypeError".utf8ByteSize ≤ 64) ?_
  show ("expected " ++ wanted ++ ", found " ++ v.typeName).utf8ByteSize ≤ 64
  rw [String.utf8ByteSize_append, String.utf8ByteSize_append, String.utf8ByteSize_append]
  omega

end Exception

/-- The computation comes to something of `P`, or raises an exception that keeps to the limits. -/
def Limits.Allow {α : Type} (b : Limits) (P : α → Prop) : Except Exception α → Prop
  | .ok a => P a
  | .error e => e.Fair b

theorem Limits.Allow.mono {α : Type} {b b' : Limits} {P : α → Prop} {r : Except Exception α}
    (h : b.Allow P r) (hb : b ≤ b') : b'.Allow P r := by
  cases r with
  | ok a => exact h
  | error e => exact fun he => (h he).mono hb

theorem Limits.Allow.bind {α β : Type} {b : Limits} {P : α → Prop} {Q : β → Prop}
    {r : Except Exception α} {k : α → Except Exception β} (h : b.Allow P r)
    (hk : ∀ a, P a → b.Allow Q (k a)) : b.Allow Q (r >>= k) := by
  cases r with
  | error e => exact h
  | ok a => exact hk a h

namespace BinaryOp

variable {b : Limits}

theorem joined_brief (hb : b.Ample) (left right : Value) :
    b.Allow (·.Brief b) (joined left right) := by
  simp only [joined]
  split
  · exact Exception.fair_of_short hb (by decide) (by decide)
  · next hshort => exact (Nat.le_of_not_lt hshort).trans hb.text

theorem divided_brief (hb : b.Ample) (f : Int64 → Int64 → Int64) (m n : Int64) :
    b.Allow (·.Brief b) (divided f m n) := by
  unfold divided
  split
  · exact Exception.fair_of_short hb (by decide) (by decide)
  · trivial

theorem onInts_brief (hb : b.Ample) (op : BinaryOp) (m n : Int64) :
    b.Allow (·.Brief b) (onInts op m n) := by
  cases op with
  | div => exact divided_brief hb _ m n
  | rem => exact divided_brief hb _ m n
  | concat => exact joined_brief hb _ _
  | _ => trivial

theorem mnemonic_le (op : BinaryOp) : op.mnemonic.utf8ByteSize ≤ 6 := by
  cases op <;> decide

theorem fair_typeError (hb : b.Ample) (op : BinaryOp) (left right : Value) :
    (Exception.typeError ("cannot " ++ op.mnemonic ++ " " ++ left.typeName ++ " and " ++
      right.typeName)).Fair b := by
  have hop := op.mnemonic_le
  have hleft := left.typeName_le
  have hright := right.typeName_le
  have hcannot : "cannot ".utf8ByteSize = 7 := by decide
  have hblank : " ".utf8ByteSize = 1 := by decide
  have hand : " and ".utf8ByteSize = 5 := by decide
  refine Exception.fair_of_short hb (by decide : "TypeError".utf8ByteSize ≤ 64) ?_
  simp only [Exception.typeError, Exception.of, String.utf8ByteSize_append]
  omega

/-- **The texts that an operation makes keep to the limit.** -/
theorem apply_brief (hb : b.Ample) (op : BinaryOp) (left right : Value) :
    b.Allow (·.Brief b) (op.apply left right) := by
  unfold apply
  split
  · exact joined_brief hb left right
  · trivial
  · trivial
  · split
    · exact onInts_brief hb op _ _
    · exact fair_typeError hb op left right

end BinaryOp

/-! ### Stacks and frames -/

namespace OperandStack

variable {b : Limits} {s t : OperandStack}

theorem brief_empty : OperandStack.empty.Brief b := nofun

theorem brief_add_iff {v : Value} : (s.add v).Brief b ↔ v.Brief b ∧ s.Brief b := List.forall_mem_cons

theorem pop_brief (h : s.Brief b) : b.Allow (fun p => p.1.Brief b ∧ p.2.Brief b) s.pop := by
  cases hp : s.pop with
  | error e =>
    have he : e = underflow := by
      unfold pop at hp
      split at hp <;> cases hp
      rfl
    rw [he]
    exact Exception.fair_verifyError b _
  | ok p =>
    rw [pop_eq_ok_iff.1 hp] at h
    exact brief_add_iff.1 h

theorem popText_brief (hb : b.Ample) (h : s.Brief b) :
    b.Allow (fun p => p.1.utf8ByteSize ≤ b.text ∧ p.2.Brief b) s.popText := by
  refine (pop_brief h).bind fun ⟨v, t⟩ hp => ?_
  cases v with
  | text x => exact hp
  | _ => exact Exception.fair_expected hb (by decide) _

theorem popInt_brief (hb : b.Ample) (h : s.Brief b) : b.Allow (·.2.Brief b) s.popInt := by
  refine (pop_brief h).bind fun ⟨v, t⟩ hp => ?_
  cases v with
  | int n => exact hp.2
  | _ => exact Exception.fair_expected hb (by decide) _

theorem popBool_brief (hb : b.Ample) (h : s.Brief b) : b.Allow (·.2.Brief b) s.popBool := by
  refine (pop_brief h).bind fun ⟨v, t⟩ hp => ?_
  cases v with
  | bool x => exact hp.2
  | _ => exact Exception.fair_expected hb (by decide) _

theorem popObject_brief (hb : b.Ample) (h : s.Brief b) :
    b.Allow (fun p => (Value.object p.1.1 p.1.2).Brief b ∧ p.2.Brief b) s.popObject := by
  refine (pop_brief h).bind fun ⟨v, t⟩ hp => ?_
  cases v with
  | object id c => exact hp
  | null => exact Exception.fair_of_short hb (by decide) (by decide)
  | _ => exact Exception.fair_expected hb (by decide) _

theorem popMany_brief (h : s.Brief b) (n : Nat) :
    b.Allow (fun p => (∀ v ∈ p.1, v.Brief b) ∧ p.2.Brief b) (s.popMany n) := by
  unfold popMany
  split
  · exact Exception.fair_verifyError b _
  · exact ⟨fun v hv => h v (List.mem_of_mem_take (List.mem_reverse.1 hv)),
      fun v hv => h v (List.mem_of_mem_drop hv)⟩

theorem push_brief (hb : b.Ample) (h : s.Brief b) {v : Value} (hv : v.Brief b) :
    b.Allow (·.Brief b) (s.push v) := by
  unfold push
  split
  · exact Exception.fair_of_short hb (by decide) (by decide)
  · exact brief_add_iff.2 ⟨hv, h⟩

end OperandStack

namespace Frame

variable {b : Limits} {f : Frame}

theorem Brief.withStack (h : f.Brief b) {s : OperandStack} (hs : s.Brief b) :
    (f.withStack s).Brief b := ⟨h.locals, hs, h.code⟩

theorem Brief.enter (h : f.Brief b) (handler : LinkedHandler) {v : Value} (hv : v.Brief b) :
    (f.enter handler v).Brief b := ⟨h.locals, List.forall_mem_singleton.2 hv, h.code⟩

theorem load_brief (h : f.Brief b) (i : UInt16) : b.Allow (·.Brief b) (f.load i) := by
  unfold load
  split
  · next v hv => exact h.locals v (Array.mem_of_getElem? hv)
  · exact Exception.fair_verifyError b _

theorem store_brief (h : f.Brief b) (i : UInt16) {v : Value} (hv : v.Brief b) :
    b.Allow (·.Brief b) (f.store i v) := by
  unfold store
  split
  · refine ⟨fun w hw => ?_, h.stack, h.code⟩
    rcases Array.mem_or_eq_of_mem_setIfInBounds hw with hw | rfl
    · exact h.locals w hw
    · exact hv
  · exact Exception.fair_verifyError b _

theorem jump_brief (h : f.Brief b) (l : Label) : b.Allow (·.Brief b) (f.jump l) := by
  unfold jump
  split
  · exact ⟨h.locals, h.stack, h.code⟩
  · exact Exception.fair_verifyError b _

end Frame

/-! ### Classes -/

section Classes

variable {b : Limits}

theorem LoadingUnit.brief_of_mem_classes {u : LoadingUnit} (hu : ∀ x ∈ u.texts, x.utf8ByteSize ≤ b.text)
    {l : Layer} (hl : l ∈ u.layers) {name : String} {d : DefinedClass} (hd : (name, d) ∈ l.classes) :
    d.file.utf8ByteSize ≤ b.text ∧ ∀ x ∈ d.linked.texts, x.utf8ByteSize ≤ b.text := by
  have hmem : ∀ x ∈ d.file :: d.linked.texts, x ∈ u.texts := fun x hx =>
    List.mem_flatMap.2 ⟨l, hl, List.mem_flatMap.2 ⟨(name, d), hd, hx⟩⟩
  exact List.forall_mem_cons.1 fun x hx => hu x (hmem x hx)

theorem LoadingUnit.Offers.brief {u : LoadingUnit} (hu : ∀ x ∈ u.texts, x.utf8ByteSize ≤ b.text)
    {c : LinkedClass} (hc : u.Offers c) : ∀ x ∈ c.texts, x.utf8ByteSize ≤ b.text := by
  obtain ⟨l, hl, name, hname⟩ := hc
  obtain ⟨d, hd, rfl⟩ := Option.map_eq_some_iff.1 hname
  exact (brief_of_mem_classes hu hl (getNamed?_mem hd)).2

theorem LoadingUnit.classFile?_brief {u : LoadingUnit} (hu : ∀ x ∈ u.texts, x.utf8ByteSize ≤ b.text)
    {path text : String} (h : u.classFile? path = some text) : text.utf8ByteSize ≤ b.text := by
  obtain ⟨name, -, hfile⟩ := Option.bind_eq_some_iff.1 h
  obtain ⟨d, hd, rfl⟩ := Option.map_eq_some_iff.1 hfile
  exact (brief_of_mem_classes hu List.mem_cons_self (getNamed?_mem hd)).1

theorem LinkedClass.texts_of_mem_methods {c : LinkedClass} (hc : ∀ x ∈ c.texts, x.utf8ByteSize ≤ b.text)
    {m : LinkedMethod} (hm : m ∈ c.methods) :
    (m.method.descriptor c.name).utf8ByteSize ≤ b.text ∧
      ∀ i ∈ m.code, ∀ x ∈ i.texts, x.utf8ByteSize ≤ b.text := by
  have hmem : ∀ x ∈ m.method.descriptor c.name :: m.code.toList.flatMap Instruction.texts,
      x ∈ c.texts := fun x hx => List.mem_cons_of_mem _ (List.mem_flatMap.2 ⟨m, hm, hx⟩)
  refine ⟨hc _ (hmem _ List.mem_cons_self), fun i hi x hx => hc _ (hmem _ ?_)⟩
  exact List.mem_cons_of_mem _ (List.mem_flatMap.2 ⟨i, Array.mem_toList_iff.2 hi, hx⟩)

theorem Frame.noSuchMethod_fair (hb : b.Ample) {what : String}
    (h : what.utf8ByteSize ≤ 2 * b.text + 8) : (Frame.noSuchMethod what).Fair b :=
  (Exception.brief_of_names hb (by decide : "NoSuchMethodError".utf8ByteSize ≤ 64) h).fair

theorem Frame.forCall_eq_error {c : LinkedClass} {name : String} {arguments : List Value}
    {want : Option Bool} {e : Exception} (h : forCall c name arguments want = .error e) :
    e = noSuchMethod (c.name ++ "." ++ name) ∨
      ∃ m ∈ c.methods, e = noSuchMethod (m.method.descriptor c.name) := by
  unfold forCall at h
  split at h
  · exact .inl (Except.error.inj h).symm
  · next m hm =>
    dsimp only at h
    split at h <;> split at h <;> simp only [reduceCtorEq, Except.error.injEq] at h <;>
      exact .inr ⟨m, (LinkedClass.method?_eq_some hm).1, h.symm⟩

theorem Frame.brief_of_forCall {c : LinkedClass} (hc : ∀ x ∈ c.texts, x.utf8ByteSize ≤ b.text)
    {name : String} {arguments : List Value} (harguments : ∀ v ∈ arguments, v.Brief b)
    {want : Option Bool} {g : Frame} (h : Frame.forCall c name arguments want = .ok g) : g.Brief b := by
  obtain ⟨m, hm, rfl⟩ := forCall_eq_ok h
  have hcode := (LinkedClass.texts_of_mem_methods hc (LinkedClass.method?_eq_some hm).1).2
  refine ⟨fun v hv => ?_, OperandStack.brief_empty, hcode⟩
  simp only [localsFor, List.mem_toArray] at hv
  rcases List.mem_append.1 (List.mem_of_mem_take hv) with hv | hv
  · exact harguments v hv
  · rw [List.eq_of_mem_replicate hv]
    trivial

theorem Frame.forCall_brief (hb : b.Ample) {c : LinkedClass} (hc : ∀ x ∈ c.texts, x.utf8ByteSize ≤ b.text)
    {name : String} (hname : name.utf8ByteSize ≤ b.text) {arguments : List Value}
    (harguments : ∀ v ∈ arguments, v.Brief b) (want : Option Bool) :
    b.Allow (·.Brief b) (Frame.forCall c name arguments want) := by
  cases hcall : Frame.forCall c name arguments want with
  | error e =>
    rcases forCall_eq_error hcall with rfl | ⟨m, hm, rfl⟩
    · have hcname : c.name.utf8ByteSize ≤ b.text := hc _ List.mem_cons_self
      have hdot : ".".utf8ByteSize = 1 := by decide
      refine noSuchMethod_fair hb ?_
      rw [String.utf8ByteSize_append, String.utf8ByteSize_append]
      omega
    · have hdescriptor := (LinkedClass.texts_of_mem_methods hc hm).1
      exact noSuchMethod_fair hb (by omega)
  | ok g => exact brief_of_forCall hc harguments hcall

end Classes

/-! ### What the threads share -/

namespace Heap

variable {b : Limits} {h : Heap}

theorem Brief.get (hh : h.Brief b) (id : Nat) (field : String) : (h.get id field).Brief b := by
  unfold Heap.get
  cases ho : h.objects[id - 1]? with
  | none => trivial
  | some o =>
    have hmem : o ∈ h.objects := Array.mem_of_getElem? ho
    simp only [Option.getD_some]
    cases hv : o.lookup field with
    | none => trivial
    | some v =>
      obtain ⟨front, back, rfl, -⟩ := List.lookup_eq_some_iff.1 hv
      exact hh.fields _ hmem (field, v) (List.mem_append_right _ List.mem_cons_self)

theorem brief_setField {field : String} {v : Value} {o : List (String × Value)} (hv : v.Brief b)
    (ho : ∀ f ∈ o, f.2.Brief b) : ∀ f ∈ setField field v o, f.2.Brief b := by
  induction o with
  | nil => exact List.forall_mem_singleton.2 hv
  | cons f rest ih =>
    rw [List.forall_mem_cons] at ho
    unfold setField
    split
    · exact List.forall_mem_cons.2 ⟨hv, ho.2⟩
    · exact List.forall_mem_cons.2 ⟨ho.1, ih ho.2⟩

theorem Brief.set (hh : h.Brief b) (id : Nat) (field : String) {v : Value} (hv : v.Brief b) :
    (h.set id field v).Brief b := by
  refine ⟨by simpa [Heap.set] using hh.objects, fun o ho => ?_⟩
  obtain ⟨i, hi, rfl⟩ := Array.getElem_of_mem ho
  simp only [Heap.set, Array.getElem_modify]
  have hi' : i < h.objects.size := by simpa [Heap.set] using hi
  split
  · exact brief_setField hv (hh.fields _ (Array.getElem_mem hi'))
  · exact hh.fields _ (Array.getElem_mem hi')

theorem Brief.newObject (hh : h.Brief b) {className : String} (hc : className.utf8ByteSize ≤ b.text) :
    (h.newObject className).1.Brief b.after ∧ (h.newObject className).2.Brief b.after := by
  have hsize : (h.objects.push []).size ≤ b.objects + 1 := by
    rw [Array.size_push]
    exact Nat.succ_le_succ hh.objects
  refine ⟨⟨hsize, hc⟩, hsize, fun o ho => ?_⟩
  rcases Array.mem_push.1 ho with ho | rfl
  · exact fun f hf => (hh.fields o ho f hf).mono b.le_after
  · exact nofun

theorem Brief.newException (hh : h.Brief b) (e : Exception) : (h.newException e).2.Brief b :=
  ⟨hh.objects, hh.fields⟩

end Heap

theorem Probe.Recording.kind_of_signal? {a : Arguments} {n : Nat} {e : Exception}
    (h : signal? a n = some (.throw e)) : e.kind = "ProbeException" := by
  unfold signal? at h
  split at h
  · cases h
  · split at h
    · simp only [Option.some.injEq, HookSignal.throw.injEq] at h
      rw [← h]
    · cases h

namespace Recording

variable {b : Limits} {r : Recording}

theorem Brief.onHook (hb : b.Ample) (h : r.Brief b.text) (call : HookCall) (thread : Nat) :
    (∀ e, (r.onHook call thread).1.signal = some (.throw e) → e.Fair b) ∧
      (r.onHook call thread).2.Brief b.text := by
  have silent (e : Exception) (he : (none : Option HookSignal) = some (.throw e)) : e.Fair b := by
    cases he
  cases r with
  | methodTrace r => exact ⟨silent, trivial⟩
  | lineTrace r =>
    simp only [Recording.onHook]
    split
    · next line e _ =>
      simp only [Recording.onLine]
      split
      · -- a line that is coalesced, or counted below the limit
        exact ⟨silent, trivial⟩
      · exact ⟨silent, trivial⟩
      · refine ⟨fun e he => ?_, trivial⟩
        -- what the line trace throws is uncatchable
        simp only [Reaction.ofSignal, LineTrace.Recording.limitSignal, Option.some.injEq] at he
        split at he
        · cases he
        · rw [← HookSignal.throw.inj he]
          exact Exception.fair_of_uncatchable b rfl
    · exact ⟨silent, trivial⟩
  | probe r =>
    refine ⟨fun e he => (Exception.brief_of_names hb ?_ ?_).fair, h⟩
    · rw [Probe.Recording.kind_of_signal? he]
      decide
    · have hmessage := h _ e he
      omega

theorem Brief.tellLine (h : r.Brief b.text) (e : LineEvent) : (r.tellLine e).Brief b.text := by
  cases r <;> exact h

end Recording

theorem Recordings.Brief.onHook {b : Limits} (hb : b.Ample) {rs : Recordings} (h : rs.Brief b.text)
    (tracer : String) (call : HookCall) (thread : Nat) :
    (∀ e, (rs.onHook tracer call thread).1 = some (.throw e) → e.Fair b) ∧
      (rs.onHook tracer call thread).2.Brief b.text :=
  onHook_invariant (Q := fun signal => ∀ e, signal = some (.throw e) → e.Fair b) nofun
    (fun _ hr => hr.onHook hb call thread) (fun _ e hr => hr.tellLine e) h tracer

namespace TaskState

variable {b : Limits} {t : Task} {s s' : TaskState}

theorem Brief.of_eq (h : s.Brief b) (hheap : s'.heap = s.heap) (hrecordings : s'.recordings = s.recordings) :
    s'.Brief b := ⟨hheap ▸ h.heap, hrecordings ▸ h.recordings⟩

theorem Brief.withHeap (h : s.Brief b) {heap : Heap} (hheap : heap.Brief b) :
    TaskState.Brief b { s with heap := heap } := ⟨hheap, h.recordings⟩

theorem Brief.kill (h : s.Brief b) (reason : String) : (s.kill reason).Brief b := h.of_eq rfl rfl

theorem Brief.record (h : s.Brief b) (p : Permission) (granted : Bool) :
    (s.record t p granted).Brief b := h.of_eq rfl rfl

theorem Brief.check (h : s.Brief b) (p : Permission) : (s.check t p).2.Brief b := h.of_eq rfl rfl

theorem Brief.spawn (h : s.Brief b) (className methodName : String) :
    (s.spawn t className methodName).2.Brief b := by
  unfold TaskState.spawn
  split
  · exact h
  · dsimp only
    split <;> exact h.of_eq rfl rfl

theorem Brief.load (h : s.Brief b) (name : String) : (s.load t name).2.Brief b := by
  unfold TaskState.load
  split
  split <;> exact h.of_eq rfl rfl

/-- A class that is loaded has short texts only, and one that is not is named in the message. -/
theorem load_brief (hb : b.Ample) (ht : ∀ x ∈ t.unit.texts, x.utf8ByteSize ≤ b.text) {name : String}
    (hname : name.utf8ByteSize ≤ b.text) :
    b.Allow (fun c => ∀ x ∈ c.texts, x.utf8ByteSize ≤ b.text) (s.load t name).1 := by
  cases hload : (s.load t name).1 with
  | ok c => exact (offers_of_load hload).brief ht
  | error e =>
    have he : e = .of "ClassNotFoundException" name := by
      unfold TaskState.load at hload
      split at hload
      split at hload
      · cases hload
      · exact (Except.error.inj hload).symm
    have hmessage : name.utf8ByteSize ≤ 2 * b.text + 8 := by omega
    rw [he]
    exact (Exception.brief_of_names hb (by decide : "ClassNotFoundException".utf8ByteSize ≤ 64)
      hmessage).fair

end TaskState

end Confine
