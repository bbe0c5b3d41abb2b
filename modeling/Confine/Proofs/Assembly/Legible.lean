import Confine.Assembly.Assembler
import Confine.Proofs.Assembly.Written

/-!
# Statements read back

What a class, a handler and an instruction are written as is read as one statement each
(`Assembly.ofTokens?_instructionTokens`), if the names in them are words and the names of called methods can be
told from those of their classes (`ClassFile.Legible`). String constants may be any.
-/

namespace Confine

open Text (IsWord)

/-! ### Legible names -/

/-- A class and a method that can be written as one word and told apart in it. -/
structure IsTarget (className methodName : String) : Prop where
  isWord_class : IsWord className
  isWord_method : IsWord methodName
  undotted : '.' ∉ methodName.toList

/-- The names in the instruction read back. -/
def Instruction.Legible : Instruction → Prop
  | invokeStatic c m | host (.spawn c m) => IsTarget c m
  | invokeVirtual m _ => IsWord m
  | new name | getField name | putField name | newException name => IsWord name
  | hook tracer name _ => IsWord tracer ∧ IsWord name
  | _ => True

/-- The names in the method read back. -/
structure Method.Legible (m : Method) : Prop where
  name : IsWord m.name
  not_static : m.isStatic = false → m.name ≠ "static"
  params : ∀ p ∈ m.params, IsWord p
  code : ∀ i ∈ m.code, i.Legible
  handlers : ∀ h ∈ m.handlers, ∀ k ∈ h.kind, IsWord k

/-- The names in the class read back. -/
structure ClassFile.Legible (c : ClassFile) : Prop where
  name : IsWord c.name
  sourceFile : ∀ s ∈ c.sourceFile, IsWord s
  methods : ∀ m ∈ c.methods, m.Legible

theorem IsTarget.isWord {c m : String} (h : IsTarget c m) : IsWord (c ++ "." ++ m) :=
  (h.isWord_class.append (by decide)).append h.isWord_method

theorem Label.isWord_name (l : Label) : IsWord l.name :=
  (show IsWord "L" by decide).append (Text.isWord_nat _)

namespace Assembly

/-! ### Writable tokens -/

@[simp] theorem writable_natToken (n : Nat) : (natToken n).Writable := Text.isWord_nat n

@[simp] theorem writable_labelToken (l : Label) : (labelToken l).Writable := l.isWord_name

@[simp] theorem writable_constantToken (c : Constant) : (constantToken c).Writable := by
  cases c with
  | null => exact (by decide : IsWord "null")
  | bool b =>
    cases b with
    | false => exact (by decide : IsWord "false")
    | true => exact (by decide : IsWord "true")
  | int n => exact Text.isWord_int _
  | text s => trivial

@[simp] theorem writable_hookOperandToken (o : HookOperand) : (hookOperandToken o).Writable := by
  cases o with
  | constant c => exact writable_constantToken c
  | slot i => exact (show IsWord "@" by decide).append (Text.isWord_nat _)

theorem writable_instructionTokens {i : Instruction} (h : i.Legible) :
    ∀ t ∈ instructionTokens i, t.Writable := by
  cases i with
  | label l =>
    simpa [instructionTokens] using l.isWord_name.append (t := ":") (by decide)
  | binary op => cases op <;> simp +decide [instructionTokens]
  | host call =>
    cases call with
    | spawn c m => simpa +decide [instructionTokens] using IsTarget.isWord h
    | _ => simp +decide [instructionTokens]
  | invokeStatic c m => simpa +decide [instructionTokens] using IsTarget.isWord h
  | _ => simp_all +decide [instructionTokens, Instruction.Legible]

theorem writable_handlerLine {h : Handler} (hkind : ∀ k ∈ h.kind, IsWord k) :
    ∀ t ∈ (handlerLine h).tokens, t.Writable := by
  cases hk : h.kind <;> simp_all +decide [handlerLine]

/-! ### Operands -/

theorem splitQualified?_append {c m : String} (hc : c.toList ≠ []) (hm : m.toList ≠ [])
    (hdot : '.' ∉ m.toList) : splitQualified? (c ++ "." ++ m) = some (c, m) := by
  have hrev : (c ++ "." ++ m).toList.reverse = m.toList.reverse ++ '.' :: c.toList.reverse := by
    simp
  have hplain : ∀ x ∈ m.toList.reverse, decide (x ≠ '.') = true := by
    intro x hx
    exact decide_eq_true fun h => hdot (h ▸ List.mem_reverse.1 hx)
  have hlast : (m.toList.reverse ++ '.' :: c.toList.reverse).takeWhile (· ≠ '.') = m.toList.reverse := by
    rw [List.takeWhile_append_of_pos hplain]
    simp
  simp only [splitQualified?, hrev, hlast, List.drop_left]
  simp [hc, hm]

theorem constant_constantToken (c : Constant) : constant (constantToken c) = .ok c := by
  cases c with
  | null => rfl
  | bool b => cases b <;> rfl
  | text s => rfl
  | int n =>
    have hn := Text.int64?_toString n
    -- a numeral is none of the words that are constants
    have hword : ∀ {w : String}, Text.int64? w = none → toString n.toInt ≠ w := by
      rintro _ hw rfl
      rw [hn] at hw
      cases hw
    have hnull := hword (w := "null") (by decide)
    have htrue := hword (w := "true") (by decide)
    have hfalse := hword (w := "false") (by decide)
    simp only [constantToken, constant, hnull, htrue, hfalse, if_false, hn]

theorem hookOperand_hookOperandToken (o : HookOperand) :
    hookOperand (hookOperandToken o) = .ok o := by
  cases o with
  | slot i =>
    have hi := Text.uint16?_toString i
    have hword : ("@" ++ toString i.toNat).toList = '@' :: (toString i.toNat).toList := by simp
    simp only [hookOperandToken, hookOperand, hword, String.ofList_toList, hi]
  | constant c =>
    have hc := constant_constantToken c
    -- no constant is written with a leading `@`
    have hat : ∀ w, constantToken c = .word w → w.toList.head? ≠ some '@' := by
      rintro w hw hhead
      cases c with
      | null => cases hw; revert hhead; decide
      | bool b => cases b <;> cases hw <;> revert hhead <;> decide
      | int n =>
        cases hw
        rcases Text.mem_toString_int (List.mem_of_head? hhead) with h | h <;> revert h <;> decide
      | text s => cases hw
    rw [hookOperandToken]
    -- a string is never taken for a slot, and a word only with a leading `@`
    generalize constantToken c = t at hc hat
    cases t with
    | str s => rw [hookOperand, hc]; rfl
    | word w =>
      rw [hookOperand]
      split
      · next digits heq => exact absurd (by rw [heq]; rfl) (hat w rfl)
      · rw [hc]; rfl

theorem mapM_hookOperand (operands : List HookOperand) :
    (operands.map hookOperandToken).mapM hookOperand = .ok operands := by
  induction operands with
  | nil => rfl
  | cons o rest ih =>
    rw [List.map_cons, List.mapM_cons, hookOperand_hookOperandToken, ih]
    rfl

/-! ### Statements -/

/-- The instruction as a statement, with its labels by name. -/
def statement : Instruction → Statement
  | .label l => .label l.name
  | .lineNumber n start => .line (.lineNumber n (some start.name))
  | .jump l => .line (.jump l.name)
  | .jumpIf l => .line (.jumpIf l.name)
  | .jumpIfNot l => .line (.jumpIfNot l.name)
  | i => .line (.plain i)

/-- A word that starts with no dot and ends with no colon begins an instruction. -/
theorem ofTokens?_of_line {s : String} {operands : List Token} {l : Line}
    (hdot : s.toList.head? ≠ some '.') (hcolon : s.toList.getLast? ≠ some ':')
    (hl : Line.ofTokens s operands = .ok l) :
    Statement.ofTokens? (.word s :: operands) = .ok (some (.line l)) := by
  simp only [Statement.ofTokens?]
  split
  · next heq => exact absurd (by rw [heq]; rfl) hdot
  · rw [if_neg hcolon, hl]
    rfl

theorem ofTokens?_label (l : Label) :
    Statement.ofTokens? [.word (l.name ++ ":")] = .ok (some (.label l.name)) := by
  have hname : (l.name ++ ":").toList = l.name.toList ++ [':'] := by simp
  simp only [Statement.ofTokens?]
  split
  · next heq =>
    rw [hname] at heq
    simp [Label.name] at heq
  · simp [hname]

theorem qualified_word {c m : String} (h : IsTarget c m) :
    qualified [.word (c ++ "." ++ m)] = .ok (c, m) := by
  have hs : splitQualified? (Token.word (c ++ "." ++ m)).text = some (c, m) :=
    splitQualified?_append h.isWord_class.ne_nil h.isWord_method.ne_nil h.undotted
  simp only [qualified, operand, bind, Except.bind, List.getElem?_cons_zero, hs]

theorem number_natToken {α : Type} {read : String → Option α} {n : Nat} {a : α}
    (h : read (toString n) = some a) (operands : List Token) :
    number read (natToken n :: operands) 0 = .ok a := by
  have hread : read (natToken n).text = some a := h
  simp only [number, operand, bind, Except.bind, List.getElem?_cons_zero, hread]

/-- **An instruction is read from its tokens.** -/
theorem ofTokens?_instructionTokens {i : Instruction} (h : i.Legible) :
    Statement.ofTokens? (instructionTokens i) = .ok (some (statement i)) := by
  cases i with
  | label l => exact ofTokens?_label l
  | lineNumber n start =>
    refine ofTokens?_of_line (by decide) (by decide) ?_
    simp only [Line.ofTokens, number_natToken (Text.uint32?_toString n)]
    rfl
  | frame n =>
    refine ofTokens?_of_line (by decide) (by decide) ?_
    simp only [Line.ofTokens, number_natToken (Text.uint16?_toString n)]
    rfl
  | push c =>
    refine ofTokens?_of_line (by decide) (by decide) ?_
    simp only [Line.ofTokens, constant_constantToken]
    rfl
  | load slot =>
    refine ofTokens?_of_line (by decide) (by decide) ?_
    simp only [Line.ofTokens, number_natToken (Text.uint16?_toString slot)]
    rfl
  | store slot =>
    refine ofTokens?_of_line (by decide) (by decide) ?_
    simp only [Line.ofTokens, number_natToken (Text.uint16?_toString slot)]
    rfl
  | invokeStatic c m =>
    refine ofTokens?_of_line (by decide) (by decide) ?_
    simp only [Line.ofTokens, qualified_word h]
    rfl
  | invokeVirtual m n =>
    have hn : number Text.uint16? [.word m, natToken n.toNat] 1 = .ok n :=
      number_natToken (Text.uint16?_toString n) []
    refine ofTokens?_of_line (by decide) (by decide) ?_
    simp only [Line.ofTokens, hn]
    rfl
  | hook tracer name operands =>
    refine ofTokens?_of_line (by decide) (by decide) ?_
    simp only [Line.ofTokens, List.drop_succ_cons, List.drop_zero, mapM_hookOperand]
    rfl
  | host call =>
    cases call with
    | spawn c m =>
      refine ofTokens?_of_line (by decide) (by decide) ?_
      simp only [Line.ofTokens, qualified_word h]
      rfl
    | _ => rfl
  | binary op => cases op <;> rfl
  | _ => rfl

theorem ofTokens?_handlerLine (h : Handler) : Statement.ofTokens? (handlerLine h).tokens =
    .ok (some (.handler h.start.name h.stop.name h.target.name h.kind)) := by
  cases hk : h.kind <;> simp only [handlerLine, hk] <;> rfl

end Assembly

end Confine
