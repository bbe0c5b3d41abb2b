import Confine.Text.Blank
import Confine.Text.Lines
import Confine.Text.Numeral
import Confine.Text.Utf8
import Mathlib.Data.List.Basic
import Mathlib.Data.Nat.Digits.Defs

/-!
# Text that reads back

* `Text.uint16?_toString`, `Text.uint32?_toString`, `Text.int64?_toString` — a number is read from the digits that it is
  written with;
* `Text.utf8ByteSize_toString_le` — a number has as many bytes as digits;
* `Text.IsWord` — a text that stands between blanks without quotes; numerals are words;
* `Text.lines_flatMap` — lines are read as they were ended;
* `Text.Glyph.ofBytes_toUTF8` — the bytes of a text are read as its characters.
-/

namespace Confine.Text

/-! ### Numerals -/

theorem isDigit_of_mem_toDigits {c : Char} {n : Nat} (h : c ∈ Nat.toDigits 10 n) : isDigit c = true := by
  have hc := Nat.isDigit_of_mem_toDigits (by decide) (by decide) h
  simpa [Char.isDigit, isDigit, Char.le_def] using hc

theorem digits?_toDigits (n : Nat) : digits? (Nat.toDigits 10 n) = some n := by
  have hall : (Nat.toDigits 10 n).all isDigit = true :=
    List.all_eq_true.2 fun _ hc => isDigit_of_mem_toDigits hc
  have hempty : (Nat.toDigits 10 n).isEmpty = false := by
    simp [List.isEmpty_eq_false_iff, Nat.toDigits_ne_nil]
  simp only [digits?, hall, hempty, Bool.not_true, Bool.or_self, Bool.false_eq_true, if_false]
  exact congrArg some (Nat.ofDigitChars_toDigits (b := 10) (by decide) (by decide))

theorem exists_toDigits_eq_cons (n : Nat) :
    ∃ c rest, Nat.toDigits 10 n = c :: rest ∧ c ≠ '+' ∧ c ≠ '-' := by
  cases h : Nat.toDigits 10 n with
  | nil => exact absurd h Nat.toDigits_ne_nil
  | cons c rest =>
    have hc := isDigit_of_mem_toDigits (h ▸ List.mem_cons_self : c ∈ Nat.toDigits 10 n)
    refine ⟨c, rest, rfl, ?_, ?_⟩ <;> rintro rfl <;> revert hc <;> decide

theorem unsigned?_toDigits {bound n : Nat} (h : n < bound) :
    unsigned? bound (Nat.toDigits 10 n) = some n := by
  obtain ⟨c, rest, hn, hplus, -⟩ := exists_toDigits_eq_cons n
  have hread : (digits? (Nat.toDigits 10 n)).filter (· < bound) = some n := by
    simp only [digits?_toDigits, Option.filter_some, h, decide_true, if_true]
  rw [hn] at hread ⊢
  unfold unsigned?
  dsimp only
  split
  · next heq => exact absurd (List.cons.inj heq).1 hplus
  · exact hread

theorem uint16?_toString (n : UInt16) : uint16? (toString n.toNat) = some n := by
  have h : n.toNat < UInt16.size := n.toNat_lt
  simp [uint16?, unsigned?_toDigits h]

theorem uint32?_toString (n : UInt32) : uint32? (toString n.toNat) = some n := by
  have h : n.toNat < UInt32.size := n.toNat_lt
  simp [uint32?, unsigned?_toDigits h]

theorem toList_toString_negSucc (m : Nat) :
    (toString (Int.negSucc m)).toList = '-' :: Nat.toDigits 10 (m + 1) := by
  show ("-" ++ Nat.repr (m + 1)).toList = _
  rw [String.toList_append, Nat.toList_repr]
  rfl

theorem mem_toString_int {n : Int} {c : Char} (h : c ∈ (toString n).toList) :
    c = '-' ∨ isDigit c = true := by
  cases n with
  | ofNat m =>
    have htext : (toString (Int.ofNat m)).toList = Nat.toDigits 10 m := Nat.toList_repr
    exact .inr (isDigit_of_mem_toDigits (htext ▸ h))
  | negSucc m =>
    rw [toList_toString_negSucc, List.mem_cons] at h
    exact h.imp_right isDigit_of_mem_toDigits

theorem int64?_toString (n : Int64) : int64? (toString n.toInt) = some n := by
  have hlo := n.le_toInt
  have hhi := n.toInt_lt
  have hread : signed? (UInt64.size / 2) (toString n.toInt).toList = some n.toInt := by
    cases hn : n.toInt with
    | ofNat m =>
      obtain ⟨c, rest, hm, -, hminus⟩ := exists_toDigits_eq_cons m
      have hlt : m < UInt64.size / 2 := by
        rw [hn] at hhi
        simp only [Int.ofNat_eq_natCast] at hhi
        show m < 9223372036854775808
        omega
      have htext : (toString (Int.ofNat m)).toList = Nat.toDigits 10 m := Nat.toList_repr
      rw [htext]
      unfold signed?
      -- its first character is a digit, and so no sign
      split
      · next heq => exact absurd (List.cons.inj (hm.symm.trans heq)).1 hminus
      · rw [unsigned?_toDigits hlt]
        rfl
    | negSucc m =>
      have hle : m + 1 ≤ UInt64.size / 2 := by
        rw [hn] at hlo
        show m + 1 ≤ 9223372036854775808
        omega
      rw [toList_toString_negSucc]
      simp only [signed?, digits?_toDigits, Option.filter_some, hle, decide_true, if_true]
      rfl
  rw [int64?, hread, Option.map_some, Int64.ofInt_toInt]

/-! ### Bytes of numerals -/

theorem utf8Size_of_isDigit {c : Char} (h : isDigit c = true) : c.utf8Size = 1 := by
  simp only [isDigit, Bool.and_eq_true, decide_eq_true_eq, Char.le_def] at h
  rw [Char.utf8Size_eq_one_iff]
  exact UInt32.le_trans h.2 (by decide)

theorem utf8ByteSize_ofList_digits {l : List Char} (h : ∀ c ∈ l, isDigit c = true) :
    (String.ofList l).utf8ByteSize = l.length := by
  induction l with
  | nil => rfl
  | cons c l ih =>
    rw [List.forall_mem_cons] at h
    have hcons : String.ofList (c :: l) = String.singleton c ++ String.ofList l := by
      apply String.toList_inj.1
      simp
    rw [hcons, String.utf8ByteSize_append, String.utf8ByteSize_singleton, utf8Size_of_isDigit h.1,
      ih h.2, List.length_cons, Nat.add_comm]

theorem utf8ByteSize_toString_le {n k : Nat} (hk : 0 < k) (h : n < 10 ^ k) :
    (toString n).utf8ByteSize ≤ k :=
  calc (toString n).utf8ByteSize = (Nat.toDigits 10 n).length :=
        utf8ByteSize_ofList_digits fun _ hc => isDigit_of_mem_toDigits hc
    _ ≤ k := Nat.toDigits_length 10 n k hk h

theorem utf8ByteSize_toString_int64_le (n : Int64) : (toString n.toInt).utf8ByteSize ≤ 20 := by
  have hlo := n.le_toInt
  have hhi := n.toInt_lt
  cases hn : n.toInt with
  | ofNat m =>
    rw [hn, Int.ofNat_eq_natCast] at hhi
    have hm : m < 10 ^ 20 := by omega
    exact utf8ByteSize_toString_le (by decide) hm
  | negSucc m =>
    rw [hn] at hlo
    have hm : m + 1 < 10 ^ 19 := by omega
    have hdigits := utf8ByteSize_toString_le (by decide) hm
    have hminus : "-".utf8ByteSize = 1 := by decide
    show ("-" ++ toString (m + 1)).utf8ByteSize ≤ 20
    rw [String.utf8ByteSize_append]
    omega

/-! ### Words -/

/-- A word of a program's text: it is not empty, it has no blanks and no semicolon, and it does not
start like a string. -/
structure IsWord (s : String) : Prop where
  ne_nil : s.toList ≠ []
  plain : ∀ c ∈ s.toList, isBlank c = false ∧ c ≠ ';'
  head : s.toList.head? ≠ some '"'

instance (s : String) : Decidable (IsWord s) :=
  decidable_of_iff (s.toList ≠ [] ∧ s.toList.all (fun c => !isBlank c && c != ';') = true ∧
      s.toList.head? ≠ some '"')
    ⟨fun h => ⟨h.1, by simpa using h.2.1, h.2.2⟩, fun h => ⟨h.ne_nil, by simpa using h.plain, h.head⟩⟩

theorem isWord_of_forall {s : String} (hs : s.toList ≠ [])
    (h : ∀ c ∈ s.toList, isBlank c = false ∧ c ≠ ';' ∧ c ≠ '"') : IsWord s := by
  refine ⟨hs, fun c hc => ⟨(h c hc).1, (h c hc).2.1⟩, fun hq => ?_⟩
  exact (h '"' (List.mem_of_head? hq)).2.2 rfl

theorem plain_of_isDigit {c : Char} (h : isDigit c = true) : isBlank c = false ∧ c ≠ ';' ∧ c ≠ '"' := by
  simp only [isDigit, Bool.and_eq_true, decide_eq_true_eq, Char.le_def, UInt32.le_iff_toNat_le] at h
  obtain ⟨hlo, hhi⟩ := h
  have hlo : 48 ≤ c.toNat := hlo
  have hhi : c.toNat ≤ 57 := hhi
  refine ⟨?_, ?_, ?_⟩
  · simp only [isBlank, Bool.or_eq_false_iff, Bool.and_eq_false_iff, decide_eq_false_iff_not,
      beq_eq_false_iff_ne]
    omega
  · rintro rfl
    exact absurd hhi (by decide)
  · rintro rfl
    exact absurd hlo (by decide)

theorem isWord_nat (n : Nat) : IsWord (toString n) := by
  refine isWord_of_forall (by simp) fun c hc => plain_of_isDigit (isDigit_of_mem_toDigits (n := n) ?_)
  simpa using hc

theorem isWord_int (n : Int) : IsWord (toString n) := by
  refine isWord_of_forall ?_ fun c hc => ?_
  · cases n with
    | ofNat m => exact (isWord_nat m).ne_nil
    | negSucc m =>
      rw [toList_toString_negSucc]
      exact List.cons_ne_nil _ _
  · rcases mem_toString_int hc with rfl | hc
    · decide
    · exact plain_of_isDigit hc

theorem IsWord.append {s t : String} (hs : IsWord s) (ht : IsWord t) : IsWord (s ++ t) := by
  refine ⟨by simp [hs.ne_nil], fun c hc => ?_, ?_⟩
  · rw [String.toList_append, List.mem_append] at hc
    exact hc.elim (hs.plain c) (ht.plain c)
  · rw [String.toList_append, List.head?_append_of_ne_nil _ hs.ne_nil]
    exact hs.head

/-! ### Lines -/

theorem linesFrom_append {l : List Char} (h : '\n' ∉ l) (done : List (List Char))
    (rev rest : List Char) : linesFrom done rev (l ++ '\n' :: rest) =
      linesFrom (closeLine (l.reverse ++ rev) :: done) [] rest := by
  induction l generalizing rev with
  | nil => simp [linesFrom]
  | cons c l ih =>
    have hc : c ≠ '\n' := fun hc => h (by simp [hc])
    have hl : '\n' ∉ l := fun hl => h (by simp [hl])
    simp [linesFrom, hc, ih hl]

theorem closeLine_reverse {l : List Char} (h : l.getLast? ≠ some '\r') : closeLine l.reverse = l := by
  unfold closeLine
  split
  · next rev heq =>
    refine absurd ?_ h
    rw [← List.reverse_reverse l, heq, List.getLast?_reverse]
    rfl
  · exact List.reverse_reverse l

/-- **Lines are read as they were ended**, if they hold no line feed and end with no carriage
return. -/
theorem lines_flatMap {ls : List (List Char)} (h : ∀ l ∈ ls, '\n' ∉ l ∧ l.getLast? ≠ some '\r') :
    lines (ls.flatMap (· ++ ['\n'])) = ls := by
  suffices ∀ done, linesFrom done [] (ls.flatMap (· ++ ['\n'])) = done.reverse ++ ls from
    this []
  induction ls with
  | nil => simp [linesFrom]
  | cons l ls ih =>
    intro done
    obtain ⟨hl, hr⟩ := h l (by simp)
    have hls := ih fun l' hl' => h l' (by simp [hl'])
    rw [List.flatMap_cons, List.append_assoc, List.singleton_append, linesFrom_append hl,
      List.append_nil, closeLine_reverse hr, hls]
    simp

/-! ### Bytes -/

theorem Glyph.ofBytes_toUTF8 (s : String) : ofBytes s.toUTF8 = ofText s := by
  have h : String.fromUTF8? s.toUTF8 = some s := by
    unfold String.fromUTF8?
    exact dif_pos s.isValidUTF8
  rw [ofBytes, h]

end Confine.Text
