import Confine.Json.Lexer
import Confine.Json.Printer
import Confine.Proofs.Text.Numeral
import Mathlib.Algebra.Group.Int.Defs

/-!
# The tokens of a written value

* `Json.Exact` — a value that a text holds without loss: every number is an integer of 64 bits, signed or not;
* `Json.tokens` — the tokens of a value;
* `Json.Ends` — how far the lexer has come behind a text: it is between two tokens, or in a number or a word;
* `Json.write_ends`, `Json.writeIndented_ends` — **what is written behind a text are the tokens of the value**, however
  it is laid out.
-/

namespace Confine.Json

open Confine.Text (Glyph)

/-! ### Integers -/

theorem head?_toDigits_ne_zero {n : Nat} (hn : 0 < n) : (Nat.toDigits 10 n).head? ≠ some '0' := by
  induction n using Nat.strongRecOn with
  | ind n ih =>
    by_cases hlt : n < 10
    · rw [Nat.toDigits_of_lt_base hlt]
      have hdigit : ∀ k < 10, 0 < k → [Nat.digitChar k].head? ≠ some '0' := by decide
      exact hdigit n hlt hn
    · have hdiv : 0 < n / 10 := Nat.div_pos (by omega) (by decide)
      rw [Nat.toDigits_of_base_le (by decide) (by omega),
        List.head?_append_of_ne_nil _ Nat.toDigits_ne_nil]
      exact ih (n / 10) (Nat.div_lt_self hn (by decide)) hdiv

theorem le_ofDigitChars (ds : List Char) (n : Nat) : n ≤ Nat.ofDigitChars 10 ds n := by
  induction ds generalizing n with
  | nil => simp
  | cons c ds ih =>
    rw [Nat.ofDigitChars_cons]
    have := ih (10 * n + (c.toNat - '0'.toNat))
    omega

namespace Numeral

theorem leadingDigits_eq {ds : List Char} {n : Nat} (h : Nat.ofDigitChars 10 ds n < UInt64.size) :
    leadingDigits n ds = (Nat.ofDigitChars 10 ds n, []) := by
  induction ds generalizing n with
  | nil => simp [leadingDigits]
  | cons c ds ih =>
    rw [Nat.ofDigitChars_cons] at h
    have hlonger : 10 * n + Text.digitValue c < UInt64.size := Nat.lt_of_le_of_lt (le_ofDigitChars ds _) h
    rw [leadingDigits, if_pos hlonger, Nat.ofDigitChars_cons]
    exact ih h

theorem leadingDigits_toDigits {n : Nat} (h : n < UInt64.size) :
    leadingDigits 0 (Nat.toDigits 10 n) = (n, []) := by
  have hn : Nat.ofDigitChars 10 (Nat.toDigits 10 n) 0 = n :=
    Nat.ofDigitChars_toDigits (by decide) (by decide)
  rw [leadingDigits_eq (by rwa [hn]), hn]

theorem takeWhile_toDigits (n : Nat) :
    (Nat.toDigits 10 n).takeWhile Text.isDigit = Nat.toDigits 10 n := by
  rw [← List.append_nil (Nat.toDigits 10 n),
    List.takeWhile_append_of_pos fun _ hc => Text.isDigit_of_mem_toDigits hc]
  rfl

theorem needless_toDigits (n : Nat) :
    (decide (1 < (Nat.toDigits 10 n).length) && decide ((Nat.toDigits 10 n).head? = some '0')) =
      false := by
  rcases Nat.eq_zero_or_pos n with rfl | hn
  · rfl
  · simp [head?_toDigits_ne_zero hn]

theorem isEmpty_toDigits (n : Nat) : (Nat.toDigits 10 n).isEmpty = false := by
  simp [List.isEmpty_eq_false_iff, Nat.toDigits_ne_nil]

theorem ofChars?_toDigits (n : Nat) :
    ofChars? (Nat.toDigits 10 n) = some (ofWhole false (Nat.toDigits 10 n)) := by
  obtain ⟨c, rest, hc, -, hminus⟩ := Text.exists_toDigits_eq_cons n
  have hsign : (Nat.toDigits 10 n).head? ≠ some '-' := by
    rw [hc]
    exact fun h => hminus (Option.some.inj h)
  simp [ofChars?, hsign, takeWhile_toDigits, needless_toDigits, isEmpty_toDigits, ofTail?]

theorem ofChars?_minus_toDigits (n : Nat) :
    ofChars? ('-' :: Nat.toDigits 10 n) = some (ofWhole true (Nat.toDigits 10 n)) := by
  simp [ofChars?, takeWhile_toDigits, needless_toDigits, isEmpty_toDigits, ofTail?]

/-- **An integer of 64 bits is read from its digits.** -/
theorem ofChars?_toString {n : Int} (hlow : -2 ^ 63 ≤ n) (hhigh : n < 2 ^ 64) :
    ofChars? (toString n).toList = some (.int n) := by
  cases n with
  | ofNat m =>
    have hm : m < UInt64.size := by
      have : (m : Int) < 2 ^ 64 := hhigh
      show m < 2 ^ 64
      omega
    have htext : (toString (Int.ofNat m)).toList = Nat.toDigits 10 m := Nat.toList_repr
    rw [htext, ofChars?_toDigits]
    simp [ofWhole, leadingDigits_toDigits hm]
  | negSucc m =>
    have hm : m + 1 ≤ UInt64.size / 2 := by
      have : (-2 ^ 63 : Int) ≤ -(m + 1 : Nat) := by simpa [Int.negSucc_eq] using hlow
      show m + 1 ≤ 2 ^ 63
      omega
    have hsize : m + 1 < UInt64.size := Nat.lt_of_le_of_lt hm (by decide)
    have hlt : ¬ UInt64.size / 2 < m + 1 := Nat.not_lt.2 hm
    rw [Text.toList_toString_negSucc, ofChars?_minus_toDigits]
    simp [ofWhole, leadingDigits_toDigits hsize, hlt, Int.negSucc_eq]

end Numeral

theorem isBare_of_mem_toString {n : Int} {c : Char} (h : c ∈ (toString n).toList) :
    isBare c = true := by
  rcases Text.mem_toString_int h with rfl | hc
  · decide
  · simp [isBare, hc]

theorem Token.ofBare?_toString {n : Int} (hlow : -2 ^ 63 ≤ n) (hhigh : n < 2 ^ 64) :
    Token.ofBare? (toString n).toList = some (.num (.int n)) := by
  have hplain : ∀ c ∈ (toString n).toList, c ≠ 'n' ∧ c ≠ 't' ∧ c ≠ 'f' := by
    intro c hc
    rcases Text.mem_toString_int hc with rfl | hc
    · decide
    · refine ⟨?_, ?_, ?_⟩ <;> rintro rfl <;> revert hc <;> decide
  have hword : ∀ (c : Char) (s : List Char), (c = 'n' ∨ c = 't' ∨ c = 'f') →
      (toString n).toList ≠ c :: s := by
    intro c s hc heq
    obtain ⟨hn, ht, hf⟩ := hplain c (heq ▸ List.mem_cons_self)
    exact hc.elim hn fun hc => hc.elim ht hf
  rw [Token.ofBare?, if_neg (hword _ _ (by simp)), if_neg (hword _ _ (by simp)),
    if_neg (hword _ _ (by simp)), Numeral.ofChars?_toString hlow hhigh, Option.map_some]

/-! ### How far the lexer has come -/

def lexChars (s : Mode × List Token) (cs : List Char) : Option (Mode × List Token) :=
  cs.foldlM (fun s c => lexGlyph s.1 s.2 (.char c)) s

@[simp] theorem lexChars_nil (s : Mode × List Token) : lexChars s [] = some s := rfl

@[simp] theorem lexChars_cons (s : Mode × List Token) (c : Char) (cs : List Char) :
    lexChars s (c :: cs) = (lexGlyph s.1 s.2 (.char c)).bind fun s => lexChars s cs := rfl

theorem lexChars_append (s : Mode × List Token) (cs cs' : List Char) :
    lexChars s (cs ++ cs') = (lexChars s cs).bind fun s => lexChars s cs' :=
  List.foldlM_append

theorem lexFrom_eq (mode : Mode) (done : List Token) (cs : List Char) :
    lexFrom mode done (cs.map .char) =
      (lexChars (mode, done) cs).bind fun s => lexEnd s.1 s.2 := by
  induction cs generalizing mode done with
  | nil => rfl
  | cons c cs ih =>
    rw [List.map_cons, lexFrom, lexChars_cons]
    cases lexGlyph mode done (.char c) with
    | none => rfl
    | some s => exact ih s.1 s.2

def lexed (out : String) : Option (Mode × List Token) := lexChars (.between, []) out.toList

def Closed (out : String) (ts : List Token) : Prop := lexed out = some (.between, ts.reverse)

/-- The tokens of a text are `ts`. The last of them may be a number or a word that a longer text
would go on with. -/
inductive Ends (out : String) : List Token → Prop where
  | closed {ts : List Token} (h : Closed out ts) : Ends out ts
  | bare {ts : List Token} {t : Token} {rev : List Char}
      (h : lexed out = some (.bare rev, ts.reverse)) (ht : Token.ofBare? rev.reverse = some t) :
      Ends out (ts ++ [t])

section Lexed

variable {out : String} {ts : List Token}

theorem lexed_append (out s : String) :
    lexed (out ++ s) = (lexed out).bind fun st => lexChars st s.toList := by
  rw [lexed, String.toList_append, lexChars_append]
  rfl

theorem lexed_push (out : String) (c : Char) :
    lexed (out.push c) = (lexed out).bind fun st => lexGlyph st.1 st.2 (.char c) := by
  rw [lexed, String.toList_push, lexChars_append]
  refine congrArg _ (funext fun st => ?_)
  simp

theorem lexed_foldl_push (out : String) (cs : List Char) :
    lexed (cs.foldl String.push out) = (lexed out).bind fun st => lexChars st cs := by
  induction cs generalizing out with
  | nil => simp
  | cons c cs ih =>
    rw [List.foldl_cons, ih, lexed_push, Option.bind_assoc]
    rfl

theorem closed_empty : Closed "" [] := rfl

theorem Ends.tokens?_eq (h : Ends out ts) : tokens? (Glyph.ofText out) = some ts := by
  rw [tokens?, Glyph.ofText, lexFrom_eq]
  cases h with
  | closed h =>
    have h : lexChars (.between, []) out.toList = some (.between, ts.reverse) := h
    simp [h, lexEnd]
  | bare h ht =>
    have h : lexChars (.between, []) out.toList = some (.bare _, _) := h
    simp [h, lexEnd, ht]

theorem Ends.push (h : Ends out ts) {c : Char} (hc : isBare c = false) :
    lexed (out.push c) = lexBetween ts.reverse c := by
  cases h with
  | closed h => rw [lexed_push, h, Option.bind_some, lexGlyph]
  | bare h ht => simp [lexed_push, h, lexGlyph, hc, ht]

/-- A bracket, a brace, a colon or a comma. -/
structure IsMark (c : Char) (t : Token) : Prop where
  not_bare : isBare c = false
  lexed : ∀ done, lexBetween done c = some (.between, t :: done)

theorem isMark_leftBracket : IsMark '[' .leftBracket := ⟨by decide, fun _ => rfl⟩
theorem isMark_rightBracket : IsMark ']' .rightBracket := ⟨by decide, fun _ => rfl⟩
theorem isMark_leftBrace : IsMark '\x7b' .leftBrace := ⟨by decide, fun _ => rfl⟩
theorem isMark_rightBrace : IsMark '\x7d' .rightBrace := ⟨by decide, fun _ => rfl⟩
theorem isMark_colon : IsMark ':' .colon := ⟨by decide, fun _ => rfl⟩
theorem isMark_comma : IsMark ',' .comma := ⟨by decide, fun _ => rfl⟩

theorem Ends.mark {c : Char} {t : Token} (h : Ends out ts) (hc : IsMark c t) :
    Closed (out.push c) (ts ++ [t]) := by
  rw [Closed, h.push hc.not_bare, hc.lexed, List.reverse_append]
  rfl

theorem Ends.blank {c : Char} (h : Ends out ts) (hc : c = ' ' ∨ c = '\n') :
    Closed (out.push c) ts := by
  rcases hc with rfl | rfl <;> exact h.push (by decide)

theorem Ends.newLine (h : Ends out ts) (depth : Nat) : Closed (newLine out depth) ts := by
  suffices ∀ n, lexChars (.between, ts.reverse) (List.replicate n ' ') = some (.between, ts.reverse) by
    rw [Closed, Json.newLine, lexed_foldl_push, h.blank (.inr rfl), Option.bind_some, this]
  intro n
  induction n with
  | zero => rfl
  | succ n ih => rw [List.replicate_succ, lexChars_cons]; exact ih

theorem lexChars_bare {cs : List Char} (hcs : ∀ c ∈ cs, isBare c = true) (rev : List Char)
    (done : List Token) : lexChars (.bare rev, done) cs = some (.bare (cs.reverse ++ rev), done) := by
  induction cs generalizing rev with
  | nil => rfl
  | cons c cs ih =>
    obtain ⟨hc, hcs⟩ := List.forall_mem_cons.1 hcs
    simp [lexGlyph, hc, ih hcs]

theorem lexBetween_bare {c : Char} (hc : isBare c = true) (done : List Token) :
    lexBetween done c = some (.bare [c], done) := by
  have hne : ∀ d, isBare d = false → c ≠ d := by
    rintro d hd rfl
    exact Bool.false_ne_true (hd.symm.trans hc)
  simp [lexBetween, hc, hne ' ' (by decide), hne '\n' (by decide), hne '\t' (by decide),
    hne '\r' (by decide), hne '"' (by decide), hne '[' (by decide), hne ']' (by decide),
    hne '\x7b' (by decide), hne '\x7d' (by decide), hne ':' (by decide), hne ',' (by decide)]

theorem Closed.bare {s : String} {t : Token} (h : Closed out ts)
    (hs : ∀ c ∈ s.toList, isBare c = true) (hne : s.toList ≠ [])
    (ht : Token.ofBare? s.toList = some t) : Ends (out ++ s) (ts ++ [t]) := by
  obtain ⟨c, cs, hcs⟩ := List.exists_cons_of_ne_nil hne
  rw [hcs, List.forall_mem_cons] at hs
  have hrun : lexed (out ++ s) = some (.bare (cs.reverse ++ [c]), ts.reverse) := by
    rw [lexed_append, h, Option.bind_some, hcs, lexChars_cons, lexGlyph, lexBetween_bare hs.1,
      Option.bind_some, lexChars_bare hs.2]
  exact .bare hrun (by simpa [← hcs] using ht)

end Lexed

/-! ### Strings -/

theorem hexValue?_hexDigit : ∀ n < 16, Text.hexValue? (Text.hexDigit n) = some n := by decide

theorem pushUnit_control {p : Partial} {n : Nat} (hn : n < 0x20) :
    p.pushUnit n = p.push (Char.ofNat n) := by
  rw [Partial.pushUnit, if_neg (by omega), if_neg (by omega)]

/-- **A character of a string is read as it was written**, escaped or not. -/
theorem lexChars_escapeChar (p : Partial) (done : List Token) (c : Char) :
    lexChars (.string p, done) (escapeChar c) = some (.string (p.push c), done) := by
  unfold escapeChar
  split_ifs with hquote hslash hb ht hn hf hr hcontrol
  · simp [lexGlyph, escaped?, hquote]
  · simp [lexGlyph, escaped?, hslash]
  · simp [lexGlyph, escaped?, hb]
  · simp [lexGlyph, escaped?, ht]
  · simp [lexGlyph, escaped?, hn]
  · simp [lexGlyph, escaped?, hf]
  · simp [lexGlyph, escaped?, hr]
  · have hhigh := hexValue?_hexDigit (c.toNat / 16) (by omega)
    have hlow := hexValue?_hexDigit (c.toNat % 16) (by omega)
    have hzero : Text.hexValue? '0' = some 0 := by decide
    have hvalue : 16 * (c.toNat / 16) + c.toNat % 16 = c.toNat := Nat.div_add_mod _ _
    simp [lexGlyph, hhigh, hlow, hzero, hvalue, pushUnit_control hcontrol]
  · simp [lexGlyph, hquote, hslash, hcontrol]

theorem foldl_push (s : List Char) (p : Partial) (hp : p.high = none) :
    s.foldl Partial.push p = ⟨s.foldl String.push p.text, none, p.intact⟩ := by
  induction s generalizing p with
  | nil => cases p; cases hp; rfl
  | cons c s ih =>
    rw [List.foldl_cons, ih _ rfl]
    simp [Partial.push, hp]

theorem foldl_push_toList (s : String) : s.toList.foldl String.push "" = s := by
  suffices ∀ (cs : List Char) (out : String), (cs.foldl String.push out).toList = out.toList ++ cs from
    String.toList_inj.1 ((this _ _).trans (by simp))
  intro cs
  induction cs with
  | nil => simp
  | cons c cs ih => intro out; simp [ih]

theorem lexed_writeChars {out : String} {p : Partial} {done : List Token}
    (h : lexed out = some (.string p, done)) (s : List Char) :
    lexed (writeChars out s) = some (.string (s.foldl Partial.push p), done) := by
  induction s generalizing out p with
  | nil => exact h
  | cons c s ih =>
    have hc : lexed ((escapeChar c).foldl String.push out) = some (.string (p.push c), done) := by
      rw [lexed_foldl_push, h, Option.bind_some, lexChars_escapeChar]
    exact ih hc

/-- **A written string is one token**, and none of its characters is lost. -/
theorem Ends.writeString {out : String} {ts : List Token} (h : Ends out ts) (s : String) :
    Closed (writeString out s) (ts ++ [.str (some s)]) := by
  have hopen : lexed (out.push '"') = some (.string .empty, ts.reverse) :=
    h.push (by decide)
  rw [Closed, Json.writeString, lexed_push, lexed_writeChars hopen, foldl_push _ _ rfl]
  simp [lexGlyph, Partial.close, Partial.empty, foldl_push_toList]

/-! ### Values -/

/-- A value that its text holds without loss. -/
inductive Exact : Json → Prop where
  | null : Exact .null
  | bool (b : Bool) : Exact (.bool b)
  | int {n : Int} (low : -2 ^ 63 ≤ n) (high : n < 2 ^ 64) : Exact (.int n)
  | str (s : String) : Exact (.str s)
  | arr {items : List Json} (h : ∀ v ∈ items, Exact v) : Exact (.arr items)
  | obj {fields : List (String × Json)} (h : ∀ f ∈ fields, Exact f.2) : Exact (.obj fields)

mutual

/-- The tokens of a value. -/
def tokens : Json → List Token
  | .null => [.null]
  | .bool b => [.bool b]
  | .int n => [.num (.int n)]
  | .real x => [.num (.real (some x))]
  | .str s => [.str (some s)]
  | .arr items => .leftBracket :: (itemTokens true items ++ [.rightBracket])
  | .obj fields => .leftBrace :: (fieldTokens true fields ++ [.rightBrace])

/-- The tokens of the items of an array, with a comma in front of all but the first. -/
def itemTokens (first : Bool) : List Json → List Token
  | [] => []
  | v :: rest => (if first then [] else [.comma]) ++ (tokens v ++ itemTokens false rest)

/-- The tokens of the fields of an object, with a comma in front of all but the first. -/
def fieldTokens (first : Bool) : List (String × Json) → List Token
  | [] => []
  | (k, v) :: rest =>
    (if first then [] else [.comma]) ++
      (.str (some k) :: .colon :: (tokens v ++ fieldTokens false rest))

end

/-- A way to write a value writes its tokens, wherever it may stand. -/
def Writes (emit : String → Json → String) (v : Json) : Prop :=
  ∀ ⦃out : String⦄ ⦃ts : List Token⦄, Closed out ts → Ends (emit out v) (ts ++ v.tokens)

section Compact

variable {out : String} {ts : List Token}

/-- Where an item or a field of the compact text begins: behind a bracket or a brace, or behind a
comma that is written first. -/
theorem closed_comma {first : Bool} (h : Ends out ts) (hfirst : first = true → Closed out ts) :
    Closed (if first then out else out.push ',') (ts ++ if first then [] else [.comma]) := by
  cases first with
  | true => simpa using hfirst rfl
  | false => simpa using h.mark isMark_comma

theorem writeItems_ends {items : List Json} (hw : ∀ v ∈ items, Writes write v) (first : Bool)
    (h : Ends out ts) (hfirst : first = true → Closed out ts) :
    Ends (writeItems out first items) (ts ++ itemTokens first items) := by
  induction items generalizing out ts first with
  | nil => simpa [writeItems, itemTokens] using h
  | cons v items ih =>
    obtain ⟨hv, hw⟩ := List.forall_mem_cons.1 hw
    have hvalue := hv (closed_comma h hfirst)
    simpa [writeItems, itemTokens, List.append_assoc] using ih hw false hvalue (by simp)

theorem writeFields_ends {fields : List (String × Json)} (hw : ∀ f ∈ fields, Writes write f.2)
    (first : Bool) (h : Ends out ts) (hfirst : first = true → Closed out ts) :
    Ends (writeFields out first fields) (ts ++ fieldTokens first fields) := by
  induction fields generalizing out ts first with
  | nil => simpa [writeFields, fieldTokens] using h
  | cons f fields ih =>
    obtain ⟨k, v⟩ := f
    obtain ⟨hv, hw⟩ := List.forall_mem_cons.1 hw
    have hkey := (Ends.closed (closed_comma h hfirst)).writeString k
    have hvalue := hv ((Ends.closed hkey).mark isMark_colon)
    simpa [writeFields, fieldTokens, List.append_assoc] using ih hw false hvalue (by simp)

end Compact

/-- **The compact text of a value has its tokens.** -/
theorem write_ends {v : Json} (hv : Exact v) : Writes write v := by
  induction hv with
  | null =>
    intro out ts h
    exact h.bare (List.all_eq_true.1 rfl) (by decide) (by decide)
  | bool b =>
    intro out ts h
    cases b with
    | true => exact h.bare (List.all_eq_true.1 rfl) (by decide) (by decide)
    | false => exact h.bare (List.all_eq_true.1 rfl) (by decide) (by decide)
  | @int n low high =>
    intro out ts h
    have hne : (toString n).toList ≠ [] := (Text.isWord_int n).ne_nil
    exact h.bare (fun c hc => isBare_of_mem_toString hc) hne (Token.ofBare?_toString low high)
  | str s =>
    intro out ts h
    exact .closed ((Ends.closed h).writeString s)
  | @arr items _ ih =>
    intro out ts h
    have hopen := (Ends.closed h).mark isMark_leftBracket
    have hitems := writeItems_ends ih true (.closed hopen) fun _ => hopen
    simpa [write, tokens, List.append_assoc] using Ends.closed (hitems.mark isMark_rightBracket)
  | @obj fields _ ih =>
    intro out ts h
    have hopen := (Ends.closed h).mark isMark_leftBrace
    have hfields := writeFields_ends ih true (.closed hopen) fun _ => hopen
    simpa [write, tokens, List.append_assoc] using Ends.closed (hfields.mark isMark_rightBrace)

/-! ### Indented values -/

section Indented

variable {out : String} {ts : List Token}

theorem writeIndentedItems_ends {items : List Json} {depth : Nat}
    (hw : ∀ v ∈ items, Writes (writeIndented (depth + 1)) v) (h : Ends out ts) :
    Ends (writeIndentedItems depth out items) (ts ++ itemTokens false items) := by
  induction items generalizing out ts with
  | nil => simpa [writeIndentedItems, itemTokens] using h
  | cons v items ih =>
    obtain ⟨hv, hw⟩ := List.forall_mem_cons.1 hw
    have hvalue := hv ((Ends.closed (h.mark isMark_comma)).newLine (depth + 1))
    simpa [writeIndentedItems, itemTokens, List.append_assoc] using ih hw hvalue

theorem Closed.indentedKey (h : Closed out ts) (k : String) :
    Closed (writeString out k ++ ": ") (ts ++ [.str (some k), .colon]) := by
  have hkey := (Ends.closed h).writeString k
  have hcolon := (Ends.closed hkey).mark isMark_colon
  have htext : writeString out k ++ ": " = ((writeString out k).push ':').push ' ' := by
    simp [← String.toList_inj]
  rw [htext]
  simpa using (Ends.closed hcolon).blank (.inl rfl)

theorem writeIndentedFields_ends {fields : List (String × Json)} {depth : Nat}
    (hw : ∀ f ∈ fields, Writes (writeIndented (depth + 1)) f.2) (h : Ends out ts) :
    Ends (writeIndentedFields depth out fields) (ts ++ fieldTokens false fields) := by
  induction fields generalizing out ts with
  | nil => simpa [writeIndentedFields, fieldTokens] using h
  | cons f fields ih =>
    obtain ⟨k, v⟩ := f
    obtain ⟨hv, hw⟩ := List.forall_mem_cons.1 hw
    have hline := (Ends.closed (h.mark isMark_comma)).newLine (depth + 1)
    have hvalue := hv (hline.indentedKey k)
    simpa [writeIndentedFields, fieldTokens, List.append_assoc] using ih hw hvalue

end Indented

/-- **The indented text of a value has its tokens.** -/
theorem writeIndented_ends {v : Json} (hv : Exact v) (depth : Nat) :
    Writes (writeIndented depth) v := by
  induction hv generalizing depth with
  | null => simpa [Writes, writeIndented] using write_ends .null
  | bool b => simpa [Writes, writeIndented] using write_ends (.bool b)
  | int low high => simpa [Writes, writeIndented] using write_ends (.int low high)
  | str s => simpa [Writes, writeIndented] using write_ends (.str s)
  | @arr items _ ih =>
    intro out ts h
    have hopen := (Ends.closed h).mark isMark_leftBracket
    cases items with
    | nil =>
      have hclose := (Ends.closed hopen).mark isMark_rightBracket
      have htext : out ++ "[]" = (out.push '[').push ']' := by simp [← String.toList_inj]
      simpa [writeIndented, tokens, itemTokens, htext] using Ends.closed hclose
    | cons v items =>
      obtain ⟨hv, hw⟩ := List.forall_mem_cons.1 ih
      -- the first item stands behind a new line, every other one behind a comma as well
      have hfirst := hv (depth + 1) ((Ends.closed hopen).newLine (depth + 1))
      have hitems := writeIndentedItems_ends (fun v hv => hw v hv (depth + 1)) hfirst
      have hclose := (Ends.closed (hitems.newLine depth)).mark isMark_rightBracket
      simpa [writeIndented, tokens, itemTokens, List.append_assoc] using Ends.closed hclose
  | @obj fields _ ih =>
    intro out ts h
    have hopen := (Ends.closed h).mark isMark_leftBrace
    cases fields with
    | nil =>
      have hclose := (Ends.closed hopen).mark isMark_rightBrace
      simpa [writeIndented, tokens, fieldTokens] using Ends.closed hclose
    | cons f fields =>
      obtain ⟨k, v⟩ := f
      obtain ⟨hv, hw⟩ := List.forall_mem_cons.1 ih
      have hline := (Ends.closed hopen).newLine (depth + 1)
      have hfirst := hv (depth + 1) (hline.indentedKey k)
      have hfields := writeIndentedFields_ends (fun f hf => hw f hf (depth + 1)) hfirst
      have hclose := (Ends.closed (hfields.newLine depth)).mark isMark_rightBrace
      simpa [writeIndented, tokens, fieldTokens, List.append_assoc] using Ends.closed hclose

end Confine.Json
