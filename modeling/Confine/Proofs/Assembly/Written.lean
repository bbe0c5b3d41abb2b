import Confine.Assembly.Disassembler
import Confine.Proofs.Text.Numeral

/-!
# Lines of assembly text read back

* `Assembly.Token.ofLine_chars` — the tokens of a line are read from its characters;
* `Assembly.lines_linesText` — the lines of a text are those that it was written from.

Both need words without blanks, semicolons or a quote in front (`Token.Writable`); strings may be any.
-/

namespace Confine.Assembly

open Text (IsWord isBlank)

/-! ### Tokens -/

theorem TokenLine.spaced_cons_cons (t u : Token) (rest : List Token) :
    spaced (t :: u :: rest) = t.render ++ ' ' :: spaced (u :: rest) := by
  simp [spaced, List.intercalate_cons_cons]

namespace Token

/-- The token reads back: it is a string, or really a word. -/
def Writable : Token → Prop
  | word s => IsWord s
  | str _ => True

@[simp] theorem writable_word {s : String} : (word s).Writable ↔ IsWord s := Iff.rfl

@[simp] theorem writable_str (s : String) : (str s).Writable := trivial

/-- What may follow a token: a blank, or nothing. -/
def Ends (rest : List Char) : Prop := rest = [] ∨ ∃ r, rest = ' ' :: r

attribute [local simp] readFrom

theorem readFrom_word {cs : List Char} (h : ∀ c ∈ cs, isBlank c = false ∧ c ≠ ';') (rev : List Char)
    (done : List Token) (rest : List Char) :
    readFrom (.word rev) done (cs ++ rest) = readFrom (.word (cs.reverse ++ rev)) done rest := by
  induction cs generalizing rev with
  | nil => rfl
  | cons c cs ih =>
    obtain ⟨hb, hs⟩ := h c (by simp)
    have hcs := ih (fun c hc => h c (.tail _ hc)) (c :: rev)
    rw [List.cons_append, readFrom]
    simp only [hb, hs, Bool.false_eq_true, if_false, hcs]
    simp

theorem readFrom_word_end {rest : List Char} (h : Ends rest) (rev : List Char) (done : List Token) :
    readFrom (.word rev) done rest =
      readFrom .between (word (String.ofList rev.reverse) :: done) rest.tail := by
  rcases h with rfl | ⟨r, rfl⟩
  · simp
  · have hb : isBlank ' ' = true := by decide
    simp [hb]

theorem readFrom_escapeChar (c : Char) (rev : List Char) (done : List Token) (rest : List Char) :
    readFrom (.str rev) done (escapeChar c ++ rest) = readFrom (.str (c :: rev)) done rest := by
  unfold escapeChar
  split_ifs with hn hr ht hq hb
  · subst hn; rfl
  · subst hr; rfl
  · subst ht; rfl
  · subst hq; rfl
  · subst hb; rfl
  · simp [hq, hb]

theorem readFrom_str (s : List Char) (rev : List Char) (done : List Token) (rest : List Char) :
    readFrom (.str rev) done (s.flatMap escapeChar ++ '"' :: rest) =
      readFrom .between (str (String.ofList (rev.reverse ++ s)) :: done) rest := by
  induction s generalizing rev with
  | nil => simp
  | cons c s ih =>
    rw [List.flatMap_cons, List.append_assoc, readFrom_escapeChar, ih]
    simp

/-- **A token is read from what it is written as**, with the blank behind it. -/
theorem readFrom_render {t : Token} (ht : t.Writable) {rest : List Char} (h : Ends rest)
    (done : List Token) :
    readFrom .between done (t.render ++ rest) = readFrom .between (t :: done) rest.tail := by
  cases t with
  | word s =>
    obtain ⟨hne, hplain, hhead⟩ := ht
    cases hs : s.toList with
    | nil => exact absurd hs hne
    | cons c cs =>
      rw [hs] at hplain hhead
      obtain ⟨hb, hsemi⟩ := hplain c (by simp)
      have hquote : c ≠ '"' := fun hq => hhead (by simp [hq])
      have hplain' : ∀ c ∈ cs, isBlank c = false ∧ c ≠ ';' := fun c hc => hplain c (.tail _ hc)
      have hcs := readFrom_word hplain' [c] done rest
      rw [render, hs, List.cons_append, readFrom]
      simp only [hb, hsemi, hquote, Bool.false_eq_true, if_false]
      rw [hcs, readFrom_word_end h]
      simp [← hs]
  | str s =>
    have hb : isBlank '"' = false := by decide
    rw [render, List.cons_append, List.append_assoc, List.singleton_append, readFrom]
    simp only [hb, Bool.false_eq_true, if_false, if_true, Char.reduceEq]
    rw [readFrom_str]
    rcases h with rfl | ⟨r, rfl⟩
    · simp
    · have hspace : isBlank ' ' = true := by decide
      simp [hspace]

theorem readFrom_spaced {tokens : List Token} (h : ∀ t ∈ tokens, t.Writable) (done : List Token) :
    readFrom .between done (TokenLine.spaced tokens) = .ok (done.reverse ++ tokens) := by
  induction tokens generalizing done with
  | nil => simp [TokenLine.spaced]
  | cons t rest ih =>
    have ht := h t (by simp)
    have hrest := ih (fun t ht => h t (by simp [ht])) (t :: done)
    cases rest with
    | nil =>
      have hone := readFrom_render ht (.inl rfl) done
      simpa [TokenLine.spaced] using hone
    | cons u rest =>
      rw [TokenLine.spaced_cons_cons, readFrom_render ht (.inr ⟨_, rfl⟩), List.tail_cons, hrest]
      simp

/-- **The tokens of a line are read from its characters.** -/
theorem ofLine_chars {l : TokenLine} (h : ∀ t ∈ l.tokens, t.Writable) :
    ofLine l.chars = .ok l.tokens := by
  have hb : isBlank ' ' = true := by decide
  have hspaced := readFrom_spaced h []
  unfold ofLine TokenLine.chars
  cases l.indented with
  | false => simpa using hspaced
  | true => simpa [hb] using hspaced

/-! ### Characters of a line -/

theorem plain_escapeChar (c : Char) : ∀ d ∈ escapeChar c, d ≠ '\n' ∧ d ≠ '\r' := by
  intro d hd
  unfold escapeChar at hd
  split_ifs at hd with hn hr ht hq hb <;> simp only [List.mem_cons, List.not_mem_nil, or_false] at hd
  · rcases hd with rfl | rfl <;> decide
  · rcases hd with rfl | rfl <;> decide
  · rcases hd with rfl | rfl <;> decide
  · rcases hd with rfl | rfl <;> decide
  · rcases hd with rfl | rfl <;> decide
  · exact hd ▸ ⟨hn, hr⟩

theorem plain_render {t : Token} (h : t.Writable) : ∀ c ∈ t.render, c ≠ '\n' ∧ c ≠ '\r' := by
  cases t with
  | word s =>
    intro c hc
    have hb := (h.plain c hc).1
    constructor <;> rintro rfl <;> revert hb <;> decide
  | str s =>
    intro c hc
    simp only [render, List.mem_cons, List.mem_append, List.mem_flatMap, List.not_mem_nil,
      or_false] at hc
    rcases hc with rfl | ⟨d, -, hd⟩ | rfl
    · decide
    · exact plain_escapeChar d c hd
    · decide

end Token

theorem TokenLine.plain_chars {l : TokenLine} (h : ∀ t ∈ l.tokens, t.Writable) :
    ∀ c ∈ l.chars, c ≠ '\n' ∧ c ≠ '\r' := by
  have hspaced : ∀ {tokens : List Token}, (∀ t ∈ tokens, t.Writable) →
      ∀ c ∈ spaced tokens, c ≠ '\n' ∧ c ≠ '\r' := by
    intro tokens ht c hc
    induction tokens with
    | nil => simp [spaced] at hc
    | cons t rest ih =>
      have hrender := Token.plain_render (ht t (by simp)) c
      cases rest with
      | nil => exact hrender (by simpa [spaced] using hc)
      | cons u rest =>
        rw [spaced_cons_cons, List.mem_append, List.mem_cons] at hc
        rcases hc with hc | rfl | hc
        · exact hrender hc
        · decide
        · exact ih (fun t h => ht t (.tail _ h)) hc
  intro c hc
  rw [chars, List.mem_append] at hc
  rcases hc with hc | hc
  · split at hc
    · simp only [List.mem_cons, List.not_mem_nil, or_false, or_self] at hc
      exact hc ▸ by decide
    · cases hc
  · exact hspaced h c hc

/-! ### Lines -/

theorem toList_linesText (ls : List TokenLine) :
    (linesText ls).toList = (ls.map TokenLine.chars).flatMap (· ++ ['\n']) := by
  have pushes : ∀ (cs : List Char) (out : String), (cs.foldl String.push out).toList = out.toList ++ cs := by
    intro cs
    induction cs with
    | nil => simp
    | cons c cs ih => simp [ih]
  suffices ∀ out : String, (ls.foldl (fun out l => (l.chars.foldl String.push out).push '\n') out).toList =
      out.toList ++ (ls.map TokenLine.chars).flatMap (· ++ ['\n']) from by simpa [linesText] using this ""
  induction ls with
  | nil => simp
  | cons l ls ih =>
    intro out
    rw [List.foldl_cons, ih]
    simp [pushes]

/-- **The lines of a text are those that it was written from.** -/
theorem lines_linesText {ls : List TokenLine} (h : ∀ l ∈ ls, ∀ t ∈ l.tokens, t.Writable) :
    Text.lines (linesText ls).toList = ls.map TokenLine.chars := by
  rw [toList_linesText]
  refine Text.lines_flatMap fun cs hcs => ?_
  obtain ⟨l, hl, rfl⟩ := List.mem_map.1 hcs
  have hplain := TokenLine.plain_chars (h l hl)
  exact ⟨fun hn => (hplain _ hn).1 rfl, fun hr => (hplain _ (List.mem_of_getLast? hr)).2 rfl⟩

end Confine.Assembly
