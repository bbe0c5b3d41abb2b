import Confine.Proofs.Output.Captured
import Mathlib.Data.List.Forall2

/-!
# What is kept of a long line

A character is left out if its line would get too long with it, and it does not matter whether one before it was left
out. So a long line keeps its longest beginning that is not too long, and of what comes behind it what still fits.

* `Capture.cut` — the longest beginning of a line that has so many bytes at most (`Capture.prefix_cut`);
* `Capture.foldl_extend_eq` — what is kept of a line begins with it;
* `Capture.lines_cut` — **what a capture keeps of the lines that were written**, and when it is their longest beginning;
* `Capture.not_lines_cut` — a line that loses a character of two bytes, and keeps the next.
-/

namespace Confine.Capture

/-! ### The lines that were written -/

/-- The lines that characters complete behind others, as they were written: one for each newline. -/
def writtenAfter (before : List WrittenChar) : List WrittenChar → List (List WrittenChar)
  | [] => []
  | x :: l =>
    if x.char = '\n' then sinceNewline x.console before :: writtenAfter (before ++ [x]) l
    else writtenAfter (before ++ [x]) l

/-- The line that a stream is left in, if it has characters. -/
def leftOpen (c : Console) (l : List WrittenChar) : List (List WrittenChar) :=
  match sinceNewline c l with
  | [] => []
  | x :: line => [x :: line]

/-- **The lines that were written**, in the order of `printed`: the characters of a stream between newlines, without
carriage returns. -/
def written (l : List WrittenChar) : List (List WrittenChar) :=
  writtenAfter [] l ++ leftOpen .stdout l ++ leftOpen .stderr l

def bytes (line : List WrittenChar) : Nat := (textOf line).utf8ByteSize

@[simp] theorem bytes_nil : bytes [] = 0 := rfl

@[simp] theorem bytes_append (l l' : List WrittenChar) : bytes (l ++ l') = bytes l + bytes l' := by
  simp [bytes, textOf, String.ofList_append]

@[simp] theorem bytes_cons (x : WrittenChar) (l : List WrittenChar) :
    bytes (x :: l) = x.char.utf8Size + bytes l := by
  have h := bytes_append [x] l
  have hx : bytes [x] = x.char.utf8Size := by
    simp [bytes, textOf]
  rwa [List.singleton_append, hx] at h

theorem bytes_replicate (n : Nat) (x : WrittenChar) : bytes (List.replicate n x) = n * x.char.utf8Size := by
  induction n with
  | zero => rw [List.replicate_zero, bytes_nil, Nat.zero_mul]
  | succ n ih => rw [List.replicate_succ, bytes_cons, ih, Nat.succ_mul, Nat.add_comm]

/-! ### The longest beginning -/

/-- The longest beginning of a line that has `room` bytes at most. -/
def cut (room : Nat) : List WrittenChar → List WrittenChar
  | [] => []
  | x :: line => if x.char.utf8Size ≤ room then x :: cut (room - x.char.utf8Size) line else []

theorem cut_isPrefix (room : Nat) (line : List WrittenChar) : cut room line <+: line := by
  induction line generalizing room with
  | nil => exact List.nil_prefix
  | cons x line ih =>
    rw [cut]
    split
    · exact (List.prefix_cons_inj x).2 (ih _)
    · exact List.nil_prefix

theorem bytes_cut_le (room : Nat) (line : List WrittenChar) : bytes (cut room line) ≤ room := by
  induction line generalizing room with
  | nil => exact Nat.zero_le _
  | cons x line ih =>
    rw [cut]
    split
    · have h := ih (room - x.char.utf8Size)
      rw [bytes_cons]
      omega
    · exact Nat.zero_le _

/-- **No longer beginning has so few bytes.** -/
theorem prefix_cut {room : Nat} {line front : List WrittenChar} (h : front <+: line) (hroom : bytes front ≤ room) :
    front <+: cut room line := by
  induction line generalizing room front with
  | nil =>
    rw [List.prefix_nil.1 h]
    exact List.nil_prefix
  | cons x line ih =>
    cases front with
    | nil => exact List.nil_prefix
    | cons y front =>
      obtain ⟨rfl, hrest⟩ := List.cons_prefix_cons.1 h
      rw [bytes_cons] at hroom
      rw [cut, if_pos (by omega)]
      exact (List.prefix_cons_inj y).2 (ih hrest (by omega))

/-- The character behind the longest beginning is too long for it. -/
theorem lt_bytes_of_drop_cut {room : Nat} {line rest : List WrittenChar} {x : WrittenChar}
    (h : line.drop (cut room line).length = x :: rest) : room < bytes (cut room line) + x.char.utf8Size := by
  induction line generalizing room with
  | nil => cases h
  | cons y line ih =>
    rw [cut] at h ⊢
    split at h
    · next hy =>
      have hrest := ih h
      rw [if_pos hy, bytes_cons]
      omega
    · next hy =>
      obtain ⟨rfl, -⟩ := List.cons.inj h
      rw [if_neg hy, bytes_nil]
      omega

theorem cut_append {room : Nat} {l : List WrittenChar} (h : bytes l ≤ room) (l' : List WrittenChar) :
    cut room (l ++ l') = l ++ cut (room - bytes l) l' := by
  induction l generalizing room with
  | nil => rfl
  | cons x l ih =>
    rw [bytes_cons] at h ⊢
    have hrest := @ih (room - x.char.utf8Size) (by omega)
    rw [List.cons_append, cut, if_pos (by omega), hrest, Nat.sub_sub, List.cons_append]

/-! ### What is kept of a line -/

theorem extend_eq (line : List WrittenChar) (x : WrittenChar) :
    extend line x = if maxLineBytes < bytes line + x.char.utf8Size then line else line ++ [x] := rfl

theorem exists_foldl_extend (line l : List WrittenChar) :
    ∃ more, l.foldl extend line = line ++ more ∧ more.Sublist l := by
  induction l generalizing line with
  | nil => exact ⟨[], by simp, .slnil⟩
  | cons x l ih =>
    obtain ⟨more, hmore, hsub⟩ := ih (extend line x)
    rw [List.foldl_cons, hmore, extend_eq]
    split
    · exact ⟨more, rfl, hsub.cons x⟩
    · exact ⟨x :: more, by simp, hsub.cons_cons x⟩

/-- **What is kept of a line begins with its longest beginning.** -/
theorem foldl_extend_eq {line : List WrittenChar} {room : Nat} (h : bytes line + room = maxLineBytes)
    (l : List WrittenChar) :
    l.foldl extend line = (l.drop (cut room l).length).foldl extend (line ++ cut room l) := by
  induction l generalizing line room with
  | nil => simp [cut]
  | cons x l ih =>
    rw [cut]
    split
    · next hx =>
      have hextend : extend line x = line ++ [x] := by
        rw [extend_eq, if_neg (by omega)]
      have hrest := @ih (line ++ [x]) (room - x.char.utf8Size) (by simp; omega)
      rw [List.foldl_cons, hextend, hrest]
      simp
    · simp

theorem foldl_extend_eq_self_iff {line l : List WrittenChar} :
    l.foldl extend line = line ↔ ∀ x ∈ l, maxLineBytes < bytes line + x.char.utf8Size := by
  induction l with
  | nil => simp
  | cons x l ih =>
    rw [List.foldl_cons, extend_eq, List.forall_mem_cons]
    split
    · next hx => exact ih.trans (and_iff_right hx).symm
    · next hx =>
      refine iff_of_false (fun h => ?_) fun h => hx h.1
      -- a character that has been kept is not lost again
      obtain ⟨more, hmore, -⟩ := exists_foldl_extend (line ++ [x]) l
      have hlength := congrArg List.length (hmore.symm.trans h)
      simp at hlength

/-- **What a line keeps.** -/
structure CutOf (w : List WrittenChar) (line : OutputLine) : Prop where
  /-- nothing but what was written, in its order -/
  sublist : line.text.toList.Sublist (textOf w).toList
  fits : line.text.utf8ByteSize ≤ maxLineBytes
  /-- the longest beginning that is not too long -/
  begins : (textOf (cut maxLineBytes w)).toList <+: line.text.toList
  /-- and three bytes more at most -/
  few : line.text.utf8ByteSize ≤ bytes (cut maxLineBytes w) + 3
  /-- and nothing more exactly if no character behind this beginning fits behind it -/
  exact : line.text = textOf (cut maxLineBytes w) ↔ ∀ x ∈ w.drop (cut maxLineBytes w).length,
    maxLineBytes < bytes (cut maxLineBytes w) + x.char.utf8Size

theorem toList_textOf (l : List WrittenChar) : (textOf l).toList = l.map (·.char) := String.toList_ofList

theorem cutOf_foldl_extend {w : List WrittenChar} {line : OutputLine} (h : line.text = textOf (w.foldl extend [])) :
    CutOf w line := by
  have hfits : line.text.utf8ByteSize ≤ maxLineBytes := h ▸ textOf_foldl_extend_le w
  obtain ⟨all, hall, hsub⟩ := exists_foldl_extend [] w
  have hcut : w.foldl extend [] = (w.drop (cut maxLineBytes w).length).foldl extend (cut maxLineBytes w) :=
    foldl_extend_eq (Nat.zero_add _) w
  obtain ⟨more, hmore, hrest⟩ := exists_foldl_extend (cut maxLineBytes w) (w.drop (cut maxLineBytes w).length)
  have hline : line.text = textOf (cut maxLineBytes w ++ more) := by rw [h, hcut, hmore]
  refine ⟨?_, hfits, ?_, ?_, ?_⟩
  · -- what is kept is kept in order
    rw [h, toList_textOf, toList_textOf, hall]
    exact hsub.map _
  · -- the longest beginning that fits is kept whole
    rw [hline, toList_textOf, toList_textOf, List.map_append]
    exact List.prefix_append _ _
  · -- where the beginning stops, a character is too long for it, and it has four bytes at most
    cases hdrop : w.drop (cut maxLineBytes w).length with
    | nil =>
      rw [hdrop, List.sublist_nil] at hrest
      rw [hline, hrest, List.append_nil]
      exact Nat.le_add_right _ _
    | cons x rest =>
      have hlt := lt_bytes_of_drop_cut hdrop
      have hfour := x.char.utf8Size_le_four
      omega
  · -- nothing was kept behind it exactly if the text is no longer
    rw [← foldl_extend_eq_self_iff, hmore, hline]
    constructor
    · intro heq
      have hlength := congrArg (fun s : String => s.toList.length) heq
      simp only [toList_textOf, List.length_map, List.length_append] at hlength
      rw [List.eq_nil_of_length_eq_zero (by omega : more.length = 0), List.append_nil]
    · intro heq
      rw [heq]

/-! ### All lines -/

theorem cutOf_lineEnding (c : Console) (l : List WrittenChar) (stop : LineStart) :
    CutOf (sinceNewline c l) (lineEnding c l stop) := cutOf_foldl_extend rfl

theorem forall₂_completedAfter (before l : List WrittenChar) :
    List.Forall₂ CutOf (writtenAfter before l) (completedAfter before l) := by
  induction l generalizing before with
  | nil => exact .nil
  | cons x l ih =>
    rw [writtenAfter, completedAfter]
    split
    · exact .cons (cutOf_lineEnding _ _ _) (ih _)
    · exact ih _

theorem forall₂_unfinished (c : Console) (l : List WrittenChar) :
    List.Forall₂ CutOf (leftOpen c l) (unfinished c l) := by
  have hnil := currentLine_eq_nil_iff c l
  have hcut := cutOf_lineEnding c l
  unfold leftOpen unfinished
  cases hline : sinceNewline c l with
  | nil =>
    rw [hnil.2 hline]
    exact .nil
  | cons x line =>
    cases hcurrent : currentLine c l with
    | nil => simp [hline] at hnil; exact absurd hcurrent hnil
    | cons y current => exact .cons (hline ▸ hcut y.mark) .nil

theorem forall₂_printed (l : List WrittenChar) : List.Forall₂ CutOf (written l) (printed l) :=
  List.rel_append (List.rel_append (forall₂_completedAfter [] l) (forall₂_unfinished .stdout l))
    (forall₂_unfinished .stderr l)

/-- **What a capture keeps of the lines that were written.** The captured lines are the first ones that were written, and
each keeps its longest beginning that is not too long. Of what comes behind it, a line keeps characters that still fit;
it is that beginning exactly if no character of the rest fits behind it. -/
theorem lines_cut (max : Nat) (ws : List WrittenText) :
    List.Forall₂ CutOf ((written (ws.flatMap WrittenText.chars)).take max)
      ((Capture.start max).writeAll ws).finish.1.1 := by
  rw [((Heard.start max).writeAll ws).lines_finish]
  exact List.forall₂_take max (forall₂_printed _)

/-- A text without line breaks is one line. -/
theorem written_of_forall {l : List WrittenChar} (hne : l ≠ [])
    (h : ∀ x ∈ l, x.console = .stdout ∧ x.char ≠ '\n' ∧ x.char ≠ '\r') : written l = [l] := by
  have hnone (before : List WrittenChar) : writtenAfter before l = [] := by
    clear hne
    induction l generalizing before with
    | nil => rfl
    | cons x l ih =>
      rw [writtenAfter, if_neg (h x List.mem_cons_self).2.1]
      exact ih (fun y hy => h y (List.mem_cons_of_mem x hy)) _
  have hout : sinceNewline .stdout l = l := by
    have hall : l.filter (·.console = .stdout) = l := List.filter_eq_self.2 fun x hx => by simp [h x hx]
    have htake : l.rtakeWhile (·.char ≠ '\n') = l := List.rtakeWhile_eq_self_iff.2 fun x hx => by simp [h x hx]
    rw [sinceNewline, hall, htake]
    exact List.filter_eq_self.2 fun x hx => by simp [h x hx]
  have herr : sinceNewline .stderr l = [] := by
    have hall : l.filter (·.console = .stderr) = [] := List.filter_eq_nil_iff.2 fun x hx => by simp [h x hx]
    rw [sinceNewline, hall]
    rfl
  rw [written, hnone, leftOpen, leftOpen, hout, herr]
  cases l with
  | nil => exact absurd rfl hne
  | cons x l => rfl

/-- **A line is not cut at the character that is too long for it**: one byte short of the limit it loses a character of
two bytes, and keeps the next one, which has one byte. -/
theorem not_lines_cut :
    ¬ ∀ (max : Nat) (ws : List WrittenText), 1 ≤ max →
      List.Forall₂ (fun w line => line.text = textOf (cut maxLineBytes w))
        ((written (ws.flatMap WrittenText.chars)).take max) ((Capture.start max).writeAll ws).finish.1.1 := by
  intro h
  obtain ⟨n, hn⟩ : ∃ n, n + 1 = maxLineBytes := ⟨65535, rfl⟩
  let char (c : Char) : WrittenChar := ⟨.stdout, c, default⟩
  let ws : List WrittenText := [⟨.stdout, .ofList (List.replicate n 'a' ++ ['é', 'b']), default⟩]
  let line := List.replicate n (char 'a') ++ [char 'é', char 'b']
  have hchars : ws.flatMap WrittenText.chars = line := by
    simp [ws, line, char, WrittenText.chars]
  have hwritten : written line = [line] := by
    refine written_of_forall (by simp [line]) fun x hx => ?_
    simp only [line, List.mem_append, List.mem_replicate, List.mem_cons, List.not_mem_nil, or_false] at hx
    rcases hx with ⟨-, rfl⟩ | rfl | rfl <;> simp [char]
  have hfront : bytes (List.replicate n (char 'a')) = n := by
    rw [bytes_replicate]
    exact Nat.mul_one n
  have hcut : cut maxLineBytes line = List.replicate n (char 'a') := by
    rw [← hn, cut_append (by omega), hfront, Nat.add_sub_cancel_left]
    exact List.append_nil _
  have hkept := h 1 ws (Nat.le_refl 1)
  have hprinted := forall₂_printed line
  rw [((Heard.start 1).writeAll ws).lines_finish, List.nil_append, hchars, hwritten] at hkept
  rw [hwritten] at hprinted
  obtain ⟨kept, rest, hof, -, hlines⟩ := List.forall₂_cons_left_iff.1 hprinted
  rw [hlines] at hkept
  have htext := (List.forall₂_cons.1 hkept).1
  have hdrop : line.drop (cut maxLineBytes line).length = [char 'é', char 'b'] := by
    rw [hcut]
    exact List.drop_left
  have hlong := hof.exact.1 htext (char 'b') (by rw [hdrop]; simp)
  rw [hcut, hfront, ← hn] at hlong
  exact Nat.lt_irrefl _ hlong

end Confine.Capture
