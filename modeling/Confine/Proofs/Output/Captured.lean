import Confine.Output.Capture
import Mathlib.Data.List.DropRight

/-!
# What is kept of the output

`Capture.printed l` — the lines that the characters `l` make up, written on two streams by any threads in any order: the
line before each newline, then what is left on each stream. The capture is compared with them.

* `Capture.Heard.writeChar` — a character keeps the capture what the characters so far say that it is;
* `Capture.lines_eq_take_printed` — **the lines that a capture gives are the first ones that were printed**, none is too
  long, and what is written after the end changes nothing;
* `Capture.truncated_eq_zero_iff` — **when no line is reported to be dropped**: a capture that is full does not hear what
  is begun after its last line, and neither keeps nor counts it.
-/

namespace Confine

/-- A character of the output: on which stream, when and by which thread it was written. -/
structure WrittenChar where
  console : Console
  char : Char
  mark : LineStart
  deriving DecidableEq, Repr

/-- A text, written on a stream. -/
structure WrittenText where
  console : Console
  text : String
  mark : LineStart
  deriving DecidableEq, Repr

def WrittenText.chars (w : WrittenText) : List WrittenChar :=
  w.text.toList.map (⟨w.console, ·, w.mark⟩)

namespace Capture

def writeAll (s : Capture) (ws : List WrittenText) : Capture :=
  ws.foldl (fun s w => s.write w.console w.text w.mark) s

def writeChars (s : Capture) (l : List WrittenChar) : Capture :=
  l.foldl (fun s x => s.writeChar x.console x.mark x.char) s

/-! ### What was printed -/

def textOf (l : List WrittenChar) : String := .ofList (l.map (·.char))

/-- A line with one character more, if the line does not get too long. -/
def extend (line : List WrittenChar) (x : WrittenChar) : List WrittenChar :=
  if maxLineBytes < (textOf line).utf8ByteSize + x.char.utf8Size then line else line ++ [x]

/-- The characters of a stream since its last newline, without carriage returns. -/
def sinceNewline (c : Console) (l : List WrittenChar) : List WrittenChar :=
  ((l.filter (·.console = c)).rtakeWhile (·.char ≠ '\n')).filter (·.char ≠ '\r')

/-- The line that a stream is in, without the characters that would make it too long. -/
def currentLine (c : Console) (l : List WrittenChar) : List WrittenChar :=
  (sinceNewline c l).foldl extend []

/-- The line that a stream is in, as output. It starts with its first character, or with its end if it has none. -/
def lineEnding (c : Console) (l : List WrittenChar) (stop : LineStart) : OutputLine :=
  let start := ((currentLine c l).head?.map (·.mark)).getD stop
  ⟨c, textOf (currentLine c l), start.time, start.thread⟩

/-- The lines that characters complete behind others: one for each newline. -/
def completedAfter (before : List WrittenChar) : List WrittenChar → List OutputLine
  | [] => []
  | x :: l =>
    if x.char = '\n' then lineEnding x.console before x.mark :: completedAfter (before ++ [x]) l
    else completedAfter (before ++ [x]) l

def completed (l : List WrittenChar) : List OutputLine := completedAfter [] l

/-- The line that a stream is left in, if it has characters. -/
def unfinished (c : Console) (l : List WrittenChar) : List OutputLine :=
  match currentLine c l with
  | [] => []
  | x :: _ => [lineEnding c l x.mark]

/-- **The lines that characters make up**: the completed ones by their newlines, then those that are unfinished. -/
def printed (l : List WrittenChar) : List OutputLine :=
  completed l ++ unfinished .stdout l ++ unfinished .stderr l

def newlines (l : List WrittenChar) : Nat := l.countP (·.char = '\n')

def openStreams (l : List WrittenChar) : Nat :=
  [Console.stdout, .stderr].countP fun c => sinceNewline c l ≠ []

/-- What a capture hears that is full after `room` newlines: from then on nothing but newlines. -/
def heard (room : Nat) : List WrittenChar → List WrittenChar
  | [] => []
  | x :: l =>
    if x.char = '\n' then x :: heard (room - 1) l
    else if room = 0 then heard room l
    else x :: heard room l

/-! ### One character more -/

theorem textOf_concat (l : List WrittenChar) (x : WrittenChar) :
    textOf (l ++ [x]) = (textOf l).push x.char := by
  apply String.toList_inj.1
  simp [textOf]

theorem textOf_extend_le {line : List WrittenChar} (h : (textOf line).utf8ByteSize ≤ maxLineBytes)
    (x : WrittenChar) : (textOf (extend line x)).utf8ByteSize ≤ maxLineBytes := by
  unfold extend
  split
  · exact h
  · rw [textOf_concat, String.utf8ByteSize_push]
    omega

theorem textOf_foldl_extend_le (line : List WrittenChar) :
    (textOf (line.foldl extend [])).utf8ByteSize ≤ maxLineBytes := by
  induction line using List.reverseRecOn with
  | nil => exact Nat.zero_le _
  | append_singleton line x ih =>
    rw [List.foldl_append]
    exact textOf_extend_le ih x

theorem textOf_currentLine_le (c : Console) (l : List WrittenChar) :
    (textOf (currentLine c l)).utf8ByteSize ≤ maxLineBytes :=
  textOf_foldl_extend_le (sinceNewline c l)

theorem sinceNewline_concat (c : Console) (l : List WrittenChar) (x : WrittenChar) :
    sinceNewline c (l ++ [x]) =
      if x.console = c then
        if x.char = '\n' then []
        else if x.char = '\r' then sinceNewline c l
        else sinceNewline c l ++ [x]
      else sinceNewline c l := by
  simp only [sinceNewline, List.filter_append]
  by_cases hc : x.console = c
  · by_cases hn : x.char = '\n'
    · simp [hc, hn]
    · by_cases hr : x.char = '\r' <;> simp [hc, hn, hr, List.filter_append]
  · simp [hc]

theorem currentLine_of_newline {x : WrittenChar} (hx : x.char = '\n') (c : Console)
    (l : List WrittenChar) :
    currentLine c (l ++ [x]) = if x.console = c then [] else currentLine c l := by
  rw [currentLine, sinceNewline_concat, if_pos hx]
  split <;> rfl

theorem currentLine_of_return {x : WrittenChar} (hx : x.char = '\r') (c : Console)
    (l : List WrittenChar) : currentLine c (l ++ [x]) = currentLine c l := by
  have hn : ¬ x.char = '\n' := by simp [hx]
  rw [currentLine, sinceNewline_concat, if_neg hn, if_pos hx, ite_self]
  rfl

theorem currentLine_of_char {x : WrittenChar} (hn : x.char ≠ '\n') (hr : x.char ≠ '\r')
    (c : Console) (l : List WrittenChar) :
    currentLine c (l ++ [x]) =
      if x.console = c then extend (currentLine c l) x else currentLine c l := by
  rw [currentLine, sinceNewline_concat, if_neg hn, if_neg hr]
  split
  · rw [List.foldl_append]
    rfl
  · rfl

/-- The first character of a line is never too long for it. -/
theorem currentLine_eq_nil_iff (c : Console) (l : List WrittenChar) :
    currentLine c l = [] ↔ sinceNewline c l = [] := by
  unfold currentLine
  induction sinceNewline c l using List.reverseRecOn with
  | nil => simp
  | append_singleton line x ih =>
    have hx := x.char.utf8Size_le_four
    rw [List.foldl_append]
    constructor
    · intro h
      by_cases hline : line.foldl extend [] = []
      · simp only [hline, List.foldl_cons, List.foldl_nil, extend] at h
        split at h
        · next hlong =>
          simp only [textOf, List.map_nil, String.ofList_nil, String.utf8ByteSize_empty,
            maxLineBytes] at hlong
          omega
        · simp at h
      · simp only [List.foldl_cons, List.foldl_nil, extend] at h
        split at h
        · exact absurd h hline
        · simp at h
    · intro h
      simp at h

theorem completedAfter_concat (before l : List WrittenChar) (x : WrittenChar) :
    completedAfter before (l ++ [x]) = completedAfter before l ++
      if x.char = '\n' then [lineEnding x.console (before ++ l) x.mark] else [] := by
  induction l generalizing before with
  | nil => by_cases hx : x.char = '\n' <;> simp [completedAfter, hx]
  | cons y l ih =>
    rw [List.cons_append, completedAfter, completedAfter, ih]
    split <;> simp

theorem completed_concat (l : List WrittenChar) (x : WrittenChar) :
    completed (l ++ [x]) =
      completed l ++ if x.char = '\n' then [lineEnding x.console l x.mark] else [] :=
  completedAfter_concat [] l x

theorem completed_of_ne {x : WrittenChar} (hx : x.char ≠ '\n') (l : List WrittenChar) :
    completed (l ++ [x]) = completed l := by
  rw [completed_concat, if_neg hx, List.append_nil]

theorem length_completed (l : List WrittenChar) : (completed l).length = newlines l := by
  induction l using List.reverseRecOn with
  | nil => rfl
  | append_singleton l x ih =>
    rw [completed_concat, List.length_append, ih, newlines, newlines, List.countP_append]
    by_cases hx : x.char = '\n' <;> simp [hx]

theorem length_unfinished (c : Console) (l : List WrittenChar) :
    (unfinished c l).length = if sinceNewline c l ≠ [] then 1 else 0 := by
  have h := currentLine_eq_nil_iff c l
  unfold unfinished
  split <;> simp_all

theorem length_unfinished_add (l : List WrittenChar) :
    (unfinished .stdout l).length + (unfinished .stderr l).length = openStreams l := by
  rw [length_unfinished, length_unfinished, openStreams]
  by_cases hout : sinceNewline .stdout l = [] <;> by_cases herr : sinceNewline .stderr l = [] <;>
    simp [hout, herr]

theorem newlines_concat (l : List WrittenChar) (x : WrittenChar) :
    newlines (l ++ [x]) = newlines l + if x.char = '\n' then 1 else 0 := by
  by_cases hx : x.char = '\n' <;> simp [newlines, List.countP_append, hx]

theorem newlines_of_ne {x : WrittenChar} (hx : x.char ≠ '\n') (l : List WrittenChar) :
    newlines (l ++ [x]) = newlines l := by
  rw [newlines_concat, if_neg hx, Nat.add_zero]

theorem heard_concat (room : Nat) (l : List WrittenChar) (x : WrittenChar) :
    heard room (l ++ [x]) =
      if x.char = '\n' ∨ newlines l < room then heard room l ++ [x] else heard room l := by
  induction l generalizing room with
  | nil =>
    by_cases hx : x.char = '\n'
    · simp [heard, hx]
    · by_cases hroom : room = 0
      · simp [heard, hx, hroom, newlines]
      · simp [heard, hx, hroom, newlines, Nat.pos_of_ne_zero hroom]
  | cons y l ih =>
    rw [List.cons_append, heard, heard]
    by_cases hy : y.char = '\n'
    · have hroom : newlines l < room - 1 ↔ newlines (y :: l) < room := by
        simp only [newlines, List.countP_cons, hy, decide_true, if_true]
        omega
      simp only [if_pos hy, ih, hroom]
      split <;> rfl
    · have hroom : newlines (y :: l) = newlines l := by simp [newlines, hy]
      rw [if_neg hy, if_neg hy, ih, hroom]
      split <;> split <;> rfl

/-- A capture hears all until it is full, and then all completed lines. -/
theorem heard_of_le {room : Nat} {l : List WrittenChar} (h : newlines l ≤ room) :
    (newlines l < room → heard room l = l) ∧ completed (heard room l) = completed l := by
  induction l using List.reverseRecOn with
  | nil => exact ⟨fun _ => rfl, rfl⟩
  | append_singleton l x ih =>
    rw [newlines_concat] at h
    obtain ⟨hall, hcompleted⟩ := ih (by omega)
    by_cases hroom : newlines l < room
    · have hconcat : heard room (l ++ [x]) = l ++ [x] := by
        rw [heard_concat, if_pos (Or.inr hroom), hall hroom]
      exact ⟨fun _ => hconcat, by rw [hconcat]⟩
    · have hx : ¬ x.char = '\n' := by
        intro hx
        rw [if_pos hx] at h
        omega
      rw [heard_concat, if_neg (not_or.2 ⟨hx, hroom⟩), newlines_of_ne hx, completed_of_ne hx]
      exact ⟨fun hlt => absurd hlt hroom, hcompleted⟩

/-! ### Parts of a capture -/

/-- A line that has these characters and has not ended. -/
def partialOf (line : List WrittenChar) : PartialLine :=
  ⟨textOf line, line.head?.map (·.mark)⟩

section Parts

variable (s : Capture) (c : Console) (p : PartialLine) (line : OutputLine)

@[simp] theorem maxLines_setPartial : (s.setPartial c p).maxLines = s.maxLines := by
  cases c <;> rfl

@[simp] theorem closed_setPartial : (s.setPartial c p).closed = s.closed := by
  cases c <;> rfl

@[simp] theorem lines_setPartial : (s.setPartial c p).lines = s.lines := by
  cases c <;> rfl

@[simp] theorem truncated_setPartial : (s.setPartial c p).truncated = s.truncated := by
  cases c <;> rfl

theorem partialLine_setPartial (c' : Console) :
    (s.setPartial c p).partialLine c' = if c = c' then p else s.partialLine c' := by
  cases c <;> cases c' <;> rfl

@[simp] theorem maxLines_push : (s.push line).maxLines = s.maxLines := by
  unfold push
  split <;> rfl

@[simp] theorem closed_push : (s.push line).closed = s.closed := by
  unfold push
  split <;> rfl

@[simp] theorem partialLine_push (c' : Console) :
    (s.push line).partialLine c' = s.partialLine c' := by
  unfold push
  split <;> cases c' <;> rfl

/-- All but the unfinished lines stays as it is when a character is kept. -/
theorem keepChar_eq_setPartial (now : LineStart) (ch : Char) :
    ∃ p, s.keepChar c now ch = s.setPartial c p := by
  have hself : s = s.setPartial c (s.partialLine c) := by cases c <;> rfl
  have hset (p q : PartialLine) : (s.setPartial c p).setPartial c q = s.setPartial c q := by
    cases c <;> rfl
  unfold keepChar
  split
  · exact ⟨_, hself⟩
  · simp only []
    split
    · exact ⟨_, hself⟩
    · exact ⟨_, hset _ _⟩

@[simp] theorem maxLines_keepChar (now : LineStart) (ch : Char) :
    (s.keepChar c now ch).maxLines = s.maxLines := by
  obtain ⟨p, hp⟩ := keepChar_eq_setPartial s c now ch
  rw [hp, maxLines_setPartial]

@[simp] theorem closed_keepChar (now : LineStart) (ch : Char) :
    (s.keepChar c now ch).closed = s.closed := by
  obtain ⟨p, hp⟩ := keepChar_eq_setPartial s c now ch
  rw [hp, closed_setPartial]

@[simp] theorem lines_keepChar (now : LineStart) (ch : Char) :
    (s.keepChar c now ch).lines = s.lines := by
  obtain ⟨p, hp⟩ := keepChar_eq_setPartial s c now ch
  rw [hp, lines_setPartial]

@[simp] theorem truncated_keepChar (now : LineStart) (ch : Char) :
    (s.keepChar c now ch).truncated = s.truncated := by
  obtain ⟨p, hp⟩ := keepChar_eq_setPartial s c now ch
  rw [hp, truncated_setPartial]

variable {s}

/-- A character that may be kept comes behind those of its line, if it fits. -/
theorem partialLine_keepChar (hroom : s.hasRoom = true) {x : WrittenChar} {l : List WrittenChar}
    (hline : s.partialLine x.console = partialOf l) (c' : Console) :
    (s.keepChar x.console x.mark x.char).partialLine c' =
      if x.console = c' then partialOf (extend l x) else s.partialLine c' := by
  have htext : (s.partialLine x.console).text = textOf l := by rw [hline, partialOf]
  have hstart : some ((s.partialLine x.console).started.getD x.mark) =
      (l ++ [x]).head?.map (·.mark) := by
    rw [hline, partialOf, List.head?_append]
    cases l.head? <;> rfl
  simp only [keepChar, hroom, Bool.not_true, Bool.false_eq_true, if_false, htext, hstart, extend]
  split
  · split
    · next hc => rw [← hc, hline]
    · rfl
  · rw [partialLine_setPartial, partialLine_setPartial, partialOf, textOf_concat]
    split <;> rfl

/-- The lines are the first ones of those that were pushed. -/
theorem lines_push (h : s.lines.size ≤ s.maxLines) :
    (s.push line).lines.toList = (s.lines.toList ++ [line]).take s.maxLines := by
  unfold push
  split
  · next hfull =>
    have hlength : s.lines.toList.length = s.maxLines := by
      rw [Array.length_toList]
      omega
    rw [← hlength, List.take_left']
    rfl
  · next hroom =>
    rw [List.take_of_length_le]
    · simp
    · simp only [List.length_append, Array.length_toList, List.length_singleton]
      omega

theorem truncated_push (h : s.lines.size ≤ s.maxLines) :
    (s.push line).truncated = s.truncated + (s.lines.size + 1 - s.maxLines) := by
  unfold push
  split
  · show s.truncated + 1 = _
    omega
  · show s.truncated = _
    omega

end Parts

/-! ### What a capture holds -/

/-- **What a capture is after characters**: it has the first completed lines, has counted the others, and is in the lines
that it has heard. -/
structure Heard (max : Nat) (l : List WrittenChar) (s : Capture) : Prop where
  maxLines : s.maxLines = max
  opened : s.closed = false
  lines : s.lines.toList = (completed l).take max
  truncated : s.truncated = newlines l - max
  partialLine : ∀ c, s.partialLine c = partialOf (currentLine c (heard max l))

namespace Heard

variable {max : Nat} {l : List WrittenChar} {s : Capture}

theorem start (max : Nat) : Heard max [] (start max) where
  maxLines := rfl
  opened := rfl
  lines := by simp [Capture.start, completed, completedAfter]
  truncated := by simp [Capture.start, newlines]
  partialLine c := by cases c <;> rfl

theorem size_lines (h : Heard max l s) : s.lines.size = min max (newlines l) := by
  rw [← Array.length_toList, h.lines, List.length_take, length_completed]

theorem hasRoom_iff (h : Heard max l s) : s.hasRoom = true ↔ newlines l < max := by
  have hsize := h.size_lines
  have htruncated := h.truncated
  have hmax := h.maxLines
  simp only [hasRoom, Bool.and_eq_true, decide_eq_true_eq]
  omega

/-- A newline ends the line of its stream. -/
theorem newline (h : Heard max l s) {x : WrittenChar} (hx : x.char = '\n') :
    Heard max (l ++ [x]) (s.writeChar x.console x.mark x.char) := by
  -- the line pushed is the one that this character ends
  have hline : ⟨x.console, (s.partialLine x.console).text,
      ((s.partialLine x.console).started.getD x.mark).time,
      ((s.partialLine x.console).started.getD x.mark).thread⟩ =
      lineEnding x.console (heard max l) x.mark := by
    rw [h.partialLine]
    rfl
  have hwrite : s.writeChar x.console x.mark x.char =
      (s.setPartial x.console .empty).push (lineEnding x.console (heard max l) x.mark) := by
    rw [← hline, hx]
    rfl
  have hsize : (s.setPartial x.console .empty).lines.size ≤
      (s.setPartial x.console .empty).maxLines := by
    rw [lines_setPartial, maxLines_setPartial, h.size_lines, h.maxLines]
    omega
  rw [hwrite]
  constructor
  · rw [maxLines_push, maxLines_setPartial, h.maxLines]
  · rw [closed_push, closed_setPartial, h.opened]
  · -- the lines kept
    rw [lines_push _ hsize, lines_setPartial, maxLines_setPartial, h.maxLines, h.lines,
      completed_concat, if_pos hx]
    by_cases hroom : newlines l < max
    · rw [(heard_of_le hroom.le).1 hroom, List.take_of_length_le (l := completed l)]
      rw [length_completed]
      exact hroom.le
    · -- the list is full already, so it does not matter which line comes behind
      have hfull : max ≤ (completed l).length := by
        rw [length_completed]
        omega
      rw [List.take_append_of_le_length hfull, List.take_append_of_le_length (by simp [hfull]),
        List.take_take, Nat.min_self]
  · -- the lines counted
    rw [truncated_push _ hsize, truncated_setPartial, lines_setPartial, maxLines_setPartial,
      h.truncated, h.size_lines, h.maxLines, newlines_concat, if_pos hx]
    omega
  · -- the line open on each console
    intro c
    rw [partialLine_push, partialLine_setPartial, heard_concat, if_pos (Or.inl hx),
      currentLine_of_newline hx, h.partialLine]
    split <;> rfl

/-- A character that belongs to a line is heard as long as there is room for a line. -/
theorem character (h : Heard max l s) {x : WrittenChar} (hn : x.char ≠ '\n') (hr : x.char ≠ '\r') :
    Heard max (l ++ [x]) (s.writeChar x.console x.mark x.char) := by
  rw [writeChar, if_neg hr, if_neg hn]
  refine ⟨?_, ?_, ?_, ?_, fun c => ?_⟩
  · rw [maxLines_keepChar, h.maxLines]
  · rw [closed_keepChar, h.opened]
  · rw [lines_keepChar, h.lines, completed_of_ne hn]
  · rw [truncated_keepChar, h.truncated, newlines_of_ne hn]
  · -- the line open on each console
    rw [heard_concat]
    by_cases hroom : newlines l < max
    · rw [if_pos (Or.inr hroom), currentLine_of_char hn hr,
        partialLine_keepChar (h.hasRoom_iff.2 hroom) (h.partialLine x.console), h.partialLine]
      split
      · next hc => rw [hc]
      · rfl
    · rw [if_neg (not_or.2 ⟨hn, hroom⟩), keepChar, if_pos (by simpa using mt h.hasRoom_iff.1 hroom),
        h.partialLine]

theorem carriageReturn (h : Heard max l s) {x : WrittenChar} (hr : x.char = '\r') :
    Heard max (l ++ [x]) (s.writeChar x.console x.mark x.char) := by
  have hn : ¬ x.char = '\n' := by simp [hr]
  rw [writeChar, if_pos hr]
  refine ⟨h.maxLines, h.opened, (completed_of_ne hn l).symm ▸ h.lines,
    (newlines_of_ne hn l).symm ▸ h.truncated, fun c => ?_⟩
  rw [heard_concat, h.partialLine]
  split
  · rw [currentLine_of_return hr]
  · rfl

/-- **A character keeps the capture what the characters so far say that it is.** -/
theorem writeChar (h : Heard max l s) (x : WrittenChar) :
    Heard max (l ++ [x]) (s.writeChar x.console x.mark x.char) := by
  by_cases hr : x.char = '\r'
  · exact h.carriageReturn hr
  · by_cases hn : x.char = '\n'
    · exact h.newline hn
    · exact h.character hn hr

theorem writeChars (h : Heard max l s) (l' : List WrittenChar) :
    Heard max (l ++ l') (s.writeChars l') := by
  induction l' generalizing l s with
  | nil => rwa [List.append_nil]
  | cons x l' ih =>
    have hx := ih (h.writeChar x)
    rwa [List.append_assoc] at hx

theorem write (h : Heard max l s) (w : WrittenText) :
    Heard max (l ++ w.chars) (s.write w.console w.text w.mark) := by
  have hopened : ¬ s.closed = true := by
    rw [h.opened]
    exact Bool.false_ne_true
  have hwrite : s.write w.console w.text w.mark = s.writeChars w.chars := by
    rw [Capture.write, if_neg hopened, Capture.writeChars, WrittenText.chars, List.foldl_map]
  rw [hwrite]
  exact h.writeChars w.chars

theorem writeAll (h : Heard max l s) (ws : List WrittenText) :
    Heard max (l ++ ws.flatMap WrittenText.chars) (s.writeAll ws) := by
  induction ws generalizing l s with
  | nil => rwa [List.flatMap_nil, List.append_nil]
  | cons w ws ih =>
    have hw := ih (h.write w)
    rwa [List.append_assoc] at hw

end Heard

/-! ### The end -/

section Flush

variable {s : Capture} {c : Console} {l : List WrittenChar}

/-- The unfinished line of a stream is pushed if it has characters. -/
theorem flush_cases (hline : s.partialLine c = partialOf (currentLine c l)) :
    (unfinished c l = [] ∧ s.flush c = s) ∨
      ∃ line, unfinished c l = [line] ∧ s.flush c = (s.setPartial c .empty).push line := by
  cases hcurrent : currentLine c l with
  | nil =>
    refine .inl ⟨by rw [unfinished, hcurrent], ?_⟩
    rw [flush, hline, hcurrent]
    rfl
  | cons x rest =>
    refine .inr ⟨lineEnding c l x.mark, by simp only [unfinished, hcurrent], ?_⟩
    have hstarted : (s.partialLine c).started = some x.mark := by rw [hline, hcurrent]; rfl
    have htext : (s.partialLine c).text = textOf (currentLine c l) := by rw [hline, partialOf]
    have hstart : ((currentLine c l).head?.map (·.mark)).getD x.mark = x.mark := by
      rw [hcurrent]
      rfl
    simp only [flush, hstarted, complete, htext, lineEnding, hstart]

theorem maxLines_flush (s : Capture) (c : Console) : (s.flush c).maxLines = s.maxLines := by
  unfold flush
  split <;> simp [complete]

theorem closed_flush (s : Capture) (c : Console) : (s.flush c).closed = s.closed := by
  unfold flush
  split <;> simp [complete]

theorem partialLine_flush (s : Capture) {c c' : Console} (h : c ≠ c') :
    (s.flush c).partialLine c' = s.partialLine c' := by
  unfold flush
  split
  · rw [complete, partialLine_push, partialLine_setPartial, if_neg h]
  · rfl

theorem lines_flush (hline : s.partialLine c = partialOf (currentLine c l))
    (h : s.lines.size ≤ s.maxLines) :
    (s.flush c).lines.toList = (s.lines.toList ++ unfinished c l).take s.maxLines := by
  rcases flush_cases hline with ⟨hnone, hflush⟩ | ⟨line, hsome, hflush⟩
  · rw [hflush, hnone, List.append_nil, List.take_of_length_le]
    rwa [Array.length_toList]
  · rw [hflush, hsome, lines_push, lines_setPartial, maxLines_setPartial]
    rwa [lines_setPartial, maxLines_setPartial]

theorem truncated_flush (hline : s.partialLine c = partialOf (currentLine c l))
    (h : s.lines.size ≤ s.maxLines) :
    (s.flush c).truncated =
      s.truncated + (s.lines.size + (unfinished c l).length - s.maxLines) := by
  rcases flush_cases hline with ⟨hnone, hflush⟩ | ⟨line, hsome, hflush⟩
  · rw [hflush, hnone, List.length_nil]
    omega
  · rw [hflush, hsome, truncated_push, truncated_setPartial, lines_setPartial, maxLines_setPartial]
    · rfl
    · rwa [lines_setPartial, maxLines_setPartial]

end Flush

theorem take_take_append {α : Type} (n : Nat) (l l' : List α) :
    (l.take n ++ l').take n = (l ++ l').take n := by
  have hlength : n - min n l.length = n - l.length := by omega
  rw [List.take_append, List.take_append, List.take_take, Nat.min_self, List.length_take, hlength]

theorem writeAll_of_closed {s : Capture} (h : s.closed = true) (ws : List WrittenText) :
    s.writeAll ws = s := by
  induction ws with
  | nil => rfl
  | cons w ws ih =>
    have hw : s.write w.console w.text w.mark = s := by rw [write, if_pos h]
    rw [writeAll, List.foldl_cons, hw]
    exact ih

theorem closed_finish (s : Capture) : s.finish.2.closed = true := by
  unfold finish
  simp only []
  split
  · rw [closed_flush, closed_flush]
    rfl
  · rfl

theorem finish_shutDown (s : Capture) : s.shutDown.finish = s.finish := rfl

namespace Heard

variable {max : Nat} {l : List WrittenChar} {s : Capture}

/-- If no line has been dropped before the end, the unfinished lines come behind the others. -/
theorem finish_of_le (h : Heard max l s) (hroom : newlines l ≤ max) :
    s.finish.1.1 = (completed l ++ unfinished .stdout (heard max l) ++
        unfinished .stderr (heard max l)).take max ∧
      s.finish.1.2 = newlines l + openStreams (heard max l) - max := by
  -- nothing is cut so far: the lines kept are all that are complete
  have hlines : s.lines.toList = completed l := by
    rw [h.lines, List.take_of_length_le]
    rwa [length_completed]
  have hsize : s.lines.size = newlines l := by
    have hsize := h.size_lines
    omega
  have htruncated : s.truncated = 0 := by
    have htruncated := h.truncated
    omega
  have hfinish : s.finish.1 = (((s.shutDown.flush .stdout).flush .stderr).lines.toList,
      ((s.shutDown.flush .stdout).flush .stderr).truncated) := by
    have hzero : s.shutDown.truncated = 0 := htruncated
    simp only [Capture.finish, hzero, if_true]
  -- the standard output is flushed, then the standard error
  have hmax : s.shutDown.maxLines = max := h.maxLines
  have hout : s.shutDown.partialLine .stdout = partialOf (currentLine .stdout (heard max l)) :=
    h.partialLine .stdout
  have herr : (s.shutDown.flush .stdout).partialLine .stderr =
      partialOf (currentLine .stderr (heard max l)) := by
    rw [partialLine_flush _ (by decide)]
    exact h.partialLine .stderr
  have hfits : s.shutDown.lines.size ≤ s.shutDown.maxLines := by
    rw [hmax]
    exact hsize.le.trans hroom
  have hflushed : (s.shutDown.flush .stdout).lines.toList =
      (completed l ++ unfinished .stdout (heard max l)).take max := by
    rw [lines_flush hout hfits, hmax, ← hlines]
    rfl
  have hflushedSize : (s.shutDown.flush .stdout).lines.size =
      min max (newlines l + (unfinished .stdout (heard max l)).length) := by
    rw [← Array.length_toList, hflushed, List.length_take, List.length_append, length_completed]
  have hfits' : (s.shutDown.flush .stdout).lines.size ≤ (s.shutDown.flush .stdout).maxLines := by
    rw [maxLines_flush, hflushedSize, hmax]
    omega
  rw [hfinish]
  constructor
  · show ((s.shutDown.flush .stdout).flush .stderr).lines.toList = _
    rw [lines_flush herr hfits', hflushed, maxLines_flush, hmax, take_take_append]
  · have hopen := length_unfinished_add (heard max l)
    show ((s.shutDown.flush .stdout).flush .stderr).truncated = _
    rw [truncated_flush herr hfits', truncated_flush hout hfits, hflushedSize, maxLines_flush, hmax]
    show s.truncated + (s.lines.size + _ - max) + _ = _
    omega

/-- If lines have been dropped before the end, the unfinished ones are left out without being counted. -/
theorem finish_of_lt (h : Heard max l s) (hfull : max < newlines l) :
    s.finish.1.1 = (completed l).take max ∧ s.finish.1.2 = newlines l - max := by
  have hfinish : s.finish.1 = (s.lines.toList, s.truncated) := by
    have hne : s.shutDown.truncated ≠ 0 := by
      show s.truncated ≠ 0
      rw [h.truncated]
      omega
    simp only [Capture.finish, hne, if_false]
    rfl
  rw [hfinish]
  exact ⟨h.lines, h.truncated⟩

theorem lines_finish (h : Heard max l s) : s.finish.1.1 = (printed l).take max := by
  rcases lt_trichotomy (newlines l) max with hlt | heq | hgt
  · rw [(h.finish_of_le hlt.le).1, (heard_of_le hlt.le).1 hlt, printed]
  · have hlength : max = (completed l).length := by rw [length_completed, heq]
    rw [(h.finish_of_le heq.le).1, printed, List.append_assoc, List.append_assoc, hlength,
      List.take_left', List.take_left'] <;> rfl
  · rw [(h.finish_of_lt hgt).1, printed, List.append_assoc, List.take_append_of_le_length]
    rw [length_completed]
    exact hgt.le

end Heard

/-! ### Main results -/

theorem text_le_of_mem_unfinished {c : Console} {l : List WrittenChar} {line : OutputLine}
    (h : line ∈ unfinished c l) : line.text.utf8ByteSize ≤ maxLineBytes := by
  unfold unfinished at h
  split at h
  · cases h
  · rw [List.mem_singleton.1 h]
    exact textOf_currentLine_le c l

theorem text_le_of_mem_completed {l : List WrittenChar} {line : OutputLine} (h : line ∈ completed l) :
    line.text.utf8ByteSize ≤ maxLineBytes := by
  induction l using List.reverseRecOn with
  | nil => cases h
  | append_singleton l x ih =>
    rw [completed_concat, List.mem_append] at h
    rcases h with h | h
    · exact ih h
    · split at h
      · rw [List.mem_singleton.1 h]
        exact textOf_currentLine_le x.console l
      · cases h

theorem text_le_of_mem_printed {l : List WrittenChar} {line : OutputLine} (h : line ∈ printed l) :
    line.text.utf8ByteSize ≤ maxLineBytes := by
  rw [printed, List.mem_append, List.mem_append] at h
  rcases h with (h | h) | h
  · exact text_le_of_mem_completed h
  · exact text_le_of_mem_unfinished h
  · exact text_le_of_mem_unfinished h

/-- **The captured lines are the first ones of those that were printed**, however the output was cut into texts and
mixed. No line is too long, and a capture that is shut down or finished is not changed by what is written. -/
theorem lines_eq_take_printed (max : Nat) (ws : List WrittenText) :
    let s := (Capture.start max).writeAll ws
    s.finish.1.1 = (printed (ws.flatMap WrittenText.chars)).take max ∧
      (∀ line ∈ s.finish.1.1, line.text.utf8ByteSize ≤ maxLineBytes) ∧
      ∀ late, s.shutDown.writeAll late = s.shutDown ∧ s.shutDown.finish = s.finish ∧
        s.finish.2.writeAll late = s.finish.2 := by
  intro s
  have h : Heard max (ws.flatMap WrittenText.chars) s := (Heard.start max).writeAll ws
  have hlines : s.finish.1.1 = (printed (ws.flatMap WrittenText.chars)).take max := h.lines_finish
  refine ⟨hlines, fun line hline => ?_, fun late => ⟨?_, finish_shutDown s, ?_⟩⟩
  · rw [hlines] at hline
    exact text_le_of_mem_printed (List.mem_of_mem_take hline)
  · exact writeAll_of_closed rfl late
  · exact writeAll_of_closed (closed_finish s) late

/-- **When no line is reported to be dropped**: the newlines and the lines left unfinished, as far as they have been heard,
are as many as there is room for. Then all that has been heard is there. A capture hears everything until it is full;
after that it hears newlines only, and so an unfinished line that begins then is neither kept nor counted. -/
theorem truncated_eq_zero_iff (max : Nat) (ws late : List WrittenText) :
    let l := ws.flatMap WrittenText.chars
    let result := (((Capture.start max).writeAll ws).shutDown.writeAll late).finish.1
    (result.2 = 0 ↔ newlines l + openStreams (heard max l) ≤ max) ∧
      (result.2 = 0 → result.1 = printed (heard max l)) ∧ (newlines l < max → heard max l = l) := by
  intro l result
  have h : Heard max l ((Capture.start max).writeAll ws) := (Heard.start max).writeAll ws
  have hresult : result = ((Capture.start max).writeAll ws).finish.1 := by
    show (((Capture.start max).writeAll ws).shutDown.writeAll late).finish.1 = _
    rw [writeAll_of_closed rfl, finish_shutDown]
  rw [hresult]
  by_cases hroom : newlines l ≤ max
  · obtain ⟨hall, hcompleted⟩ := heard_of_le hroom
    obtain ⟨hlines, htruncated⟩ := h.finish_of_le hroom
    refine ⟨by omega, fun hzero => ?_, hall⟩
    have hopen := length_unfinished_add (heard max l)
    rw [hlines, printed, hcompleted, List.take_of_length_le]
    rw [List.length_append, List.length_append, length_completed]
    omega
  · have htruncated := (h.finish_of_lt (by omega)).2
    exact ⟨by omega, fun hzero => by omega, fun hlt => by omega⟩

/-- **Lines are dropped that nobody hears of**: the last line of two is not finished, and there is room for one. -/
theorem not_truncated_eq_zero_iff :
    ¬ ∀ (max : Nat) (ws : List WrittenText),
      ((Capture.start max).writeAll ws).finish.1.2 = 0 ↔
        newlines (ws.flatMap WrittenText.chars) + openStreams (ws.flatMap WrittenText.chars) ≤ max := by
  intro h
  have h := (h 1 [⟨.stdout, "a\nb", default⟩]).1 (by decide +kernel)
  exact absurd h (by decide +kernel)

end Capture

end Confine
