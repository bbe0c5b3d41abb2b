import Confine.Proofs.Output.Captured
import Confine.Sandbox.Result

/-!
# The merged output

Lines are kept in the order in which they end, with the unfinished ones behind the others, and carry the time when they
were started. Each stream starts its lines in the order in which it ends them. So a stable sort by the time of the start
mixes the two streams and leaves each in its order.

* `Capture.streamOrdered_printed` — if the clock does not go back, the lines of a stream are in the order of their times;
* `ExecutionResult.filter_merged` — what is in order on a stream stays in its order when the streams are merged;
* `ExecutionResult.merged_faithful` — **the merged output has the lines of each stream in their order**, by their times.
-/

namespace Confine

open Time (Timestamp)

/-! ### The order of times -/

namespace Time.Timestamp

theorem le_iff {s t : Timestamp} :
    s.le t = true ↔ s.seconds < t.seconds ∨ s.seconds = t.seconds ∧ s.nanos ≤ t.nanos := by
  simp [le]

theorem le_trans {s t u : Timestamp} (hst : s.le t = true) (htu : t.le u = true) : s.le u = true := by
  rw [le_iff] at *
  omega

theorem le_total (s t : Timestamp) : (s.le t || t.le s) = true := by
  rw [Bool.or_eq_true, le_iff, le_iff]
  omega

end Time.Timestamp

namespace Capture

/-! ### The times of a stream -/

def ClockOrdered (l : List WrittenChar) : Prop := l.Pairwise fun x y => x.mark.time.le y.mark.time = true

instance (l : List WrittenChar) : Decidable (ClockOrdered l) := by
  unfold ClockOrdered
  infer_instance

theorem ClockOrdered.concat_iff {l : List WrittenChar} {x : WrittenChar} :
    ClockOrdered (l ++ [x]) ↔ ClockOrdered l ∧ ∀ y ∈ l, y.mark.time.le x.mark.time = true := by
  simp [ClockOrdered, List.pairwise_append]

theorem mem_of_mem_currentLine {c : Console} {l : List WrittenChar} {x : WrittenChar} (h : x ∈ currentLine c l) :
    x ∈ l := by
  induction l using List.reverseRecOn with
  | nil => cases h
  | append_singleton l y ih =>
    rw [List.mem_append]
    by_cases hn : y.char = '\n'
    · rw [currentLine_of_newline hn] at h
      split at h
      · cases h
      · exact .inl (ih h)
    · by_cases hr : y.char = '\r'
      · rw [currentLine_of_return hr] at h
        exact .inl (ih h)
      · rw [currentLine_of_char hn hr] at h
        split at h
        · unfold extend at h
          split at h
          · exact .inl (ih h)
          · exact (List.mem_append.1 h).imp_left ih
        · exact .inl (ih h)

/-- A line has the time of a character of it, or of its end if it has none. -/
theorem lineEnding_time (c : Console) (l : List WrittenChar) (stop : LineStart) :
    (∃ x ∈ currentLine c l, (lineEnding c l stop).time = x.mark.time) ∨
      currentLine c l = [] ∧ (lineEnding c l stop).time = stop.time := by
  cases h : currentLine c l with
  | nil => exact .inr ⟨rfl, by simp [lineEnding, h]⟩
  | cons x line => exact .inl ⟨x, List.mem_cons_self, by simp [lineEnding, h]⟩

/-- A completed line was started when a character was written. -/
theorem exists_of_mem_completed {l : List WrittenChar} {line : OutputLine} (h : line ∈ completed l) :
    ∃ x ∈ l, line.time = x.mark.time := by
  induction l using List.reverseRecOn with
  | nil => cases h
  | append_singleton l y ih =>
    rw [completed_concat, List.mem_append] at h
    rcases h with h | h
    · obtain ⟨x, hx, htime⟩ := ih h
      exact ⟨x, List.mem_append_left _ hx, htime⟩
    · split at h
      · rw [List.mem_singleton.1 h]
        rcases lineEnding_time y.console l y.mark with ⟨x, hx, htime⟩ | ⟨-, htime⟩
        · exact ⟨x, List.mem_append_left _ (mem_of_mem_currentLine hx), htime⟩
        · exact ⟨y, by simp, htime⟩
      · cases h

/-- **A stream starts a line when it has ended those before**: the characters of the line that it is in are not earlier
than the starts of its completed lines. -/
theorem le_of_mem_completed {l : List WrittenChar} (hclock : ClockOrdered l) {line : OutputLine}
    (hline : line ∈ completed l) {x : WrittenChar} (hx : x ∈ currentLine line.console l) :
    line.time.le x.mark.time = true := by
  induction l using List.reverseRecOn with
  | nil => cases hx
  | append_singleton l y ih =>
    obtain ⟨hclock, hlast⟩ := ClockOrdered.concat_iff.1 hclock
    rw [completed_concat] at hline
    by_cases hn : y.char = '\n'
    · rw [currentLine_of_newline hn] at hx
      split at hx
      · cases hx
      · next hother =>
        rw [if_pos hn, List.mem_append, List.mem_singleton] at hline
        rcases hline with hline | rfl
        · exact ih hclock hline hx
        · exact absurd rfl hother
    · rw [if_neg hn, List.append_nil] at hline
      by_cases hr : y.char = '\r'
      · rw [currentLine_of_return hr] at hx
        exact ih hclock hline hx
      · rw [currentLine_of_char hn hr] at hx
        split at hx
        · unfold extend at hx
          split at hx
          · exact ih hclock hline hx
          · rcases List.mem_append.1 hx with hx | hx
            · exact ih hclock hline hx
            · -- the character has just been written, and so the line was started before
              obtain ⟨z, hz, htime⟩ := exists_of_mem_completed hline
              rw [List.mem_singleton.1 hx, htime]
              exact hlast z hz
        · exact ih hclock hline hx

theorem le_lineEnding {l : List WrittenChar} (hclock : ClockOrdered l) {stop : LineStart}
    (hstop : ∀ x ∈ l, x.mark.time.le stop.time = true) {line : OutputLine} (hline : line ∈ completed l) :
    line.time.le (lineEnding line.console l stop).time = true := by
  rcases lineEnding_time line.console l stop with ⟨x, hx, htime⟩ | ⟨-, htime⟩
  · rw [htime]
    exact le_of_mem_completed hclock hline hx
  · obtain ⟨z, hz, hzline⟩ := exists_of_mem_completed hline
    rw [htime, hzline]
    exact hstop z hz

def StreamOrdered (c : Console) (lines : List OutputLine) : Prop :=
  (lines.filter (·.console = c)).Pairwise fun a b => a.time.le b.time = true

theorem streamOrdered_concat {c : Console} {lines : List OutputLine} {line : OutputLine}
    (h : StreamOrdered c lines) (hle : line.console = c → ∀ a ∈ lines, a.console = c → a.time.le line.time = true) :
    StreamOrdered c (lines ++ [line]) := by
  unfold StreamOrdered at *
  rw [List.filter_append, List.pairwise_append]
  refine ⟨h, ?_, fun a ha b hb => ?_⟩
  · by_cases hc : line.console = c <;> simp [hc]
  · obtain ⟨hmem, hconsole⟩ := List.mem_filter.1 ha
    obtain ⟨hb, hc⟩ := List.mem_filter.1 hb
    rw [List.mem_singleton.1 hb] at hc ⊢
    exact hle (by simpa using hc) a hmem (by simpa using hconsole)

theorem streamOrdered_completed {l : List WrittenChar} (hclock : ClockOrdered l) (c : Console) :
    StreamOrdered c (completed l) := by
  induction l using List.reverseRecOn with
  | nil => exact .nil
  | append_singleton l x ih =>
    obtain ⟨hclock, hlast⟩ := ClockOrdered.concat_iff.1 hclock
    rw [completed_concat]
    split
    · refine streamOrdered_concat (ih hclock) fun hc a ha hac => ?_
      have hsame : x.console = a.console := hc.trans hac.symm
      rw [hsame]
      exact le_lineEnding hclock hlast ha
    · rw [List.append_nil]
      exact ih hclock

theorem console_of_mem_unfinished {c : Console} {l : List WrittenChar} {line : OutputLine}
    (h : line ∈ unfinished c l) : line.console = c := by
  unfold unfinished at h
  split at h
  · cases h
  · rw [List.mem_singleton.1 h]
    rfl

/-- The line that a stream is left in is the last one of its stream. -/
theorem streamOrdered_unfinished {l : List WrittenChar} (hclock : ClockOrdered l) {c d : Console}
    {lines : List OutputLine} (h : StreamOrdered c lines)
    (hlines : ∀ a ∈ lines, a.console = d → a ∈ completed l) : StreamOrdered c (lines ++ unfinished d l) := by
  unfold unfinished
  cases hline : currentLine d l with
  | nil => rwa [List.append_nil]
  | cons x rest =>
    refine streamOrdered_concat h fun hd a ha hac => ?_
    have hsame : a.console = d := hac.trans hd.symm
    have hx : x ∈ currentLine a.console l := by
      rw [hsame, hline]
      exact List.mem_cons_self
    have htime : (lineEnding d l x.mark).time = x.mark.time := by simp [lineEnding, hline]
    rw [htime]
    exact le_of_mem_completed hclock (hlines a ha hsame) hx

/-- **If the clock does not go back, each stream starts its lines in the order in which it ends them.** -/
theorem streamOrdered_printed {l : List WrittenChar} (hclock : ClockOrdered l) (c : Console) :
    StreamOrdered c (printed l) := by
  have hcompleted := streamOrdered_completed hclock c
  have hout : StreamOrdered c (completed l ++ unfinished .stdout l) :=
    streamOrdered_unfinished hclock hcompleted fun a ha _ => ha
  refine streamOrdered_unfinished hclock hout fun a ha herr => ?_
  rcases List.mem_append.1 ha with ha | ha
  · exact ha
  · rw [console_of_mem_unfinished ha] at herr
    cases herr

theorem StreamOrdered.take {c : Console} {lines : List OutputLine} (h : StreamOrdered c lines) (n : Nat) :
    StreamOrdered c (lines.take n) := h.sublist ((List.take_sublist n lines).filter _)

theorem lines_writeAll (max : Nat) (ws : List WrittenText) :
    ((start max).writeAll ws).finish.1.1 = ((start max).writeChars (ws.flatMap WrittenText.chars)).finish.1.1 := by
  rw [((Heard.start max).writeAll ws).lines_finish, ((Heard.start max).writeChars _).lines_finish]

end Capture

/-! ### Merging -/

namespace ExecutionResult

open Capture (StreamOrdered)

variable {r : ExecutionResult} {c : Console}

theorem time_le_trans (a b c : OutputLine) :
    a.time.le b.time = true → b.time.le c.time = true → a.time.le c.time = true := Timestamp.le_trans

theorem time_le_total (a b : OutputLine) : (a.time.le b.time || b.time.le a.time) = true :=
  Timestamp.le_total a.time b.time

theorem merged_perm (r : ExecutionResult) : r.merged.Perm r.outputLines := List.mergeSort_perm _ _

theorem pairwise_merged (r : ExecutionResult) : r.merged.Pairwise fun a b => a.time.le b.time = true :=
  List.pairwise_mergeSort time_le_trans time_le_total _

/-- **A stream that is in order stays in its order**, since lines of one time are not exchanged. -/
theorem filter_merged (h : StreamOrdered c r.outputLines) :
    r.merged.filter (·.console = c) = r.linesOn c := by
  have hsub : (r.linesOn c).Sublist r.merged :=
    List.sublist_mergeSort time_le_trans time_le_total h List.filter_sublist
  have hkept : (r.linesOn c).Sublist (r.merged.filter (·.console = c)) := by
    have hfilter := hsub.filter (·.console = c)
    rw [linesOn, List.filter_filter] at hfilter
    simp only [Bool.and_self] at hfilter
    exact hfilter
  have hlength := (r.merged_perm.filter (·.console = c)).length_eq
  exact hkept.eq_of_length hlength.symm |>.symm

/-- **The merged output is a faithful merge.** However texts are cut and mixed, on which streams and by which threads they
are written, and however many lines are kept: if the clock does not go back, the merged lines are those that were kept,
in the order of the times when they were started, and those of each stream are in the order in which they were kept. The
merged output is their text, and what was written to a stream is the text of those of the stream. -/
theorem merged_faithful {l : List WrittenChar} (hclock : Capture.ClockOrdered l) {max : Nat}
    (hlines : r.outputLines = ((Capture.start max).writeChars l).finish.1.1) :
    r.output = "\n".intercalate (r.merged.map (·.text)) ∧ r.merged.Perm r.outputLines ∧
      (∀ c, r.merged.filter (·.console = c) = r.outputLines.filter (·.console = c)) ∧
      r.stdout = "\n".intercalate ((r.merged.filter (·.console = .stdout)).map (·.text)) ∧
      r.stderr = "\n".intercalate ((r.merged.filter (·.console = .stderr)).map (·.text)) ∧
      r.merged.Pairwise fun a b => a.time.le b.time = true := by
  have hordered : ∀ c, StreamOrdered c r.outputLines := by
    intro c
    rw [hlines, ((Capture.Heard.start max).writeChars l).lines_finish]
    exact (Capture.streamOrdered_printed hclock c).take max
  have hkept : ∀ c, r.merged.filter (·.console = c) = r.linesOn c := fun c => filter_merged (hordered c)
  refine ⟨rfl, r.merged_perm, hkept, ?_, ?_, r.pairwise_merged⟩
  · rw [hkept]
    rfl
  · rw [hkept]
    rfl

/-- A line that is started first and ended last, and an empty one of the time of a line on the other stream. -/
def lateLine : List WrittenText :=
  [⟨.stdout, "a", ⟨⟨0, 0⟩, 0⟩⟩, ⟨.stderr, "b\n", ⟨⟨1, 0⟩, 1⟩⟩, ⟨.stdout, "c\n\n", ⟨⟨1, 0⟩, 0⟩⟩]

theorem merged_faithful_lateLine :
    let r : ExecutionResult := { (default : ExecutionResult) with
      outputLines := ((Capture.start 9).writeAll lateLine).finish.1.1 }
    r.outputLines.map (·.text) = ["b", "ac", ""] ∧ r.merged.map (·.text) = ["ac", "b", ""] ∧
      r.output = "ac\nb\n" ∧ r.stdout = "ac\n" ∧ r.stderr = "b" ∧ r.merged.Perm r.outputLines ∧
      (∀ c, r.merged.filter (·.console = c) = r.outputLines.filter (·.console = c)) ∧
      r.merged.Pairwise fun a b => a.time.le b.time = true := by
  intro r
  have hclock : Capture.ClockOrdered (lateLine.flatMap WrittenText.chars) := by decide
  obtain ⟨houtput, hperm, hkept, hout, herr, hsorted⟩ :=
    merged_faithful (r := r) hclock (Capture.lines_writeAll 9 lateLine)
  have hlines : r.outputLines = [⟨.stderr, "b", ⟨1, 0⟩, 1⟩, ⟨.stdout, "ac", ⟨0, 0⟩, 0⟩, ⟨.stdout, "", ⟨1, 0⟩, 0⟩] := by
    decide +kernel
  have hmerged : r.merged.map (·.text) = ["ac", "b", ""] := by
    rw [merged, hlines]
    simp [List.mergeSort, Timestamp.le, List.MergeSort.Internal.splitInTwo]
  refine ⟨by decide +kernel, hmerged, ?_, ?_, ?_, hperm, hkept, hsorted⟩
  · rw [houtput, hmerged]
    decide +kernel
  · rw [hout, hkept, hlines]
    decide +kernel
  · rw [herr, hkept, hlines]
    decide +kernel

end ExecutionResult

end Confine
