import Confine.Json.Reader
import Confine.Time.Timestamp

/-!
The output of a task, captured line by line on two streams. A line is dated when its first
character comes and kept when it ends; the number of lines and the bytes of a line are limited.
-/

namespace Confine

open Json (Doc)
open Time (Timestamp)

/-- A stream of output. -/
inductive Console where
  | stdout
  | stderr
  deriving DecidableEq, Repr, Inhabited

namespace Console

def name : Console → String
  | stdout => "stdout"
  | stderr => "stderr"

def toJson (c : Console) : Json := .str c.name

def ofDoc? (d : Doc) : Option Console := do
  match ← d.name? with
  | "stdout" => some stdout
  | "stderr" => some stderr
  | _ => none

end Console

/-- A line of output. -/
structure OutputLine where
  console : Console
  text : String
  /-- when its first character was written -/
  time : Timestamp
  /-- the thread that wrote it -/
  thread : Nat
  deriving DecidableEq, Repr, Inhabited

namespace OutputLine

def toJson (l : OutputLine) : Json :=
  .obj [("console", l.console.toJson), ("line", .str l.text), ("timestamp", .str l.time.text),
    ("thread", .nat l.thread)]

def ofDoc? (d : Doc) : Option OutputLine := do
  match ← d.record? ["console", "line", "timestamp", "thread"] with
  | [c, l, time, thread] =>
    some ⟨← c.required Console.ofDoc?, ← l.required Doc.str?,
      ← time.required fun d => d.str?.bind Timestamp.ofText?, ← thread.required Doc.count?⟩
  | _ => none

end OutputLine

/-- When and by which thread a line was started. -/
structure LineStart where
  time : Timestamp
  thread : Nat
  deriving DecidableEq, Repr, Inhabited

/-- A line that has not ended. It has a start once it has a character. -/
structure PartialLine where
  text : String
  started : Option LineStart
  deriving DecidableEq, Repr, Inhabited

def PartialLine.empty : PartialLine := ⟨"", none⟩

/-- Captured output. -/
structure Capture where
  maxLines : Nat
  lines : Array OutputLine
  stdout : PartialLine
  stderr : PartialLine
  /-- how many lines have been dropped -/
  truncated : Nat
  /-- no more output is taken -/
  closed : Bool
  deriving DecidableEq, Repr, Inhabited

namespace Capture

/-- The longest line that is kept, in bytes. -/
def maxLineBytes : Nat := 65536

/-- A capture that keeps at most `maxLines` lines. -/
def start (maxLines : Nat) : Capture := ⟨maxLines, #[], .empty, .empty, 0, false⟩

/-- The unfinished line of a stream. -/
def partialLine (s : Capture) : Console → PartialLine
  | .stdout => s.stdout
  | .stderr => s.stderr

/-- Replaces the unfinished line of a stream. -/
def setPartial (s : Capture) (c : Console) (p : PartialLine) : Capture :=
  match c with
  | .stdout => { s with stdout := p }
  | .stderr => { s with stderr := p }

/-- A line is complete: it is kept or counted. -/
def push (s : Capture) (l : OutputLine) : Capture :=
  if s.maxLines ≤ s.lines.size then { s with truncated := s.truncated + 1 }
  else { s with lines := s.lines.push l }

/-- Completes the unfinished line of a stream that was started at `start`. -/
def complete (s : Capture) (c : Console) (start : LineStart) : Capture :=
  (s.setPartial c .empty).push ⟨c, (s.partialLine c).text, start.time, start.thread⟩

/-- A character may still be kept. -/
def hasRoom (s : Capture) : Bool := s.truncated = 0 && decide (s.lines.size < s.maxLines)

/-- One character that belongs to a line: it is left out if the line would get too long, or if the
line could not be kept. -/
def keepChar (s : Capture) (c : Console) (now : LineStart) (ch : Char) : Capture :=
  if !s.hasRoom then s
  else
    let p := s.partialLine c
    if maxLineBytes < p.text.utf8ByteSize + ch.utf8Size then s
    else
      let s := s.setPartial c .empty
      s.setPartial c ⟨p.text.push ch, some (p.started.getD now)⟩

/-- Writes one character. Carriage returns do not count. -/
def writeChar (s : Capture) (c : Console) (now : LineStart) (ch : Char) : Capture :=
  if ch = '\r' then s
  else if ch = '\n' then s.complete c ((s.partialLine c).started.getD now)
  else s.keepChar c now ch

/-- Writes a text. -/
def write (s : Capture) (c : Console) (text : String) (now : LineStart) : Capture :=
  if s.closed then s else text.toList.foldl (fun s ch => s.writeChar c now ch) s

/-- Takes no more output. -/
def shutDown (s : Capture) : Capture := { s with closed := true }

/-- Completes the line of a stream, if it has one. -/
def flush (s : Capture) (c : Console) : Capture :=
  match (s.partialLine c).started with
  | some start => s.complete c start
  | none => s

/-- Ends the capture: unfinished lines are completed, unless lines have been dropped. Gives the
lines and the number of those that were dropped; the lines are taken out. -/
def finish (s : Capture) : (List OutputLine × Nat) × Capture :=
  let s := s.shutDown
  let s := if s.truncated = 0 then (s.flush .stdout).flush .stderr else s
  ((s.lines.toList, s.truncated), { s with lines := #[] })

end Capture

/-! ### Where output goes -/

/-- Where the output of a task goes: into a capture, or through to the streams of the host, of
which all that was written is kept here. -/
inductive OutputSink where
  | captured (c : Capture)
  | passThrough (stdout stderr : String)
  deriving Repr, Inhabited

namespace OutputSink

def write (s : OutputSink) (c : Console) (text : String) (now : LineStart) : OutputSink :=
  match s with
  | captured cap => captured (cap.write c text now)
  | passThrough out err =>
    match c with
    | .stdout => passThrough (out ++ text) err
    | .stderr => passThrough out (err ++ text)

/-- Takes no more output into a capture. What passes through is not held back. -/
def shutDown : OutputSink → OutputSink
  | captured cap => captured cap.shutDown
  | passThrough out err => passThrough out err

end OutputSink

end Confine
