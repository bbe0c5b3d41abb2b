import Std.Time.DateTime.Timestamp
import Confine.Command.Run
import Confine.Host.FileTree

/-!
The program: its host is the machine that it runs on.
-/

namespace Confine

/-- Why a file cannot be used, in the words of the system. -/
def fileReason : IO.Error → String
  | .noFileOrDirectory _ _ _ => FileFault.notFound.message
  | .inappropriateType _ code _ =>
    if code = 21 then FileFault.isADirectory.message else FileFault.notADirectory.message
  | .permissionDenied _ code _ => "Permission denied (os error " ++ toString code.toNat ++ ")"
  | e => toString e

/-- The outcome of an action on a file. -/
def attemptFile {α : Type} (act : IO α) : IO (Except String α) := do
  try
    let a ← act
    pure (.ok a)
  catch e => pure (.error (fileReason e))

/-- The text of a file. -/
def readTextFile (path : String) : IO (Except String String) := do
  match ← attemptFile (IO.FS.readBinFile path) with
  | .error reason => pure (.error reason)
  | .ok bytes =>
    match String.fromUTF8? bytes with
    | some text => pure (.ok text)
    | none => pure (.error "stream did not contain valid UTF-8")

/-- The date and the time. -/
def today : IO Time.Timestamp := do
  let t ← Std.Time.Timestamp.now
  pure (.ofNanos t.toNanosecondsSinceUnixEpoch.toInt.toNat)

/-- Answers the questions of programs. -/
def answerRequest : (r : HostRequest) → IO r.Answer
  | .clock => today
  | .getEnv name => IO.getEnv name
  | .writeFile path contents => attemptFile (IO.FS.writeFile path contents)
  | .workingDirectory => do
    match ← attemptFile IO.currentDir with
    | .ok dir => pure (some dir.toString)
    | .error _ => pure none

/-- The machine that the program runs on. -/
def machineHost : Host IO where
  elapsed := IO.monoNanosNow
  idleUntil t := do
    let now ← IO.monoNanosNow
    IO.sleep (UInt32.ofNat (min 5 ((t - now) / 1000000 + 1)))
  answer := answerRequest
  readFile := readTextFile
  today := today
  randomBytes := do
    let bytes ← IO.getRandomBytes 16
    pure bytes.toList

end Confine

/-- Does what the command line says. -/
def main (words : List String) : IO UInt32 := do
  let f ← Confine.Command.execute Confine.machineHost words
  (← IO.getStdout).putStr f.stdout
  (← IO.getStderr).putStr f.stderr
  pure (UInt32.ofNat f.code)
