import Confine.Program.Instruction

/-!
The names of host calls and of instructions without operands in assembly text.
-/

namespace Confine

/-- The name of a host call. -/
def HostCall.mnemonic : HostCall → String
  | print => "print"
  | println => "println"
  | eprint => "eprint"
  | eprintln => "eprintln"
  | readFile => "readfile"
  | writeFile => "writefile"
  | getEnv => "getenv"
  | getProperty => "property"
  | exit => "exit"
  | setStreams => "setio"
  | spawn _ _ => "spawn"
  | join => "join"
  | sleep => "sleep"
  | time => "time"
  | loadClass => "loadclass"

/-- The host calls that are written by their name alone. -/
def HostCall.bare : List HostCall :=
  [print, println, eprint, eprintln, readFile, writeFile, getEnv, getProperty, exit, setStreams,
    join, sleep, time, loadClass]

/-- The instructions of no other kind that are written by their name alone. -/
def Instruction.bare : List (String × Instruction) :=
  [("neg", neg), ("not", not), ("dup", dup), ("pop", pop), ("swap", swap), ("throw", throw),
    ("return", ret), ("returnvalue", retValue)]

/-- The instruction that is written by a name alone. -/
def Instruction.ofMnemonic? (s : String) : Option Instruction :=
  match bare.find? (·.1 == s) with
  | some (_, i) => some i
  | none =>
    match BinaryOp.ofMnemonic? s with
    | some op => some (.binary op)
    | none => (HostCall.bare.find? (·.mnemonic == s)).map .host

end Confine
