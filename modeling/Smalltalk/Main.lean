import Smalltalk.CommandLine

namespace Smalltalk

/-! The program: it opens the image, keeps the clocks of the machine going and
writes the log to the standard error stream. -/

namespace Program

open CommandLine

/-- The bytes of a file; one that cannot be read is as good as missing. -/
def openFile (name : String) : IO ByteSource := do
  try
    return Gzip.decode (← IO.FS.readBinFile name).data
  catch _ =>
    return .failing .noSuchFile

/-- The number of instructions that are executed between two looks at the
clocks. -/
def slice : Nat := 1000

/-- Give the machine the time, and drop what nobody will show. -/
def refresh (machine : Machine) (milliseconds : Nat) : Machine :=
  { machine with
    clock := { machine.clock with milliseconds }
    screen := machine.screen.takeRequests.2 }

/-- Run a machine in slices until it quits or the limit is reached. -/
partial def runSlices (started remaining : Nat) (machine : Machine) :
    IO (Except Stop Machine) := do
  if machine.hasQuit ∨ remaining = 0 then return .ok machine
  let now ← IO.monoMsNow
  match Run.runFor (min slice remaining) (refresh machine (now - started)) with
  | .error stop _ => return .error stop
  | .ok executed machine => runSlices started (remaining - executed) machine

/-- Write the log. -/
def write (log : List LogLine) : IO Unit :=
  log.forM fun line => IO.eprintln ("[" ++ line.level.name ++ "] " ++ line.text)

def usage : String := "usage: smalltalk IMAGE"

def main (arguments : List String) : IO UInt32 := do
  match parse arguments with
  | .information =>
    IO.println usage
    return 0
  | .misuse =>
    IO.eprintln usage
    return UInt32.ofNat misuseCode
  | .run name options =>
    let (log, machine) := start name options (← openFile name)
    let outcome ←
      match machine with
      | none => pure { exitCode := failureCode, log : Report }
      | some machine =>
        pure (report log (← runSlices (← IO.monoMsNow) (limit options) machine))
    write outcome.log
    return UInt32.ofNat outcome.exitCode

end Program

end Smalltalk

def main (arguments : List String) : IO UInt32 := Smalltalk.Program.main arguments
