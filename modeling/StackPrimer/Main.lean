import StackPrimer.Command.Job

/-!
# The command on a disk

Reads and writes the files of the disk, prints what the command printed and said, and ends with its
exit status.
-/

namespace StackPrimer

/-- What the system says about a file that cannot be read or written. -/
def fileError : IO.Error → Command.FileError
  | .noFileOrDirectory _ _ _ => .notFound
  | .inappropriateType _ code reason => ofCode code reason
  | .permissionDenied _ code reason => ofCode code reason
  | .invalidArgument _ code reason => ofCode code reason
  | .otherError code reason => ofCode code reason
  | e => .other 5 (toString e)
where
  /-- The error of a number, which some calls give with a minus sign. -/
  ofCode (code : UInt32) (reason : String) : Command.FileError :=
    let number := min code.toNat (0 - code).toNat
    if number = 20 then .notDirectory
    else if number = 21 then .isDirectory
    else if number = 36 then .nameTooLong
    else .other number reason

/-- The files on the disk. -/
def disk : Command.Files IO where
  read p := do
    try
      return .ok (← IO.FS.readBinFile p.text).toList
    catch e => return .error (fileError e)
  write p text := do
    try
      IO.FS.writeFile p.text text
      return .ok ()
    catch e => return .error (fileError e)

/-- All of the standard input. -/
def standardInput : IO String := do
  let bytes ← (← IO.getStdin).readBinToEnd
  match Text.decode bytes.toList with
  | .ok cs => return String.ofList (Text.unifyBreaks cs)
  | .error e => throw (.userError e.message)

/-- A program that runs for longer than this many instructions, 2⁶², is given up. -/
def patience : Nat := 0x4000000000000000

end StackPrimer

/-- The command. -/
def main (arguments : List String) : IO UInt32 := do
  let answer ← StackPrimer.Command.command StackPrimer.disk StackPrimer.standardInput
    StackPrimer.patience arguments
  (← IO.getStdout).putStr answer.printed
  (← IO.getStderr).putStr answer.said
  return (answer.status.getD 0).toUInt32
