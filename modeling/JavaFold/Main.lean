import JavaFold.Command.Run

/-!
# The program

The files of the machine, and the entry point.
-/

namespace JavaFold

/-- The cause of a failure that the system reports. -/
def FileFailure.ofError : IO.Error → FileFailure
  | .noFileOrDirectory _ code details
  | .permissionDenied _ code details
  | .resourceExhausted _ code details
  | .inappropriateType _ code details
  | .invalidArgument _ code details
  | .alreadyExists _ code details
  | .interrupted _ code details
  | .noSuchThing _ code details
  | .otherError code details
  | .resourceBusy code details
  | .resourceVanished code details
  | .unsupportedOperation code details
  | .hardwareFault code details
  | .unsatisfiedConstraints code details
  | .illegalOperation code details
  | .protocolError code details
  | .timeExpired code details => .system details code.toNat
  | .unexpectedEof => .system "unexpected end of file" 0
  | .userError description => .system description 0

/-- Access to the files of the machine. -/
def machineFiles : FileAccess IO where
  read path := do
    if path.toList.contains '\x00' then return .error .nulInName
    try
      let bytes ← IO.FS.withFile path .read fun handle => handle.readBinToEnd
      match String.fromUTF8? bytes with
      | some content => return .ok content
      | none => return .error .notText
    catch error => return .error (.ofError error)
  write path content := do
    if path.toList.contains '\x00' then return .error .nulInName
    try
      IO.FS.writeFile path content
      return .ok ()
    catch error => return .error (.ofError error)

end JavaFold

/-- Fold a file, or print the list of rules, as the command line says. -/
def main (arguments : List String) : IO UInt32 := do
  let outcome ← JavaFold.run JavaFold.machineFiles arguments
  (← IO.getStdout).putStr outcome.output
  (← IO.getStderr).putStr outcome.errors
  return outcome.exitCode
