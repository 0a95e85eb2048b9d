import ScriptSyntax.CommandLine.Report
/-! # The command line program -/

namespace ScriptSyntax.CommandLine

/-- The number that a system gives an error. Some are handed on as negative numbers. -/
def systemCode (code : UInt32) : Nat :=
  if code.toNat < Nat.pow 2 31 then code.toNat else Nat.pow 2 32 - code.toNat

/-- The reason that the system gives for an error, with its number. -/
def systemReason : IO.Error → String
  | .noFileOrDirectory _ code details | .permissionDenied _ code details
  | .inappropriateType _ code details | .invalidArgument _ code details
  | .resourceExhausted _ code details | .alreadyExists _ code details
  | .noSuchThing _ code details | .interrupted _ code details
  | .otherError code details | .unsupportedOperation code details
  | .hardwareFault code details | .resourceBusy code details
  | .illegalOperation code details | .protocolError code details
  | .timeExpired code details | .unsatisfiedConstraints code details
  | .resourceVanished code details =>
    details.capitalize ++ " (os error " ++ toString (systemCode code) ++ ")"
  | e => toString e

/-- The bytes of an input. -/
def Input.bytes : Input → IO ByteArray
  | standard => do (← IO.getStdin).readBinToEnd
  | file path => IO.FS.readBinFile path

def Command.execute (command : Command) : IO Report := do
  let content ←
    try
      pure (.ok (← command.input.bytes))
    catch e =>
      pure (.error (.system (systemReason e)))
  return command.report content

end ScriptSyntax.CommandLine

def main (args : List String) : IO UInt32 := do
  let report ←
    match ScriptSyntax.CommandLine.read args with
    | .ok command => command.execute
    | .error reason => pure reason.report
  IO.print report.output
  IO.eprint report.diagnostics
  return report.code
