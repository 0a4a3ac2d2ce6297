import LetPrint.CommandLine.Outcome

set_option autoImplicit false

open LetPrint.CommandLine

partial def readStream (stream : IO.FS.Stream) (bytes : ByteArray) : IO ByteArray := do
  let more ← stream.read 65536
  if more.isEmpty then return bytes
  readStream stream (bytes ++ more)

def readFailure : IO.Error → ReadFailure
  | .noFileOrDirectory .. => .missing
  | .inappropriateType .. => .directory
  | e => .other (toString e)

def fetch : Input → IO (Except ReadFailure ByteArray)
  | .standard => do return .ok (← readStream (← IO.getStdin) .empty)
  | .path name => do
    try return .ok (← IO.FS.readBinFile name)
    catch e => return .error (readFailure e)

def main (args : List String) : IO UInt32 := do
  let invocation := Invocation.ofArguments args
  let content ← match invocation.input? with
    | some input => fetch input
    | none => pure (.ok .empty)
  let outcome := Outcome.ofInvocation invocation content
  (← IO.getStdout).putStr outcome.stdout
  (← IO.getStderr).putStr (ofLines outcome.stderr)
  return UInt32.ofNat outcome.code
