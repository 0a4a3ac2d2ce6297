import LetPrint.CommandLine.Arguments
import LetPrint.CommandLine.Report
import LetPrint.Parse.Program

/-!
The outcome of a call: an exit code, the text for standard output and the lines for standard error.
The events of a run are shown from a verbosity on that depends on their level.
-/

set_option autoImplicit false

namespace LetPrint.CommandLine

inductive ReadFailure where
  | missing
  | directory
  | undecodable
  | other (reason : String)
  deriving DecidableEq, Repr

def ReadFailure.message : ReadFailure → String
  | missing => "No such file or directory (os error 2)"
  | directory => "Is a directory (os error 21)"
  | undecodable => "stream did not contain valid UTF-8"
  | other reason => reason

structure Outcome where
  code : Nat
  stdout : String
  stderr : List String
  deriving DecidableEq, Repr

def helpText : String := ofLines
  ["Parse a let/print program and print its syntax tree",
   "",
   "Usage: minilang [OPTIONS] <FILE>",
   "",
   "Arguments:",
   "  <FILE>  Source file, or `-` to read from stdin",
   "",
   "Options:",
   "      --tokens      Print the token stream before the tree",
   "  -v, --verbose...  Log verbosity (-v debug, -vv trace)",
   "  -h, --help        Print help",
   "  -V, --version     Print version"]

def versionText : String := ofLines ["minilang 0.1.0"]

def threshold : EventLevel → Nat
  | .debug => 1
  | .trace => 2

def logLines (verbosity : Nat) (events : List Event) : List String :=
  (events.filter fun e => threshold e.level ≤ verbosity).map Event.line

/-- Both readings of a text, with a word from the command line after each. -/
def readProgram (source : String) : Traced Program := do
  let ts ← tokenize source
  Traced.emit .tokensReady
  let program ← parseProgram ts
  Traced.emit .programReady
  return program

namespace Outcome

def listing (showTokens : Bool) (source : String) : String :=
  match (tokenize source).result with
  | .error _ => ""
  | .ok ts => if showTokens then tokenList ts else ""

def ofSource (file : String) (showTokens : Bool) (verbosity : Nat) (source : String) : Outcome :=
  let run := readProgram source
  let log := logLines verbosity run.events
  match run.result with
  | .ok program => ⟨0,listing showTokens source ++ ofLines [program.indented],log⟩
  | .error e => ⟨1,listing showTokens source,log ++ report file e⟩

def ofReadFailure (file : String) (failure : ReadFailure) : Outcome :=
  ⟨1,"",["Error reading '" ++ file ++ "': " ++ failure.message]⟩

def decode (bytes : ByteArray) : Except ReadFailure String :=
  match String.fromUTF8? bytes with
  | some source => .ok source
  | none => .error .undecodable

/-- The outcome of a call, given what its input was found to hold. -/
def ofInvocation (invocation : Invocation) (content : Except ReadFailure ByteArray) : Outcome :=
  match invocation with
  | .help => ⟨0,helpText,[]⟩
  | .version => ⟨0,versionText,[]⟩
  | .misuse => ⟨2,"",[]⟩
  | .read file showTokens verbosity =>
    match content.bind decode with
    | .ok source => ofSource file showTokens verbosity source
    | .error failure => ofReadFailure file failure

end Outcome

end LetPrint.CommandLine
