set_option autoImplicit false

namespace LetPrint.CommandLine

inductive Invocation where
  | help
  | version
  | misuse
  | read (file : String) (showTokens : Bool) (verbosity : Nat)
  deriving DecidableEq, Repr

structure Options where
  file? : Option String
  showTokens : Bool
  verbosity : Nat
  deriving DecidableEq, Repr

namespace Options

def none : Options := ⟨.none,false,0⟩

def letter (o : Options) : Char → Except Invocation Options
  | 'v' => .ok {o with verbosity := o.verbosity+1}
  | 'h' => .error .help
  | 'V' => .error .version
  | _ => .error .misuse

/-- The token list may be asked for once, a higher verbosity any number of times. -/
def word (o : Options) : List Char → Except Invocation Options
  | ['t','o','k','e','n','s'] =>
    if o.showTokens then .error .misuse else .ok {o with showTokens := true}
  | ['v','e','r','b','o','s','e'] => .ok {o with verbosity := o.verbosity+1}
  | ['h','e','l','p'] => .error .help
  | ['v','e','r','s','i','o','n'] => .error .version
  | _ => .error .misuse

def name (o : Options) (text : String) : Except Invocation Options :=
  if text.isEmpty || o.file?.isSome then .error .misuse else .ok {o with file? := some text}

/-- A lone dash is a file name, and after two lone dashes every argument is. -/
def read (o : Options) : List String → Except Invocation Options
  | [] => .ok o
  | arg :: args =>
    match arg.toList with
    | ['-','-'] => args.foldlM name o
    | '-' :: '-' :: cs => do read (← o.word cs) args
    | '-' :: c :: cs => do read (← (c :: cs).foldlM letter o) args
    | _ => do read (← o.name arg) args

end Options

def Invocation.ofArguments (args : List String) : Invocation :=
  match Options.none.read args with
  | .error invocation => invocation
  | .ok o =>
    match o.file? with
    | some file => .read file o.showTokens o.verbosity
    | none => .misuse

inductive Input where
  | standard
  | path (name : String)
  deriving DecidableEq, Repr

def Input.ofName (file : String) : Input := if file = "-" then .standard else .path file

def Invocation.input? : Invocation → Option Input
  | read file _ _ => some (.ofName file)
  | _ => none

end LetPrint.CommandLine
