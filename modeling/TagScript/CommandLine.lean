import TagScript.Interpreter
import TagScript.Program

namespace TagScript

def runSource (source : String) (scoping : Scoping) (printer : Printer) :
    Except Fault Unit × Printer :=
  match Program.load source with
  | .error fault => (.error fault, printer)
  | .ok program =>
    let (result, after) := (Interpreter.build ⟨scoping, .none⟩ printer []).run program
    (result, after.machine.printer)

inductive ReadFailure
  | missing
  | denied
  | isDirectory
  | notDirectory
  | nameTooLong
  | other (reason : String)

structure Outcome where
  code : UInt32
  stdout : String
  stderr : String

inductive Request
  | help
  | version
  | unknown (command : String)
  | badOption (option : String)
  | missingPath
  | run (path : String) (scoping : Scoping)

namespace Request

def isolatedFlag : String := "--isolated-scopes"

def isOption (arg : String) : Bool := arg.toList.head? = some '-'

/-- An unknown option is reported before anything else; of the other arguments the first is the path
and the rest do not matter. -/
def ofRunArgs (args : List String) : Request :=
  match args.find? (fun arg => isOption arg && arg ≠ isolatedFlag) with
  | some option => badOption option
  | none =>
    match args.find? (fun arg => !isOption arg) with
    | some path => run path (if isolatedFlag ∈ args then .isolated else .lexical)
    | none => missingPath

def ofArgs : List String → Request
  | [] => help
  | command :: args =>
    if command = "run" then ofRunArgs args
    else if command ∈ ["help", "--help", "-h"] then help
    else if command ∈ ["version", "--version", "-V"] then version
    else unknown command

end Request

def usage : String := "htc - ht program runner

Usage: htc <command> [options]

Commands:
  run <program.json>   Evaluate a parsed program
  help                 Show this message
  version              Show version information

Run options:
  --isolated-scopes    Blocks cannot see variables of enclosing scopes

Environment:
  RUST_LOG=<filter>    Enable evaluator logging on stderr
  HT_LOG_TREE=1        Render logged spans as a tree
"

namespace Outcome

def success (stdout : String) : Outcome := ⟨0, stdout, ""⟩

def failure (stderr : String) : Outcome := ⟨1, "", stderr⟩

def ofReadFailure (path : String) : ReadFailure → Outcome
  | .missing => failure s!"cannot find file '{path}'\n"
  | .denied => failure s!"permission denied reading '{path}'\n"
  | .isDirectory => failure s!"error reading '{path}': Is a directory (os error 21)\n"
  | .notDirectory => failure s!"error reading '{path}': Not a directory (os error 20)\n"
  | .nameTooLong => failure s!"error reading '{path}': File name too long (os error 36)\n"
  | .other reason => failure s!"error reading '{path}': {reason}\n"

def ofSource (source : String) (scoping : Scoping) : Outcome :=
  match runSource source scoping (.console "") with
  | (.ok (), printer) => success printer.written
  | (.error fault, printer) => ⟨1, printer.written, fault.report ++ "\n"⟩

def ofFile (path : String) (scoping : Scoping) : Except ReadFailure ByteArray → Outcome
  | .error reason => ofReadFailure path reason
  | .ok bytes =>
    match String.fromUTF8? bytes with
    | none => failure s!"'{path}' contains invalid UTF-8 data\n"
    | some source => ofSource source scoping

end Outcome

namespace Request

/-- Carries out a request. `read` is used only by a run, and only for its path. -/
def perform {m : Type → Type} [Monad m] (read : String → m (Except ReadFailure ByteArray)) :
    Request → m Outcome
  | help => pure (.success usage)
  | version => pure (.success "htc 0.1.0\n")
  | unknown command => pure ⟨1, usage, s!"Unknown command: {command}\n\n"⟩
  | badOption option => pure (.failure s!"error: unknown option '{option}'\n")
  | missingPath => pure (.failure
      "error: missing file path\nUsage: htc run <program.json> [--isolated-scopes]\n")
  | run path scoping => do return .ofFile path scoping (← read path)

end Request

end TagScript
