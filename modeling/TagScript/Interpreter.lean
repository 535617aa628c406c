import TagScript.Eval

namespace TagScript

structure Registry where
  functions : List (Entry Native)

namespace Registry

def empty : Registry := ⟨[]⟩

def register (registry : Registry) (f : Native) : Registry :=
  ⟨Entry.set f.name f registry.functions⟩

def ofList (fs : List Native) : Registry := fs.foldl register empty

def builtins : Registry := ofList [.print, .condition]

def merge (registry other : Registry) : Registry :=
  ⟨other.functions.foldl (fun fs e => Entry.set e.key e.value fs) registry.functions⟩

def get? (registry : Registry) (name : String) : Option Native :=
  Entry.get? name registry.functions

def size (registry : Registry) : Nat := registry.functions.length

def isEmpty (registry : Registry) : Bool := registry.functions.isEmpty

def install (registry : Registry) (scope : Scope) : Scope :=
  registry.functions.foldl (fun scope e => scope.define e.key (.native e.value)) scope

end Registry

structure Interpreter where
  host : Host
  machine : Machine

namespace Interpreter

/-- An interpreter whose global scope binds the built-in functions and those given. Of two functions
with one name the later one counts. -/
def build (host : Host) (printer : Printer) (natives : List Native) : Interpreter :=
  let registry := Registry.builtins.merge (Registry.ofList natives)
  ⟨host, ⟨.ofGlobal (registry.install .empty), printer⟩⟩

def standard : Interpreter := build ⟨.lexical, .none⟩ (.console "") []

def exec {α : Type} (interpreter : Interpreter) (x : Run α) : Except Fault α × Interpreter :=
  let (result, machine) := x.exec interpreter.machine
  (result, { interpreter with machine })

def evaluate (interpreter : Interpreter) (s : Statement) : Except Fault Value × Interpreter :=
  interpreter.exec (s.eval interpreter.host)

def run (interpreter : Interpreter) (program : Program) : Except Fault Unit × Interpreter :=
  interpreter.exec (Statement.evalAll interpreter.host program.statements)

def withBlock {α : Type} (interpreter : Interpreter) (session : Interpreter → α × Interpreter) :
    α × Interpreter :=
  let machine := interpreter.machine
  let inside := { machine with env := machine.env.enter interpreter.host.scoping }
  let (a, after) := session { interpreter with machine := inside }
  let machine := after.machine
  (a, { after with machine := { machine with env := machine.env.leave } })

def output (interpreter : Interpreter) : String := interpreter.machine.printer.captured

def clearOutput (interpreter : Interpreter) : Interpreter :=
  let machine := interpreter.machine
  { interpreter with machine := { machine with printer := machine.printer.clear } }

end Interpreter

end TagScript
