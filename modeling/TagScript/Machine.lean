import TagScript.Environment
import TagScript.Native
import TagScript.Operator

/-!
The state of an evaluation and its elementary steps. A step that fails keeps the state it reached:
what was printed and declared before the fault stays printed and declared.
-/

namespace TagScript

inductive Printer
  | buffer (text : String)
  | console (sent : String)

namespace Printer

def println (line : String) : Printer → Printer
  | buffer text => buffer (text ++ line ++ "\n")
  | console sent => console (sent ++ line ++ "\n")

def captured : Printer → String
  | buffer text => text
  | console _ => ""

def clear : Printer → Printer
  | buffer _ => buffer ""
  | console sent => console sent

def written : Printer → String
  | buffer text => text
  | console sent => sent

end Printer

structure Machine where
  env : Environment
  printer : Printer

abbrev Run (α : Type) := ExceptT Fault (StateM Machine) α

namespace Run

variable {α : Type}

def exec (x : Run α) (m : Machine) : Except Fault α × Machine := StateT.run (ExceptT.run x) m

@[simp] theorem exec_pure (a : α) (m : Machine) : (pure a : Run α).exec m = (.ok a, m) := rfl

@[simp] theorem exec_throw (fault : Fault) (m : Machine) :
    (throw fault : Run α).exec m = (.error fault, m) := rfl

theorem exec_bind {β : Type} (x : Run α) (f : α → Run β) (m : Machine) :
    (x >>= f).exec m =
      match x.exec m with
      | (.ok a, m') => (f a).exec m'
      | (.error fault, m') => (.error fault, m') := by
  simp only [exec, bind, ExceptT.bind, ExceptT.mk, ExceptT.run, StateT.bind, StateT.run]
  cases x m with
  | mk result m' => cases result <;> rfl

def onEnv (f : Environment → Environment) : Run Unit :=
  modify fun m => { m with env := f m.env }

def readVariable (name : String) : Run Value := do
  match (← get).env.lookup? name with
  | some value => pure value
  | none => throw (.undefinedIdentifier name)

def callee (name : String) : Run Native := do
  match (← get).env.lookupCallable? name with
  | some (.native f) => pure f
  | some value => throw (.notCallable name value.type)
  | none => throw (.unresolvedCall name)

def call (library : Library) (f : Native) (args : Arguments) : Run Value := do
  let reply := f.call library args
  modify fun m => { m with printer := reply.lines.foldl (fun p line => p.println line) m.printer }
  liftExcept reply.result

def declare (name : String) (value : Value) : Run Unit := do
  match (← get).env.declare? name value with
  | some env => modify fun m => { m with env := env }
  | none => throw (.duplicateVariable name)

def declareFrom (args : Arguments) : Run Value := do
  match args.get? "value", args.get? "id" with
  | none, _ => throw (.missingParameter letName "value")
  | some _, none => throw (.missingParameter letName "id")
  | some value, some id =>
    declare (← liftExcept id.nameText) value.resolved
    pure .undefined

def inBlock (scoping : Scoping) (body : Run α) : Run α := ExceptT.mk do
  modify fun m => { m with env := m.env.enter scoping }
  let result ← body.run
  modify fun m => { m with env := m.env.leave }
  return result

theorem exec_inBlock (scoping : Scoping) (body : Run α) (m : Machine) :
    (inBlock scoping body).exec m =
      let (result, m') := body.exec { m with env := m.env.enter scoping }
      (result, { m' with env := m'.env.leave }) := rfl

def pushOperand (value : Value) : Run Unit := onEnv (·.push value)

def popOperand : Run Value := do
  let (result, env) := (← get).env.pop
  modify fun m => { m with env := env }
  liftExcept result

/-- Applies an operator to the two topmost operands. Operands below `base` belong to an enclosing
expression and are out of reach. -/
def applyOperator (base : Nat) (op : Operator) : Run Unit := do
  if (← get).env.operandDepth < base + 2 then throw .stackUnderflow
  let right ← popOperand
  let left ← popOperand
  pushOperand (← liftExcept (op.apply left right))

def takeResult (base : Nat) : Run Value := do
  match (← get).env.operandDepth - base with
  | 0 => throw (.structural "expression produced no value")
  | 1 => popOperand
  | n => throw (.structural s!"expression left {n} values on the operand stack")

/-- Evaluates an expression whose items do their work above the operands that are there; a fault
drops whatever the items left behind. -/
def onOperands (items : Nat → Run Unit) : Run Value := do
  let base := (← get).env.operandDepth
  tryCatch (do items base; takeResult base) fun fault => do
    onEnv (·.truncate base)
    throw fault

end Run

end TagScript
