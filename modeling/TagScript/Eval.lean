import TagScript.Machine

namespace TagScript

structure Host where
  scoping : Scoping
  library : Library

/-- What a bare name contributes as an argument: itself where a name is asked for, and otherwise
the value of its variable, marked as given by name. -/
def Run.nameArgument (asked : Bool) (name : String) : Run Value :=
  if asked then pure (.string name) else return .identifier (← readVariable name)

namespace Statement

mutual

def eval (host : Host) : Statement → Run Value
  | openTag _ _ children => Run.inBlock host.scoping (evalBlock host children)
  | closeTag name params =>
    if name = letName then do
      Run.declareFrom (← evalArguments host (· = "id") params .empty)
    else do
      let f ← Run.callee name
      Run.call host.library f (← evalArguments host (fun _ => false) params .empty)
  | ifTag _ params children => do
    if ← evalCondition host params then evalAll host children
    pure .undefined
  | identifier name => Run.readVariable name
  | number n => pure (.number n)
  | string text => pure (.string text)
  | expression items => Run.onOperands (fun base => evalItems host base items)
  | wrapped inner => eval host inner
  | operator op => throw (.structural ("operator `" ++ op.symbol ++ "` outside an expression"))
  | endMark => pure .undefined

/-- A block evaluates its tags in order and passes over everything else. Its first conditional ends
it. -/
def evalBlock (host : Host) : List Statement → Run Value
  | [] => pure .undefined
  | child :: rest =>
    match child.kind with
    | .ifTag => eval host child
    | .openTag | .closeTag => do
      discard (eval host child)
      evalBlock host rest
    | _ => evalBlock host rest

def evalAll (host : Host) : List Statement → Run Unit
  | [] => pure ()
  | s :: rest => do
    discard (eval host s)
    evalAll host rest

/-- The first parameter of a conditional has to be its condition; the others are not looked at. -/
def evalCondition (host : Host) : List (Entry Statement) → Run Bool
  | [] => throw (.missingParameter ifName "condition")
  | ⟨key, condition⟩ :: _ =>
    if key = "condition" then do
      liftExcept (← eval host condition).condition
    else throw (.unexpectedParameter ifName "condition" key)

def evalItems (host : Host) (base : Nat) : List Statement → Run Unit
  | [] => pure ()
  | item :: rest => do
    match item.operator? with
    | some op => Run.applyOperator base op
    | none => Run.pushOperand (← eval host item)
    evalItems host base rest

/-- Evaluates parameters from left to right. `asksName` tells for which keys a bare name stands for
itself. -/
def evalArguments (host : Host) (asksName : String → Bool) :
    List (Entry Statement) → Arguments → Run Arguments
  | [], args => pure args
  | ⟨key, s⟩ :: rest, args => do
    let value ← match s.bareName? with
      | some name => Run.nameArgument (asksName key) name
      | none => eval host s
    evalArguments host asksName rest (args.insert key value)

end

end Statement

end TagScript
