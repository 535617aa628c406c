import TagScript.Value

namespace TagScript

inductive Fault
  | undefinedIdentifier (name : String)
  | duplicateVariable (name : String)
  | missingParameter (tag param : String)
  | unexpectedParameter (tag expected found : String)
  | typeMismatch (op : Operator) (left right : ValueType)
  | mismatchedType (expected found : ValueType)
  | divisionByZero
  | integerOverflow (operation : String)
  | stackUnderflow
  | unresolvedCall (name : String)
  | notCallable (name : String) (found : ValueType)
  | structural (message : String)
  deriving DecidableEq

namespace Fault

def message : Fault → String
  | undefinedIdentifier name => s!"'{name}' is undefined"
  | duplicateVariable name => s!"'{name}' is already declared"
  | missingParameter tag param => s!"expect '{param}' param for {tag}"
  | unexpectedParameter tag expected found =>
    s!"expect '{expected}' param for {tag} found '{found}'"
  | typeMismatch op left right =>
    "operator `" ++ op.symbol ++ "` cannot be applied to " ++ left.name ++ " and " ++ right.name
  | mismatchedType expected found => "expected " ++ expected.name ++ " found " ++ found.name
  | divisionByZero => "division by zero"
  | integerOverflow operation => "integer overflow in " ++ operation
  | stackUnderflow => "operand stack underflow"
  | unresolvedCall name => s!"cannot resolve call to '{name}'"
  | notCallable name found => s!"'{name}' is " ++ found.name ++ ", not a native function"
  | structural message => "malformed program: " ++ message

def report (fault : Fault) : String := "[RuntimeError] " ++ fault.message

end Fault

namespace Value

def condition (v : Value) : Except Fault Bool :=
  match v.resolved with
  | boolean b => .ok b
  | other => .error (.mismatchedType .boolean other.type)

def nameText (v : Value) : Except Fault String :=
  match v.resolved with
  | string text => .ok text
  | other => .error (.mismatchedType .string other.type)

end Value

end TagScript
