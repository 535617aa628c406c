import TagScript.Statement

namespace TagScript

/-- A handle on a native function. The two built-in ones are known by name; a function of the host
carries the number under which the host keeps it. -/
inductive Native
  | print
  | condition
  | host (serial : Nat) (name : String)
  deriving DecidableEq

def Native.name : Native → String
  | print => "Print"
  | condition => ifName
  | host _ name => name

/-- A call argument written as a bare name arrives as `identifier v`, where `v` is the value that
the name stands for. -/
inductive Value
  | undefined
  | string (text : String)
  | number (n : Int64)
  | boolean (b : Bool)
  | identifier (value : Value)
  | function (name : String) (params : List String) (body : List Statement)
  | native (f : Native)
  | array (items : List Value)
  | object (fields : List (Entry Value))

inductive ValueType
  | undefined
  | string
  | identifier
  | number
  | boolean
  | function
  | native
  | array
  | object
  deriving DecidableEq

namespace ValueType

def name : ValueType → String
  | undefined => "undefined"
  | string => "string"
  | identifier => "id"
  | number => "number"
  | boolean => "boolean"
  | function => "function"
  | native => "n-function"
  | array => "array"
  | object => "object"

end ValueType

namespace Value

def type : Value → ValueType
  | undefined => .undefined
  | string _ => .string
  | number _ => .number
  | boolean _ => .boolean
  | identifier _ => .identifier
  | function .. => .function
  | native _ => .native
  | array _ => .array
  | object _ => .object

def resolved : Value → Value
  | identifier value => value.resolved
  | v => v

def isUndefined : Value → Bool
  | undefined => true
  | _ => false

mutual

def display : Value → String
  | undefined => "undefined"
  | string text => text
  | number n => toString n
  | boolean b => if b then "true" else "false"
  | identifier value => value.display
  | function name _ _ => s!"<function {name}>"
  | native f => "<native " ++ f.name ++ ">"
  | array items => "[" ++ ", ".intercalate (displayAll items) ++ "]"
  | object fields => "\x7b" ++ ", ".intercalate (displayFields fields) ++ "\x7d"

def displayAll : List Value → List String
  | [] => []
  | v :: rest => v.display :: displayAll rest

def displayFields : List (Entry Value) → List String
  | [] => []
  | ⟨key, v⟩ :: rest => (key ++ ": " ++ v.display) :: displayFields rest

end

theorem resolved_ne_identifier (v w : Value) : v.resolved ≠ identifier w := by
  fun_induction resolved v with
  | case1 value ih => exact ih
  | case2 v h => exact h w

@[simp] theorem resolved_resolved (v : Value) : v.resolved.resolved = v.resolved := by
  fun_induction resolved v with
  | case1 value ih => exact ih
  | case2 v h => cases v <;> simp_all [resolved]

end Value

end TagScript
