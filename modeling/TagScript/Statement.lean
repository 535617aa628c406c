import TagScript.Entry

namespace TagScript

inductive Operator
  | add
  | subtract
  | multiply
  | divide
  | greater
  | smaller
  | equal
  | notEqual
  deriving DecidableEq

namespace Operator

def all : List Operator :=
  [add, subtract, multiply, divide, greater, smaller, equal, notEqual]

def symbol : Operator → String
  | add => "+"
  | subtract => "-"
  | multiply => "*"
  | divide => "/"
  | greater => "greater"
  | smaller => "smaller"
  | equal => "=="
  | notEqual => "!="

def ofSymbol? (symbol : String) : Option Operator :=
  all.find? (·.symbol = symbol)

def isComparison : Operator → Bool
  | greater | smaller | equal | notEqual => true
  | _ => false

@[simp] theorem ofSymbol?_symbol (op : Operator) : ofSymbol? op.symbol = some op := by
  cases op <;> rfl

end Operator

inductive Statement
  | openTag (name : String) (params : List (Entry Statement)) (children : List Statement)
  | closeTag (name : String) (params : List (Entry Statement))
  | ifTag (name : String) (params : List (Entry Statement)) (children : List Statement)
  | identifier (name : String)
  | number (n : Int64)
  | string (text : String)
  | expression (items : List Statement)
  | wrapped (inner : Statement)
  | operator (op : Operator)
  | endMark

structure Program where
  statements : List Statement

namespace Statement

inductive Kind
  | openTag
  | closeTag
  | identifier
  | number
  | string
  | expression
  | ifTag
  | wrapped
  | operator
  | endMark
  deriving DecidableEq

namespace Kind

def all : List Kind :=
  [openTag, closeTag, identifier, number, string, expression, ifTag, wrapped, operator, endMark]

def name : Kind → String
  | openTag => "OpenTag"
  | closeTag => "CloseTag"
  | identifier => "Identifier"
  | number => "Number"
  | string => "String"
  | expression => "Expression"
  | ifTag => "IfStatement"
  | wrapped => "ParameterValue"
  | operator => "Operator"
  | endMark => "End"

def ofName? (name : String) : Option Kind :=
  all.find? (·.name = name)

@[simp] theorem ofName?_name (kind : Kind) : ofName? kind.name = some kind := by
  cases kind <;> rfl

end Kind

def kind : Statement → Kind
  | openTag .. => .openTag
  | closeTag .. => .closeTag
  | ifTag .. => .ifTag
  | identifier _ => .identifier
  | number _ => .number
  | string _ => .string
  | expression _ => .expression
  | wrapped _ => .wrapped
  | operator _ => .operator
  | endMark => .endMark

def unwrapped : Statement → Statement
  | wrapped inner => inner.unwrapped
  | s => s

def bareName? : Statement → Option String
  | identifier name => some name
  | wrapped inner => inner.bareName?
  | _ => none

def operator? : Statement → Option Operator
  | operator op => some op
  | _ => none

def binary (left : Statement) (op : Operator) (right : Statement) : Statement :=
  expression [left, right, operator op]

end Statement

def letName : String := "Let"

def ifName : String := "If"

def isKeyword (text : String) : Bool := text = letName || text = ifName

def Statement.conditional (condition : Statement) (children : List Statement) : Statement :=
  .ifTag ifName [⟨"condition", condition⟩] children

theorem Statement.bareName?_eq_some_iff (s : Statement) (name : String) :
    s.bareName? = some name ↔ s.unwrapped = .identifier name := by
  fun_induction Statement.unwrapped s with
  | case1 inner ih => simpa [Statement.bareName?] using ih
  | case2 s h => cases s <;> simp_all [Statement.bareName?]

end TagScript
