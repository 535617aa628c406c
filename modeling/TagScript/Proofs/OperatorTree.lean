import TagScript.Interpreter
import TagScript.Proofs.Expression

namespace TagScript

structure Operand where
  statement : Statement
  operator?_eq_none : statement.operator? = none

inductive OperatorTree
  | leaf (operand : Operand)
  | node (op : Operator) (left right : OperatorTree)

namespace OperatorTree

def nested : OperatorTree → Statement
  | leaf operand => operand.statement
  | node op left right => .binary left.nested op right.nested

def postorder : OperatorTree → List Statement
  | leaf operand => [operand.statement]
  | node op left right => left.postorder ++ right.postorder ++ [.operator op]

def eval (host : Host) : OperatorTree → Run Value
  | leaf operand => operand.statement.eval host
  | node op left right => do
    let a ← left.eval host
    let b ← right.eval host
    liftExcept (op.apply a b)

theorem operator?_nested (tree : OperatorTree) : tree.nested.operator? = none := by
  cases tree with
  | leaf operand => exact operand.operator?_eq_none
  | node => rfl

theorem reduce_postorder_append (host : Host) (tree : OperatorTree) (stack : List Value)
    (rest : List Statement) :
    Statement.reduce host stack (tree.postorder ++ rest) =
      tree.eval host >>= fun value => Statement.reduce host (value :: stack) rest := by
  induction tree generalizing stack rest with
  | leaf operand =>
    simp only [postorder, List.singleton_append, Statement.reduce, operand.operator?_eq_none, eval]
  | node op left right ihleft ihright =>
    simp only [postorder, List.append_assoc, ihleft, ihright, eval, bind_assoc]
    apply bind_congr
    intro a
    apply bind_congr
    intro b
    simp only [List.singleton_append, Statement.reduce, Statement.operator?, Operator.onStack]
    cases op.apply a b <;> rfl

theorem eval_expression_postorder (host : Host) (tree : OperatorTree) :
    (Statement.expression tree.postorder).eval host = tree.eval host := by
  have h := tree.reduce_postorder_append host [] []
  rw [List.append_nil] at h
  rw [Statement.eval_expression, h, bind_assoc]
  exact bind_pure _

theorem eval_nested (host : Host) (tree : OperatorTree) :
    tree.nested.eval host = tree.eval host := by
  induction tree with
  | leaf => rfl
  | node op left right ihleft ihright =>
    -- The nested subtrees are the leaves of a tree with one operator, which is its own postorder.
    let flat : OperatorTree := node op (leaf ⟨left.nested, left.operator?_nested⟩)
      (leaf ⟨right.nested, right.operator?_nested⟩)
    have h : (node op left right).nested.eval host = flat.eval host :=
      flat.eval_expression_postorder host
    rw [h]
    simp only [flat, eval, ihleft, ihright]

/-- Nested, in postorder and by direct recursion, a tree gives one result, one environment and one
output. -/
theorem evaluate_nested_and_postorder (interpreter : Interpreter) (tree : OperatorTree) :
    interpreter.evaluate tree.nested = interpreter.exec (tree.eval interpreter.host) ∧
      interpreter.evaluate (.expression tree.postorder) =
        interpreter.exec (tree.eval interpreter.host) := by
  constructor
  · rw [Interpreter.evaluate, eval_nested]
  · rw [Interpreter.evaluate, eval_expression_postorder]

end OperatorTree

end TagScript
