import TagScript.Proofs.Effect

/-!
Expressions without the machine's operand stack. The items of an expression can be reduced on a
stack of their own instead: operands that lie below are never reached and come back as they were.
Evaluation is uniform by this, and a relation that respects the elementary steps respects
expressions as well.
-/

namespace TagScript

def Operator.onStack (op : Operator) : List Value → Except Fault (List Value)
  | right :: left :: rest => (op.apply left right).map (· :: rest)
  | _ => .error .stackUnderflow

def soleOperand : List Value → Except Fault Value
  | [] => .error (.structural "expression produced no value")
  | [value] => .ok value
  | values => .error
      (.structural s!"expression left {values.length} values on the operand stack")

namespace Statement

/-- Reduces the items of an expression on a stack that is passed along. -/
def reduce (host : Host) : List Value → List Statement → Run (List Value)
  | stack, [] => pure stack
  | stack, item :: rest =>
    match item.operator? with
    | some op => do reduce host (← liftExcept (op.onStack stack)) rest
    | none => do reduce host ((← item.eval host) :: stack) rest

end Statement

namespace Discipline

variable {d : Discipline} {stack : List Value}

theorem sound_onStack (h : d.stack stack) (op : Operator) :
    Sound d.node d.stack (op.onStack stack) := by
  match stack, h with
  | [], _ => trivial
  | [_], _ => trivial
  | b :: a :: rest, h =>
    have hrest : d.stack rest := (List.forall_mem_cons.1 (List.forall_mem_cons.1 h).2).2
    apply (op.sound_apply d.node a b).map
    intro value hvalue
    exact List.forall_mem_cons.2 ⟨d.value_of_plain hvalue, hrest⟩

theorem sound_soleOperand (h : d.stack stack) : Sound d.node d.value (soleOperand stack) := by
  match stack, h with
  | [], _ => trivial
  | [value], h => exact h value List.mem_cons_self
  | _ :: _ :: _, _ => trivial

end Discipline

namespace StepRules

variable {d : Discipline} {left right : Host}
  {R : ∀ {α : Type}, (α → Prop) → Run α → Run α → Prop} {items : List Statement}

theorem reduce (h : StepRules d left right R)
    (hitems : ∀ item ∈ items, R d.value (item.eval left) (item.eval right)) {stack : List Value}
    (hstack : d.stack stack) :
    R d.stack (Statement.reduce left stack items) (Statement.reduce right stack items) := by
  induction items generalizing stack with
  | nil => exact h.pure hstack
  | cons item rest ih =>
    obtain ⟨hitem, hrest⟩ := List.forall_mem_cons.1 hitems
    simp only [Statement.reduce]
    split
    · apply h.bind .stack (h.lift (Discipline.sound_onStack hstack _))
      intro stack hstack
      exact ih hrest hstack
    · apply h.bind .value hitem
      intro value hvalue
      exact ih hrest (List.forall_mem_cons.2 ⟨hvalue, hstack⟩)

theorem reduceToValue (h : StepRules d left right R)
    (hitems : ∀ item ∈ items, R d.value (item.eval left) (item.eval right)) :
    R d.value (Statement.reduce left [] items >>= fun stack => liftExcept (soleOperand stack))
      (Statement.reduce right [] items >>= fun stack => liftExcept (soleOperand stack)) := by
  have hempty : d.stack [] := nofun
  apply h.bind .stack (h.reduce hitems hempty)
  intro stack hstack
  exact h.lift (Discipline.sound_soleOperand hstack)

end StepRules

namespace Machine

def stack (values : List Value) (m : Machine) : Machine :=
  { m with env := m.env.modifyCurrent fun scope =>
      { scope with operands := values ++ scope.operands } }

@[simp] theorem stack_nil (m : Machine) : m.stack [] = m := by
  simp [stack]

@[simp] theorem operands_stack (values : List Value) (m : Machine) :
    (m.stack values).env.current.operands = values ++ m.env.current.operands := by
  simp [stack]

@[simp] theorem operandDepth_stack (values : List Value) (m : Machine) :
    (m.stack values).env.operandDepth = values.length + m.env.operandDepth := by
  simp [stack, Environment.operandDepth, Scope.depth]

@[simp] theorem bare_stack (values : List Value) (m : Machine) :
    (m.stack values).env.bare = m.env.bare := by
  rcases m with ⟨⟨global, _ | ⟨block, rest⟩⟩, printer⟩ <;> rfl

theorem extend_stack (new : List (Entry Value)) (lines : List String) (values : List Value)
    (m : Machine) : (m.stack values).extend new lines = (m.extend new lines).stack values := by
  simp [stack, extend, Scope.extend]

@[simp] theorem operandDepth_extend (new : List (Entry Value)) (lines : List String)
    (m : Machine) : (m.extend new lines).env.operandDepth = m.env.operandDepth := by
  simp [extend, Environment.operandDepth, Scope.depth, Scope.extend]

end Machine

namespace Run

theorem exec_pushOperand_stack (value : Value) (values : List Value) (m : Machine) :
    (pushOperand value).exec (m.stack values) = (.ok (), m.stack (value :: values)) := by
  rw [exec_pushOperand]
  simp [Machine.stack, Environment.push, Scope.push]

theorem exec_popOperand_stack (value : Value) (values : List Value) (m : Machine) :
    popOperand.exec (m.stack (value :: values)) = (.ok value, m.stack values) := by
  rw [exec_popOperand]
  simp only [Machine.stack, Environment.pop, Environment.current_modifyCurrent, List.cons_append,
    Scope.pop, Environment.modifyCurrent_modifyCurrent]
  rw [Environment.modifyCurrent_congr]
  rfl

theorem exec_truncate_stack (values : List Value) (m : Machine) :
    (onEnv (·.truncate m.env.operandDepth)).exec (m.stack values) = (.ok (), m) := by
  rw [exec_onEnv]
  simp only [Machine.stack, Environment.truncate, Environment.modifyCurrent_modifyCurrent]
  rw [Environment.modifyCurrent_congr (g := fun scope => scope), Environment.modifyCurrent_id]
  simp [Scope.truncate, Scope.depth, Environment.operandDepth]

theorem exec_applyOperator (op : Operator) (stack : List Value) (m : Machine) :
    ∃ left, (applyOperator m.env.operandDepth op).exec (m.stack stack) =
        ((op.onStack stack).map fun _ => (), m.stack left) ∧
      ∀ result, op.onStack stack = .ok result → left = result := by
  rw [applyOperator, exec_bind_of_ok _ (exec_get _), Machine.operandDepth_stack]
  match stack with
  | [] =>
    refine ⟨[], ?_, by simp [Operator.onStack]⟩
    rw [if_pos (by simp)]
    rfl
  | [value] =>
    refine ⟨[value], ?_, by simp [Operator.onStack]⟩
    rw [if_pos (by simp; omega)]
    rfl
  | b :: a :: rest =>
    rw [if_neg (by simp; omega), exec_bind_of_ok _ (exec_popOperand_stack ..),
      exec_bind_of_ok _ (exec_popOperand_stack ..), exec_bind, exec_liftExcept]
    cases h : op.apply a b with
    | error fault => exact ⟨rest, by simp [Operator.onStack, h, Except.map]⟩
    | ok value =>
      refine ⟨value :: rest, ?_, by simp [Operator.onStack, h, Except.map]⟩
      simp only [Operator.onStack, h, Except.map]
      exact exec_pushOperand_stack value rest m

theorem exec_takeResult (stack : List Value) (m : Machine) :
    ∃ left, (takeResult m.env.operandDepth).exec (m.stack stack) =
        (soleOperand stack, m.stack left) ∧
      ∀ value, soleOperand stack = .ok value → left = [] := by
  rw [takeResult, exec_bind_of_ok _ (exec_get _), Machine.operandDepth_stack, Nat.add_sub_cancel]
  match stack with
  | [] => exact ⟨[], rfl, by simp⟩
  | [value] => exact ⟨[], exec_popOperand_stack value [] m, by simp⟩
  | a :: b :: rest => exact ⟨a :: b :: rest, rfl, by simp [soleOperand]⟩

end Run

namespace Statement

variable {host : Host}

theorem exec_evalItems {items : List Statement} (h : ∀ item ∈ items, (item.eval host).Uniform)
    (stack : List Value) (m : Machine) :
    ∃ left, (evalItems host m.env.operandDepth items).exec (m.stack stack) =
        (((reduce host stack items).exec m).1.map fun _ => (),
          ((reduce host stack items).exec m).2.stack left) ∧
      ∀ result, ((reduce host stack items).exec m).1 = .ok result → left = result := by
  induction items generalizing stack m with
  | nil => exact ⟨stack, rfl, fun _ hr => by cases hr; rfl⟩
  | cons item rest ih =>
    obtain ⟨hitem, hrest⟩ := List.forall_mem_cons.1 h
    simp only [evalItems, reduce]
    cases item.operator? with
    | some op =>
      obtain ⟨left, hop, hleft⟩ := Run.exec_applyOperator op stack m
      simp only
      cases hr : op.onStack stack with
      | error fault =>
        rw [hr] at hop
        rw [Run.exec_bind_of_error _ hop, Run.exec_bind_of_error _ (Run.exec_liftExcept ..)]
        exact ⟨left, rfl, by simp⟩
      | ok result =>
        rw [hr, hleft result hr] at hop
        rw [Run.exec_bind_of_ok _ hop, Run.exec_bind_of_ok _ (Run.exec_liftExcept ..)]
        exact ih hrest result m
    | none =>
      simp only
      -- The item does not see the operands put there by the items before it.
      obtain ⟨result, new, lines, hstack, hm⟩ := hitem (m.stack stack) m (m.bare_stack stack)
      rw [Machine.extend_stack] at hstack
      cases result with
      | error fault =>
        rw [Run.exec_bind_of_error _ hstack, Run.exec_bind_of_error _ hm]
        exact ⟨stack, rfl, by simp⟩
      | ok value =>
        rw [Run.exec_bind_of_ok _ hstack, Run.exec_bind_of_ok _ hm,
          Run.exec_bind_of_ok _ (Run.exec_pushOperand_stack ..)]
        simpa using ih hrest (value :: stack) (m.extend new lines)

theorem eval_expression_of_uniform {items : List Statement}
    (h : ∀ item ∈ items, (item.eval host).Uniform) :
    (expression items).eval host =
      reduce host [] items >>= fun stack => liftExcept (soleOperand stack) := by
  apply Run.ext
  intro m
  obtain ⟨left, hitems, hleft⟩ := exec_evalItems h [] m
  have huniform : (reduce host [] items).Uniform :=
    (Run.Uniform.stepCongruence host).stepRules.reduce h nofun
  obtain ⟨result, new, lines, hreduce, -⟩ := huniform m m rfl
  have hbase : (m.extend new lines).env.operandDepth = m.env.operandDepth :=
    Machine.operandDepth_extend new lines m
  rw [hreduce, Machine.stack_nil] at hitems
  rw [hreduce] at hleft
  rw [eval, Run.onOperands, Run.exec_bind_of_ok _ (Run.exec_get m), Run.exec_tryCatch]
  cases result with
  | error fault =>
    rw [Run.exec_bind_of_error _ hreduce, Run.exec_bind_of_error _ hitems]
    simp only
    rw [← hbase, Run.exec_bind_of_ok _ (Run.exec_truncate_stack ..)]
    rfl
  | ok stack =>
    obtain rfl := hleft stack rfl
    obtain ⟨left', htake, hleft'⟩ := Run.exec_takeResult left (m.extend new lines)
    rw [Run.exec_bind_of_ok _ hreduce, Run.exec_bind_of_ok _ hitems, Run.exec_liftExcept,
      ← hbase, htake]
    cases hsole : soleOperand left with
    | ok value =>
      simp only
      rw [hleft' value hsole, Machine.stack_nil]
    | error fault =>
      simp only
      rw [Run.exec_bind_of_ok _ (Run.exec_truncate_stack ..)]
      rfl

theorem congruence_uniform (host : Host) : Congruence host host fun x _ => x.Uniform :=
  { Run.Uniform.stepCongruence host with
    expression := fun items hitems => by
      rw [eval_expression_of_uniform hitems]
      exact (Run.Uniform.stepCongruence host).stepRules.reduceToValue hitems }

theorem eval_expression (host : Host) (items : List Statement) :
    (expression items).eval host =
      reduce host [] items >>= fun stack => liftExcept (soleOperand stack) :=
  eval_expression_of_uniform fun item _ => (congruence_uniform host).eval item

end Statement

theorem StepRules.rules {d : Discipline} {left right : Host}
    {R : ∀ {α : Type}, (α → Prop) → Run α → Run α → Prop} (h : StepRules d left right R) :
    Rules d left right R :=
  { h with
    expression := fun items hitems => by
      rw [Statement.eval_expression, Statement.eval_expression]
      exact h.reduceToValue hitems }

theorem StepCongruence.congruence {left right : Host} {R : ∀ {α : Type}, Run α → Run α → Prop}
    (h : StepCongruence left right R) : Congruence left right R :=
  { h with expression := h.stepRules.rules.expression }

end TagScript
