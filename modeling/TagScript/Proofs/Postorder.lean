import Mathlib.Data.List.Induction
import TagScript.Proofs.OperatorTree

namespace TagScript

namespace Statement

def Postorder (items : List Statement) : Prop := ∃ tree : OperatorTree, tree.postorder = items

def operands (items : List Statement) : Nat := items.countP (·.operator?.isNone)

def operators (items : List Statement) : Nat := items.countP (·.operator?.isSome)

def Fed (items : List Statement) : Prop :=
  ∀ before op after, items = before ++ operator op :: after → operators before + 2 ≤ operands before

structure StarvesBehind (before items : List Statement) : Prop where
  next : ∃ op after, items = before ++ operator op :: after
  starved : operands before < operators before + 2
  first : Fed before

variable {items before after : List Statement} {item : Statement}

@[simp] theorem operands_append (items more : List Statement) :
    operands (items ++ more) = operands items + operands more := List.countP_append

@[simp] theorem operators_append (items more : List Statement) :
    operators (items ++ more) = operators items + operators more := List.countP_append

theorem eq_operator_of_operator? {op : Operator} (h : item.operator? = some op) :
    item = operator op := by
  cases item with
  | operator => simpa [operator?] using h
  | _ => cases h

theorem fed_nil : Fed [] := by
  simp [Fed]

theorem fed_concat_iff (items : List Statement) (item : Statement) :
    Fed (items ++ [item]) ↔
      Fed items ∧ ∀ op, item = operator op → operators items + 2 ≤ operands items := by
  constructor
  · intro h
    constructor
    · intro before op after heq
      exact h before op (after ++ [item]) (by simp [heq])
    · intro op hop
      exact h items op [] (by rw [hop])
  · rintro ⟨hitems, hitem⟩ before op after heq
    induction after using List.reverseRecOn with
    | nil =>
      obtain ⟨rfl, hlast⟩ := List.append_inj' heq rfl
      exact hitem op (List.cons.inj hlast).1
    | append_singleton after last =>
      rw [← List.cons_append, ← List.append_assoc] at heq
      exact hitems before op after (List.append_inj' heq rfl).1

theorem Fed.append (hbefore : Fed before) (hafter : Fed after)
    (h : operators before ≤ operands before) : Fed (before ++ after) := by
  induction after using List.reverseRecOn with
  | nil => rwa [List.append_nil]
  | append_singleton after item ih =>
    obtain ⟨hafter, hitem⟩ := (fed_concat_iff ..).1 hafter
    rw [← List.append_assoc, fed_concat_iff]
    refine ⟨ih hafter, ?_⟩
    intro op hop
    have := hitem op hop
    simp only [operands_append, operators_append]
    omega

theorem fed_or_exists_starvesBehind (items : List Statement) :
    Fed items ∨ ∃ before, StarvesBehind before items := by
  induction items using List.reverseRecOn with
  | nil => exact .inl fed_nil
  | append_singleton items item ih =>
    rcases ih with hfed | ⟨before, ⟨op, after, rfl⟩, hstarved, hfirst⟩
    · by_cases h : ∀ op, item = operator op → operators items + 2 ≤ operands items
      · exact .inl ((fed_concat_iff ..).2 ⟨hfed, h⟩)
      · simp only [not_forall, Nat.not_le] at h
        obtain ⟨op, rfl, hstarved⟩ := h
        exact .inr ⟨items, ⟨op, [], rfl⟩, hstarved, hfed⟩
    · exact .inr ⟨before, ⟨op, after ++ [item], by simp⟩, hstarved, hfirst⟩

end Statement

namespace OperatorTree

open Statement

def listing : List OperatorTree → List Statement
  | [] => []
  | tree :: below => listing below ++ tree.postorder

theorem operands_postorder (tree : OperatorTree) :
    operands tree.postorder = operators tree.postorder + 1 := by
  induction tree with
  | leaf operand => simp [postorder, operands, operators, operand.operator?_eq_none]
  | node op left right ihleft ihright =>
    have hop : operands [.operator op] = 0 ∧ operators [.operator op] = 1 := ⟨rfl, rfl⟩
    simp only [postorder, operands_append, operators_append]
    omega

theorem operands_listing (forest : List OperatorTree) :
    operands (listing forest) = operators (listing forest) + forest.length := by
  induction forest with
  | nil => rfl
  | cons tree below ih =>
    simp only [listing, operands_append, operators_append, operands_postorder, List.length_cons]
    omega

theorem fed_postorder (tree : OperatorTree) : Fed tree.postorder := by
  induction tree with
  | leaf operand =>
    refine (fed_concat_iff [] _).2 ⟨fed_nil, ?_⟩
    intro op hop
    have hnone := operand.operator?_eq_none
    rw [hop] at hnone
    cases hnone
  | node op left right ihleft ihright =>
    have hleft := left.operands_postorder
    have hright := right.operands_postorder
    refine (fed_concat_iff ..).2 ⟨ihleft.append ihright (by omega), ?_⟩
    intro _ _
    simp only [operands_append, operators_append]
    omega

end OperatorTree

namespace Statement

open OperatorTree

variable {host : Host} {m m' : Machine} {items before after : List Statement} {stack : List Value}

theorem reduce_append (host : Host) (stack : List Value) (before after : List Statement) :
    reduce host stack (before ++ after) =
      reduce host stack before >>= fun stack => reduce host stack after := by
  induction before generalizing stack with
  | nil => rfl
  | cons item rest ih =>
    simp only [List.cons_append, reduce]
    split <;> simp only [bind_assoc, ih]

theorem exists_of_onStack_eq_ok {op : Operator} {result : List Value}
    (h : op.onStack stack = .ok result) :
    ∃ a b rest value, stack = b :: a :: rest ∧ op.apply a b = .ok value ∧ result = value :: rest := by
  match stack, h with
  | b :: a :: rest, h =>
    cases hvalue : op.apply a b with
    | ok value =>
      simp only [Operator.onStack, hvalue, Except.map, Except.ok.injEq] at h
      exact ⟨a, b, rest, value, rfl, hvalue, h.symm⟩
    | error fault => simp [Operator.onStack, hvalue, Except.map] at h

theorem exists_listing_of_reduce {result : List Value}
    (h : (reduce host stack items).exec m = (.ok result, m')) (forest : List OperatorTree)
    (hforest : forest.length = stack.length) :
    ∃ forest', forest'.length = result.length ∧ listing forest' = listing forest ++ items := by
  induction items generalizing stack m forest with
  | nil =>
    cases h
    exact ⟨forest, hforest, by simp⟩
  | cons item rest ih =>
    rw [reduce] at h
    cases hop : item.operator? with
    | none =>
      simp only [hop, Run.exec_bind_eq_ok_iff] at h
      obtain ⟨value, n, -, h⟩ := h
      obtain ⟨forest', hlength, hlisting⟩ :=
        ih h (.leaf ⟨item, hop⟩ :: forest) (by simp [hforest])
      exact ⟨forest', hlength, by simpa [listing, postorder] using hlisting⟩
    | some op =>
      simp only [hop, Run.exec_bind_eq_ok_iff, Run.exec_liftExcept] at h
      obtain ⟨next, n, hnext, h⟩ := h
      obtain ⟨a, b, below, value, rfl, -, rfl⟩ :=
        exists_of_onStack_eq_ok (congrArg Prod.fst hnext)
      rcases forest with _ | ⟨right, _ | ⟨left, forest⟩⟩
      · simp at hforest
      · simp at hforest
      · obtain ⟨forest', hlength, hlisting⟩ :=
          ih h (.node op left right :: forest) (by simpa using hforest)
        obtain rfl := eq_operator_of_operator? hop
        exact ⟨forest', hlength, by simpa [listing, postorder] using hlisting⟩

theorem length_of_reduce (h : (reduce host [] items).exec m = (.ok stack, m')) :
    stack.length + operators items = operands items := by
  obtain ⟨forest, hlength, hlisting⟩ := exists_listing_of_reduce h [] rfl
  obtain rfl : listing forest = items := hlisting
  have := operands_listing forest
  omega

/-- Nothing goes wrong but the number of values. Once the items before it are done, an operand
evaluates, and an operator that finds two values of its own expression can be applied to them. -/
structure Unhindered (host : Host) (m : Machine) (items : List Statement) : Prop where
  evaluates : ∀ {before item after m'}, items = before ++ item :: after → item.operator? = none →
    (evalItems host m.env.operandDepth before).exec m = (.ok (), m') →
      ∃ value, ((item.eval host).exec m').1 = .ok value
  applies : ∀ {before op after m' a b rest}, items = before ++ operator op :: after →
    (evalItems host m.env.operandDepth before).exec m = (.ok (), m') →
      m'.env.current.operands = b :: a :: rest → m.env.operandDepth ≤ rest.length →
        ∃ value, op.apply a b = .ok value

theorem uniform_reduce (host : Host) (stack : List Value) (items : List Statement) :
    (reduce host stack items).Uniform :=
  (Run.Uniform.stepCongruence host).stepRules.reduce
    (fun item _ => (congruence_uniform host).eval item) (fun _ _ => trivial)

theorem operandDepth_of_reduce {result : Except Fault (List Value)}
    (h : (reduce host stack items).exec m = (result, m')) :
    m'.env.operandDepth = m.env.operandDepth := by
  obtain ⟨_, new, lines, heq, -⟩ := uniform_reduce host stack items m m rfl
  obtain rfl : m' = m.extend new lines := congrArg Prod.snd (h.symm.trans heq)
  exact Machine.operandDepth_extend new lines m

theorem exec_evalItems_of_reduce (h : (reduce host [] items).exec m = (.ok stack, m')) :
    (evalItems host m.env.operandDepth items).exec m = (.ok (), m'.stack stack) := by
  obtain ⟨left, hitems, hleft⟩ :=
    exec_evalItems (fun item _ => (congruence_uniform host).eval item) [] m
  rw [h] at hitems hleft
  rw [Machine.stack_nil] at hitems
  rw [hitems, hleft stack rfl]
  rfl

namespace Unhindered

variable {item : Statement} {op : Operator}

theorem exists_eval (h : Unhindered host m (before ++ item :: after))
    (hreduce : (reduce host [] before).exec m = (.ok stack, m')) (hitem : item.operator? = none) :
    ∃ value n, (item.eval host).exec m' = (.ok value, n) := by
  obtain ⟨value, hvalue⟩ := h.evaluates rfl hitem (exec_evalItems_of_reduce hreduce)
  obtain ⟨result, new, lines, hstack, hm'⟩ :=
    (congruence_uniform host).eval item (m'.stack stack) m' (m'.bare_stack stack)
  obtain rfl : result = .ok value := by rw [← hvalue, hstack]
  exact ⟨value, _, hm'⟩

theorem exists_onStack (h : Unhindered host m (before ++ operator op :: after))
    (hreduce : (reduce host [] before).exec m = (.ok stack, m')) (hstack : 2 ≤ stack.length) :
    ∃ result, op.onStack stack = .ok result := by
  match stack, hstack with
  | b :: a :: rest, _ =>
    have hdepth : m.env.operandDepth ≤ (rest ++ m'.env.current.operands).length := by
      rw [← operandDepth_of_reduce hreduce, List.length_append]
      exact Nat.le_add_left ..
    obtain ⟨value, hvalue⟩ :=
      h.applies rfl (exec_evalItems_of_reduce hreduce) (Machine.operands_stack ..) hdepth
    exact ⟨value :: rest, by rw [Operator.onStack, hvalue, Except.map]⟩

theorem exists_reduce (h : Unhindered host m (before ++ after)) (hfed : Fed before) :
    ∃ stack m', (reduce host [] before).exec m = (.ok stack, m') := by
  induction before using List.reverseRecOn generalizing after with
  | nil => exact ⟨[], m, rfl⟩
  | append_singleton before item ih =>
    rw [List.append_assoc] at h
    obtain ⟨hbefore, hitem⟩ := (fed_concat_iff ..).1 hfed
    obtain ⟨stack, n, hreduce⟩ := ih h hbefore
    rw [reduce_append, Run.exec_bind_of_ok _ hreduce, reduce]
    cases hop : item.operator? with
    | none =>
      obtain ⟨value, n', hvalue⟩ := h.exists_eval hreduce hop
      exact ⟨value :: stack, n', Run.exec_bind_of_ok _ hvalue⟩
    | some op =>
      obtain rfl := eq_operator_of_operator? hop
      have hlength : 2 ≤ stack.length := by
        have := length_of_reduce hreduce
        have := hitem op rfl
        omega
      obtain ⟨result, hresult⟩ := h.exists_onStack hreduce hlength
      simp only [hresult]
      exact ⟨result, n, rfl⟩

end Unhindered

theorem exec_expression_of_reduce (h : (reduce host [] items).exec m = (.ok stack, m')) :
    ((expression items).eval host).exec m = (soleOperand stack, m') := by
  rw [eval_expression, Run.exec_bind_of_ok _ h, Run.exec_liftExcept]

theorem exec_expression_of_starvesBehind (h : StarvesBehind before items)
    (hreduce : (reduce host [] before).exec m = (.ok stack, m')) :
    ((expression items).eval host).exec m = (.error .stackUnderflow, m') := by
  obtain ⟨op, after, rfl⟩ := h.next
  have hstack : op.onStack stack = .error .stackUnderflow := by
    have hlength := length_of_reduce hreduce
    have hstarved := h.starved
    match stack with
    | [] => rfl
    | [_] => rfl
    | b :: a :: rest =>
      simp only [List.length_cons] at hlength
      omega
  rw [eval_expression, reduce_append, bind_assoc, Run.exec_bind_of_ok _ hreduce, reduce]
  simp only [operator?, hstack]
  rfl

theorem postorder_of_reduce {value : Value}
    (h : (reduce host [] items).exec m = (.ok [value], m')) : Postorder items := by
  obtain ⟨forest, hlength, hlisting⟩ := exists_listing_of_reduce h [] rfl
  match forest, hlength with
  | [tree], _ => exact ⟨tree, hlisting⟩

theorem postorder_of_eval {value : Value}
    (h : ((expression items).eval host).exec m = (.ok value, m')) : Postorder items := by
  rw [eval_expression, Run.exec_bind_eq_ok_iff] at h
  obtain ⟨stack, n, hreduce, hsole⟩ := h
  rw [Run.exec_liftExcept] at hsole
  match stack, hreduce, congrArg Prod.fst hsole with
  | [_], hreduce, _ => exact postorder_of_reduce hreduce

theorem eq_nil_of_reduce (h : (reduce host [] items).exec m = (.ok [], m')) : items = [] := by
  obtain ⟨forest, hlength, hlisting⟩ := exists_listing_of_reduce h [] rfl
  obtain rfl := List.eq_nil_of_length_eq_zero hlength
  exact hlisting.symm

namespace Unhindered

theorem exec_of_postorder (h : Unhindered host m items) (hpostorder : Postorder items) :
    ∃ value, (((expression items).eval host).exec m).1 = .ok value := by
  obtain ⟨tree, rfl⟩ := hpostorder
  rw [← List.append_nil tree.postorder] at h
  obtain ⟨stack, n, hreduce⟩ := h.exists_reduce tree.fed_postorder
  have hlength : stack.length = 1 := by
    have := length_of_reduce hreduce
    have := tree.operands_postorder
    omega
  obtain ⟨value, rfl⟩ := List.length_eq_one_iff.1 hlength
  exact ⟨value, congrArg Prod.fst (exec_expression_of_reduce hreduce)⟩

theorem exec_of_starvesBehind (h : Unhindered host m items) (hstarves : StarvesBehind before items) :
    ∃ m', (evalItems host m.env.operandDepth before).exec m = (.ok (), m') ∧
      m'.env.operandDepth < m.env.operandDepth + 2 ∧
      ((expression items).eval host).exec m =
        (.error .stackUnderflow, { m' with env := m'.env.truncate m.env.operandDepth }) := by
  obtain ⟨op, after, rfl⟩ := hstarves.next
  obtain ⟨stack, n, hreduce⟩ := h.exists_reduce hstarves.first
  have hdepth := operandDepth_of_reduce hreduce
  refine ⟨n.stack stack, exec_evalItems_of_reduce hreduce, ?_, ?_⟩
  · have hlength := length_of_reduce hreduce
    have hstarved := hstarves.starved
    rw [Machine.operandDepth_stack]
    omega
  · rw [exec_expression_of_starvesBehind hstarves hreduce, ← hdepth]
    exact congrArg (Prod.mk _) (congrArg Prod.snd (Run.exec_truncate_stack stack n)).symm

theorem exec_of_fed (h : Unhindered host m items) (hfed : Fed items)
    (hpostorder : ¬ Postorder items) :
    let result := (((expression items).eval host).exec m).1
    (items = [] ∧ result = .error (.structural "expression produced no value")) ∨
      (items ≠ [] ∧ ∃ n, 2 ≤ n ∧ n + operators items = operands items ∧
        result = .error (.structural s!"expression left {n} values on the operand stack")) := by
  intro result
  rw [← List.append_nil items] at h
  obtain ⟨stack, n, hreduce⟩ := h.exists_reduce hfed
  have hlength := length_of_reduce hreduce
  have hresult : result = soleOperand stack :=
    congrArg Prod.fst (exec_expression_of_reduce hreduce)
  match stack with
  | [] => exact .inl ⟨eq_nil_of_reduce hreduce, hresult⟩
  | [_] => exact absurd (postorder_of_reduce hreduce) hpostorder
  | a :: b :: rest =>
    refine .inr ⟨?_, _, Nat.le_add_left 2 rest.length, hlength, hresult⟩
    rintro rfl
    cases hreduce

end Unhindered

end Statement

namespace Interpreter

open Statement

/-- An expression that comes to a value is the postorder of a tree, and such a list comes to a value
unless something goes wrong on the way. Any other list fails at the first operator that finds fewer
than two values, or else at its end by the number of values that are left. -/
theorem evaluate_expression_accepts_postorders (interpreter : Interpreter) (items : List Statement) :
    let host := interpreter.host
    let m := interpreter.machine
    let base := m.env.operandDepth
    let outcome := interpreter.evaluate (.expression items)
    (∀ value, outcome.1 = .ok value → Postorder items) ∧
    (Unhindered host m items → Postorder items → ∃ value, outcome.1 = .ok value) ∧
    (Unhindered host m items → ¬ Postorder items →
      (∃ before m', StarvesBehind before items ∧
        (evalItems host base before).exec m = (.ok (), m') ∧ m'.env.operandDepth < base + 2 ∧
        outcome = (.error .stackUnderflow, ⟨host, { m' with env := m'.env.truncate base }⟩)) ∨
      (Fed items ∧ items = [] ∧
        outcome.1 = .error (.structural "expression produced no value")) ∨
      (Fed items ∧ items ≠ [] ∧ ∃ n, 2 ≤ n ∧ n + operators items = operands items ∧
        outcome.1 =
          .error (.structural s!"expression left {n} values on the operand stack"))) := by
  intro host m base outcome
  refine ⟨?_, ?_, ?_⟩
  · intro value hvalue
    exact postorder_of_eval (Prod.ext hvalue rfl)
  · intro h hpostorder
    exact h.exec_of_postorder hpostorder
  · intro h hpostorder
    rcases fed_or_exists_starvesBehind items with hfed | ⟨before, hstarves⟩
    · exact .inr ((h.exec_of_fed hfed hpostorder).imp (.intro hfed) (.intro hfed))
    · obtain ⟨m', hbefore, hdepth, hexec⟩ := h.exec_of_starvesBehind hstarves
      refine .inl ⟨before, m', hstarves, hbefore, hdepth, ?_⟩
      exact congrArg (fun outcome => (outcome.1, Interpreter.mk host outcome.2)) hexec

theorem evaluate_expression_accepts_postorders_underflow :
    let m : Machine := ⟨⟨⟨[], [.number 7, .number 8]⟩, []⟩, .buffer ""⟩
    let interpreter : Interpreter := ⟨⟨.lexical, .none⟩, m⟩
    let items : List Statement := [.number 1, .number 2, .operator .add, .operator .multiply]
    Unhindered interpreter.host m items ∧ ¬ Postorder items ∧
      (interpreter.evaluate (.expression items)).1 = .error .stackUnderflow := by
  intro m interpreter items
  have hunhindered : Unhindered interpreter.host m items := by
    constructor
    · intro before item after m' heq hitem _
      have hmem : item ∈ items := heq ▸ List.mem_append_right before List.mem_cons_self
      simp only [items, List.mem_cons, List.not_mem_nil, or_false] at hmem
      rcases hmem with rfl | rfl | rfl | rfl
      · exact ⟨.number 1, rfl⟩
      · exact ⟨.number 2, rfl⟩
      · cases hitem
      · cases hitem
    · intro before op after m' a b rest heq hbefore hoperands hrest
      rcases before with _ | ⟨_, _ | ⟨_, _ | ⟨_, _ | ⟨_, before⟩⟩⟩⟩ <;> simp [items] at heq
      · obtain ⟨rfl, rfl, rfl, rfl⟩ := heq
        cases hbefore
        cases hoperands
        exact ⟨.number 3, rfl⟩
      · obtain ⟨rfl, rfl, rfl, rfl, rfl⟩ := heq
        cases hbefore
        cases hoperands
        exact absurd hrest (by decide)
  have hpostorder : ¬ Postorder items := by
    rintro ⟨tree, htree⟩
    have hcount := tree.operands_postorder
    rw [htree] at hcount
    exact absurd hcount (by decide)
  have hfed : ¬ Fed items := by
    intro h
    exact absurd (h (items.take 3) .multiply [] rfl) (by decide)
  obtain ⟨-, -, h⟩ := evaluate_expression_accepts_postorders interpreter items
  rcases h hunhindered hpostorder with ⟨before, m', -, -, -, h⟩ | ⟨h, -⟩ | ⟨h, -⟩
  · exact ⟨hunhindered, hpostorder, congrArg Prod.fst h⟩
  · exact absurd h hfed
  · exact absurd h hfed

end Interpreter

end TagScript
