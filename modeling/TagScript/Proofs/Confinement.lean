import TagScript.Interpreter
import TagScript.Proofs.Expression

namespace TagScript

namespace Environment

def scopes (env : Environment) : List Scope := env.blocks.map (·.scope) ++ [env.global]

def links (env : Environment) : List Bool := env.blocks.map (·.linked)

@[simp] theorem links_modifyCurrent (f : Scope → Scope) (env : Environment) :
    (env.modifyCurrent f).links = env.links := by
  rcases env with ⟨global, _ | ⟨block, rest⟩⟩ <;> rfl

@[simp] theorem tail_scopes_modifyCurrent (f : Scope → Scope) (env : Environment) :
    (env.modifyCurrent f).scopes.tail = env.scopes.tail := by
  rcases env with ⟨global, _ | ⟨block, rest⟩⟩ <;> rfl

end Environment

namespace Interpreter

theorem machine_evaluate (interpreter : Interpreter) (s : Statement) :
    (interpreter.evaluate s).2.machine =
      ((s.eval interpreter.host).exec interpreter.machine).2 := rfl

theorem exists_evaluate_eq_extend (interpreter : Interpreter) (s : Statement) :
    ∃ new lines, (interpreter.evaluate s).2.machine = interpreter.machine.extend new lines := by
  obtain ⟨result, new, lines, h, -⟩ :=
    (Statement.congruence_uniform interpreter.host).eval s interpreter.machine interpreter.machine rfl
  exact ⟨new, lines, by rw [machine_evaluate, h]⟩

theorem env_evaluate_openTag (interpreter : Interpreter) (name : String)
    (params : List (Entry Statement)) (children : List Statement) :
    (interpreter.evaluate (.openTag name params children)).2.machine.env =
      interpreter.machine.env := by
  let inside : Machine :=
    { interpreter.machine with env := interpreter.machine.env.enter interpreter.host.scoping }
  obtain ⟨result, new, lines, h, -⟩ :=
    (Statement.congruence_uniform interpreter.host).evalBlock children inside inside rfl
  rw [machine_evaluate, Statement.eval, Run.exec_inBlock, h]
  rfl

/-- Whether it ends with a value or with a fault, an evaluation adds bindings to the current scope and
does nothing else to the open scopes; an opening tag does not even do that. -/
theorem evaluate_confined (interpreter : Interpreter) (s : Statement) :
    let before := interpreter.machine.env
    let after := (interpreter.evaluate s).2.machine.env
    after.depth = before.depth ∧ after.links = before.links ∧
      after.scopes.tail = before.scopes.tail ∧
      after.current.operands = before.current.operands ∧
      (∀ name value, before.current.get? name = some value →
        after.current.get? name = some value) ∧
      (s.kind = .openTag → after = before) := by
  intro before after
  obtain ⟨new, lines, h⟩ := interpreter.exists_evaluate_eq_extend s
  have hafter : after = before.modifyCurrent (·.extend new) := congrArg Machine.env h
  have hcurrent : after.current = before.current.extend new := by
    rw [hafter, Environment.current_modifyCurrent]
  refine ⟨?_, ?_, ?_, ?_, ?_, ?_⟩
  · rw [hafter, Environment.depth_modifyCurrent]
  · rw [hafter, Environment.links_modifyCurrent]
  · rw [hafter, Environment.tail_scopes_modifyCurrent]
  · rw [hcurrent]
    rfl
  · intro name value hvalue
    rw [hcurrent, Scope.get?_of_bindings rfl, hvalue, Option.some_or]
  · intro hkind
    cases s <;> cases hkind
    exact interpreter.env_evaluate_openTag _ _ _

theorem evaluate_confined_failing_block :
    let scope : Scope := ⟨[⟨"y", .number 1⟩], [.number 7, .undefined]⟩
    let env : Environment := ⟨⟨[], [.boolean true]⟩, [⟨scope, true⟩]⟩
    let interpreter : Interpreter := ⟨⟨.lexical, .none⟩, ⟨env, .buffer ""⟩⟩
    let declaration : Statement :=
      .closeTag "Let" [⟨"id", .identifier "x"⟩, ⟨"value", .number 2⟩]
    let failing : Statement :=
      .closeTag "Let" [⟨"id", .identifier "z"⟩, ⟨"value", .expression [.number 3, .operator .add]⟩]
    let outcome := interpreter.evaluate (.openTag "Block" [] [declaration, failing])
    outcome.1 = .error .stackUnderflow ∧ outcome.2.machine.env = env ∧
      outcome.2.machine.env.current.get? "y" = some (.number 1) := by
  intro scope env interpreter declaration failing outcome
  have h := evaluate_confined interpreter (.openTag "Block" [] [declaration, failing])
  exact ⟨by rfl, h.2.2.2.2.2 rfl, h.2.2.2.2.1 "y" (.number 1) rfl⟩

end Interpreter

end TagScript
