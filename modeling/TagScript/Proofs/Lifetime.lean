import TagScript.Interpreter
import TagScript.Proofs.Shadowing

namespace TagScript

namespace Environment

inductive Operation
  | enter (scoping : Scoping)
  | leave
  | declare (name : String) (value : Value)
  | push (value : Value)
  | pop
  | truncate (depth : Nat)

def Operation.apply : Operation → Environment → Environment
  | enter scoping, env => env.enter scoping
  | leave, env => env.leave
  | declare name value, env => (env.declare? name value).getD env
  | push value, env => env.push value
  | pop, env => env.pop.2
  | truncate depth, env => env.truncate depth

def after : Environment → List Operation → Environment
  | env, [] => env
  | env, op :: rest => (op.apply env).after rest

def StaysOpen (height : Nat) : Environment → List Operation → Prop
  | env, [] => height < env.depth
  | env, op :: rest => height < env.depth ∧ StaysOpen height (op.apply env) rest

instance decidableStaysOpen (height : Nat) : ∀ env operations,
    Decidable (StaysOpen height env operations)
  | env, [] => inferInstanceAs (Decidable (height < env.depth))
  | env, op :: rest =>
    haveI := decidableStaysOpen height (op.apply env) rest
    inferInstanceAs (Decidable (height < env.depth ∧ StaysOpen height (op.apply env) rest))

theorem StaysOpen.lt_depth {height : Nat} {env : Environment} {operations : List Operation}
    (h : StaysOpen height env operations) : height < env.depth := by
  cases operations with
  | nil => exact h
  | cons op rest => exact h.1

theorem Operation.apply_cases (op : Operation) (env : Environment) :
    (∃ scoping, op.apply env = env.enter scoping) ∨ op.apply env = env.leave ∨
      ∃ f new, op.apply env = env.modifyCurrent f ∧
        (f env.current).bindings = env.current.bindings ++ new ∧
        ∀ name ∈ Entry.keys new, env.lookup? name = none := by
  cases op with
  | enter scoping => exact .inl ⟨scoping, rfl⟩
  | leave => exact .inr (.inl rfl)
  | declare name value =>
    right; right
    rw [apply, declare?_eq]
    cases h : env.lookup? name with
    | some _ => exact ⟨fun scope => scope, [], by simp, by simp, by simp [Entry.keys]⟩
    | none => exact ⟨_, [⟨name, value⟩], rfl, rfl, by simpa [Entry.keys] using h⟩
  | push value =>
    exact .inr (.inr ⟨(·.push value), [], rfl, (List.append_nil _).symm, by simp [Entry.keys]⟩)
  | pop =>
    refine .inr (.inr ⟨fun _ => env.current.pop.2, [], rfl, ?_, by simp [Entry.keys]⟩)
    rw [Scope.pop, List.append_nil]
    split <;> rfl
  | truncate depth =>
    exact .inr (.inr ⟨(·.truncate depth), [], rfl, (List.append_nil _).symm, by simp [Entry.keys]⟩)

theorem Unshadowed.apply {env : Environment} (h : env.Unshadowed) (op : Operation) :
    (op.apply env).Unshadowed := by
  obtain ⟨scoping, heq⟩ | heq | ⟨f, new, heq, hbindings, hnew⟩ := op.apply_cases env
  · rw [heq]
    exact h.enter scoping
  · rw [heq]
    exact h.leave
  · rw [heq]
    exact h.modifyCurrent hbindings hnew

theorem Unshadowed.after {env : Environment} (h : env.Unshadowed) (operations : List Operation) :
    (env.after operations).Unshadowed := by
  induction operations generalizing env with
  | nil => exact h
  | cons op rest ih => exact ih (h.apply op)

theorem lookup?_ofGlobal (global : Scope) (name : String) :
    lookup? ⟨global, []⟩ name = global.get? name := by
  simp [lookup?, visible, seenThrough]

theorem lookup?_cons (global : Scope) (block : Block) (rest : List Block) (name : String) :
    lookup? ⟨global, block :: rest⟩ name = (block.scope.get? name).or
      (if block.linked then lookup? ⟨global, rest⟩ name else none) := by
  cases hget : block.scope.get? name <;> cases hlinked : block.linked <;>
    simp [lookup?, visible, seenThrough, hget, hlinked]

theorem lookup?_modifyCurrent {env : Environment} {f : Scope → Scope} {new : List (Entry Value)}
    (hbindings : (f env.current).bindings = env.current.bindings ++ new)
    (hnew : ∀ name ∈ Entry.keys new, env.lookup? name = none) {name : String} {value : Value}
    (h : env.lookup? name = some value) : (env.modifyCurrent f).lookup? name = some value := by
  have hkey : name ∉ Entry.keys new := by
    intro hmem
    rw [hnew name hmem] at h
    cases h
  have hget : (f env.current).get? name = env.current.get? name :=
    Scope.get?_of_notMem_keys hbindings hkey
  rcases env with ⟨global, _ | ⟨block, rest⟩⟩
  · rw [lookup?_ofGlobal] at h
    rw [modifyCurrent, lookup?_ofGlobal]
    exact hget.trans h
  · rw [lookup?_cons] at h
    rw [modifyCurrent, lookup?_cons, ← h]
    exact congrArg (Option.or · _) hget

theorem lookup?_atHeight_apply {env : Environment} {height : Nat} (op : Operation)
    (hnow : height < env.depth) (hthen : height < (op.apply env).depth) {name : String}
    {value : Value} (h : (env.atHeight height).lookup? name = some value) :
    ((op.apply env).atHeight height).lookup? name = some value := by
  obtain ⟨scoping, heq⟩ | heq | ⟨f, new, heq, hbindings, hnew⟩ := op.apply_cases env
  · rwa [heq, atHeight_enter scoping hnow]
  · rw [heq] at hthen
    rwa [heq, atHeight_leave hthen]
  · rw [heq]
    rcases Nat.lt_or_ge height env.blocks.length with hlt | hge
    · rwa [atHeight_modifyCurrent f hlt]
    · rw [atHeight_of_le hge] at h
      rw [atHeight_modifyCurrent_of_le f hge]
      exact lookup?_modifyCurrent hbindings hnew h

theorem lookup?_atHeight_after {env : Environment} {height : Nat} {operations : List Operation}
    (hopen : StaysOpen height env operations) {name : String} {value : Value}
    (h : (env.atHeight height).lookup? name = some value) :
    ((env.after operations).atHeight height).lookup? name = some value := by
  induction operations generalizing env with
  | nil => exact h
  | cons op rest ih =>
    obtain ⟨hnow, hrest⟩ := hopen
    exact ih hrest (lookup?_atHeight_apply op hnow hrest.lt_depth h)

theorem findSome?_reverse_of_disjoint {scopes : List Scope} (h : scopes.Pairwise Scope.Disjoint)
    (name : String) :
    scopes.reverse.findSome? (·.get? name) = scopes.findSome? (·.get? name) := by
  induction scopes with
  | nil => rfl
  | cons scope rest ih =>
    obtain ⟨hscope, hrest⟩ := List.pairwise_cons.1 h
    rw [List.reverse_cons, List.findSome?_append, ih hrest, List.findSome?_cons]
    cases hget : scope.get? name with
    | none => simp [hget]
    | some value =>
      have hnone : rest.findSome? (·.get? name) = none := by
        rw [List.findSome?_eq_none_iff]
        intro other hother
        have hd := hscope other hother name
        simpa [Scope.binds, hget] using hd
      simp [hnone, hget]

/-- Visible scopes bind disjoint sets of names, whatever was done to the environment, and so no search
order and no later operation changes what an open scope finds. -/
theorem visible_scopes_disjoint_and_lasting (global : Scope) (operations : List Operation) :
    let env := (ofGlobal global).after operations
    env.Unshadowed ∧
      (∀ height name, (env.atHeight height).lookup? name =
        (env.atHeight height).visible.reverse.findSome? (·.get? name)) ∧
      (∀ height later name value, StaysOpen height env later →
        (env.atHeight height).lookup? name = some value →
        ((env.after later).atHeight height).lookup? name = some value) ∧
      (∀ (interpreter : Interpreter) (s : Statement), interpreter.machine.env.Unshadowed →
        (interpreter.evaluate s).2.machine.env.Unshadowed) := by
  intro env
  have hunshadowed : env.Unshadowed := (unshadowed_ofGlobal global).after operations
  refine ⟨hunshadowed, ?_, ?_, ?_⟩
  · intro height name
    exact (findSome?_reverse_of_disjoint (hunshadowed.atHeight height).pairwise_visible name).symm
  · intro height later name value hopen h
    exact lookup?_atHeight_after hopen h
  · intro interpreter s h
    exact (Statement.congruence_unshadowed interpreter.host).eval s interpreter.machine h

theorem visible_scopes_disjoint_and_lasting_mixed_blocks :
    let operations : List Operation :=
      [.enter .lexical, .declare "y" (.number 1), .enter .isolated, .declare "x" (.number 2),
        .enter .lexical, .declare "y" (.number 3)]
    let env := (ofGlobal ⟨[⟨"x", .number 0⟩], []⟩).after operations
    let later : List Operation := [.leave, .declare "z" .undefined]
    let interpreter : Interpreter := ⟨⟨.lexical, .none⟩, ⟨env, .buffer ""⟩⟩
    let duplicate : Statement := .closeTag "Let" [⟨"id", .identifier "x"⟩, ⟨"value", .number 4⟩]
    env.Sees 3 2 ∧ (env.scopeAt 3).Disjoint (env.scopeAt 2) ∧ StaysOpen 2 env later ∧
      ((env.after later).atHeight 2).lookup? "x" = some (.number 2) ∧
      (interpreter.evaluate duplicate).2.machine.env.Unshadowed := by
  intro operations env later interpreter duplicate
  obtain ⟨hunshadowed, -, hlasting, hevaluate⟩ :=
    visible_scopes_disjoint_and_lasting ⟨[⟨"x", .number 0⟩], []⟩ operations
  have hsees : env.Sees 3 2 := by
    refine ⟨by decide, by decide, ?_⟩
    intro height hlow hhigh
    obtain rfl : height = 3 := by omega
    decide
  have hopen : StaysOpen 2 env later := by decide
  exact ⟨hsees, hunshadowed 3 2 hsees, hopen, hlasting 2 later "x" (.number 2) hopen rfl,
    hevaluate interpreter duplicate hunshadowed⟩

end Environment

end TagScript
