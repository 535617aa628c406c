import TagScript.Interpreter
import TagScript.Proofs.Lifetime

/-!
The two scoping modes side by side. Run in lockstep, the machine of a lexical run and that of an
isolated run hold the same scopes and differ in the links of their blocks only, until one of the two
stops: the lexical run at a name that is declared again, the isolated run at a name it cannot see.
Calls agree because names are not shadowed in a lexical run.
-/

namespace TagScript

namespace Printer

def Continues (p q : Printer) : Prop := ∃ lines, q = p.printAll lines

theorem Continues.refl (p : Printer) : p.Continues p := ⟨[], rfl⟩

theorem Continues.trans {p q r : Printer} (h : p.Continues q) (h' : q.Continues r) :
    p.Continues r := by
  obtain ⟨lines, rfl⟩ := h
  obtain ⟨more, rfl⟩ := h'
  exact ⟨lines ++ more, (printAll_append lines more p).symm⟩

theorem Continues.written {p q : Printer} (h : p.Continues q) :
    ∃ text, q.written = p.written ++ text := by
  obtain ⟨lines, rfl⟩ := h
  obtain ⟨text, htext⟩ := exists_printAll_eq_append lines
  exact ⟨text, by rw [htext, written_append]⟩

end Printer

namespace Environment

def unlinked (env : Environment) : Environment :=
  { env with blocks := env.blocks.map fun block => { block with linked := false } }

structure Lexical (env : Environment) : Prop where
  linked : ∀ block ∈ env.blocks, block.linked
  unshadowed : env.Unshadowed

variable {env : Environment}

theorem unlinked_modifyCurrent (f : Scope → Scope) (env : Environment) :
    (env.modifyCurrent f).unlinked = env.unlinked.modifyCurrent f := by
  rcases env with ⟨global, _ | ⟨block, rest⟩⟩ <;> rfl

theorem unlinked_leave (env : Environment) : env.leave.unlinked = env.unlinked.leave := by
  simp [unlinked, leave]

theorem lookup?_unlinked (env : Environment) (name : String) :
    env.unlinked.lookup? name = env.current.get? name := by
  rcases env with ⟨global, _ | ⟨block, rest⟩⟩
  · exact lookup?_ofGlobal global name
  · exact (lookup?_cons ..).trans (Option.or_none ..)

theorem lookup?_of_current {name : String} {value : Value}
    (h : env.current.get? name = some value) : env.lookup? name = some value := by
  rcases env with ⟨global, _ | ⟨block, rest⟩⟩
  · exact (lookup?_ofGlobal global name).trans h
  · rw [lookup?_cons, show block.scope.get? name = some value from h, Option.some_or]

theorem declare?_unlinked {env' : Environment} {name : String} {value : Value}
    (h : env.declare? name value = some env') :
    env.unlinked.declare? name value = some env'.unlinked := by
  obtain ⟨hlookup, rfl⟩ := of_declare?_eq_some h
  rw [declare?_eq, lookup?_unlinked, current_get?_of_lookup? hlookup, unlinked_modifyCurrent]
  rfl

theorem visible_of_linked (global : Scope) {blocks : List Block}
    (h : ∀ block ∈ blocks, block.linked) :
    visible ⟨global, blocks⟩ = blocks.map (·.scope) ++ [global] := by
  induction blocks with
  | nil => rfl
  | cons block rest ih =>
    obtain ⟨hblock, hrest⟩ := List.forall_mem_cons.1 h
    have hvisible : seenThrough global rest = rest.map (·.scope) ++ [global] := ih hrest
    simp [visible, seenThrough, hblock, hvisible]

namespace Lexical

theorem lookup?_of_global (h : env.Lexical) {name : String} {value : Value}
    (hglobal : env.global.get? name = some value) : env.lookup? name = some value := by
  rw [lookup?, ← findSome?_reverse_of_disjoint h.unshadowed.pairwise_visible]
  rw [visible_of_linked env.global h.linked]
  simp [hglobal]

theorem enter (h : env.Lexical) : (env.enter .lexical).Lexical :=
  ⟨List.forall_mem_cons.2 ⟨rfl, h.linked⟩, h.unshadowed.enter .lexical⟩

theorem leave (h : env.Lexical) : env.leave.Lexical :=
  ⟨fun block hblock => h.linked block (List.mem_of_mem_tail hblock), h.unshadowed.leave⟩

theorem declare? (h : env.Lexical) {name : String} {value : Value} {env' : Environment}
    (hdeclare : env.declare? name value = some env') : env'.Lexical := by
  refine ⟨?_, h.unshadowed.declare? hdeclare⟩
  obtain ⟨-, rfl⟩ := of_declare?_eq_some hdeclare
  rcases env with ⟨global, _ | ⟨block, rest⟩⟩
  · simp [modifyCurrent]
  · exact List.forall_mem_cons.2 (List.forall_mem_cons.1 h.linked)

end Lexical

end Environment

def Machine.unlinked (m : Machine) : Machine := { m with env := m.env.unlinked }

inductive Fault.Unseen : Fault → Prop
  | identifier (name : String) : Unseen (.undefinedIdentifier name)
  | call (name : String) : Unseen (.unresolvedCall name)

inductive InStep {α : Type} : Except Fault α × Machine → Except Fault α × Machine → Prop
  | agree {result : Except Fault α} {m : Machine} (h : m.env.Lexical) :
    InStep (result, m) (result, m.unlinked)
  | redeclared {name : String} {m n : Machine} {result : Except Fault α}
    (h : m.printer.Continues n.printer) :
    InStep (.error (.duplicateVariable name), m) (result, n)
  | unseen {result : Except Fault α} {m n : Machine} {fault : Fault} (hfault : fault.Unseen)
    (h : n.printer.Continues m.printer) : InStep (result, m) (.error fault, n)

theorem InStep.leave {α : Type} {left right : Except Fault α × Machine} (h : InStep left right) :
    InStep (left.1, { left.2 with env := left.2.env.leave })
      (right.1, { right.2 with env := right.2.env.leave }) := by
  cases h with
  | @agree result m hlex =>
    have heq : { m.unlinked with env := m.unlinked.env.leave } =
        Machine.unlinked { m with env := m.env.leave } :=
      congrArg (Machine.mk · m.printer) (Environment.unlinked_leave m.env).symm
    rw [heq]
    exact .agree hlex.leave
  | redeclared hprinter => exact .redeclared hprinter
  | unseen hfault hprinter => exact .unseen hfault hprinter

namespace Run

variable {α β : Type}

/-- The computations run in step. Both are uniform, so that a run only ever adds to the output of a
run that has stopped. -/
structure Lockstep (x y : Run α) : Prop where
  left : x.Uniform
  right : y.Uniform
  inStep : ∀ m : Machine, m.env.Lexical → InStep (x.exec m) (y.exec m.unlinked)

theorem Uniform.continues {x : Run α} (h : x.Uniform) (m : Machine) :
    m.printer.Continues (x.exec m).2.printer := by
  obtain ⟨result, new, lines, hm, -⟩ := h m m rfl
  exact ⟨lines, by rw [hm]; rfl⟩

namespace Lockstep

theorem bind {x y : Run α} {f g : α → Run β} (hx : Lockstep x y)
    (hf : ∀ a, Lockstep (f a) (g a)) : Lockstep (x >>= f) (y >>= g) := by
  refine ⟨hx.left.bind fun a => (hf a).left, hx.right.bind fun a => (hf a).right, ?_⟩
  intro m hm
  have h := hx.inStep m hm
  generalize hm' : x.exec m = outcome at h
  generalize hn' : y.exec m.unlinked = outcome' at h
  cases h with
  | @agree result m' hlex =>
    cases result with
    | ok a =>
      rw [exec_bind_of_ok f hm', exec_bind_of_ok g hn']
      exact (hf a).inStep m' hlex
    | error fault =>
      rw [exec_bind_of_error f hm', exec_bind_of_error g hn']
      exact .agree hlex
  -- Once a run has stopped, whatever the other one prints comes behind the output of both.
  | @redeclared name m' n result hprinter =>
    rw [exec_bind_of_error f hm']
    cases result with
    | ok a =>
      rw [exec_bind_of_ok g hn']
      exact .redeclared (hprinter.trans ((hf a).right.continues n))
    | error fault =>
      rw [exec_bind_of_error g hn']
      exact .redeclared hprinter
  | @unseen result m' n fault hfault hprinter =>
    rw [exec_bind_of_error g hn']
    cases result with
    | ok a =>
      rw [exec_bind_of_ok f hm']
      exact .unseen hfault (hprinter.trans ((hf a).left.continues m'))
    | error _ =>
      rw [exec_bind_of_error f hm']
      exact .unseen hfault hprinter

theorem readVariable (name : String) : Lockstep (readVariable name) (readVariable name) := by
  refine ⟨.readVariable name, .readVariable name, ?_⟩
  intro m hm
  rw [exec_readVariable, exec_readVariable, Machine.unlinked, Environment.lookup?_unlinked]
  cases hcurrent : m.env.current.get? name with
  | some value =>
    rw [Environment.lookup?_of_current hcurrent]
    exact .agree hm
  | none => cases m.env.lookup? name <;> exact .unseen (.identifier name) (.refl _)

theorem callee (name : String) : Lockstep (callee name) (callee name) := by
  refine ⟨.callee name, .callee name, ?_⟩
  intro m hm
  rw [exec_callee, exec_callee]
  have hisolated : m.unlinked.env.lookupCallable? name =
      (m.env.current.get? name).or (m.env.global.get? name) :=
    congrArg (Option.or · _) (Environment.lookup?_unlinked m.env name)
  cases hvalue : m.unlinked.env.lookupCallable? name with
  | some value =>
    have hlexical : m.env.lookupCallable? name = some value := by
      rw [hisolated, Option.or_eq_some_iff] at hvalue
      rw [Environment.lookupCallable?]
      -- The isolated run skips the blocks in between, so none of them may hide the global function.
      rcases hvalue with hcurrent | ⟨-, hglobal⟩
      · rw [Environment.lookup?_of_current hcurrent, Option.some_or]
      · rw [hm.lookup?_of_global hglobal, Option.some_or]
    rw [hlexical]
    cases value <;> exact .agree hm
  | none =>
    cases m.env.lookupCallable? name with
    | none => exact .unseen (.call name) (.refl _)
    | some value => cases value <;> exact .unseen (.call name) (.refl _)

theorem call (library : Library) (f : Native) (args : Arguments) :
    Lockstep (call library f args) (call library f args) := by
  refine ⟨.call library f args, .call library f args, ?_⟩
  intro m hm
  rw [exec_call, exec_call]
  exact .agree hm

theorem declare (name : String) (value : Value) :
    Lockstep (declare name value) (declare name value) := by
  refine ⟨.declare name value, .declare name value, ?_⟩
  intro m hm
  rw [exec_declare, exec_declare]
  cases hdeclare : m.env.declare? name value with
  | some env =>
    have hisolated : m.unlinked.env.declare? name value = some env.unlinked :=
      Environment.declare?_unlinked hdeclare
    rw [hisolated]
    exact .agree (hm.declare? hdeclare)
  | none =>
    cases m.unlinked.env.declare? name value <;> exact .redeclared (.refl _)

theorem inBlock {x y : Run α} (h : Lockstep x y) :
    Lockstep (inBlock .lexical x) (inBlock .isolated y) := by
  refine ⟨h.left.inBlock .lexical, h.right.inBlock .isolated, ?_⟩
  intro m hm
  rw [exec_inBlock, exec_inBlock]
  exact (h.inStep { m with env := m.env.enter .lexical } hm.enter).leave

end Lockstep

end Run

namespace Statement

theorem congruence_lockstep (library : Library) :
    Congruence ⟨.lexical, library⟩ ⟨.isolated, library⟩ Run.Lockstep := by
  apply StepCongruence.congruence
  exact {
    pure := fun a => ⟨.pure a, .pure a, fun _ hm => .agree hm⟩
    throw := fun fault => ⟨.throw fault, .throw fault, fun _ hm => .agree hm⟩
    bind := .bind
    readVariable := .readVariable
    callee := .callee
    call := .call library
    declare := .declare
    inBlock := .inBlock }

end Statement

namespace Interpreter

def written (interpreter : Interpreter) : String := interpreter.machine.printer.written

def globals (interpreter : Interpreter) : List (Entry Value) :=
  interpreter.machine.env.global.bindings

theorem inStep_run (library : Library) (printer : Printer) (natives : List Native)
    (program : Program) :
    let lexical := (build ⟨.lexical, library⟩ printer natives).run program
    let isolated := (build ⟨.isolated, library⟩ printer natives).run program
    InStep (lexical.1, lexical.2.machine) (isolated.1, isolated.2.machine) := by
  have hstep := (Statement.congruence_lockstep library).evalAll program.statements
  exact hstep.inStep (build ⟨.lexical, library⟩ printer natives).machine
    ⟨by simp [build, Environment.ofGlobal], Environment.unshadowed_ofGlobal _⟩

/-- A run that succeeds in one scoping mode succeeds in the other one with the same output and the
same global variables, unless that one stops short: a lexical run at a name declared again, an
isolated run at a name it cannot see. -/
theorem run_lexical_and_isolated (library : Library) (printer : Printer) (natives : List Native)
    (program : Program) :
    let lexical := (build ⟨.lexical, library⟩ printer natives).run program
    let isolated := (build ⟨.isolated, library⟩ printer natives).run program
    (isolated.1 = .ok () →
      (lexical.1 = .ok () ∧ lexical.2.written = isolated.2.written ∧
        lexical.2.globals = isolated.2.globals) ∨
      (∃ name, lexical.1 = .error (.duplicateVariable name)) ∧
        ∃ more, isolated.2.written = lexical.2.written ++ more) ∧
    (lexical.1 = .ok () →
      (isolated.1 = .ok () ∧ isolated.2.written = lexical.2.written ∧
        isolated.2.globals = lexical.2.globals) ∨
      (∃ name, isolated.1 = .error (.undefinedIdentifier name) ∨
          isolated.1 = .error (.unresolvedCall name)) ∧
        ∃ more, lexical.2.written = isolated.2.written ++ more) := by
  intro lexical isolated
  have h : InStep (lexical.1, lexical.2.machine) (isolated.1, isolated.2.machine) :=
    inStep_run library printer natives program
  simp only [written, globals]
  generalize lexical.1 = result, lexical.2.machine = m, isolated.1 = result',
    isolated.2.machine = n at h
  cases h with
  | agree => exact ⟨fun hok => .inl ⟨hok, rfl, rfl⟩, fun hok => .inl ⟨hok, rfl, rfl⟩⟩
  | redeclared hprinter => exact ⟨fun _ => .inr ⟨⟨_, rfl⟩, hprinter.written⟩, nofun⟩
  | unseen hfault hprinter =>
    refine ⟨nofun, fun _ => .inr ⟨?_, hprinter.written⟩⟩
    cases hfault with
    | identifier name => exact ⟨name, .inl rfl⟩
    | call name => exact ⟨name, .inr rfl⟩

theorem run_lexical_and_isolated_shadowing :
    let declare (name text : String) : Statement :=
      .closeTag "Let" [⟨"id", .identifier name⟩, ⟨"value", .string text⟩]
    let print (name : String) : Statement := .closeTag "Print" [⟨"value", .identifier name⟩]
    let inner : Statement := .openTag "Inner" [] [declare "x" "inside", print "x"]
    let shadowing : Program := ⟨[.openTag "Outer" [] [declare "x" "outside", print "x", inner]]⟩
    let nested : Program := ⟨[declare "x" "outside", .openTag "Block" [] [print "x"]]⟩
    let run (scoping : Scoping) := (build ⟨scoping, .none⟩ (.buffer "") []).run
    (run .isolated shadowing).1 = .ok () ∧
      ((∃ name, (run .lexical shadowing).1 = .error (.duplicateVariable name)) ∧
        ∃ more, (run .isolated shadowing).2.written = (run .lexical shadowing).2.written ++ more) ∧
    (run .lexical nested).1 = .ok () ∧
      ((∃ name, (run .isolated nested).1 = .error (.undefinedIdentifier name) ∨
          (run .isolated nested).1 = .error (.unresolvedCall name)) ∧
        ∃ more, (run .lexical nested).2.written = (run .isolated nested).2.written ++ more) := by
  intro declare print inner shadowing nested run
  have hisolated : (run .isolated shadowing).1 = .ok () := by rfl
  have hlexical : (run .lexical nested).1 = .ok () := by rfl
  have hduplicate : (run .lexical shadowing).1 = .error (.duplicateVariable "x") := by rfl
  have hundefined : (run .isolated nested).1 = .error (.undefinedIdentifier "x") := by rfl
  refine ⟨hisolated, ?_, hlexical, ?_⟩
  · rcases (run_lexical_and_isolated .none (.buffer "") [] shadowing).1 hisolated with h | h
    · exact absurd (hduplicate.symm.trans h.1) nofun
    · exact h
  · rcases (run_lexical_and_isolated .none (.buffer "") [] nested).2 hlexical with h | h
    · exact absurd (hundefined.symm.trans h.1) nofun
    · exact h

end Interpreter

end TagScript
