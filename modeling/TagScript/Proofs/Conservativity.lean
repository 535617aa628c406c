import TagScript.Proofs.Registry
import TagScript.Proofs.ScopingModes

/-!
Adding a function to a host. A program that neither reads nor calls a name can still meet it: the
text of a declared name may be computed. So the runs with and without a function of that name agree,
or the run with the function stops where the name is declared.
-/

namespace TagScript

structure Scope.Gains (name : String) (scope scope' : Scope) : Prop where
  bound : scope'.get? name ≠ none
  others : ∀ other, other ≠ name → scope'.get? other = scope.get? other

theorem Scope.Gains.extend {name : String} {scope scope' : Scope} (h : scope.Gains name scope')
    (new : List (Entry Value)) : (scope.extend new).Gains name (scope'.extend new) := by
  have hget : ∀ (scope : Scope) (key : String),
      (scope.extend new).get? key = (scope.get? key).or (Entry.get? key new) :=
    fun _ => Scope.get?_of_bindings rfl
  constructor
  · rw [hget, ne_eq, Option.or_eq_none_iff]
    exact fun hnone => h.bound hnone.1
  · intro other hne
    rw [hget, hget, h.others other hne]

namespace Environment

inductive Gains (name : String) : Environment → Environment → Prop
  | intro {global global' : Scope} (blocks : List Block) (h : global.Gains name global') :
    Gains name ⟨global, blocks⟩ ⟨global', blocks⟩

namespace Gains

variable {name other : String} {env env' : Environment}

theorem lookup?_of_ne (h : env.Gains name env') (hne : other ≠ name) :
    env'.lookup? other = env.lookup? other := by
  obtain ⟨blocks, h⟩ := h
  induction blocks with
  | nil => rw [lookup?_ofGlobal, lookup?_ofGlobal, h.others other hne]
  | cons block rest ih => rw [lookup?_cons, lookup?_cons, ih]

theorem lookupCallable?_of_ne (h : env.Gains name env') (hne : other ≠ name) :
    env'.lookupCallable? other = env.lookupCallable? other := by
  rw [lookupCallable?, lookupCallable?, h.lookup?_of_ne hne]
  obtain ⟨blocks, h⟩ := h
  rw [h.others other hne]

theorem lookup?_self_eq_none (h : env.Gains name env') (hnone : env'.lookup? name = none) :
    env.lookup? name = none := by
  obtain ⟨blocks, h⟩ := h
  induction blocks with
  | nil => exact absurd ((lookup?_ofGlobal ..).symm.trans hnone) h.bound
  | cons block rest ih =>
    rw [lookup?_cons, Option.or_eq_none_iff] at hnone ⊢
    cases hlinked : block.linked <;> simp_all

theorem extend (h : env.Gains name env') (new : List (Entry Value)) :
    (env.modifyCurrent (·.extend new)).Gains name (env'.modifyCurrent (·.extend new)) := by
  obtain ⟨_ | ⟨block, rest⟩, h⟩ := h
  · exact .intro [] (h.extend new)
  · exact .intro _ h

theorem enter (h : env.Gains name env') (scoping : Scoping) :
    (env.enter scoping).Gains name (env'.enter scoping) := by
  obtain ⟨blocks, h⟩ := h
  exact .intro _ h

theorem leave (h : env.Gains name env') : env.leave.Gains name env'.leave := by
  obtain ⟨blocks, h⟩ := h
  exact .intro _ h

end Gains

end Environment

structure Machine.Gains (name : String) (m n : Machine) : Prop where
  env : m.env.Gains name n.env
  printer : n.printer = m.printer

/-- How the ends of two runs go together when the second one has a further global name: they agree,
or the second one has stopped short at a declaration of the name. -/
inductive Conserved {α : Type} (name : String) :
    Except Fault α × Machine → Except Fault α × Machine → Prop
  | agree {result : Except Fault α} {m n : Machine} (h : m.Gains name n) :
    Conserved name (result, m) (result, n)
  | redeclared {result : Except Fault α} {m n : Machine} (h : n.printer.Continues m.printer) :
    Conserved name (result, m) (.error (.duplicateVariable name), n)

theorem Conserved.leave {α : Type} {name : String} {left right : Except Fault α × Machine}
    (h : Conserved name left right) :
    Conserved name (left.1, { left.2 with env := left.2.env.leave })
      (right.1, { right.2 with env := right.2.env.leave }) := by
  cases h with
  | agree h => exact .agree ⟨h.env.leave, h.printer⟩
  | redeclared h => exact .redeclared h

def Statement.Avoids (name : String) (s : Statement) : Prop :=
  s ≠ .identifier name ∧ ∀ params, s ≠ .closeTag name params

namespace Discipline

def avoiding (name : String) : Discipline := { any with node := (·.Avoids name) }

theorem Condition.of_avoiding {α : Type} {name : String} {P : α → Prop}
    (h : (avoiding name).Condition P) (a : α) : P a := by
  have hany : any.Condition P := by
    cases h with
    | always => exact .always
    | native => exact .native
    | value => exact .value
    | stored => exact .stored
    | argument => exact .argument
    | arguments => exact .arguments
    | stack => exact .stack
  exact hany.of_any a

end Discipline

namespace Run

variable {α β : Type} {name : String}

/-- The second computation does on a machine with a further global name what the first one does
without it. The first one is uniform, so that it only adds to the output of one that has stopped. -/
structure Conserves (name : String) (x y : Run α) : Prop where
  uniform : x.Uniform
  conserved : ∀ m n : Machine, m.Gains name n → Conserved name (x.exec m) (y.exec n)

namespace Conserves

theorem bind {x y : Run α} {f g : α → Run β} (hx : Conserves name x y)
    (hf : ∀ a, Conserves name (f a) (g a)) : Conserves name (x >>= f) (y >>= g) := by
  refine ⟨hx.uniform.bind fun a => (hf a).uniform, ?_⟩
  intro m n hmn
  have h := hx.conserved m n hmn
  generalize hm : x.exec m = outcome at h
  generalize hn : y.exec n = outcome' at h
  cases h with
  | @agree result m' n' hmn' =>
    cases result with
    | ok a =>
      rw [exec_bind_of_ok f hm, exec_bind_of_ok g hn]
      exact (hf a).conserved m' n' hmn'
    | error fault =>
      rw [exec_bind_of_error f hm, exec_bind_of_error g hn]
      exact .agree hmn'
  | @redeclared result m' n' hprinter =>
    rw [exec_bind_of_error g hn]
    cases result with
    | ok a =>
      rw [exec_bind_of_ok f hm]
      exact .redeclared (hprinter.trans ((hf a).uniform.continues m'))
    | error fault =>
      rw [exec_bind_of_error f hm]
      exact .redeclared hprinter

theorem readVariable {other : String} (hne : other ≠ name) :
    Conserves name (readVariable other) (readVariable other) := by
  refine ⟨.readVariable other, ?_⟩
  intro m n hmn
  rw [exec_readVariable, exec_readVariable, hmn.env.lookup?_of_ne hne]
  cases m.env.lookup? other <;> exact .agree hmn

theorem callee {other : String} (hne : other ≠ name) :
    Conserves name (callee other) (callee other) := by
  refine ⟨.callee other, ?_⟩
  intro m n hmn
  rw [exec_callee, exec_callee, hmn.env.lookupCallable?_of_ne hne]
  cases m.env.lookupCallable? other with
  | none => exact .agree hmn
  | some value => cases value <;> exact .agree hmn

theorem call (library : Library) (f : Native) (args : Arguments) :
    Conserves name (call library f args) (call library f args) := by
  refine ⟨.call library f args, ?_⟩
  intro m n hmn
  rw [exec_call, exec_call, hmn.printer]
  exact .agree ⟨hmn.env, rfl⟩

theorem declare (declared : String) (value : Value) :
    Conserves name (declare declared value) (declare declared value) := by
  refine ⟨.declare declared value, ?_⟩
  intro m n hmn
  rw [exec_declare, exec_declare, Environment.declare?_eq, Environment.declare?_eq]
  by_cases hne : declared = name
  · subst hne
    have hprinter : n.printer.Continues m.printer := hmn.printer ▸ .refl _
    cases hn : n.env.lookup? declared with
    | none =>
      rw [hmn.env.lookup?_self_eq_none hn]
      exact .agree ⟨hmn.env.extend _, hmn.printer⟩
    -- The machine that has the name refuses it, whether or not the other one does.
    | some _ => cases m.env.lookup? declared <;> exact .redeclared hprinter
  · rw [hmn.env.lookup?_of_ne hne]
    cases m.env.lookup? declared with
    | none => exact .agree ⟨hmn.env.extend _, hmn.printer⟩
    | some _ => exact .agree hmn

theorem inBlock (scoping : Scoping) {x y : Run α} (h : Conserves name x y) :
    Conserves name (inBlock scoping x) (inBlock scoping y) := by
  refine ⟨h.uniform.inBlock scoping, ?_⟩
  intro m n hmn
  rw [exec_inBlock, exec_inBlock]
  exact (h.conserved { m with env := m.env.enter scoping } { n with env := n.env.enter scoping }
    ⟨hmn.env.enter scoping, hmn.printer⟩).leave

theorem rules (host : Host) (name : String) :
    Rules (.avoiding name) host host fun _ x y => Conserves name x y := by
  apply StepRules.rules
  exact {
    pure := fun _ => ⟨.pure _, fun _ _ hmn => .agree hmn⟩
    throw := fun _ => ⟨.throw _, fun _ _ hmn => .agree hmn⟩
    bind := fun hP hx hf => hx.bind fun a => hf a (hP.of_avoiding a)
    readVariable := fun h => .readVariable fun heq => h.1 (congrArg _ heq)
    callee := fun h _ => .callee fun heq => h.2 _ (congrArg (Statement.closeTag · _) heq)
    call := fun _ _ => .call host.library _ _
    declare := fun _ => .declare _ _
    inBlock := .inBlock host.scoping }

end Conserves

end Run

namespace Interpreter

variable {before after : List Native} {f : Native}

theorem registered?_insert_of_ne {name : String} (h : name ≠ f.name) :
    registered? (before ++ f :: after) name = registered? (before ++ after) name := by
  simp [registered?, Native.last?, Ne.symm h]

theorem gains_build (host : Host) (printer : Printer) (before after : List Native) (f : Native) :
    (build host printer (before ++ after)).machine.Gains f.name
      (build host printer (before ++ f :: after)).machine := by
  have hglobal : (build host printer (before ++ after)).machine.env.global.Gains f.name
      (build host printer (before ++ f :: after)).machine.env.global := by
    constructor
    · rw [get?_global_build]
      simp [registered?, Native.last?]
    · intro name hname
      rw [get?_global_build, get?_global_build, registered?_insert_of_ne hname]
  exact ⟨.intro [] hglobal, rfl⟩

/-- A function added to a host changes nothing for a program that neither reads nor calls its name,
except that the program may stop where it declares the name. The name need not be new to the host. -/
theorem run_added_function (host : Host) (printer : Printer) (before after : List Native)
    (f : Native) (program : Program)
    (h : ∀ s ∈ Statement.allNodes program.statements, s.Avoids f.name) :
    let without := (build host printer (before ++ after)).run program
    let added := (build host printer (before ++ f :: after)).run program
    (added.1 = without.1 ∧ added.2.written = without.2.written) ∨
      (added.1 = .error (.duplicateVariable f.name) ∧
        ∃ more, without.2.written = added.2.written ++ more) := by
  intro without added
  have hconserved : Conserved f.name (without.1, without.2.machine) (added.1, added.2.machine) :=
    ((Run.Conserves.rules host f.name).evalAll program.statements h).conserved _ _
      (gains_build host printer before after f)
  simp only [written]
  generalize without.1 = result, without.2.machine = m, added.1 = result',
    added.2.machine = n at hconserved
  cases hconserved with
  | agree hmn => exact .inl ⟨rfl, congrArg Printer.written hmn.printer⟩
  | redeclared hprinter => exact .inr ⟨rfl, hprinter.written⟩

theorem run_added_function_computed_name :
    let print (text : String) : Statement := .closeTag "Print" [⟨"text", .string text⟩]
    let name : Statement := .binary (.string "Lo") .add (.string "g")
    let declare : Statement := .closeTag "Let" [⟨"id", name⟩, ⟨"value", .number 1⟩]
    let program : Program := ⟨[print "first", .openTag "Block" [] [declare], print "last"]⟩
    let f : Native := .host 0 "Log"
    let without (scoping : Scoping) := (build ⟨scoping, .none⟩ (.buffer "") []).run program
    let added (scoping : Scoping) := (build ⟨scoping, .none⟩ (.buffer "") [f]).run program
    (∀ s ∈ Statement.allNodes program.statements, s.Avoids f.name) ∧
      ((added .isolated).1 = (without .isolated).1 ∧
        (added .isolated).2.written = (without .isolated).2.written) ∧
      ((added .lexical).1 = .error (.duplicateVariable f.name) ∧
        ∃ more, (without .lexical).2.written = (added .lexical).2.written ++ more) := by
  intro print name declare program f without added
  have hfree : ∀ s ∈ Statement.allNodes program.statements, s.Avoids f.name := by
    simp [program, print, declare, name, f, Statement.binary, Statement.allNodes, Statement.nodes,
      Statement.paramNodes, Statement.Avoids, Native.name]
  have hisolated : (added .isolated).1 = .ok () := by rfl
  have hlexical : (without .lexical).1 = .ok () := by rfl
  have hduplicate : (added .lexical).1 = .error (.duplicateVariable f.name) := by rfl
  refine ⟨hfree, ?_, ?_⟩
  · rcases run_added_function ⟨.isolated, .none⟩ (.buffer "") [] [] f program hfree with h | h
    · exact h
    · exact absurd (hisolated.symm.trans h.1) nofun
  · rcases run_added_function ⟨.lexical, .none⟩ (.buffer "") [] [] f program hfree with h | h
    · exact absurd (hduplicate.symm.trans (h.1.trans hlexical)) nofun
    · exact h

end Interpreter

end TagScript
