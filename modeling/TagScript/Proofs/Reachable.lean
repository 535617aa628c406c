import TagScript.Interpreter

namespace TagScript.Interpreter

def opened (interpreter : Interpreter) : Interpreter :=
  let machine := interpreter.machine
  { interpreter with
    machine := { machine with env := machine.env.enter interpreter.host.scoping } }

def closed (interpreter : Interpreter) : Interpreter :=
  let machine := interpreter.machine
  { interpreter with machine := { machine with env := machine.env.leave } }

theorem withBlock_eq {α : Type} (interpreter : Interpreter)
    (session : Interpreter → α × Interpreter) :
    interpreter.withBlock session =
      ((session interpreter.opened).1, (session interpreter.opened).2.closed) := rfl

/-- The second interpreter is what the first one has become. All sessions are over. -/
inductive Leads : Interpreter → Interpreter → Prop
  | refl (i : Interpreter) : Leads i i
  | evaluate {i j : Interpreter} (s : Statement) (h : Leads i j) : Leads i (j.evaluate s).2
  | run {i j : Interpreter} (program : Program) (h : Leads i j) : Leads i (j.run program).2
  | withBlock {i j : Interpreter} {α : Type} (session : Interpreter → α × Interpreter)
    (h : Leads i j) (hsession : Leads j.opened (session j.opened).2) :
    Leads i (j.withBlock session).2

/-- Like `Leads`, but sessions may still be going on. -/
inductive Reachable (start : Interpreter) : Interpreter → Prop
  | outside {i : Interpreter} (h : Leads start i) : Reachable start i
  | inside {i j : Interpreter} (h : Reachable start i) (hsession : Leads i.opened j) :
    Reachable start j

structure Invariant (P : Interpreter → Prop) : Prop where
  evaluate : ∀ {i} s, P i → P (i.evaluate s).2
  run : ∀ {i} program, P i → P (i.run program).2
  opened : ∀ {i}, P i → P i.opened
  closed : ∀ {i}, P i → P i.closed

variable {P : Interpreter → Prop} {i j : Interpreter}

theorem Leads.keeps (hP : Invariant P) (h : Leads i j) (hi : P i) : P j := by
  induction h with
  | refl => exact hi
  | evaluate s _ ih => exact hP.evaluate s (ih hi)
  | run program _ ih => exact hP.run program (ih hi)
  | withBlock session _ _ ih ihsession =>
    rw [withBlock_eq]
    exact hP.closed (ihsession (hP.opened (ih hi)))

theorem Reachable.keeps (hP : Invariant P) (h : Reachable i j) (hi : P i) : P j := by
  induction h with
  | outside h => exact h.keeps hP hi
  | inside _ hsession ih => exact hsession.keeps hP (hP.opened ih)

end TagScript.Interpreter
