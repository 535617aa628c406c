import TagScript.Proofs.Discipline

namespace TagScript

structure StepCongruence (left right : Host) (R : ∀ {α : Type}, Run α → Run α → Prop) : Prop where
  pure : ∀ {α : Type} (a : α), R (pure a) (pure a)
  throw : ∀ {α : Type} (fault : Fault), R (throw fault : Run α) (throw fault)
  bind : ∀ {α β : Type} {x y : Run α} {f g : α → Run β},
    R x y → (∀ a, R (f a) (g a)) → R (x >>= f) (y >>= g)
  readVariable : ∀ name, R (Run.readVariable name) (Run.readVariable name)
  callee : ∀ name, R (Run.callee name) (Run.callee name)
  call : ∀ f args, R (Run.call left.library f args) (Run.call right.library f args)
  declare : ∀ name value, R (Run.declare name value) (Run.declare name value)
  inBlock : ∀ {x y : Run Value}, R x y →
    R (Run.inBlock left.scoping x) (Run.inBlock right.scoping y)

structure Congruence (left right : Host) (R : ∀ {α : Type}, Run α → Run α → Prop) : Prop
    extends StepCongruence left right R where
  expression : ∀ items : List Statement,
    (∀ item ∈ items, R (item.eval left) (item.eval right)) →
      R ((Statement.expression items).eval left) ((Statement.expression items).eval right)

variable {left right : Host} {R : ∀ {α : Type}, Run α → Run α → Prop}

namespace Discipline

def any : Discipline where
  node _ := True
  native _ := True
  value _ := True
  stored _ := True
  argument _ := True
  value_of_plain _ := trivial
  value_of_stored _ := trivial
  argument_of_value _ := trivial
  argument_of_stored _ := trivial
  stored_resolved _ := trivial

theorem Condition.of_any {α : Type} {P : α → Prop} (h : any.Condition P) (a : α) : P a := by
  cases h with
  | arguments => exact fun _ _ => trivial
  | stack => exact fun _ _ => trivial
  | _ => trivial

end Discipline

theorem StepCongruence.stepRules (h : StepCongruence left right R) :
    StepRules .any left right fun _ x y => R x y where
  pure _ := h.pure _
  throw _ := h.throw _
  bind hP hxy hf := h.bind hxy fun a => hf a (hP.of_any a)
  readVariable _ := h.readVariable _
  callee _ _ := h.callee _
  call _ _ := h.call _ _
  declare _ := h.declare _ _
  inBlock := h.inBlock

namespace Congruence

theorem rules (h : Congruence left right R) : Rules .any left right fun _ x y => R x y :=
  { h.stepRules with expression := h.expression }

theorem eval (h : Congruence left right R) (s : Statement) : R (s.eval left) (s.eval right) :=
  h.rules.eval s fun _ _ => trivial

theorem evalBlock (h : Congruence left right R) (children : List Statement) :
    R (Statement.evalBlock left children) (Statement.evalBlock right children) :=
  h.rules.evalBlock children fun _ _ => trivial

theorem evalAll (h : Congruence left right R) (children : List Statement) :
    R (Statement.evalAll left children) (Statement.evalAll right children) :=
  h.rules.evalAll children fun _ _ => trivial

end Congruence

end TagScript
