import TagScript.Proofs.Run
import TagScript.Proofs.Truthful

/-!
One induction over statements for all properties of evaluation. A discipline says what is known of
the data that an evaluation handles. A relation between computations that the elementary steps,
sequencing, blocks and expressions respect, as far as the discipline goes, holds between the
evaluations of any statement under two hosts.
-/

namespace TagScript

namespace Entry

universe u

variable {α : Type u} {key : String} {value : α} {entries : List (Entry α)}

theorem eq_or_mem_of_mem_set {e : Entry α} (h : e ∈ set key value entries) :
    e = ⟨key, value⟩ ∨ e ∈ entries := by
  induction entries with
  | nil => exact .inl (List.mem_singleton.1 h)
  | cons first rest ih =>
    rw [set] at h
    split at h
    · rcases List.mem_cons.1 h with rfl | h
      · exact .inl rfl
      · exact .inr (List.mem_cons_of_mem _ h)
    · rcases List.mem_cons.1 h with rfl | h
      · exact .inr List.mem_cons_self
      · exact (ih h).imp_right (List.mem_cons_of_mem _)

end Entry

/-- Which statements occur, which functions can be reached, what statements evaluate to, what
variables hold and what functions are called with. -/
structure Discipline where
  node : Statement → Prop
  native : Native → Prop
  value : Value → Prop
  stored : Value → Prop
  argument : Value → Prop
  value_of_plain : ∀ {v}, v.Plain → value v
  value_of_stored : ∀ {v}, stored v → value v
  argument_of_value : ∀ {v}, value v → argument v
  argument_of_stored : ∀ {v}, stored v → argument (.identifier v)
  stored_resolved : ∀ {v}, argument v → stored v.resolved

namespace Discipline

def arguments (d : Discipline) (args : Arguments) : Prop := ∀ e ∈ args.entries, d.argument e.value

def stack (d : Discipline) (values : List Value) : Prop := ∀ v ∈ values, d.value v

/-- The conditions on what one step of an evaluation hands to the next. They are listed so that all
of them are trivial where nothing is known. -/
inductive Condition (d : Discipline) : ∀ {α : Type}, (α → Prop) → Prop
  | always {α : Type} : Condition d fun _ : α => True
  | native : Condition d d.native
  | value : Condition d d.value
  | stored : Condition d d.stored
  | argument : Condition d d.argument
  | arguments : Condition d d.arguments
  | stack : Condition d d.stack

theorem arguments_insert {d : Discipline} {args : Arguments} (h : d.arguments args) (key : String)
    {value : Value} (hvalue : d.argument value) : d.arguments (args.insert key value) := by
  intro e he
  rcases Entry.eq_or_mem_of_mem_set he with rfl | he
  · exact hvalue
  · exact h e he

theorem argument_of_get? {d : Discipline} {args : Arguments} (h : d.arguments args) {key : String}
    {value : Value} (hvalue : args.get? key = some value) : d.argument value :=
  h _ (Entry.mem_of_get? hvalue)

end Discipline

/-- A relation that respects what evaluations are put together from, expressions apart. `R P x y` is
about two computations whose results satisfy `P`. -/
structure StepRules (d : Discipline) (left right : Host)
    (R : ∀ {α : Type}, (α → Prop) → Run α → Run α → Prop) : Prop where
  pure : ∀ {α : Type} {P : α → Prop} {a : α}, P a → R P (pure a) (pure a)
  throw : ∀ {α : Type} {P : α → Prop} {fault : Fault}, fault.Truthful d.node →
    R P (throw fault) (throw fault)
  bind : ∀ {α β : Type} {P : α → Prop} {Q : β → Prop} {x y : Run α} {f g : α → Run β},
    d.Condition P → R P x y → (∀ a, P a → R Q (f a) (g a)) → R Q (x >>= f) (y >>= g)
  readVariable : ∀ {name : String}, d.node (.identifier name) →
    R d.stored (Run.readVariable name) (Run.readVariable name)
  callee : ∀ {name : String} {params : List (Entry Statement)}, d.node (.closeTag name params) →
    name ≠ letName → R d.native (Run.callee name) (Run.callee name)
  call : ∀ {f : Native} {args : Arguments}, d.native f → d.arguments args →
    R d.value (Run.call left.library f args) (Run.call right.library f args)
  declare : ∀ {name : String} {value : Value}, d.stored value →
    R (fun _ => True) (Run.declare name value) (Run.declare name value)
  inBlock : ∀ {x y : Run Value}, R d.value x y →
    R d.value (Run.inBlock left.scoping x) (Run.inBlock right.scoping y)

structure Rules (d : Discipline) (left right : Host)
    (R : ∀ {α : Type}, (α → Prop) → Run α → Run α → Prop) : Prop
    extends StepRules d left right R where
  expression : ∀ items : List Statement,
    (∀ item ∈ items, R d.value (item.eval left) (item.eval right)) →
      R d.value ((Statement.expression items).eval left) ((Statement.expression items).eval right)

variable {d : Discipline} {left right : Host}
  {R : ∀ {α : Type}, (α → Prop) → Run α → Run α → Prop}

namespace StepRules

variable {α : Type} {P Q : α → Prop} {x y : Run α}

theorem mono (h : StepRules d left right R) (hP : d.Condition P) (hPQ : ∀ a, P a → Q a)
    (hxy : R P x y) : R Q x y := by
  have hbind : R Q (x >>= Pure.pure) (y >>= Pure.pure) :=
    h.bind hP hxy fun a ha => h.pure (hPQ a ha)
  rwa [bind_pure, bind_pure] at hbind

theorem lift (h : StepRules d left right R) {r : Except Fault α} (hr : Sound d.node P r) :
    R P (liftExcept r : Run α) (liftExcept r) := by
  cases r with
  | ok a => exact h.pure hr
  | error fault => exact h.throw hr

theorem discard (h : StepRules d left right R) (hP : d.Condition P) (hxy : R P x y) :
    R (fun _ => True) (discard x) (discard y) := by
  rw [Run.discard_eq_bind, Run.discard_eq_bind]
  exact h.bind hP hxy fun _ _ => h.pure trivial

theorem declareFrom (h : StepRules d left right R) {args : Arguments} (hargs : d.arguments args) :
    R d.value (Run.declareFrom args) (Run.declareFrom args) := by
  unfold Run.declareFrom
  split
  · exact h.throw (.inl ⟨rfl, .inl rfl⟩)
  · exact h.throw (.inl ⟨rfl, .inr rfl⟩)
  · next value id hvalue hid =>
    have hstored : d.stored value.resolved :=
      d.stored_resolved (Discipline.argument_of_get? hargs hvalue)
    apply h.bind .always (h.lift (id.sound_nameText d.node))
    intro name _
    apply h.bind .always (h.declare hstored)
    intro _ _
    exact h.pure (d.value_of_plain .undefined)

theorem nameArgument (h : StepRules d left right R) (asked : Bool) {name : String}
    (hname : d.node (.identifier name)) :
    R d.argument (Run.nameArgument asked name) (Run.nameArgument asked name) := by
  unfold Run.nameArgument
  split
  · exact h.pure (d.argument_of_value (d.value_of_plain (.string name)))
  · apply h.bind .stored (h.readVariable hname)
    intro value hvalue
    exact h.pure (d.argument_of_stored hvalue)

end StepRules

namespace Rules

open Statement

mutual

theorem eval (h : Rules d left right R) : ∀ s : Statement, (∀ t ∈ s.nodes, d.node t) →
    R d.value (Statement.eval left s) (Statement.eval right s)
  | openTag _ params children, hnodes => by
    simp only [nodes, List.forall_mem_cons, List.forall_mem_append] at hnodes
    exact h.inBlock (h.evalBlock children hnodes.2.2)
  | closeTag name params, hnodes => by
    simp only [nodes, List.forall_mem_cons] at hnodes
    have hempty : d.arguments .empty := nofun
    simp only [Statement.eval]
    split
    · apply h.bind .arguments (h.evalArguments _ params hnodes.2 hempty)
      intro args hargs
      exact h.declareFrom hargs
    · next hname =>
      apply h.bind .native (h.callee hnodes.1 hname)
      intro f hf
      apply h.bind .arguments (h.evalArguments _ params hnodes.2 hempty)
      intro args hargs
      exact h.call hf hargs
  | ifTag _ params children, hnodes => by
    simp only [nodes, List.forall_mem_cons, List.forall_mem_append] at hnodes
    have hundefined : d.value .undefined := d.value_of_plain .undefined
    simp only [Statement.eval]
    apply h.bind .always (h.evalCondition params hnodes.2.1)
    intro holds _
    cases holds with
    | true => exact h.bind .always (h.evalAll children hnodes.2.2) fun _ _ => h.pure hundefined
    | false => exact h.bind .always (h.pure (a := ()) trivial) fun _ _ => h.pure hundefined
  | identifier name, hnodes =>
    h.mono .stored (fun _ => d.value_of_stored) (h.readVariable (hnodes _ List.mem_cons_self))
  | number n, _ => h.pure (d.value_of_plain (.number n))
  | string text, _ => h.pure (d.value_of_plain (.string text))
  | .expression items, hnodes => by
    simp only [nodes, List.forall_mem_cons] at hnodes
    exact h.expression items (h.evalItem items hnodes.2)
  | wrapped inner, hnodes => by
    simp only [nodes, List.forall_mem_cons] at hnodes
    exact h.eval inner hnodes.2
  | operator _, _ => h.throw trivial
  | endMark, _ => h.pure (d.value_of_plain .undefined)

theorem evalItem (h : Rules d left right R) : ∀ items : List Statement,
    (∀ t ∈ allNodes items, d.node t) →
      ∀ item ∈ items, R d.value (Statement.eval left item) (Statement.eval right item)
  | [], _ => nofun
  | item :: rest, hnodes => by
    simp only [allNodes, List.forall_mem_append] at hnodes
    exact List.forall_mem_cons.2 ⟨h.eval item hnodes.1, h.evalItem rest hnodes.2⟩

theorem evalBlock (h : Rules d left right R) : ∀ children : List Statement,
    (∀ t ∈ allNodes children, d.node t) →
      R d.value (Statement.evalBlock left children) (Statement.evalBlock right children)
  | [], _ => h.pure (d.value_of_plain .undefined)
  | child :: rest, hnodes => by
    simp only [allNodes, List.forall_mem_append] at hnodes
    have hchild := h.eval child hnodes.1
    have hrest := h.evalBlock rest hnodes.2
    simp only [Statement.evalBlock]
    split
    · exact hchild
    · exact h.bind .always (h.discard .value hchild) fun _ _ => hrest
    · exact h.bind .always (h.discard .value hchild) fun _ _ => hrest
    · exact hrest

theorem evalAll (h : Rules d left right R) : ∀ children : List Statement,
    (∀ t ∈ allNodes children, d.node t) →
      R (fun _ => True) (Statement.evalAll left children) (Statement.evalAll right children)
  | [], _ => h.pure trivial
  | s :: rest, hnodes => by
    simp only [allNodes, List.forall_mem_append] at hnodes
    exact h.bind .always (h.discard .value (h.eval s hnodes.1)) fun _ _ => h.evalAll rest hnodes.2

theorem evalCondition (h : Rules d left right R) : ∀ params : List (Entry Statement),
    (∀ t ∈ paramNodes params, d.node t) → R (fun _ => True)
      (Statement.evalCondition left params) (Statement.evalCondition right params)
  | [], _ => h.throw (.inr ⟨rfl, rfl⟩)
  | ⟨key, condition⟩ :: _, hnodes => by
    simp only [paramNodes, List.forall_mem_append] at hnodes
    simp only [Statement.evalCondition]
    split
    · apply h.bind .value (h.eval condition hnodes.1)
      intro value _
      exact h.lift (value.sound_condition d.node)
    · next hkey => exact h.throw ⟨rfl, rfl, hkey⟩

theorem evalArguments (h : Rules d left right R) (asksName : String → Bool) :
    ∀ (params : List (Entry Statement)) {args : Arguments}, (∀ t ∈ paramNodes params, d.node t) →
      d.arguments args → R d.arguments (Statement.evalArguments left asksName params args)
        (Statement.evalArguments right asksName params args)
  | [], _, _, hargs => h.pure hargs
  | ⟨key, s⟩ :: rest, args, hnodes, hargs => by
    simp only [paramNodes, List.forall_mem_append] at hnodes
    have hrest : ∀ value, d.argument value → R d.arguments
        (Statement.evalArguments left asksName rest (args.insert key value))
        (Statement.evalArguments right asksName rest (args.insert key value)) :=
      fun value hvalue => h.evalArguments asksName rest hnodes.2
        (Discipline.arguments_insert hargs key hvalue)
    simp only [Statement.evalArguments]
    split
    · next name hname =>
      -- The name is read without its wrappers being evaluated, but it occurs under them.
      have hnode : d.node (identifier name) := hnodes.1 _ (identifier_mem_nodes hname)
      exact h.bind .argument (h.nameArgument _ hnode) hrest
    · exact h.bind .value (h.eval s hnodes.1) fun value hvalue =>
        hrest value (d.argument_of_value hvalue)

end

end Rules

end TagScript
