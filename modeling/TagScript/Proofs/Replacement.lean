import Mathlib.Logic.Relation
import TagScript.Proofs.Course

namespace TagScript

namespace Statement

/-- One part of a statement is changed, and the statement with it. Blocks go by the kinds of their
children and expressions by which of their items are operators, so a change there has to keep
these. -/
inductive Changes (change : Statement → Statement → Prop) : Statement → Statement → Prop
  | here {s t} (h : change s t) : Changes change s t
  | openParam {name before key s t after children} (h : Changes change s t) :
    Changes change (openTag name (before ++ ⟨key, s⟩ :: after) children)
      (openTag name (before ++ ⟨key, t⟩ :: after) children)
  | child {name params before s t after} (h : Changes change s t) (hkind : s.kind = t.kind) :
    Changes change (openTag name params (before ++ s :: after))
      (openTag name params (before ++ t :: after))
  | closeParam {name before key s t after} (h : Changes change s t) :
    Changes change (closeTag name (before ++ ⟨key, s⟩ :: after))
      (closeTag name (before ++ ⟨key, t⟩ :: after))
  | ifParam {name before key s t after children} (h : Changes change s t) :
    Changes change (ifTag name (before ++ ⟨key, s⟩ :: after) children)
      (ifTag name (before ++ ⟨key, t⟩ :: after) children)
  | ifChild {name params before s t after} (h : Changes change s t) :
    Changes change (ifTag name params (before ++ s :: after))
      (ifTag name params (before ++ t :: after))
  | item {before s t after} (h : Changes change s t) (hoperator : s.operator? = t.operator?) :
    Changes change (expression (before ++ s :: after)) (expression (before ++ t :: after))
  | wrapped {s t} (h : Changes change s t) : Changes change (wrapped s) (wrapped t)

/-- Two statements become the same by such changes, made or undone in any number of places. -/
def DifferBy (change : Statement → Statement → Prop) : Statement → Statement → Prop :=
  Relation.EqvGen (Changes change)

structure Alike (host : Host) (s t : Statement) : Prop where
  eval : s.eval host = t.eval host
  bareName? : s.bareName? = t.bareName?

theorem alike_equivalence (host : Host) : Equivalence (Alike host) where
  refl _ := ⟨rfl, rfl⟩
  symm h := ⟨h.eval.symm, h.bareName?.symm⟩
  trans h h' := ⟨h.eval.trans h'.eval, h.bareName?.trans h'.bareName?⟩

variable {host : Host} {s t : Statement}

theorem evalBlock_append_congr (before : List Statement) {children others : List Statement}
    (h : evalBlock host children = evalBlock host others) :
    evalBlock host (before ++ children) = evalBlock host (before ++ others) := by
  induction before with
  | nil => exact h
  | cons child rest ih => simp only [List.cons_append, evalBlock, ih]

theorem evalAll_append (before after : List Statement) :
    evalAll host (before ++ after) = (do evalAll host before; evalAll host after) := by
  induction before with
  | nil => rfl
  | cons s rest ih => simp only [List.cons_append, evalAll, ih, bind_assoc]

theorem evalItems_append (base : Nat) (before after : List Statement) :
    evalItems host base (before ++ after) =
      (do evalItems host base before; evalItems host base after) := by
  induction before with
  | nil => rfl
  | cons item rest ih =>
    simp only [List.cons_append, evalItems]
    split <;> simp only [ih, bind_assoc]

namespace Alike

variable (h : Alike host s t) (key : String)

include h

theorem child (hkind : s.kind = t.kind) (before after : List Statement) :
    evalBlock host (before ++ s :: after) = evalBlock host (before ++ t :: after) := by
  apply evalBlock_append_congr
  simp only [evalBlock, h.eval, hkind]

theorem ifChild (before after : List Statement) :
    evalAll host (before ++ s :: after) = evalAll host (before ++ t :: after) := by
  simp only [evalAll_append, evalAll, h.eval]

theorem item (hoperator : s.operator? = t.operator?) (base : Nat) (before after : List Statement) :
    evalItems host base (before ++ s :: after) = evalItems host base (before ++ t :: after) := by
  simp only [evalItems_append, evalItems, h.eval, hoperator]

theorem argument (asksName : String → Bool) (before after : List (Entry Statement))
    (args : Arguments) :
    evalArguments host asksName (before ++ ⟨key, s⟩ :: after) args =
      evalArguments host asksName (before ++ ⟨key, t⟩ :: after) args := by
  simp only [evalArguments_append, evalArguments_cons, evalArgument, h.eval, h.bareName?]

theorem condition (before after : List (Entry Statement)) :
    evalCondition host (before ++ ⟨key, s⟩ :: after) =
      evalCondition host (before ++ ⟨key, t⟩ :: after) := by
  cases before with
  | nil => simp only [List.nil_append, evalCondition, h.eval]
  | cons => rfl

end Alike

section

variable {change : Statement → Statement → Prop}

theorem Changes.alike (hchange : ∀ {s t}, change s t → Alike host s t) (h : Changes change s t) :
    Alike host s t := by
  -- From the inside out: what holds of the part that is changed holds of each statement around it.
  induction h with
  | here h => exact hchange h
  | openParam => exact ⟨rfl, rfl⟩
  | child _ hkind ih => exact ⟨by simp only [eval, ih.child hkind], rfl⟩
  | closeParam _ ih => exact ⟨by simp only [eval, ih.argument], rfl⟩
  | ifParam _ ih => exact ⟨by simp only [eval, ih.condition], rfl⟩
  | ifChild _ ih => exact ⟨by simp only [eval, ih.ifChild], rfl⟩
  | item _ hoperator ih => exact ⟨by simp only [eval, ih.item hoperator], rfl⟩
  | wrapped _ ih => exact ⟨ih.eval, ih.bareName?⟩

theorem DifferBy.alike (hchange : ∀ {s t}, change s t → Alike host s t) (h : DifferBy change s t) :
    Alike host s t :=
  (alike_equivalence host).eqvGen_iff.1 (h.mono fun _ _ => Changes.alike hchange)

end

inductive Wraps : Statement → Statement → Prop
  | intro (s : Statement) : Wraps s (wrapped s)

theorem Wraps.alike (h : Wraps s t) : Alike host s t := by
  cases h
  exact ⟨rfl, rfl⟩

/-- A change to what no evaluation gets to. It keeps the kind of a statement, so it can be made in
any place. -/
inductive Unread : Statement → Statement → Prop
  | openTag {name name' params params' children} :
    Unread (openTag name params children) (openTag name' params' children)
  | ifTag {name name' params params' children} (h : params.head? = params'.head?) :
    Unread (ifTag name params children) (ifTag name' params' children)
  | notTag {name params before s after} (hs : ¬ s.IsTag) :
    Unread (openTag name params (before ++ s :: after)) (openTag name params (before ++ after))
  | behindIf {name params before s after after'} (hs : s.kind = .ifTag) :
    Unread (openTag name params (before ++ s :: after))
      (openTag name params (before ++ s :: after'))

theorem evalCondition_eq_of_head? {params params' : List (Entry Statement)}
    (h : params.head? = params'.head?) :
    evalCondition host params = evalCondition host params' := by
  cases params with
  | nil =>
    cases params' with
    | nil => rfl
    | cons => cases h
  | cons param =>
    cases params' with
    | nil => cases h
    | cons =>
      cases h
      rfl

theorem Unread.alike (h : Unread s t) : Alike host s t := by
  cases h with
  | openTag => exact ⟨rfl, rfl⟩
  | ifTag h => exact ⟨by simp only [eval, evalCondition_eq_of_head? h], rfl⟩
  | @notTag _ _ before s after hs =>
    have hskip : evalBlock host (s :: after) = evalBlock host after :=
      evalBlock_cons_of_not_tag after (fun h => hs (.inr (.inr h))) fun h => hs (h.imp_right .inl)
    exact ⟨by simp only [eval, evalBlock_append_congr before hskip], rfl⟩
  | @behindIf _ _ before s after after' hs =>
    have hend : evalBlock host (s :: after) = evalBlock host (s :: after') := by
      rw [evalBlock_cons_of_ifTag after hs, evalBlock_cons_of_ifTag after' hs]
    exact ⟨by simp only [eval, evalBlock_append_congr before hend], rfl⟩

end Statement

namespace Interpreter

open Statement

/-- Wrappers are transparent, except where they hide a tag from its block or an operator from its
expression. -/
theorem evaluate_rewrapped (interpreter : Interpreter) (s t : Statement) (h : DifferBy Wraps s t) :
    interpreter.evaluate s = interpreter.evaluate t := by
  rw [evaluate, evaluate, (h.alike Wraps.alike).eval]

theorem evaluate_rewrapped_everywhere :
    let block (argument operand child : Statement) : Statement :=
      .openTag "Block" [] [.closeTag "Print" [⟨"value", argument⟩],
        .conditional (.binary operand .equal (.number 1)) [child]]
    let x : Statement := .identifier "x"
    let child : Statement := .closeTag "Print" [⟨"text", .string "one"⟩]
    let s : Statement := block x x child
    let t : Statement := .wrapped (block (.wrapped (.wrapped x)) (.wrapped x) (.wrapped child))
    let global : Scope := ⟨[⟨"Print", .native .print⟩, ⟨"x", .number 1⟩], []⟩
    let interpreter : Interpreter := ⟨⟨.lexical, .none⟩, ⟨.ofGlobal global, .buffer ""⟩⟩
    DifferBy Wraps s t ∧ (interpreter.evaluate s).2.output = "1\none\n" ∧
      interpreter.evaluate s = interpreter.evaluate t := by
  intro block x child s t global interpreter
  have hargument (a o c : Statement) : Changes Wraps (block a o c) (block (.wrapped a) o c) :=
    @Changes.child _ _ _ [] _ _ _ (@Changes.closeParam _ _ [] _ _ _ _ (.here (.intro a))) rfl
  have hoperand (a c : Statement) : Changes Wraps (block a x c) (block a (.wrapped x) c) :=
    @Changes.child _ _ _ [_] _ _ _
      (@Changes.ifParam _ _ [] _ _ _ _ _ (@Changes.item _ [] _ _ _ (.here (.intro x)) rfl)) rfl
  have hchild (a o : Statement) : Changes Wraps (block a o child) (block a o (.wrapped child)) :=
    @Changes.child _ _ _ [_] _ _ _ (@Changes.ifChild _ _ _ [] _ _ _ (.here (.intro child))) rfl
  have h : DifferBy Wraps s t :=
    .trans _ _ _ (.rel _ _ (hargument x x child)) <|
    .trans _ _ _ (.rel _ _ (hargument (.wrapped x) x child)) <|
    .trans _ _ _ (.rel _ _ (hoperand _ child)) <|
    .trans _ _ _ (.rel _ _ (hchild _ _)) (.rel _ _ (.here (.intro _)))
  exact ⟨h, rfl, evaluate_rewrapped interpreter s t h⟩

-- A block passes over a tag in a wrapper, and an operator in a wrapper is an operand that fails.
example :
    let block (child : Statement) := standard.evaluate (.openTag "Block" [] [child])
    let sum (item : Statement) := standard.evaluate (.expression [.number 1, .number 2, item])
    (block (.closeTag "Nowhere" [])).1 = .error (.unresolvedCall "Nowhere") ∧
      (block (.wrapped (.closeTag "Nowhere" []))).1 = .ok .undefined ∧
      (sum (.operator .add)).1 = .ok (.number 3) ∧
      (sum (.wrapped (.operator .add))).1 =
        .error (.structural "operator `+` outside an expression") :=
  ⟨rfl, rfl, rfl, rfl⟩

/-- What is not read has no meaning: the names and parameters of blocks, the names of conditionals
and their parameters behind the first, and in blocks whatever is not a tag or comes behind the first
conditional. -/
theorem evaluate_differing_unread (interpreter : Interpreter) (s t : Statement)
    (h : DifferBy Unread s t) : interpreter.evaluate s = interpreter.evaluate t := by
  rw [evaluate, evaluate, (h.alike Unread.alike).eval]

theorem evaluate_differing_unread_block :
    let print (text : String) : Statement := .closeTag "Print" [⟨"text", .string text⟩]
    let condition : Entry Statement := ⟨"condition", .binary (.number 1) .equal (.number 1)⟩
    let inner : Statement := .ifTag "If" [condition] [print "kept"]
    let nowhere (key : String) : Entry Statement := ⟨key, .identifier "nowhere"⟩
    let s : Statement := .ifTag "If" [condition] [.openTag "Block" [] [inner, print "lost"]]
    let t : Statement := .ifTag "When" [condition, nowhere "else"]
      [.openTag "Section" [nowhere "title"] [.number 7, inner]]
    let interpreter := build ⟨.lexical, .none⟩ (.buffer "") []
    DifferBy Unread s t ∧ (interpreter.evaluate s).2.output = "kept\n" ∧
      interpreter.evaluate s = interpreter.evaluate t := by
  intro print condition inner nowhere s t interpreter
  let outer (block : Statement) : Statement := .ifTag "When" [condition, nowhere "else"] [block]
  let block (children : List Statement) : Statement :=
    .openTag "Section" [nowhere "title"] children
  have hinside (a b : Statement) (h : Unread a b) : Changes Unread (outer a) (outer b) :=
    @Changes.ifChild _ _ _ [] _ _ _ (.here h)
  have houter : Changes Unread s (outer (.openTag "Block" [] [inner, print "lost"])) :=
    .here (.ifTag rfl)
  have hrenamed :
      Unread (.openTag "Block" [] [inner, print "lost"]) (block [inner, print "lost"]) := .openTag
  have hlost : Unread (block [inner, print "lost"]) (block [inner]) :=
    @Unread.behindIf _ _ [] _ _ [] rfl
  have hnumber : Unread (block [.number 7, inner]) (block [inner]) :=
    @Unread.notTag _ _ [] _ _ (by decide)
  have h : DifferBy Unread s t :=
    .trans _ _ _ (.rel _ _ houter) <|
    .trans _ _ _ (.rel _ _ (hinside _ _ hrenamed)) <|
    .trans _ _ _ (.rel _ _ (hinside _ _ hlost)) (.symm _ _ (.rel _ _ (hinside _ _ hnumber)))
  exact ⟨h, rfl, evaluate_differing_unread interpreter s t h⟩

end Interpreter

end TagScript
