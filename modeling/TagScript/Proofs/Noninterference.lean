import Mathlib.Data.List.Forall2
import TagScript.Proofs.Lifetime

namespace TagScript

def Scope.Alike (scope other : Scope) : Prop := ∀ name, scope.get? name = other.get? name

theorem Scope.get?_extend (new : List (Entry Value)) (scope : Scope) (name : String) :
    (scope.extend new).get? name = (scope.get? name).or (Entry.get? name new) :=
  get?_of_bindings rfl name

theorem Scope.Alike.extend {scope other : Scope} (h : scope.Alike other)
    (new : List (Entry Value)) : (scope.extend new).Alike (other.extend new) := by
  intro name
  rw [get?_extend, get?_extend, h name]

def Block.Alike (block other : Block) : Prop :=
  block.linked = other.linked ∧ block.scope.Alike other.scope

namespace Environment

structure Alike (env env' : Environment) : Prop where
  global : env.global.Alike env'.global
  blocks : List.Forall₂ Block.Alike env.blocks env'.blocks

theorem lookup?_congr {global global' : Scope} (hglobal : global.Alike global')
    {blocks blocks' : List Block} (hblocks : List.Forall₂ Block.Alike blocks blocks')
    (name : String) : lookup? ⟨global, blocks⟩ name = lookup? ⟨global', blocks'⟩ name := by
  induction hblocks with
  | nil => rw [lookup?_ofGlobal, lookup?_ofGlobal, hglobal name]
  | cons hblock _ ih => rw [lookup?_cons, lookup?_cons, hblock.1, hblock.2 name, ih]

theorem Alike.extend {env env' : Environment} (h : env.Alike env') (new : List (Entry Value)) :
    (env.modifyCurrent (·.extend new)).Alike (env'.modifyCurrent (·.extend new)) := by
  rcases env with ⟨global, blocks⟩
  rcases env' with ⟨global', blocks'⟩
  obtain ⟨hglobal, hblocks⟩ := h
  cases hblocks with
  | nil => exact ⟨hglobal.extend new, .nil⟩
  | cons hblock hrest => exact ⟨hglobal, .cons ⟨hblock.1, hblock.2.extend new⟩ hrest⟩

theorem indistinct_alike (scoping : Scoping) : Indistinct scoping Alike where
  lookup? h name := lookup?_congr h.global h.blocks name
  callable h name := by
    rw [lookupCallable?, lookup?_congr h.global h.blocks name, h.global name]
    exact .refl _
  extend := Alike.extend
  enter h := ⟨h.global, .cons ⟨rfl, fun _ => rfl⟩ h.blocks⟩

def GlobalsAlike (env env' : Environment) : Prop :=
  ∀ name, Interchangeable (env.global.get? name) (env'.global.get? name)

/-- On both sides the current block is not linked to what lies around it, and the two blocks bind
alike. -/
inductive Sealed : Environment → Environment → Prop
  | intro {global global' scope scope' : Scope} {rest rest' : List Block}
    (hglobals : ∀ name, Interchangeable (global.get? name) (global'.get? name))
    (hscope : scope.Alike scope') :
    Sealed ⟨global, ⟨scope, false⟩ :: rest⟩ ⟨global', ⟨scope', false⟩ :: rest'⟩

theorem GlobalsAlike.enter {env env' : Environment} (h : env.GlobalsAlike env') :
    Sealed (env.enter .isolated) (env'.enter .isolated) :=
  .intro h fun _ => rfl

theorem indistinct_sealed : Indistinct .isolated Sealed where
  lookup? h name := by
    obtain ⟨-, hscope⟩ := h
    rw [lookup?_cons, lookup?_cons, hscope name]
    rfl
  callable h name := by
    obtain ⟨hglobals, hscope⟩ := h
    rw [lookupCallable?, lookupCallable?, lookup?_cons, lookup?_cons, hscope name]
    cases Scope.get? _ name with
    | some value => exact .refl _
    | none => exact hglobals name
  extend h new := by
    obtain ⟨hglobals, hscope⟩ := h
    exact .intro hglobals (hscope.extend new)
  enter h := by
    obtain ⟨hglobals, -⟩ := h
    exact GlobalsAlike.enter hglobals

end Environment

namespace Run

theorem UniformOver.exec_eq {α : Type} {K : Environment → Environment → Prop} {x : Run α}
    (hx : x.UniformOver K) {m n : Machine} (hmn : K m.env n.env) :
    (x.exec m).1 = (x.exec n).1 ∧ ∃ new text,
      (x.exec m).2 = ⟨m.env.modifyCurrent (·.extend new), m.printer.append text⟩ ∧
      (x.exec n).2 = ⟨n.env.modifyCurrent (·.extend new), n.printer.append text⟩ := by
  obtain ⟨result, new, lines, hm, hn⟩ := hx m n hmn
  obtain ⟨text, htext⟩ := Printer.exists_printAll_eq_append lines
  rw [hm, hn]
  refine ⟨rfl, new, text, ?_, ?_⟩
  · rw [Machine.extend, htext]
  · rw [Machine.extend, htext]

end Run

namespace Interpreter

/-- Evaluation reads neither operands left behind by others nor earlier output. -/
theorem evaluate_ignores_operands_and_output (host : Host) (m n : Machine) (s : Statement)
    (h : m.env.Alike n.env) :
    let left := (Interpreter.mk host m).evaluate s
    let right := (Interpreter.mk host n).evaluate s
    left.1 = right.1 ∧ left.2.machine.env.Alike right.2.machine.env ∧
      ∃ text, left.2.machine.printer = m.printer.append text ∧
        right.2.machine.printer = n.printer.append text := by
  have hindistinct := Environment.indistinct_alike host.scoping
  have hs := (Run.UniformOver.stepCongruence hindistinct).congruence.eval s
  obtain ⟨hresult, new, text, hm, hn⟩ := hs.exec_eq h
  refine ⟨hresult, ?_, text, congrArg Machine.printer hm, congrArg Machine.printer hn⟩
  simp only [evaluate, exec, hm, hn]
  exact h.extend new

theorem evaluate_ignores_operands_and_output_underflow :
    let print : Entry Value := ⟨"Print", .native .print⟩
    let x : Entry Value := ⟨"x", .number 1⟩
    let m : Machine := ⟨⟨⟨[print, x], [.number 7, .number 8]⟩, []⟩, .buffer "earlier\n"⟩
    let n : Machine := ⟨⟨⟨[x, print], []⟩, []⟩, .buffer ""⟩
    let s : Statement := .conditional (.binary (.number 1) .equal (.identifier "x"))
      [.closeTag "Print" [⟨"value", .identifier "x"⟩], .expression [.number 3, .operator .add]]
    let left := (Interpreter.mk ⟨.lexical, .none⟩ m).evaluate s
    let right := (Interpreter.mk ⟨.lexical, .none⟩ n).evaluate s
    m.env.Alike n.env ∧ right.1 = .error .stackUnderflow ∧ left.1 = right.1 ∧
      ∃ text, left.2.machine.printer = m.printer.append text ∧
        right.2.machine.printer = n.printer.append text := by
  intro print x m n s left right
  have halike : m.env.Alike n.env := by
    refine ⟨?_, .nil⟩
    intro name
    by_cases h : "Print" = name
    · subst h
      rfl
    · simp [m, n, print, x, Scope.get?, Entry.get?, h]
  obtain ⟨hresult, -, houtput⟩ :=
    evaluate_ignores_operands_and_output ⟨.lexical, .none⟩ m n s halike
  exact ⟨halike, rfl, hresult, houtput⟩

/-- Whatever lies around an isolated block, its result and its output depend on the global functions
and on the types of the other global values only. -/
theorem evaluate_isolated_block (library : Library) (m n : Machine)
    (h : m.env.GlobalsAlike n.env) (name : String) (params : List (Entry Statement))
    (children : List Statement) :
    let left := (Interpreter.mk ⟨.isolated, library⟩ m).evaluate (.openTag name params children)
    let right := (Interpreter.mk ⟨.isolated, library⟩ n).evaluate (.openTag name params children)
    left.1 = right.1 ∧ ∃ text, left.2.machine.printer = m.printer.append text ∧
      right.2.machine.printer = n.printer.append text := by
  let host : Host := ⟨.isolated, library⟩
  have hcongruence : Congruence host host fun x _ => x.UniformOver Environment.Sealed :=
    (Run.UniformOver.stepCongruence Environment.indistinct_sealed).congruence
  have hblock : (Statement.eval host (.openTag name params children)).UniformOver
      Environment.GlobalsAlike :=
    .inBlock Environment.GlobalsAlike.enter (hcongruence.evalBlock children)
  obtain ⟨hresult, new, text, hm, hn⟩ := hblock.exec_eq h
  exact ⟨hresult, text, congrArg Machine.printer hm, congrArg Machine.printer hn⟩

theorem evaluate_isolated_block_around_secret :
    let print : Entry Value := ⟨"Print", .native .print⟩
    let m : Machine := ⟨⟨⟨[print, ⟨"x", .number 1⟩], []⟩, []⟩, .buffer ""⟩
    let n : Machine := ⟨⟨⟨[print, ⟨"x", .number 2⟩], [.undefined]⟩,
      [⟨⟨[⟨"y", .string "secret"⟩], [.number 3]⟩, true⟩]⟩, .buffer "earlier\n"⟩
    let block : Statement := .openTag "Block" []
      [.closeTag "Print" [⟨"text", .string "inside"⟩],
        .closeTag "Let" [⟨"id", .identifier "y"⟩, ⟨"value", .number 4⟩],
        .closeTag "x" []]
    let left := (Interpreter.mk ⟨.isolated, .none⟩ m).evaluate block
    let right := (Interpreter.mk ⟨.isolated, .none⟩ n).evaluate block
    m.env.GlobalsAlike n.env ∧ right.1 = .error (.notCallable "x" .number) ∧
      left.1 = right.1 ∧ ∃ text, left.2.machine.printer = m.printer.append text ∧
        right.2.machine.printer = n.printer.append text := by
  intro print m n block left right
  have hglobals : m.env.GlobalsAlike n.env := by
    intro name
    by_cases hprint : "Print" = name
    · subst hprint
      exact .native .print
    · by_cases hx : "x" = name
      · subst hx
        exact .other nofun rfl
      · simpa [m, n, print, Scope.get?, Entry.get?, hprint, hx] using Interchangeable.unbound
  obtain ⟨hresult, houtput⟩ := evaluate_isolated_block .none m n hglobals "Block" [] _
  exact ⟨hglobals, rfl, hresult, houtput⟩

end Interpreter

end TagScript
