import TagScript.Proofs.Reachable
import TagScript.Proofs.Respect

namespace TagScript

inductive Native.Builtin : Native → Prop
  | print : Builtin .print
  | condition : Builtin .condition

theorem Arguments.sound_conditionValue (node : Statement → Prop) (args : Arguments) :
    Sound node Value.Plain args.conditionValue := by
  unfold conditionValue
  cases args.get? "condition" with
  | none => exact .inr ⟨rfl, rfl⟩
  | some value => exact (value.sound_condition node).map fun b _ => .boolean b

theorem Native.Builtin.sound_call {f : Native} (h : f.Builtin) (node : Statement → Prop)
    (library : Library) (args : Arguments) :
    Sound node Value.Plain (f.call library args).result := by
  cases h with
  | print => exact .undefined
  | condition => exact args.sound_conditionValue node

theorem Native.Builtin.plain_of_call {f : Native} (h : f.Builtin) {library : Library}
    {args : Arguments} {v : Value} (hv : (f.call library args).result = .ok v) : v.Plain := by
  have hsound := h.sound_call (fun _ => True) library args
  rwa [hv] at hsound

inductive Value.Basic : Value → Prop
  | plain {v : Value} (h : v.Plain) : Basic v
  | native {f : Native} (h : f.Builtin) : Basic (.native f)

theorem Value.Basic.resolved_eq {v : Value} (h : v.Basic) : v.resolved = v := by
  cases h with
  | plain h => cases h <;> rfl
  | native => rfl

def Discipline.builtin (node : Statement → Prop) : Discipline where
  node := node
  native := Native.Builtin
  value := Value.Basic
  stored := Value.Basic
  argument v := v.resolved.Basic
  value_of_plain := .plain
  value_of_stored h := h
  argument_of_value h := h.resolved_eq.symm ▸ h
  argument_of_stored h := h.resolved_eq.symm ▸ h
  stored_resolved h := h

namespace Run

variable {α : Type} {node : Statement → Prop}

def Safe (node : Statement → Prop) (P : α → Prop) (x : Run α) : Prop :=
  ∀ m : Machine, m.env.Holds Value.Basic →
    (x.exec m).2.env.Holds Value.Basic ∧ Sound node P (x.exec m).1

theorem Safe.rules (host : Host) (node : Statement → Prop) :
    Rules (.builtin node) host host fun P x _ => x.Safe node P := by
  apply Respects.rules
  · exact fun _ h => h
  · rintro f (h | h)
    · cases h
    · exact h
  · exact fun f args hf _ => (hf.sound_call node host.library args).mono fun _ => .plain

end Run

namespace Interpreter

theorem basic_build (host : Host) (printer : Printer) :
    (build host printer []).machine.env.Holds Value.Basic := by
  have h : (build host printer []).machine.env.scopes =
      [⟨[⟨"Print", .native .print⟩, ⟨"If", .native .condition⟩], []⟩] := rfl
  intro scope hscope e he
  rw [h] at hscope
  cases List.mem_singleton.1 hscope
  simp only [List.mem_cons, List.not_mem_nil, or_false] at he
  rcases he with rfl | rfl
  · exact .native .print
  · exact .native .condition

theorem invariant_basic : Invariant fun i => i.machine.env.Holds Value.Basic where
  evaluate {i} s h := ((Run.Safe.rules i.host fun _ => True).eval s (fun _ _ => trivial) _ h).1
  run {i} program h :=
    ((Run.Safe.rules i.host fun _ => True).evalAll program.statements (fun _ _ => trivial) _ h).1
  opened {i} h := h.enter i.host.scoping
  closed h := h.leave

/-- With the built-in functions only, variables hold basic values in every reachable state, and
every statement evaluates to a basic value or to a fault that tells the truth about the statement. -/
theorem reachable_sound (host : Host) (printer : Printer) (interpreter : Interpreter)
    (h : Reachable (build host printer []) interpreter) :
    (∀ scope ∈ interpreter.machine.env.scopes, ∀ e ∈ scope.bindings, e.value.Basic) ∧
      ∀ s : Statement, (∀ v, (interpreter.evaluate s).1 = .ok v → v.Basic) ∧
        ∀ fault, (interpreter.evaluate s).1 = .error fault → fault.Truthful (· ∈ s.nodes) := by
  have hbasic : interpreter.machine.env.Holds Value.Basic :=
    h.keeps invariant_basic (basic_build host printer)
  refine ⟨hbasic, ?_⟩
  intro s
  have hsound : Sound (· ∈ s.nodes) Value.Basic (interpreter.evaluate s).1 :=
    ((Run.Safe.rules interpreter.host (· ∈ s.nodes)).eval s (fun _ ht => ht) _ hbasic).2
  constructor
  · intro v hv
    rwa [hv] at hsound
  · intro fault hfault
    rwa [hfault] at hsound

theorem reachable_sound_in_session :
    let start := build ⟨.lexical, .none⟩ (.buffer "") []
    let rename : Statement :=
      .closeTag "Let" [⟨"id", .identifier "say"⟩, ⟨"value", .identifier "Print"⟩]
    let inside := (start.evaluate rename).2.opened
    let s : Statement := .openTag "Block" []
      [.closeTag "say" [⟨"text", .string "hello"⟩], .closeTag "say" [⟨"text", .identifier "name"⟩]]
    Reachable start inside ∧
      (∀ scope ∈ inside.machine.env.scopes, ∀ e ∈ scope.bindings, e.value.Basic) ∧
      (inside.evaluate s).1 = .error (.undefinedIdentifier "name") ∧
      .identifier "name" ∈ s.nodes := by
  intro start rename inside s
  have hreachable : Reachable start inside :=
    .inside (.outside (.evaluate rename (.refl start))) (.refl _)
  obtain ⟨hbasic, hevaluate⟩ := reachable_sound ⟨.lexical, .none⟩ (.buffer "") inside hreachable
  have hfault : (inside.evaluate s).1 = .error (.undefinedIdentifier "name") := by rfl
  exact ⟨hreachable, hbasic, hfault, (hevaluate s).2 _ hfault⟩

end Interpreter

end TagScript
