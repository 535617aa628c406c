import TagScript.Proofs.Congruence

/-!
The effect of a computation: new bindings in the current scope and printed lines. A computation is
uniform over a relation between environments if all it does to any machine is such an effect, and if
effect and result are the same in related environments. It is uniform, with no relation named, if
neither of them depends on the operands that lie on the stacks.
-/

namespace TagScript

namespace Scope

def bare (scope : Scope) : Scope := { scope with operands := [] }

def extend (new : List (Entry Value)) (scope : Scope) : Scope :=
  { scope with bindings := scope.bindings ++ new }

@[simp] theorem bare_extend (new : List (Entry Value)) (scope : Scope) :
    (scope.extend new).bare = scope.bare.extend new := rfl

@[simp] theorem extend_nil (scope : Scope) : scope.extend [] = scope := by
  simp [extend]

@[simp] theorem extend_extend (new more : List (Entry Value)) (scope : Scope) :
    (scope.extend new).extend more = scope.extend (new ++ more) := by
  simp [extend]

theorem get?_of_bindings {scope scope' : Scope} {new : List (Entry Value)}
    (h : scope'.bindings = scope.bindings ++ new) (name : String) :
    scope'.get? name = (scope.get? name).or (Entry.get? name new) := by
  rw [get?, h, Entry.get?_append]
  rfl

theorem get?_of_notMem_keys {scope scope' : Scope} {new : List (Entry Value)} {name : String}
    (h : scope'.bindings = scope.bindings ++ new) (hname : name ∉ Entry.keys new) :
    scope'.get? name = scope.get? name := by
  rw [get?_of_bindings h, (Entry.get?_eq_none_iff name new).2 hname, Option.or_none]

theorem define_eq_extend {scope : Scope} {name : String} (h : scope.get? name = none)
    (value : Value) : scope.define name value = scope.extend [⟨name, value⟩] := by
  have h' : Entry.get? name scope.bindings = none := h
  simp [define, Entry.add, h', extend]

end Scope

namespace Environment

@[simp] theorem modifyCurrent_modifyCurrent (f g : Scope → Scope) (env : Environment) :
    (env.modifyCurrent g).modifyCurrent f = env.modifyCurrent fun scope => f (g scope) := by
  rcases env with ⟨global, _ | ⟨block, rest⟩⟩ <;> rfl

theorem modifyCurrent_congr {f g : Scope → Scope} {env : Environment}
    (h : f env.current = g env.current) : env.modifyCurrent f = env.modifyCurrent g := by
  rcases env with ⟨global, _ | ⟨block, rest⟩⟩
  · exact congrArg (Environment.mk · []) h
  · exact congrArg (fun scope => Environment.mk global (⟨scope, block.linked⟩ :: rest)) h

@[simp] theorem modifyCurrent_id (env : Environment) :
    env.modifyCurrent (fun scope => scope) = env := by
  rcases env with ⟨global, _ | ⟨block, rest⟩⟩ <;> rfl

def bare (env : Environment) : Environment :=
  ⟨env.global.bare, env.blocks.map fun block => { block with scope := block.scope.bare }⟩

@[simp] theorem bare_enter (scoping : Scoping) (env : Environment) :
    (env.enter scoping).bare = env.bare.enter scoping := rfl

theorem bare_modifyCurrent {f g : Scope → Scope} (h : ∀ scope, (f scope).bare = g scope.bare)
    (env : Environment) : (env.modifyCurrent f).bare = env.bare.modifyCurrent g := by
  rcases env with ⟨global, _ | ⟨block, rest⟩⟩ <;> simp [modifyCurrent, bare, h]

theorem seenThrough_bare (global : Scope) (blocks : List Block) :
    seenThrough global.bare (blocks.map fun block => { block with scope := block.scope.bare }) =
      (seenThrough global blocks).map Scope.bare := by
  induction blocks with
  | nil => rfl
  | cons block rest ih => cases h : block.linked <;> simp [seenThrough, h, ih]

@[simp] theorem lookup?_bare (env : Environment) (name : String) :
    env.bare.lookup? name = env.lookup? name := by
  rw [lookup?, visible, bare, seenThrough_bare, List.findSome?_map]
  rfl

@[simp] theorem lookupCallable?_bare (env : Environment) (name : String) :
    env.bare.lookupCallable? name = env.lookupCallable? name := by
  rw [lookupCallable?, lookup?_bare]
  rfl

theorem current_get?_of_lookup? {env : Environment} {name : String}
    (h : env.lookup? name = none) : env.current.get? name = none := by
  rcases env with ⟨global, _ | ⟨block, rest⟩⟩
  · simpa [lookup?, visible, seenThrough, current] using h
  · simp only [lookup?, visible, seenThrough, List.findSome?_cons] at h
    split at h
    · cases h
    · assumption

theorem declare?_eq (env : Environment) (name : String) (value : Value) :
    env.declare? name value =
      if (env.lookup? name).isSome then none
      else some (env.modifyCurrent (·.extend [⟨name, value⟩])) := by
  rw [declare?]
  split
  · rfl
  · next h =>
    have hcur := current_get?_of_lookup? (Option.not_isSome_iff_eq_none.1 h)
    exact congrArg some (modifyCurrent_congr (Scope.define_eq_extend hcur value))

theorem of_declare?_eq_some {env env' : Environment} {name : String} {value : Value}
    (h : env.declare? name value = some env') :
    env.lookup? name = none ∧ env' = env.modifyCurrent (·.extend [⟨name, value⟩]) := by
  rw [declare?_eq] at h
  split at h
  · cases h
  · next hlookup => exact ⟨Option.not_isSome_iff_eq_none.1 hlookup, (Option.some.inj h).symm⟩

end Environment

inductive Interchangeable : Option Value → Option Value → Prop
  | unbound : Interchangeable none none
  | native (f : Native) : Interchangeable (some (.native f)) (some (.native f))
  | other {v w : Value} (h : v.type ≠ .native) (htype : v.type = w.type) :
    Interchangeable (some v) (some w)

theorem Interchangeable.refl (value : Option Value) : Interchangeable value value := by
  match value with
  | none => exact .unbound
  | some (.native f) => exact .native f
  | some .undefined | some (.string _) | some (.number _) | some (.boolean _)
  | some (.identifier _) | some (.function ..) | some (.array _) | some (.object _) =>
    exact .other nofun rfl

/-- A relation between environments that evaluation cannot see through: names lead to the same on
both sides, and they still do when both sides are extended alike or enter a block. -/
structure Indistinct (scoping : Scoping) (K : Environment → Environment → Prop) : Prop where
  lookup? : ∀ {env env'}, K env env' → ∀ name, env.lookup? name = env'.lookup? name
  callable : ∀ {env env'}, K env env' → ∀ name,
    Interchangeable (env.lookupCallable? name) (env'.lookupCallable? name)
  extend : ∀ {env env'}, K env env' → ∀ new,
    K (env.modifyCurrent (·.extend new)) (env'.modifyCurrent (·.extend new))
  enter : ∀ {env env'}, K env env' → K (env.enter scoping) (env'.enter scoping)

theorem Environment.indistinct_bare (scoping : Scoping) :
    Indistinct scoping fun env env' => env.bare = env'.bare where
  lookup? h name := by rw [← lookup?_bare, h, lookup?_bare]
  callable h name := by
    rw [← lookupCallable?_bare, h, lookupCallable?_bare]
    exact .refl _
  extend h new := by
    rw [bare_modifyCurrent (Scope.bare_extend new), h, bare_modifyCurrent (Scope.bare_extend new)]
  enter h := by rw [bare_enter, bare_enter, h]

namespace Machine

def extend (new : List (Entry Value)) (lines : List String) (m : Machine) : Machine :=
  ⟨m.env.modifyCurrent (·.extend new), m.printer.printAll lines⟩

@[simp] theorem extend_nil (m : Machine) : m.extend [] [] = m := by
  simp [extend]

@[simp] theorem extend_extend (new more : List (Entry Value)) (lines further : List String)
    (m : Machine) : (m.extend new lines).extend more further =
      m.extend (new ++ more) (lines ++ further) := by
  simp [extend, Printer.printAll_append]

end Machine

namespace Run

variable {α β : Type}

def UniformOver (K : Environment → Environment → Prop) (x : Run α) : Prop :=
  ∀ m n : Machine, K m.env n.env → ∃ result new lines,
    x.exec m = (result, m.extend new lines) ∧ x.exec n = (result, n.extend new lines)

/-- The computation does the same on machines that differ in their operands, and all it does is to
extend the machine. -/
def Uniform (x : Run α) : Prop :=
  ∀ m n : Machine, m.env.bare = n.env.bare → ∃ result new lines,
    x.exec m = (result, m.extend new lines) ∧ x.exec n = (result, n.extend new lines)

namespace UniformOver

variable {K : Environment → Environment → Prop}

theorem of_result {x : Run α} (h : ∀ m n : Machine, K m.env n.env → ∃ result,
    x.exec m = (result, m) ∧ x.exec n = (result, n)) : x.UniformOver K := by
  intro m n hmn
  obtain ⟨result, hm, hn⟩ := h m n hmn
  exact ⟨result, [], [], by simpa using hm, by simpa using hn⟩

theorem pure (a : α) : (pure a : Run α).UniformOver K :=
  of_result fun _ _ _ => ⟨.ok a, rfl, rfl⟩

theorem throw (fault : Fault) : (throw fault : Run α).UniformOver K :=
  of_result fun _ _ _ => ⟨.error fault, rfl, rfl⟩

theorem call (library : Library) (f : Native) (args : Arguments) :
    (call library f args).UniformOver K := by
  intro m n _
  refine ⟨(f.call library args).result, [], (f.call library args).lines, ?_, ?_⟩
  · simp [Machine.extend]
  · simp [Machine.extend]

theorem inBlock {L : Environment → Environment → Prop} {scoping : Scoping}
    (henter : ∀ {env env'}, L env env' → K (env.enter scoping) (env'.enter scoping))
    {x : Run α} (hx : x.UniformOver K) : (inBlock scoping x).UniformOver L := by
  intro m n hmn
  obtain ⟨result, new, lines, hm, hn⟩ :=
    hx { m with env := m.env.enter scoping } { n with env := n.env.enter scoping } (henter hmn)
  refine ⟨result, [], lines, ?_, ?_⟩
  · rw [exec_inBlock, hm]
    simp only [Machine.extend, Scope.extend_nil, Environment.modifyCurrent_id]
    rfl
  · rw [exec_inBlock, hn]
    simp only [Machine.extend, Scope.extend_nil, Environment.modifyCurrent_id]
    rfl

section Indistinct

variable {scoping : Scoping} (h : Indistinct scoping K)

include h

theorem bind {x : Run α} {f : α → Run β} (hx : x.UniformOver K)
    (hf : ∀ a, (f a).UniformOver K) : (x >>= f).UniformOver K := by
  intro m n hmn
  obtain ⟨result, new, lines, hm, hn⟩ := hx m n hmn
  cases result with
  | error fault =>
    exact ⟨.error fault, new, lines, exec_bind_of_error f hm, exec_bind_of_error f hn⟩
  | ok a =>
    obtain ⟨result, more, further, hm', hn'⟩ :=
      hf a (m.extend new lines) (n.extend new lines) (h.extend hmn new)
    refine ⟨result, new ++ more, lines ++ further, ?_, ?_⟩
    · rw [exec_bind_of_ok f hm, hm', Machine.extend_extend]
    · rw [exec_bind_of_ok f hn, hn', Machine.extend_extend]

theorem readVariable (name : String) : (readVariable name).UniformOver K := by
  apply of_result
  intro m n hmn
  rw [exec_readVariable, exec_readVariable, h.lookup? hmn]
  cases n.env.lookup? name with
  | none => exact ⟨_, rfl, rfl⟩
  | some value => exact ⟨_, rfl, rfl⟩

theorem callee (name : String) : (callee name).UniformOver K := by
  apply of_result
  intro m n hmn
  have hcallable := h.callable hmn name
  generalize hm : m.env.lookupCallable? name = v, hn : n.env.lookupCallable? name = w at hcallable
  cases hcallable with
  | unbound =>
    rw [exec_callee, exec_callee, hm, hn]
    exact ⟨_, rfl, rfl⟩
  | native f =>
    rw [exec_callee, exec_callee, hm, hn]
    exact ⟨_, rfl, rfl⟩
  | other hv htype =>
    rw [exec_callee_of_ne_native hm hv, exec_callee_of_ne_native hn (htype ▸ hv), htype]
    exact ⟨_, rfl, rfl⟩

theorem declare (name : String) (value : Value) : (declare name value).UniformOver K := by
  intro m n hmn
  rw [exec_declare, exec_declare, Environment.declare?_eq, Environment.declare?_eq, h.lookup? hmn]
  cases n.env.lookup? name with
  | none => exact ⟨.ok (), [⟨name, value⟩], [], rfl, rfl⟩
  | some _ => exact ⟨.error (.duplicateVariable name), [], [], by simp, by simp⟩

end Indistinct

theorem stepCongruence {host : Host} (h : Indistinct host.scoping K) :
    StepCongruence host host fun x _ => x.UniformOver K where
  pure := pure
  throw := throw
  bind := bind h
  readVariable := readVariable h
  callee := callee h
  call := call host.library
  declare := declare h
  inBlock := inBlock h.enter

end UniformOver

namespace Uniform

theorem pure (a : α) : (pure a : Run α).Uniform :=
  UniformOver.pure (K := (·.bare = ·.bare)) a

theorem throw (fault : Fault) : (throw fault : Run α).Uniform :=
  UniformOver.throw (K := (·.bare = ·.bare)) fault

theorem bind {x : Run α} {f : α → Run β} (hx : x.Uniform) (hf : ∀ a, (f a).Uniform) :
    (x >>= f).Uniform :=
  UniformOver.bind (Environment.indistinct_bare .lexical) hx hf

theorem readVariable (name : String) : (readVariable name).Uniform :=
  UniformOver.readVariable (Environment.indistinct_bare .lexical) name

theorem callee (name : String) : (callee name).Uniform :=
  UniformOver.callee (Environment.indistinct_bare .lexical) name

theorem call (library : Library) (f : Native) (args : Arguments) :
    (call library f args).Uniform :=
  UniformOver.call (K := (·.bare = ·.bare)) library f args

theorem declare (name : String) (value : Value) : (declare name value).Uniform :=
  UniformOver.declare (Environment.indistinct_bare .lexical) name value

theorem inBlock (scoping : Scoping) {x : Run α} (hx : x.Uniform) :
    (inBlock scoping x).Uniform :=
  UniformOver.inBlock (K := (·.bare = ·.bare)) (L := (·.bare = ·.bare))
    (Environment.indistinct_bare scoping).enter hx

theorem stepCongruence (host : Host) : StepCongruence host host fun x _ => x.Uniform :=
  UniformOver.stepCongruence (Environment.indistinct_bare host.scoping)

end Uniform

end Run

end TagScript
