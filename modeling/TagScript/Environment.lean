import TagScript.Fault

/-!
The scopes that are open at one time: the global scope and a block for each opening tag around the
current place. A block that is linked lets names be looked up further out; a block that is not
linked hides everything around it, except from calls, which always find the global scope.
-/

namespace TagScript

structure Scope where
  bindings : List (Entry Value)
  /-- The top of the stack is the head of the list. -/
  operands : List Value

namespace Scope

def empty : Scope := ⟨[], []⟩

def get? (scope : Scope) (name : String) : Option Value := Entry.get? name scope.bindings

def binds (scope : Scope) (name : String) : Bool := (scope.get? name).isSome

def define (scope : Scope) (name : String) (value : Value) : Scope :=
  { scope with bindings := Entry.add name value scope.bindings }

def size (scope : Scope) : Nat := scope.bindings.length

def isEmpty (scope : Scope) : Bool := scope.bindings.isEmpty

def ofList (entries : List (Entry Value)) : Scope :=
  entries.foldl (fun scope e => scope.define e.key e.value) empty

def depth (scope : Scope) : Nat := scope.operands.length

def push (scope : Scope) (value : Value) : Scope :=
  { scope with operands := value :: scope.operands }

def pop (scope : Scope) : Except Fault Value × Scope :=
  match scope.operands with
  | [] => (.error .stackUnderflow, scope)
  | value :: rest => (.ok value, { scope with operands := rest })

def truncate (scope : Scope) (depth : Nat) : Scope :=
  { scope with operands := scope.operands.drop (scope.depth - depth) }

end Scope

inductive Scoping
  | lexical
  | isolated
  deriving DecidableEq

structure Block where
  scope : Scope
  linked : Bool

structure Environment where
  global : Scope
  /-- The innermost block comes first. -/
  blocks : List Block

namespace Environment

def ofGlobal (global : Scope) : Environment := ⟨global, []⟩

def depth (env : Environment) : Nat := env.blocks.length + 1

def current (env : Environment) : Scope :=
  match env.blocks with
  | [] => env.global
  | block :: _ => block.scope

def modifyCurrent (f : Scope → Scope) (env : Environment) : Environment :=
  match env.blocks with
  | [] => { env with global := f env.global }
  | block :: rest => { env with blocks := { block with scope := f block.scope } :: rest }

def enter (scoping : Scoping) (env : Environment) : Environment :=
  { env with blocks := ⟨Scope.empty, scoping = .lexical⟩ :: env.blocks }

def leave (env : Environment) : Environment :=
  { env with blocks := env.blocks.tail }

@[simp] theorem depth_modifyCurrent (f : Scope → Scope) (env : Environment) :
    (env.modifyCurrent f).depth = env.depth := by
  unfold modifyCurrent
  split <;> simp_all [depth]

@[simp] theorem current_modifyCurrent (f : Scope → Scope) (env : Environment) :
    (env.modifyCurrent f).current = f env.current := by
  unfold modifyCurrent
  split <;> simp_all [current]

def seenThrough (global : Scope) : List Block → List Scope
  | [] => [global]
  | block :: rest => block.scope :: if block.linked then seenThrough global rest else []

def visible (env : Environment) : List Scope := seenThrough env.global env.blocks

def lookup? (env : Environment) (name : String) : Option Value :=
  env.visible.findSome? (·.get? name)

/-- Calls reach the global scope even where variables do not. -/
def lookupCallable? (env : Environment) (name : String) : Option Value :=
  (env.lookup? name).or (env.global.get? name)

def define (env : Environment) (name : String) (value : Value) : Environment :=
  env.modifyCurrent (·.define name value)

def define? (env : Environment) (name : String) (value : Value) : Option Environment :=
  if env.current.binds name then none else some (env.define name value)

/-- Binds a name in the current scope, unless some visible scope binds it already. -/
def declare? (env : Environment) (name : String) (value : Value) : Option Environment :=
  if (env.lookup? name).isSome then none else some (env.define name value)

def push (env : Environment) (value : Value) : Environment :=
  env.modifyCurrent (·.push value)

def pop (env : Environment) : Except Fault Value × Environment :=
  let (result, scope) := env.current.pop
  (result, env.modifyCurrent fun _ => scope)

def truncate (env : Environment) (depth : Nat) : Environment :=
  env.modifyCurrent (·.truncate depth)

def operandDepth (env : Environment) : Nat := env.current.depth

end Environment

end TagScript
