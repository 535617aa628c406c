import TagScript.Proofs.Arguments
import TagScript.Proofs.Effect

/-!
Registries whose tables have no order. Between any two steps the functions of a table may come to
stand in another order, and so they may when a registry is merged into another one or installed in a
scope. Names lead to the functions registered last all the same, and a scope only gains the names
that it did not bind.
-/

universe u

namespace TagScript

namespace Entry

variable {α : Type u} {entries others : List (Entry α)}

theorem nodup_keys_of_perm (h : (keys entries).Nodup) (hperm : entries.Perm others) :
    (keys others).Nodup :=
  (hperm.map Entry.key).nodup_iff.1 h

theorem get?_of_perm (h : (keys entries).Nodup) (hperm : entries.Perm others) (key : String) :
    get? key others = get? key entries := by
  ext value
  rw [get?_eq_some_iff h, get?_eq_some_iff (nodup_keys_of_perm h hperm), hperm.mem_iff]

end Entry

theorem Native.last?_append (name : String) (fs more : List Native) :
    last? name (fs ++ more) = (last? name more).or (last? name fs) := by
  rw [last?, List.reverse_append, List.find?_append]
  rfl

namespace Registry

inductive Step
  | register (f : Native)
  | merge (steps : List Step)

namespace Step

mutual

def functions : Step → List Native
  | register f => [f]
  | merge steps => allFunctions steps

def allFunctions : List Step → List Native
  | [] => []
  | step :: rest => step.functions ++ allFunctions rest

end

theorem allFunctions_map_register (fs : List Native) : allFunctions (fs.map register) = fs := by
  induction fs with
  | nil => rfl
  | cons f rest ih => simp [allFunctions, functions, ih]

end Step

/-- What a registry may become in steps. Its functions may change places at any time. -/
inductive Becomes : Registry → List Step → Registry → Prop
  | done {registry} : Becomes registry [] registry
  | register {registry f steps result} (h : Becomes (registry.register f) steps result) :
    Becomes registry (.register f :: steps) result
  | merge {registry others other steps result} (hother : Becomes .empty others other)
    (h : Becomes (registry.merge other) steps result) :
    Becomes registry (.merge others :: steps) result
  | reorder {registry shuffled steps result} (hperm : registry.functions.Perm shuffled.functions)
    (h : Becomes shuffled steps result) : Becomes registry steps result

section Becomes

variable {registry result : Registry} {steps : List Step}

theorem nodup_merge (other : Registry) (h : (Entry.keys registry.functions).Nodup) :
    (Entry.keys (registry.merge other).functions).Nodup :=
  Entry.nodup_keys_foldl_set other.functions h

theorem Becomes.nodup (h : Becomes registry steps result)
    (hnodup : (Entry.keys registry.functions).Nodup) : (Entry.keys result.functions).Nodup := by
  induction h with
  | done => exact hnodup
  | @register _ f _ _ _ ih => exact ih (Entry.nodup_keys_set hnodup f.name f)
  | @merge _ _ other _ _ _ _ _ ih => exact ih (nodup_merge other hnodup)
  | reorder hperm _ ih => exact ih (Entry.nodup_keys_of_perm hnodup hperm)

theorem Becomes.get?_eq (h : Becomes registry steps result)
    (hnodup : (Entry.keys registry.functions).Nodup) (name : String) :
    result.get? name = (Native.last? name (Step.allFunctions steps)).or (registry.get? name) := by
  induction h with
  | done => rfl
  | @register registry f _ _ _ ih =>
    have hregister : (registry.register f).get? name =
        (Native.last? name [f]).or (registry.get? name) :=
      get?_foldl_register name [f] registry
    rw [ih (Entry.nodup_keys_set hnodup f.name f), hregister, Step.allFunctions, Step.functions,
      Native.last?_append, Option.or_assoc]
  | @merge registry _ other _ _ hother _ ihother ih =>
    have hempty : Registry.empty.get? name = none := rfl
    rw [ih (nodup_merge other hnodup), get?_merge name registry (hother.nodup .nil), ihother .nil,
      hempty, Option.or_none, Step.allFunctions, Step.functions, Native.last?_append,
      Option.or_assoc]
  | @reorder registry shuffled _ _ hperm _ ih =>
    have hshuffled : shuffled.get? name = registry.get? name :=
      Entry.get?_of_perm hnodup hperm name
    rw [ih (Entry.nodup_keys_of_perm hnodup hperm), hshuffled]

end Becomes

def Adds (registered? : String → Option Native) (scope : Scope) (added : List (Entry Value)) :
    Prop :=
  (Entry.keys added).Nodup ∧ ∀ name,
    Entry.get? name added = if scope.binds name then none else (registered? name).map .native

theorem install_adds (registry : Registry) (scope : Scope) :
    ∃ added, registry.install scope = scope.extend added ∧ Adds registry.get? scope added := by
  rcases registry with ⟨functions⟩
  induction functions generalizing scope with
  | nil => exact ⟨[], scope.extend_nil.symm, .nil, fun name => by simp [get?]⟩
  | cons e rest ih =>
    obtain ⟨added, hrest, hnodup, hadded⟩ := ih (scope.define e.key (.native e.value))
    have hinstall : install ⟨e :: rest⟩ scope =
        (scope.define e.key (.native e.value)).extend added := hrest
    have hget (name : String) : get? ⟨e :: rest⟩ name =
        if e.key = name then some e.value else get? ⟨rest⟩ name := rfl
    have hbinds (name : String) : (scope.define e.key (.native e.value)).binds name =
        (scope.binds name || e.key = name) := by
      by_cases h : e.key = name <;> simp [Scope.binds, Scope.get?_define, h]
    simp only [hbinds] at hadded
    cases hkey : scope.get? e.key with
    | some old =>
      have hdefine : scope.define e.key (.native e.value) = scope := by
        have hold : Entry.get? e.key scope.bindings = some old := hkey
        simp [Scope.define, Entry.add, hold]
      refine ⟨added, by rw [hinstall, hdefine], hnodup, fun name => ?_⟩
      rw [hadded, hget]
      by_cases h : e.key = name
      · simp [Scope.binds, ← h, hkey]
      · simp [h]
    | none =>
      refine ⟨⟨e.key, .native e.value⟩ :: added, ?_, ?_, fun name => ?_⟩
      · rw [hinstall, Scope.define_eq_extend hkey, Scope.extend_extend, List.singleton_append]
      · -- The functions behind this one find the name bound.
        refine List.nodup_cons.2 ⟨?_, hnodup⟩
        exact (Entry.get?_eq_none_iff e.key added).1 (by simp [hadded])
      · rw [Entry.get?_cons, hadded, hget]
        by_cases h : e.key = name
        · simp [Scope.binds, ← h, hkey]
        · simp [h]

end Registry

namespace Interpreter

def registrations (natives : List Native) : List Registry.Step :=
  [.register .print, .register .condition, .merge (natives.map .register)]

/-- An interpreter that may be built, for some order in which the tables are gone through. -/
def Builds (host : Host) (printer : Printer) (natives : List Native) (interpreter : Interpreter) :
    Prop :=
  ∃ registry, Registry.Becomes .empty (registrations natives) registry ∧
    interpreter = ⟨host, ⟨.ofGlobal (registry.install .empty), printer⟩⟩

theorem Builds.build (host : Host) (printer : Printer) (natives : List Native) :
    Builds host printer natives (build host printer natives) := by
  have hothers (fs : List Native) (registry : Registry) :
      Registry.Becomes registry (fs.map .register) (fs.foldl Registry.register registry) := by
    induction fs generalizing registry with
    | nil => exact .done
    | cons f rest ih => exact .register (ih (registry.register f))
  exact ⟨_, .register (.register (.merge (hothers natives .empty) .done)), rfl⟩

theorem last?_registrations (natives : List Native) (name : String) :
    Native.last? name (Registry.Step.allFunctions (registrations natives)) =
      (Native.last? name natives).or (Native.last? name [.print, .condition]) := by
  have hfunctions : Registry.Step.allFunctions (registrations natives) =
      [.print, .condition] ++ natives := by
    simp [registrations, Registry.Step.allFunctions, Registry.Step.functions,
      Registry.Step.allFunctions_map_register]
  rw [hfunctions, Native.last?_append]

def builtin? (name : String) : Option Native :=
  if name = "Print" then some .print else if name = "If" then some .condition else none

theorem last?_builtins (name : String) :
    Native.last? name [.print, .condition] = builtin? name := by
  by_cases hprint : name = "Print"
  · subst hprint
    rfl
  · by_cases hif : name = "If"
    · subst hif
      rfl
    · simp [Native.last?, builtin?, Native.name, ifName, hprint, hif, Ne.symm hprint, Ne.symm hif]

/-- In whatever order tables are gone through, an interpreter that is built binds the names of the
functions given to it and of the built-in ones and no others, each once and to the function given
last, and has no operands. Any steps leave a registry with the functions registered last, and
installing it adds to a scope the names that the scope does not bind. -/
theorem builds_and_installs_in_any_order (host : Host) (printer : Printer) (natives : List Native)
    (interpreter : Interpreter) (hbuilds : Builds host printer natives interpreter)
    (steps : List Registry.Step) (registry : Registry)
    (hsteps : Registry.Becomes .empty steps registry) :
    Builds host printer natives (build host printer natives) ∧
      (∃ global : Scope, interpreter = ⟨host, ⟨.ofGlobal global, printer⟩⟩ ∧
        global.operands = [] ∧ (Entry.keys global.bindings).Nodup ∧
        ∀ name, global.get? name =
          ((Native.last? name natives).or (builtin? name)).map .native) ∧
      (∀ name, registry.get? name = Native.last? name (Registry.Step.allFunctions steps)) ∧
      ∀ scope : Scope, ∃ added, registry.install scope = scope.extend added ∧
        Registry.Adds (Native.last? · (Registry.Step.allFunctions steps)) scope added := by
  have hget {steps : List Registry.Step} {registry : Registry}
      (h : Registry.Becomes .empty steps registry) :
      registry.get? = (Native.last? · (Registry.Step.allFunctions steps)) := by
    funext name
    rw [h.get?_eq .nil]
    exact Option.or_none
  refine ⟨.build host printer natives, ?_, congrFun (hget hsteps), ?_⟩
  · obtain ⟨built, hbuilt, rfl⟩ := hbuilds
    obtain ⟨added, hinstall, hnodup, hadded⟩ := built.install_adds .empty
    refine ⟨_, rfl, ?_, ?_, fun name => ?_⟩
    · rw [hinstall]
      rfl
    · rw [hinstall]
      exact hnodup
    · rw [hinstall, ← last?_builtins, ← last?_registrations]
      rw [hget hbuilt] at hadded
      exact hadded name
  · intro scope
    rw [← hget hsteps]
    exact registry.install_adds scope

theorem builds_and_installs_in_any_order_backwards :
    let natives : List Native := [.host 0 "Log", .host 1 "If", .host 2 "Log"]
    let registry : Registry :=
      ⟨[⟨"Log", .host 2 "Log"⟩, ⟨"If", .host 1 "If"⟩, ⟨"Print", .print⟩]⟩
    let host : Host := ⟨.lexical, .none⟩
    let interpreter : Interpreter := ⟨host, ⟨.ofGlobal (registry.install .empty), .buffer ""⟩⟩
    let scope : Scope := ⟨[⟨"Print", .number 1⟩], [.number 2]⟩
    Registry.Becomes .empty (registrations natives) registry ∧
      Builds host (.buffer "") natives interpreter ∧
      (∃ global : Scope, interpreter = ⟨host, ⟨.ofGlobal global, .buffer ""⟩⟩ ∧
        global.get? "Print" = some (.native .print) ∧
        global.get? "If" = some (.native (.host 1 "If")) ∧
        global.get? "Log" = some (.native (.host 2 "Log")) ∧ global.get? "Let" = none) ∧
      ∃ added, registry.install scope = scope.extend added ∧
        Entry.get? "Print" added = none ∧
        Entry.get? "Log" added = some (.native (.host 2 "Log")) := by
  intro natives registry host interpreter scope
  have hothers : Registry.Becomes .empty (natives.map .register)
      ⟨[⟨"If", .host 1 "If"⟩, ⟨"Log", .host 2 "Log"⟩]⟩ :=
    .register (.register (.register (.reorder (.swap _ _ _) .done)))
  have hsteps : Registry.Becomes .empty (registrations natives) registry :=
    .register (.register (.merge hothers (.reorder (List.reverse_perm _).symm .done)))
  have hbuilds : Builds host (.buffer "") natives interpreter := ⟨registry, hsteps, rfl⟩
  obtain ⟨-, ⟨global, hglobal, -, -, hget⟩, -, hinstall⟩ :=
    builds_and_installs_in_any_order host (.buffer "") natives interpreter hbuilds _ registry hsteps
  obtain ⟨added, hadded, -, hnames⟩ := hinstall scope
  exact ⟨hsteps, hbuilds, ⟨global, hglobal, hget _, hget _, hget _, hget _⟩,
    added, hadded, hnames _, hnames _⟩

end Interpreter

end TagScript
