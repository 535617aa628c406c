import TagScript.Proofs.Confinement
import TagScript.Proofs.Reachable
import TagScript.Proofs.Registry
import TagScript.Proofs.ScopingModes

namespace TagScript

namespace Environment

variable {env : Environment} {name : String} {value : Value}

theorem global_get?_modifyCurrent_extend (h : env.global.get? name = some value)
    (new : List (Entry Value)) :
    (env.modifyCurrent (·.extend new)).global.get? name = some value := by
  rcases env with ⟨global, _ | ⟨block, rest⟩⟩
  · exact (Scope.get?_of_bindings rfl name).trans (by rw [h, Option.some_or])
  · exact h

theorem Lexical.atHeight (h : env.Lexical) (height : Nat) : (env.atHeight height).Lexical :=
  ⟨fun block hblock => h.linked block (List.mem_of_mem_drop hblock), h.unshadowed.atHeight height⟩

theorem lookup?_of_not_linked (h : ∀ block ∈ env.blocks, block.linked = false) (name : String) :
    env.lookup? name = env.current.get? name := by
  rcases env with ⟨global, _ | ⟨block, rest⟩⟩
  · exact lookup?_ofGlobal global name
  · simp [lookup?_cons, h block List.mem_cons_self, current]

end Environment

namespace Interpreter

structure Provides (scoping : Scoping) (name : String) (f : Native) (i : Interpreter) : Prop where
  mode : i.host.scoping = scoping
  global : i.machine.env.global.get? name = some (.native f)
  links : ∀ linked ∈ i.machine.env.links, linked = decide (scoping = .lexical)
  unshadowed : i.machine.env.Unshadowed

namespace Provides

variable {scoping : Scoping} {name : String} {f : Native} {i : Interpreter}

theorem build (host : Host) (printer : Printer) {natives : List Native}
    (h : registered? natives name = some f) :
    Provides host.scoping name f (build host printer natives) where
  mode := rfl
  global := by rw [get?_global_build, h, Option.map_some]
  links := nofun
  unshadowed := Environment.unshadowed_ofGlobal _

theorem exec {α : Type} {x : Run α} (h : Provides scoping name f i) (hx : x.Uniform)
    (hunshadowed : (x.exec i.machine).2.env.Unshadowed) :
    Provides scoping name f (i.exec x).2 := by
  obtain ⟨result, new, lines, hexec, -⟩ := hx i.machine i.machine rfl
  have henv : (i.exec x).2.machine.env = i.machine.env.modifyCurrent (·.extend new) :=
    congrArg (fun outcome => outcome.2.env) hexec
  refine ⟨h.mode, ?_, ?_, hunshadowed⟩
  · rw [henv]
    exact Environment.global_get?_modifyCurrent_extend h.global new
  · rw [henv, Environment.links_modifyCurrent]
    exact h.links

theorem invariant (scoping : Scoping) (name : String) (f : Native) :
    Invariant (Provides scoping name f) where
  evaluate {i} s h := h.exec ((Statement.congruence_uniform i.host).eval s)
    ((Statement.congruence_unshadowed i.host).eval s i.machine h.unshadowed)
  run {i} program h := h.exec ((Statement.congruence_uniform i.host).evalAll program.statements)
    ((Statement.congruence_unshadowed i.host).evalAll program.statements i.machine h.unshadowed)
  opened {i} h := by
    obtain ⟨rfl, hglobal, hlinks, hunshadowed⟩ := h
    exact ⟨rfl, hglobal, List.forall_mem_cons.2 ⟨rfl, hlinks⟩, hunshadowed.enter _⟩
  closed {i} h := by
    refine ⟨h.mode, h.global, ?_, h.unshadowed.leave⟩
    intro linked hlinked
    apply h.links
    rw [Environment.links, closed, Environment.leave, List.map_tail] at hlinked
    exact List.mem_of_mem_tail hlinked

theorem lookupCallable?_lexical (h : Provides .lexical name f i) (height : Nat) :
    (i.machine.env.atHeight height).lookupCallable? name = some (.native f) := by
  have hlexical : i.machine.env.Lexical :=
    ⟨fun block hblock => h.links _ (List.mem_map_of_mem hblock), h.unshadowed⟩
  rw [Environment.lookupCallable?, (hlexical.atHeight height).lookup?_of_global h.global,
    Option.some_or]

theorem lookupCallable?_isolated (h : Provides .isolated name f i) (height : Nat) :
    (i.machine.env.atHeight height).lookupCallable? name =
      ((i.machine.env.scopeAt height).get? name).or (some (.native f)) := by
  have hlinks : ∀ block ∈ (i.machine.env.atHeight height).blocks, block.linked = false :=
    fun block hblock => h.links _ (List.mem_map_of_mem (List.mem_of_mem_drop hblock))
  rw [Environment.lookupCallable?, Environment.lookup?_of_not_linked hlinks]
  exact congrArg _ h.global

end Provides

/-- Whatever was done with an interpreter, the global scope still binds the functions registered at
first. In lexical mode calls from every open scope reach them. In isolated mode they do unless the
scope itself binds the name; what the blocks around it bind does not matter. -/
theorem reachable_functions_fixed (host : Host) (printer : Printer) (natives : List Native)
    (interpreter : Interpreter) (h : Reachable (build host printer natives) interpreter)
    (name : String) (f : Native) (hf : registered? natives name = some f) :
    let env := interpreter.machine.env
    env.global.get? name = some (.native f) ∧
      (host.scoping = .lexical → ∀ height,
        (env.atHeight height).lookupCallable? name = some (.native f)) ∧
      (host.scoping = .isolated → ∀ height, (env.atHeight height).lookupCallable? name =
        ((env.scopeAt height).get? name).or (some (.native f))) := by
  intro env
  have hprovides : Provides host.scoping name f interpreter :=
    h.keeps (Provides.invariant ..) (.build host printer hf)
  refine ⟨hprovides.global, ?_, ?_⟩
  · intro hscoping height
    rw [hscoping] at hprovides
    exact hprovides.lookupCallable?_lexical height
  · intro hscoping height
    rw [hscoping] at hprovides
    exact hprovides.lookupCallable?_isolated height

theorem reachable_functions_fixed_redeclared :
    let f : Native := .host 0 "Log"
    let start (scoping : Scoping) := build ⟨scoping, .none⟩ (.buffer "") [f]
    let declare : Statement := .closeTag "Let" [⟨"id", .string "Log"⟩, ⟨"value", .number 1⟩]
    let reached (scoping : Scoping) := ((start scoping).opened.evaluate declare).2.opened
    let env (scoping : Scoping) := (reached scoping).machine.env
    (∀ scoping, Reachable (start scoping) (reached scoping)) ∧
      registered? [f] "Log" = some f ∧
      ((env .isolated).scopeAt 1).get? "Log" = some (.number 1) ∧
      ((env .isolated).atHeight 2).lookupCallable? "Log" = some (.native f) ∧
      ((env .lexical).atHeight 1).lookupCallable? "Log" = some (.native f) := by
  intro f start declare reached env
  have hreachable : ∀ scoping, Reachable (start scoping) (reached scoping) := fun scoping =>
    .inside (.inside (.outside (.refl _)) (.evaluate declare (.refl _))) (.refl _)
  have hf : registered? [f] "Log" = some f := by decide
  obtain ⟨-, -, hisolated⟩ :=
    reachable_functions_fixed ⟨.isolated, .none⟩ (.buffer "") [f] _ (hreachable .isolated) "Log" f hf
  obtain ⟨-, hlexical, -⟩ :=
    reachable_functions_fixed ⟨.lexical, .none⟩ (.buffer "") [f] _ (hreachable .lexical) "Log" f hf
  exact ⟨hreachable, hf, rfl, hisolated rfl 2, hlexical rfl 1⟩

end Interpreter

end TagScript
