import TagScript.Proofs.Confinement
import TagScript.Proofs.Shadowing

namespace TagScript

namespace Environment

def Holds (P : Value → Prop) (env : Environment) : Prop :=
  ∀ scope ∈ env.scopes, ∀ e ∈ scope.bindings, P e.value

theorem current_mem_scopes (env : Environment) : env.current ∈ env.scopes := by
  rcases env with ⟨global, _ | ⟨block, rest⟩⟩ <;> exact List.mem_cons_self

theorem mem_scopes_modifyCurrent {f : Scope → Scope} {env : Environment} {scope : Scope}
    (h : scope ∈ (env.modifyCurrent f).scopes) : scope = f env.current ∨ scope ∈ env.scopes := by
  rcases env with ⟨global, _ | ⟨block, rest⟩⟩
  · exact .inl (List.mem_singleton.1 h)
  · exact (List.mem_cons.1 h).imp_right (List.mem_cons_of_mem _)

theorem mem_scopes_of_mem_visible {env : Environment} {scope : Scope} (h : scope ∈ env.visible) :
    scope ∈ env.scopes := by
  rcases env with ⟨global, blocks⟩
  induction blocks with
  | nil => exact h
  | cons block rest ih =>
    rcases (mem_visible_cons_iff ..).1 h with rfl | ⟨-, h⟩
    · exact List.mem_cons_self
    · exact List.mem_cons_of_mem _ (ih h)

namespace Holds

variable {P : Value → Prop} {env : Environment} {name : String} {value : Value}

theorem enter (h : env.Holds P) (scoping : Scoping) : (env.enter scoping).Holds P :=
  List.forall_mem_cons.2 ⟨nofun, h⟩

theorem leave (h : env.Holds P) : env.leave.Holds P := by
  rcases env with ⟨global, _ | ⟨block, rest⟩⟩
  · exact h
  · exact (List.forall_mem_cons.1 h).2

theorem declare? (h : env.Holds P) (hvalue : P value) {env' : Environment}
    (hdeclare : env.declare? name value = some env') : env'.Holds P := by
  obtain ⟨-, rfl⟩ := of_declare?_eq_some hdeclare
  intro scope hscope e he
  rcases mem_scopes_modifyCurrent hscope with rfl | hscope
  · rcases List.mem_append.1 he with he | he
    · exact h _ env.current_mem_scopes e he
    · cases List.mem_singleton.1 he
      exact hvalue
  · exact h scope hscope e he

theorem get? (h : env.Holds P) {scope : Scope} (hscope : scope ∈ env.scopes)
    (hget : scope.get? name = some value) : P value :=
  h scope hscope _ (Entry.mem_of_get? hget)

theorem lookup? (h : env.Holds P) (hlookup : env.lookup? name = some value) : P value := by
  obtain ⟨scope, hscope, hget⟩ := List.exists_of_findSome?_eq_some hlookup
  exact h.get? (mem_scopes_of_mem_visible hscope) hget

theorem lookupCallable? (h : env.Holds P) (hlookup : env.lookupCallable? name = some value) :
    P value := by
  have hglobal : env.global ∈ env.scopes := List.mem_append_right _ List.mem_cons_self
  rcases Option.or_eq_some_iff.1 hlookup with hlookup | ⟨-, hget⟩
  · exact h.lookup? hlookup
  · exact h.get? hglobal hget

end Holds

end Environment

def Meets {α : Type} (F : Fault → Prop) (P : α → Prop) : Except Fault α → Prop
  | .ok a => P a
  | .error fault => F fault

namespace Run

variable {α β : Type} {d : Discipline} {F : Fault → Prop}

def Respects (d : Discipline) (F : Fault → Prop) (P : α → Prop) (x : Run α) : Prop :=
  ∀ m : Machine, m.env.Holds d.stored →
    (x.exec m).2.env.Holds d.stored ∧ Meets F P (x.exec m).1

namespace Respects

theorem holds {P : α → Prop} {x : Run α} (hx : x.Respects d F P) {m n : Machine}
    (hm : m.env.Holds d.stored) {result : Except Fault α} (h : x.exec m = (result, n)) :
    n.env.Holds d.stored := by
  have := (hx m hm).1
  rwa [h] at this

theorem of_exec_eq_ok {P : α → Prop} {x : Run α} (hx : x.Respects d F P) {m n : Machine}
    (hm : m.env.Holds d.stored) {a : α} (h : x.exec m = (.ok a, n)) : P a := by
  have := (hx m hm).2
  rwa [h] at this

theorem bind {P : α → Prop} {Q : β → Prop} {x : Run α} {f : α → Run β} (hx : x.Respects d F P)
    (hf : ∀ a, P a → (f a).Respects d F Q) : (x >>= f).Respects d F Q := by
  intro m hm
  obtain ⟨henv, hresult⟩ := hx m hm
  rw [exec_bind]
  generalize x.exec m = outcome at henv hresult
  match outcome, henv, hresult with
  | (.ok a, m'), henv, hresult => exact hf a hresult m' henv
  | (.error fault, m'), henv, hresult => exact ⟨henv, hresult⟩

theorem readVariable {name : String} (h : F (.undefinedIdentifier name)) :
    (readVariable name).Respects d F d.stored := by
  intro m hm
  rw [exec_readVariable]
  cases hlookup : m.env.lookup? name with
  | some value => exact ⟨hm, hm.lookup? hlookup⟩
  | none => exact ⟨hm, h⟩

theorem callee {name : String} (hnative : ∀ f, d.stored (.native f) → d.native f)
    (hunresolved : F (.unresolvedCall name))
    (hnotCallable : ∀ type, type ≠ .native → F (.notCallable name type)) :
    (callee name).Respects d F d.native := by
  intro m hm
  cases hlookup : m.env.lookupCallable? name with
  | none =>
    rw [exec_callee, hlookup]
    exact ⟨hm, hunresolved⟩
  | some value =>
    have hvalue : d.stored value := hm.lookupCallable? hlookup
    by_cases htype : value.type = .native
    · obtain ⟨f, rfl⟩ := Value.exists_native_of_type htype
      rw [exec_callee, hlookup]
      exact ⟨hm, hnative f hvalue⟩
    · rw [exec_callee_of_ne_native hlookup htype]
      exact ⟨hm, hnotCallable _ htype⟩

theorem declare {name : String} {value : Value} (h : F (.duplicateVariable name))
    (hvalue : d.stored value) : (declare name value).Respects d F fun _ => True := by
  intro m hm
  rw [exec_declare]
  cases hdeclare : m.env.declare? name value with
  | some env => exact ⟨hm.declare? hvalue hdeclare, trivial⟩
  | none => exact ⟨hm, h⟩

theorem inBlock (scoping : Scoping) {P : α → Prop} {x : Run α} (hx : x.Respects d F P) :
    (inBlock scoping x).Respects d F P := by
  intro m hm
  rw [exec_inBlock]
  obtain ⟨henv, hresult⟩ := hx { m with env := m.env.enter scoping } (hm.enter scoping)
  exact ⟨henv.leave, hresult⟩

theorem rules {host : Host} (hfault : ∀ fault : Fault, fault.Truthful d.node → F fault)
    (hnative : ∀ f, d.stored (.native f) → d.native f)
    (hcall : ∀ f args, d.native f → d.arguments args →
      Meets F d.value (f.call host.library args).result) :
    Rules d host host fun P x _ => x.Respects d F P := by
  apply StepRules.rules
  exact {
    pure := fun ha _ hm => ⟨hm, ha⟩
    throw := fun h _ hm => ⟨hm, hfault _ h⟩
    bind := fun _ hx hf => hx.bind hf
    readVariable := fun h => readVariable (hfault _ h)
    callee := fun h hname => callee hnative (hfault _ ⟨hname, _, h⟩)
      fun _ htype => hfault _ ⟨htype, hname, _, h⟩
    call := fun hf hargs m hm => by
      rw [exec_call]
      exact ⟨hm, hcall _ _ hf hargs⟩
    declare := declare (hfault _ trivial)
    inBlock := inBlock host.scoping }

end Respects

end Run

end TagScript
