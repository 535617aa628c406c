import TagScript.Eval

namespace TagScript

namespace Printer

def printAll (lines : List String) (p : Printer) : Printer :=
  lines.foldl (fun p line => p.println line) p

@[simp] theorem printAll_nil (p : Printer) : p.printAll [] = p := rfl

theorem printAll_append (lines more : List String) (p : Printer) :
    p.printAll (lines ++ more) = (p.printAll lines).printAll more := by
  simp [printAll]

def append (text : String) : Printer → Printer
  | buffer old => buffer (old ++ text)
  | console sent => console (sent ++ text)

theorem written_append (text : String) (p : Printer) :
    (p.append text).written = p.written ++ text := by
  cases p <;> rfl

theorem exists_printAll_eq_append (lines : List String) :
    ∃ text, ∀ p : Printer, p.printAll lines = p.append text := by
  induction lines with
  | nil => exact ⟨"", fun p => by cases p <;> simp [append]⟩
  | cons line rest ih =>
    obtain ⟨text, htext⟩ := ih
    refine ⟨line ++ "\n" ++ text, ?_⟩
    intro p
    have h : p.printAll (line :: rest) = (p.println line).append text := htext (p.println line)
    rw [h]
    cases p <;> simp [println, append, String.append_assoc]

end Printer

namespace Run

variable {α β : Type}

theorem ext {x y : Run α} (h : ∀ m, x.exec m = y.exec m) : x = y := by
  funext m
  exact h m

theorem discard_eq_bind (x : Run α) : discard x = (do let _ ← x; pure ()) := by
  rw [Functor.discard, map_const, Function.comp_apply, map_eq_pure_bind]

theorem exec_bind_of_ok {x : Run α} {a : α} {m m' : Machine} (f : α → Run β)
    (h : x.exec m = (.ok a, m')) : (x >>= f).exec m = (f a).exec m' := by
  rw [exec_bind, h]

theorem exec_bind_of_error {x : Run α} {fault : Fault} {m m' : Machine} (f : α → Run β)
    (h : x.exec m = (.error fault, m')) : (x >>= f).exec m = (.error fault, m') := by
  rw [exec_bind, h]

theorem exec_bind_eq_ok_iff {x : Run α} {f : α → Run β} {b : β} {m m' : Machine} :
    (x >>= f).exec m = (.ok b, m') ↔
      ∃ a n, x.exec m = (.ok a, n) ∧ (f a).exec n = (.ok b, m') := by
  constructor
  · intro h
    rw [exec_bind] at h
    split at h
    · next a n hx => exact ⟨a, n, hx, h⟩
    · cases h
  · rintro ⟨a, n, hx, h⟩
    rwa [exec_bind_of_ok f hx]

theorem exec_bind_congr {x y : Run α} {f g : α → Run β} {m : Machine} (hx : x.exec m = y.exec m)
    (hf : ∀ a n, x.exec m = (.ok a, n) → (f a).exec n = (g a).exec n) :
    (x >>= f).exec m = (y >>= g).exec m := by
  rw [exec_bind, exec_bind, ← hx]
  split
  · next a n h => exact hf a n h
  · rfl

theorem exec_discard_congr {x y : Run α} {m : Machine} (h : x.exec m = y.exec m) :
    (discard x).exec m = (discard y).exec m := by
  rw [discard_eq_bind, discard_eq_bind]
  exact exec_bind_congr h fun _ _ _ => rfl

@[simp] theorem exec_get (m : Machine) : (get : Run Machine).exec m = (.ok m, m) := rfl

@[simp] theorem exec_liftExcept (r : Except Fault α) (m : Machine) :
    (liftExcept r : Run α).exec m = (r, m) := by
  cases r <;> rfl

@[simp] theorem exec_onEnv (f : Environment → Environment) (m : Machine) :
    (onEnv f).exec m = (.ok (), { m with env := f m.env }) := rfl

theorem exec_tryCatch (x : Run α) (handler : Fault → Run α) (m : Machine) :
    (tryCatch x handler).exec m =
      match x.exec m with
      | (.ok a, m') => (.ok a, m')
      | (.error fault, m') => (handler fault).exec m' := by
  simp only [exec, tryCatch, tryCatchThe, MonadExceptOf.tryCatch, ExceptT.tryCatch, ExceptT.mk,
    ExceptT.run, bind, StateT.bind, StateT.run]
  cases x m with
  | mk result m' => cases result <;> rfl

theorem exec_readVariable (name : String) (m : Machine) :
    (readVariable name).exec m =
      match m.env.lookup? name with
      | some value => (.ok value, m)
      | none => (.error (.undefinedIdentifier name), m) := by
  change (match m.env.lookup? name with
    | some value => pure value
    | none => throw (Fault.undefinedIdentifier name) : Run Value).exec m = _
  cases m.env.lookup? name <;> rfl

theorem exec_callee (name : String) (m : Machine) :
    (callee name).exec m =
      match m.env.lookupCallable? name with
      | some (.native f) => (.ok f, m)
      | some value => (.error (.notCallable name value.type), m)
      | none => (.error (.unresolvedCall name), m) := by
  change (match m.env.lookupCallable? name with
    | some (.native f) => pure f
    | some value => throw (Fault.notCallable name value.type)
    | none => throw (Fault.unresolvedCall name) : Run Native).exec m = _
  cases m.env.lookupCallable? name with
  | none => rfl
  | some value => cases value <;> rfl

theorem exec_callee_of_ne_native {name : String} {value : Value} {m : Machine}
    (h : m.env.lookupCallable? name = some value) (htype : value.type ≠ .native) :
    (callee name).exec m = (.error (.notCallable name value.type), m) := by
  rw [exec_callee, h]
  cases value with
  | native f => exact absurd rfl htype
  | _ => rfl

theorem eq_of_exec_callee {name : String} {f : Native} {m n : Machine}
    (h : (callee name).exec m = (.ok f, n)) : n = m := by
  rw [exec_callee] at h
  split at h <;> cases h
  rfl

@[simp] theorem exec_call (library : Library) (f : Native) (args : Arguments) (m : Machine) :
    (call library f args).exec m =
      ((f.call library args).result,
        { m with printer := m.printer.printAll (f.call library args).lines }) := by
  rw [call, exec_bind]
  exact exec_liftExcept _ _

theorem exec_declare (name : String) (value : Value) (m : Machine) :
    (declare name value).exec m =
      match m.env.declare? name value with
      | some env => (.ok (), { m with env := env })
      | none => (.error (.duplicateVariable name), m) := by
  change (match m.env.declare? name value with
    | some env => modify fun m => { m with env := env }
    | none => throw (Fault.duplicateVariable name) : Run Unit).exec m = _
  cases m.env.declare? name value <;> rfl

theorem exec_pushOperand (value : Value) (m : Machine) :
    (pushOperand value).exec m = (.ok (), { m with env := m.env.push value }) := rfl

theorem exec_popOperand (m : Machine) :
    popOperand.exec m = (m.env.pop.1, { m with env := m.env.pop.2 }) := by
  change (liftExcept m.env.pop.1 : Run Value).exec { m with env := m.env.pop.2 } = _
  exact exec_liftExcept _ _

theorem exec_onOperands_congr {items items' : Nat → Run Unit} {m : Machine}
    (h : (items m.env.operandDepth).exec m = (items' m.env.operandDepth).exec m) :
    (onOperands items).exec m = (onOperands items').exec m := by
  rw [onOperands, onOperands]
  simp only [exec_bind_of_ok _ (exec_get m), exec_tryCatch]
  rw [exec_bind_congr h fun _ _ _ => rfl]

end Run

end TagScript
