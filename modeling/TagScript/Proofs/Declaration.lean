import TagScript.Proofs.Course
import TagScript.Proofs.Registry

namespace TagScript

theorem Environment.isSome_lookup?_iff (env : Environment) (name : String) :
    (env.lookup? name).isSome ↔ ∃ scope ∈ env.visible, scope.binds name := by
  simp [lookup?, List.findSome?_isSome_iff, Scope.binds]

namespace Statement

theorem eval_unwrapped (host : Host) (s : Statement) : s.unwrapped.eval host = s.eval host := by
  fun_induction unwrapped s with
  | case1 inner ih => exact ih
  | case2 s h => rfl

inductive Gives (host : Host) (m : Machine) :
    Entry Statement → Except Fault Value → Machine → Prop
  | name {s name} (hs : s.unwrapped = .identifier name) :
    Gives host m ⟨"id", s⟩ (.ok (.string name)) m
  | evaluated {param result n}
    (hparam : param.key = "id" → ∀ name, param.value.unwrapped ≠ .identifier name)
    (h : (param.value.eval host).exec m = (result, n)) : Gives host m param result n

inductive GivesAll (host : Host) :
    Machine → List (Entry Statement) → List (Entry Value) → Machine → Prop
  | nil {m} : GivesAll host m [] [] m
  | cons {m k n param params value values} (h : Gives host m param (.ok value) k)
    (hrest : GivesAll host k params values n) :
    GivesAll host m (param :: params) (⟨param.key, value⟩ :: values) n

inductive Decides (m : Machine) :
    Option Value → Option Value → Except Fault Value → Machine → Prop
  | missingValue {id} : Decides m none id (.error (.missingParameter "Let" "value")) m
  | missingId {value} : Decides m (some value) none (.error (.missingParameter "Let" "id")) m
  | notName {value id} (htype : id.resolved.type ≠ .string) :
    Decides m (some value) (some id) (.error (.mismatchedType .string id.resolved.type)) m
  | duplicate {value id name} (hname : id.resolved = .string name)
    (hvisible : ∃ scope ∈ m.env.visible, scope.binds name) :
    Decides m (some value) (some id) (.error (.duplicateVariable name)) m
  | declared {value id name} (hname : id.resolved = .string name)
    (hnew : ∀ scope ∈ m.env.visible, ¬ scope.binds name) :
    Decides m (some value) (some id) (.ok .undefined)
      { m with env := m.env.modifyCurrent (·.extend [⟨name, value.resolved⟩]) }

/-- What a declaration with these parameters comes to. The first fault among them is its own, and
otherwise the last value and the last id count. -/
inductive Declares (host : Host) (m : Machine) :
    List (Entry Statement) → Except Fault Value → Machine → Prop
  | failed {before param after values fault k n} (hbefore : GivesAll host m before values k)
    (h : Gives host k param (.error fault) n) :
    Declares host m (before ++ param :: after) (.error fault) n
  | decided {params values result k n} (hparams : GivesAll host m params values k)
    (h : Decides k (Entry.get? "value" values.reverse) (Entry.get? "id" values.reverse) result n) :
    Declares host m params result n

end Statement

namespace Arguments

def Hold (args : Arguments) (values : List (Entry Value)) : Prop :=
  ∀ key, (args.get? key).map Value.resolved =
    (Entry.get? key values.reverse).map Value.resolved

theorem Hold.insert {args : Arguments} {values : List (Entry Value)} (h : args.Hold values)
    (key : String) {value given : Value} (hvalue : value.resolved = given.resolved) :
    (args.insert key value).Hold (values ++ [⟨key, given⟩]) := by
  intro other
  rw [Entry.get?_reverse_concat, get?_insert]
  split
  · exact congrArg some hvalue
  · exact h other

end Arguments

theorem Run.exec_declareFrom (args : Arguments) (m : Machine) :
    (declareFrom args).exec m =
      match (args.get? "value").map Value.resolved, (args.get? "id").map Value.resolved with
      | none, _ => (.error (.missingParameter letName "value"), m)
      | some _, none => (.error (.missingParameter letName "id"), m)
      | some value, some (.string name) =>
        if (m.env.lookup? name).isSome then (.error (.duplicateVariable name), m)
        else (.ok .undefined, { m with env := m.env.modifyCurrent (·.extend [⟨name, value⟩]) })
      | some _, some id => (.error (.mismatchedType .string id.type), m) := by
  unfold declareFrom
  cases args.get? "value" with
  | none => rfl
  | some value =>
    cases args.get? "id" with
    | none => rfl
    | some id =>
      simp only [Option.map_some, exec_bind, exec_liftExcept, Value.nameText]
      cases id.resolved with
      | string name =>
        simp only [exec_declare, Environment.declare?_eq]
        cases m.env.lookup? name <;> rfl
      | _ => rfl

namespace Statement

variable {host : Host} {m n : Machine} {param : Entry Statement} {params : List (Entry Statement)}
  {values : List (Entry Value)} {result : Except Fault Value}

theorem Gives.exec_evalArgument (h : Gives host m param result n) :
    ∃ argument, (evalArgument host (· = "id") param).exec m = (argument, n) ∧
      argument.map Value.resolved = result.map Value.resolved := by
  cases h with
  | name hs =>
    refine ⟨_, ?_, rfl⟩
    simp only [evalArgument, (bareName?_eq_some_iff ..).2 hs, Run.nameArgument]
    rfl
  | evaluated hparam h =>
    rw [evalArgument]
    split
    · next name hs =>
      have hname := (bareName?_eq_some_iff ..).1 hs
      have hkey : param.key ≠ "id" := fun hkey => hparam hkey name hname
      rw [← eval_unwrapped, hname, eval] at h
      simp only [hkey, decide_false, Run.nameArgument]
      cases result with
      | ok value => exact ⟨.ok (.identifier value), Run.exec_bind_of_ok _ h, rfl⟩
      | error fault => exact ⟨.error fault, Run.exec_bind_of_error _ h, rfl⟩
    · exact ⟨result, h, rfl⟩

theorem Gives.exec_of_ok {value : Value} (h : Gives host m param (.ok value) n) :
    ∃ argument, (evalArgument host (· = "id") param).exec m = (.ok argument, n) ∧
      argument.resolved = value.resolved := by
  obtain ⟨argument, hexec, hargument⟩ := h.exec_evalArgument
  cases argument with
  | ok argument => exact ⟨argument, hexec, Except.ok.inj hargument⟩
  | error fault => cases hargument

theorem Gives.exec_of_error {fault : Fault} (h : Gives host m param (.error fault) n) :
    (evalArgument host (· = "id") param).exec m = (.error fault, n) := by
  obtain ⟨argument, hexec, hargument⟩ := h.exec_evalArgument
  cases argument with
  | ok argument => cases hargument
  | error other => rw [hexec, Except.error.inj hargument]

theorem GivesAll.exec_evalArguments (h : GivesAll host m params values n) {args : Arguments}
    {done : List (Entry Value)} (hargs : args.Hold done) :
    ∃ args', (evalArguments host (· = "id") params args).exec m = (.ok args', n) ∧
      args'.Hold (done ++ values) := by
  induction h generalizing args done with
  | nil => exact ⟨args, rfl, by rwa [List.append_nil]⟩
  | cons h _ ih =>
    obtain ⟨argument, hexec, hargument⟩ := h.exec_of_ok
    rw [evalArguments_cons, Run.exec_bind_of_ok _ hexec, List.append_cons]
    exact ih (hargs.insert _ hargument)

theorem Decides.exec_declareFrom {value id : Option Value} (h : Decides m value id result n)
    {args : Arguments} (hvalue : (args.get? "value").map Value.resolved = value.map Value.resolved)
    (hid : (args.get? "id").map Value.resolved = id.map Value.resolved) :
    (Run.declareFrom args).exec m = (result, n) := by
  rw [Run.exec_declareFrom, hvalue, hid]
  cases h with
  | missingValue => rfl
  | missingId => rfl
  | @notName _ id htype =>
    simp only [Option.map_some]
    cases hresolved : id.resolved with
    | string => exact absurd (congrArg Value.type hresolved) htype
    | _ => rfl
  | duplicate hname hvisible =>
    simp only [Option.map_some, hname]
    rw [if_pos ((Environment.isSome_lookup?_iff ..).2 hvisible)]
  | declared hname hnew =>
    simp only [Option.map_some, hname]
    rw [if_neg]
    rw [Environment.isSome_lookup?_iff]
    rintro ⟨scope, hscope, hbinds⟩
    exact hnew scope hscope hbinds

theorem Declares.exec_eq (h : Declares host m params result n) :
    (eval host (closeTag letName params)).exec m = (result, n) := by
  have hempty : Arguments.empty.Hold [] := fun _ => rfl
  rw [eval, if_pos rfl]
  cases h with
  | failed hbefore h =>
    obtain ⟨args, hexec, -⟩ := hbefore.exec_evalArguments hempty
    rw [evalArguments_append, bind_assoc, Run.exec_bind_of_ok _ hexec, evalArguments_cons,
      bind_assoc, Run.exec_bind_of_error _ h.exec_of_error]
  | decided hparams h =>
    obtain ⟨args, hexec, hargs⟩ := hparams.exec_evalArguments hempty
    rw [Run.exec_bind_of_ok _ hexec]
    exact h.exec_declareFrom (hargs "value") (hargs "id")

theorem exists_gives (host : Host) (m : Machine) (param : Entry Statement) :
    ∃ result n, Gives host m param result n := by
  rcases param with ⟨key, s⟩
  by_cases h : key = "id" ∧ ∃ name, s.unwrapped = .identifier name
  · obtain ⟨rfl, name, hname⟩ := h
    exact ⟨_, _, .name hname⟩
  · exact ⟨_, _, .evaluated (fun hkey name hname => h ⟨hkey, name, hname⟩) rfl⟩

theorem exists_decides (m : Machine) (value id : Option Value) :
    ∃ result n, Decides m value id result n := by
  match value, id with
  | none, _ => exact ⟨_, _, .missingValue⟩
  | some _, none => exact ⟨_, _, .missingId⟩
  | some value, some id =>
    by_cases htype : id.resolved.type = .string
    · obtain ⟨name, hname⟩ := Value.exists_string_of_type htype
      by_cases hvisible : ∃ scope ∈ m.env.visible, scope.binds name
      · exact ⟨_, _, .duplicate hname hvisible⟩
      · exact ⟨_, _, .declared hname fun scope hscope hbinds => hvisible ⟨scope, hscope, hbinds⟩⟩
    · exact ⟨_, _, .notName htype⟩

theorem givesAll_or_fails (host : Host) (m : Machine) (params : List (Entry Statement)) :
    (∃ values n, GivesAll host m params values n) ∨
      ∃ before param after values fault k n, params = before ++ param :: after ∧
        GivesAll host m before values k ∧ Gives host k param (.error fault) n := by
  induction params generalizing m with
  | nil => exact .inl ⟨[], m, .nil⟩
  | cons param rest ih =>
    obtain ⟨result, k, hparam⟩ := exists_gives host m param
    cases result with
    | error fault => exact .inr ⟨[], param, rest, [], fault, m, k, rfl, .nil, hparam⟩
    | ok value =>
      rcases ih k with ⟨values, n, h⟩ | ⟨before, next, after, values, fault, k', n, rfl, hbefore, h⟩
      · exact .inl ⟨_, n, .cons hparam h⟩
      · exact .inr ⟨param :: before, next, after, _, fault, k', n, rfl, .cons hparam hbefore, h⟩

theorem exists_declares (host : Host) (m : Machine) (params : List (Entry Statement)) :
    ∃ result n, Declares host m params result n := by
  rcases givesAll_or_fails host m params with
    ⟨values, k, h⟩ | ⟨before, param, after, values, fault, k, n, rfl, hbefore, h⟩
  · obtain ⟨result, n, hdecides⟩ := exists_decides k (Entry.get? "value" values.reverse)
      (Entry.get? "id" values.reverse)
    exact ⟨result, n, .decided h hdecides⟩
  · exact ⟨.error fault, n, .failed hbefore h⟩

end Statement

namespace Interpreter

/-- Declarations go by their rules, whatever is bound to the name of their tag. -/
theorem evaluate_let_iff_declares (interpreter : Interpreter) (params : List (Entry Statement))
    (result : Except Fault Value) (after : Interpreter) :
    interpreter.evaluate (.closeTag "Let" params) = (result, after) ↔
      after.host = interpreter.host ∧
        Statement.Declares interpreter.host interpreter.machine params result after.machine := by
  rcases interpreter with ⟨host, m⟩
  rcases after with ⟨host', n⟩
  obtain ⟨result', n', hdeclares⟩ := Statement.exists_declares host m params
  have heval : (Interpreter.mk host m).evaluate (.closeTag "Let" params) = (result', ⟨host, n'⟩) :=
    congrArg (fun outcome => (outcome.1, Interpreter.mk host outcome.2)) hdeclares.exec_eq
  constructor
  · intro h
    cases h.symm.trans heval
    exact ⟨rfl, hdeclares⟩
  · rintro ⟨rfl, h⟩
    exact congrArg (fun outcome => (outcome.1, Interpreter.mk _ outcome.2)) h.exec_eq

example :
    let declare (value : Statement) : Statement :=
      .closeTag "Let" [⟨"id", .identifier "x"⟩, ⟨"value", value⟩]
    let outcome := standard.evaluate (declare (declare (.number 1)))
    outcome.1 = .error (.duplicateVariable "x") ∧
      outcome.2.machine.env.lookup? "x" = some (.number 1) := ⟨rfl, rfl⟩

end Interpreter

end TagScript
