import Mathlib.Data.List.Forall2
import Mathlib.Data.List.ReduceOption
import TagScript.Proofs.Arguments
import TagScript.Proofs.Declaration

namespace TagScript

namespace Statement

def delivered (s : Statement) (value : Value) : Value :=
  if s.bareName?.isSome then .identifier value else value

theorem delivered_of_name {s : Statement} {name : String} (hs : s.unwrapped = .identifier name)
    (value : Value) : s.delivered value = .identifier value := by
  rw [delivered, (bareName?_eq_some_iff ..).2 hs]
  rfl

theorem delivered_of_not_name {s : Statement} (hs : ∀ name, s.unwrapped ≠ .identifier name)
    (value : Value) : s.delivered value = value := by
  rw [delivered, if_neg]
  intro hsome
  obtain ⟨name, hname⟩ := Option.isSome_iff_exists.1 hsome
  exact hs name ((bareName?_eq_some_iff ..).1 hname)

theorem evalArgument_eq_delivered (host : Host) (param : Entry Statement) :
    evalArgument host (fun _ => false) param =
      (do let value ← eval host param.value; pure (param.value.delivered value)) := by
  rw [evalArgument]
  split
  · next name hs =>
    have hname := (bareName?_eq_some_iff ..).1 hs
    rw [← eval_unwrapped host param.value, hname]
    simp only [delivered_of_name hname]
    rfl
  · next hs =>
    simp only [delivered, hs]
    exact (bind_pure _).symm

theorem condition_delivered (s : Statement) (value : Value) :
    (s.delivered value).condition = value.condition := by
  rw [delivered]
  split <;> rfl

theorem exec_condition_call (host : Host) {m : Machine}
    (hif : m.env.lookupCallable? ifName = some (.native .condition)) (condition : Statement) :
    (eval host (closeTag ifName [⟨"condition", condition⟩])).exec m =
      (do let b ← evalCondition host [⟨"condition", condition⟩]; pure (.boolean b) : Run Value).exec
        m := by
  have hname : ifName ≠ letName := by decide
  have hcallee : (Run.callee ifName).exec m = (.ok .condition, m) := by
    rw [Run.exec_callee, hif]
  simp only [eval, if_neg hname, evalCondition, if_pos, bind_assoc]
  rw [Run.exec_bind_of_ok _ hcallee, evalArguments_cons, evalArgument_eq_delivered]
  simp only [bind_assoc, pure_bind]
  refine Run.exec_bind_congr rfl fun value n _ => ?_
  have hvalue : (Arguments.empty.insert "condition" (condition.delivered value)).conditionValue =
      value.condition.map .boolean := by
    rw [← condition.condition_delivered value]
    rfl
  simp only [evalArguments, pure_bind, Run.exec_call, Native.call, hvalue]
  rw [Run.exec_bind, Run.exec_liftExcept]
  cases value.condition <;> rfl

end Statement

namespace Interpreter

section Exec

variable {α β : Type} {i j : Interpreter} {x : Run α} {result : Except Fault α}

theorem exec_eq_iff :
    i.exec x = (result, j) ↔ j.host = i.host ∧ x.exec i.machine = (result, j.machine) := by
  rcases j with ⟨host, n⟩
  constructor
  · intro h
    cases h
    exact ⟨rfl, rfl⟩
  · rintro ⟨rfl, h⟩
    rw [exec, h]

theorem exec_congr {y : Run α} (h : x.exec i.machine = y.exec i.machine) : i.exec x = i.exec y := by
  rw [exec, exec, h]

@[simp] theorem exec_pure (a : α) : i.exec (pure a) = (.ok a, i) := rfl

theorem exec_bind_of_ok {a : α} (f : α → Run β) (h : i.exec x = (.ok a, j)) :
    i.exec (x >>= f) = j.exec (f a) := by
  obtain ⟨hhost, hx⟩ := exec_eq_iff.1 h
  rw [exec, exec, Run.exec_bind_of_ok f hx, hhost]

theorem exec_bind_of_error {fault : Fault} (f : α → Run β) (h : i.exec x = (.error fault, j)) :
    i.exec (x >>= f) = (.error fault, j) := by
  obtain ⟨hhost, hx⟩ := exec_eq_iff.1 h
  exact exec_eq_iff.2 ⟨hhost, Run.exec_bind_of_error f hx⟩

end Exec

inductive Performs : Interpreter → List Statement → Except Fault Value → Interpreter → Prop
  | done {i} : Performs i [] (.ok .undefined) i
  | failed {i j s rest fault} (h : i.evaluate s = (.error fault, j)) :
    Performs i (s :: rest) (.error fault) j
  | next {i j k s rest value result} (h : i.evaluate s = (.ok value, j))
    (hrest : Performs j rest result k) : Performs i (s :: rest) result k

theorem Performs.exec_evalAll {i j : Interpreter} {all : List Statement}
    {result : Except Fault Value} (h : i.Performs all result j) :
    i.exec (do Statement.evalAll i.host all; pure .undefined) = (result, j) := by
  induction h with
  | done => rfl
  | failed h =>
    rw [Statement.evalAll, Run.discard_eq_bind, bind_assoc, bind_assoc, exec_bind_of_error _ h]
  | next h _ ih =>
    have hhost := (exec_eq_iff.1 h).1
    rw [hhost] at ih
    rw [Statement.evalAll, Run.discard_eq_bind, bind_assoc, bind_assoc, exec_bind_of_ok _ h,
      pure_bind, ih]

theorem exists_performs (i : Interpreter) (all : List Statement) :
    ∃ result j, i.Performs all result j := by
  induction all generalizing i with
  | nil => exact ⟨_, _, .done⟩
  | cons s rest ih =>
    rcases h : i.evaluate s with ⟨value | fault, j⟩
    · exact ⟨_, _, .failed h⟩
    · obtain ⟨result, k, hrest⟩ := ih j
      exact ⟨_, _, .next h hrest⟩

theorem exec_evalAll_eq_iff {i j : Interpreter} {all : List Statement}
    {result : Except Fault Value} :
    i.exec (do Statement.evalAll i.host all; pure .undefined) = (result, j) ↔
      i.Performs all result j := by
  constructor
  · intro h
    obtain ⟨result', j', hperforms⟩ := i.exists_performs all
    cases h.symm.trans hperforms.exec_evalAll
    exact hperforms
  · exact Performs.exec_evalAll

/-- The two ways to test a condition agree. -/
theorem evaluate_ifTag_of_call {interpreter after : Interpreter} {answer : Except Fault Value}
    {condition : Statement}
    (hif : interpreter.machine.env.lookupCallable? "If" = some (.native .condition))
    (hcall : interpreter.evaluate (.closeTag "If" [⟨"condition", condition⟩]) = (answer, after))
    (name : String) (children : List Statement) :
    let tag : Statement := .ifTag name [⟨"condition", condition⟩] children
    (answer = .ok (.boolean true) ∧
      ∀ result final, interpreter.evaluate tag = (result, final) ↔
        after.Performs children result final) ∨
      (answer = .ok (.boolean false) ∧ interpreter.evaluate tag = (.ok .undefined, after)) ∨
      ∃ fault, answer = .error fault ∧ interpreter.evaluate tag = (.error fault, after) := by
  have hagree : interpreter.evaluate (.closeTag "If" [⟨"condition", condition⟩]) =
      interpreter.exec (do
        let b ← Statement.evalCondition interpreter.host [⟨"condition", condition⟩]
        pure (.boolean b)) :=
    exec_congr (Statement.exec_condition_call interpreter.host hif condition)
  rw [hagree] at hcall
  rcases htest : interpreter.exec
      (Statement.evalCondition interpreter.host [⟨"condition", condition⟩]) with ⟨fault | b, j⟩
  · rw [exec_bind_of_error _ htest] at hcall
    cases hcall
    exact .inr (.inr ⟨fault, rfl, exec_bind_of_error _ htest⟩)
  · rw [exec_bind_of_ok _ htest, exec_pure] at hcall
    cases hcall
    cases b with
    | false => exact .inr (.inl ⟨rfl, exec_bind_of_ok _ htest⟩)
    | true =>
      refine .inl ⟨rfl, fun result final => ?_⟩
      have htag : interpreter.evaluate (.ifTag name [⟨"condition", condition⟩] children) =
          after.exec (do Statement.evalAll interpreter.host children; pure .undefined) :=
        exec_bind_of_ok _ htest
      rw [htag, ← (exec_eq_iff.1 htest).1, exec_evalAll_eq_iff]

theorem evaluate_ifTag_of_call_flag :
    let greater : Statement := .binary (.number 2) .greater (.number 1)
    let interpreter := (standard.evaluate
      (.closeTag "Let" [⟨"id", .identifier "flag"⟩, ⟨"value", greater⟩])).2
    let params : List (Entry Statement) := [⟨"condition", .wrapped (.identifier "flag")⟩]
    let children : List Statement := [.closeTag "Print" [⟨"text", .string "set"⟩], .number 1]
    interpreter.machine.env.lookupCallable? "If" = some (.native .condition) ∧
      interpreter.evaluate (.closeTag "If" params) = (.ok (.boolean true), interpreter) ∧
      ∀ result final, interpreter.evaluate (.ifTag "If" params children) = (result, final) ↔
        interpreter.Performs children result final := by
  intro greater interpreter params children
  have hif : interpreter.machine.env.lookupCallable? "If" = some (.native .condition) := rfl
  have hcall : interpreter.evaluate (.closeTag "If" params) =
      (.ok (.boolean true), interpreter) := rfl
  refine ⟨hif, hcall, ?_⟩
  rcases evaluate_ifTag_of_call hif hcall "If" children with
    ⟨-, h⟩ | ⟨hfalse, -⟩ | ⟨fault, hfault, -⟩
  · exact h
  · cases hfalse
  · cases hfault

inductive Delivers : Interpreter → Statement → Value → Interpreter → Prop
  | byName {i j s name value} (hs : s.unwrapped = .identifier name)
    (h : i.evaluate s = (.ok value, j)) : Delivers i s (.identifier value) j
  | evaluated {i j s value} (hs : ∀ name, s.unwrapped ≠ .identifier name)
    (h : i.evaluate s = (.ok value, j)) : Delivers i s value j

inductive DeliversAll :
    Interpreter → List (Entry Statement) → List (Entry Value) → Interpreter → Prop
  | nil {i} : DeliversAll i [] [] i
  | cons {i j k param params value values} (h : Delivers i param.value value j)
    (hrest : DeliversAll j params values k) :
    DeliversAll i (param :: params) (⟨param.key, value⟩ :: values) k

end Interpreter

inductive Value.Shows : Value → Option String → Prop
  | text {text} : Shows (.string text) (some text)
  | byName {value} : Shows (.identifier value) (some value.display)
  | nothing {value} (hstring : value.type ≠ .string) (hmarked : value.type ≠ .identifier) :
    Shows value none

def Arguments.ShowsUnder (values : List (Entry Value)) (key : String) (text : Option String) :
    Prop :=
  ∃ value, Entry.get? key values.reverse = some value ∧ value.Shows text

namespace Interpreter

/-- What a call of the printing function comes to. The first fault among its parameters is its own,
and otherwise it adds one line to what they have printed. -/
inductive Prints (i : Interpreter) :
    List (Entry Statement) → Except Fault Value → Interpreter → Prop
  | failed {before param after values fault j k} (hbefore : i.DeliversAll before values j)
    (h : j.evaluate param.value = (.error fault, k)) :
    Prints i (before ++ param :: after) (.error fault) k
  | printed {params values texts j} (hparams : i.DeliversAll params values j)
    (htexts : List.Forall₂ (Arguments.ShowsUnder values) (Entry.keys values).eraseDups texts) :
    Prints i params (.ok .undefined)
      { j with machine.printer :=
        j.machine.printer.append (" ".intercalate texts.reduceOption ++ "\n") }

end Interpreter

theorem Value.shows_iff {value : Value} {text : Option String} :
    value.Shows text ↔ value.printed? = text := by
  constructor
  · intro h
    cases h with
    | text => rfl
    | byName => rfl
    | nothing hstring hmarked =>
      cases value with
      | string => exact absurd rfl hstring
      | identifier => exact absurd rfl hmarked
      | _ => rfl
  · rintro rfl
    cases value with
    | string => exact .text
    | identifier => exact .byName
    | _ => exact .nothing nofun nofun

namespace Arguments

theorem rightUnique_showsUnder (values : List (Entry Value)) :
    Relator.RightUnique (ShowsUnder values) := by
  rintro key text text' ⟨value, hvalue, htext⟩ ⟨value', hvalue', htext'⟩
  cases hvalue.symm.trans hvalue'
  rw [← Value.shows_iff.1 htext, ← Value.shows_iff.1 htext']

theorem forall₂_showsUnder_iff {values : List (Entry Value)} {texts : List (Option String)} :
    List.Forall₂ (ShowsUnder values) (Entry.keys values).eraseDups texts ↔
      (ofList values).entries.map (·.value.printed?) = texts := by
  have hentries : List.Forall₂ (ShowsUnder values) (Entry.keys values).eraseDups
      ((ofList values).entries.map (·.value.printed?)) := by
    rw [← keys_ofList, Entry.keys, List.forall₂_map_left_iff, List.forall₂_map_right_iff,
      List.forall₂_same]
    intro e he
    exact ⟨e.value, get?_of_mem_ofList values he, Value.shows_iff.2 rfl⟩
  constructor
  · exact List.right_unique_forall₂' (rightUnique_showsUnder values) hentries
  · rintro rfl
    exact hentries

theorem printedLine_eq (args : Arguments) :
    args.printedLine = " ".intercalate (args.entries.map (·.value.printed?)).reduceOption := by
  rw [printedLine, List.reduceOption, List.filterMap_map]
  rfl

end Arguments

theorem Printer.printAll_singleton (line : String) (p : Printer) :
    p.printAll [line] = p.append (line ++ "\n") := by
  cases p <;> simp [printAll, println, append, String.append_assoc]

namespace Interpreter

variable {i j : Interpreter} {params : List (Entry Statement)} {values : List (Entry Value)}

theorem Delivers.exists_evaluate {s : Statement} {value : Value} (h : i.Delivers s value j) :
    ∃ v, i.evaluate s = (.ok v, j) ∧ s.delivered v = value := by
  cases h with
  | byName hs h => exact ⟨_, h, Statement.delivered_of_name hs _⟩
  | evaluated hs h => exact ⟨_, h, Statement.delivered_of_not_name hs _⟩

theorem exists_delivers {s : Statement} {v : Value} (h : i.evaluate s = (.ok v, j)) :
    ∃ value, i.Delivers s value j := by
  by_cases hs : ∃ name, s.unwrapped = .identifier name
  · obtain ⟨name, hname⟩ := hs
    exact ⟨_, .byName hname h⟩
  · exact ⟨_, .evaluated (fun name hname => hs ⟨name, hname⟩) h⟩

theorem DeliversAll.exec_evalArguments (h : i.DeliversAll params values j) (args : Arguments) :
    i.exec (Statement.evalArguments i.host (fun _ => false) params args) =
      (.ok (values.foldl (fun args e => args.insert e.key e.value) args), j) := by
  induction h generalizing args with
  | nil => rfl
  | cons h _ ih =>
    obtain ⟨v, hv, rfl⟩ := h.exists_evaluate
    rw [(exec_eq_iff.1 hv).1] at ih
    rw [Statement.evalArguments_cons, Statement.evalArgument_eq_delivered, bind_assoc,
      exec_bind_of_ok _ hv, pure_bind, ih]
    rfl

theorem deliversAll_or_fails (i : Interpreter) (params : List (Entry Statement)) :
    (∃ values j, i.DeliversAll params values j) ∨
      ∃ before param after values fault j k, params = before ++ param :: after ∧
        i.DeliversAll before values j ∧ j.evaluate param.value = (.error fault, k) := by
  induction params generalizing i with
  | nil => exact .inl ⟨[], i, .nil⟩
  | cons param rest ih =>
    rcases h : i.evaluate param.value with ⟨fault | v, j⟩
    · exact .inr ⟨[], param, rest, [], fault, i, j, rfl, .nil, h⟩
    · obtain ⟨value, hvalue⟩ := exists_delivers h
      rcases ih j with ⟨values, k, hrest⟩ |
        ⟨before, next, after, values, fault, k, l, rfl, hbefore, h⟩
      · exact .inl ⟨_, k, .cons hvalue hrest⟩
      · exact .inr ⟨param :: before, next, after, _, fault, k, l, rfl, .cons hvalue hbefore, h⟩

theorem exists_prints (i : Interpreter) (params : List (Entry Statement)) :
    ∃ result j, i.Prints params result j := by
  rcases i.deliversAll_or_fails params with
    ⟨values, j, h⟩ | ⟨before, param, after, values, fault, j, k, rfl, hbefore, h⟩
  · exact ⟨_, _, .printed h (Arguments.forall₂_showsUnder_iff.2 rfl)⟩
  · exact ⟨_, _, .failed hbefore h⟩

theorem Prints.evaluate_eq {result : Except Fault Value} {name : String}
    (h : i.Prints params result j)
    (hname : name ≠ letName) (hprint : i.machine.env.lookupCallable? name = some (.native .print)) :
    i.evaluate (.closeTag name params) = (result, j) := by
  have hcallee : i.exec (Run.callee name) = (.ok .print, i) :=
    exec_eq_iff.2 ⟨rfl, by rw [Run.exec_callee, hprint]⟩
  rw [evaluate, Statement.eval, if_neg hname, exec_bind_of_ok _ hcallee]
  cases h with
  | failed hbefore h =>
    have hexec := hbefore.exec_evalArguments .empty
    rw [Statement.evalArguments_append, bind_assoc, exec_bind_of_ok _ hexec,
      ← (exec_eq_iff.1 hexec).1, Statement.evalArguments_cons, Statement.evalArgument_eq_delivered]
    simp only [bind_assoc]
    rw [exec_bind_of_error _ h]
  | @printed _ values texts j hparams htexts =>
    have hline : (Arguments.ofList values).printedLine = " ".intercalate texts.reduceOption := by
      rw [Arguments.printedLine_eq, Arguments.forall₂_showsUnder_iff.1 htexts]
    rw [exec_bind_of_ok _ (hparams.exec_evalArguments .empty)]
    refine exec_eq_iff.2 ⟨rfl, ?_⟩
    rw [Run.exec_call, Native.call, Printer.printAll_singleton, ← hline]
    rfl

/-- Calls of the printing function go by its rules. A tag named `Let` calls no function. -/
theorem evaluate_print_iff_prints {interpreter : Interpreter} {name : String} (hname : name ≠ "Let")
    (hprint : interpreter.machine.env.lookupCallable? name = some (.native .print))
    (params : List (Entry Statement)) (result : Except Fault Value) (after : Interpreter) :
    interpreter.evaluate (.closeTag name params) = (result, after) ↔
      interpreter.Prints params result after := by
  constructor
  · intro h
    obtain ⟨result', after', hprints⟩ := interpreter.exists_prints params
    cases h.symm.trans (hprints.evaluate_eq hname hprint)
    exact hprints
  · exact fun h => h.evaluate_eq hname hprint

theorem evaluate_print_iff_prints_again :
    let greater : Statement := .binary (.number 2) .greater (.number 1)
    let interpreter := ((build ⟨.isolated, .none⟩ (.buffer "old") []).evaluate
      (.closeTag "Let" [⟨"id", .identifier "flag"⟩, ⟨"value", greater⟩])).2
    let params : List (Entry Statement) :=
      [⟨"a", .string "x"⟩, ⟨"b", .number 1⟩, ⟨"c", .string "z"⟩, ⟨"a", .identifier "flag"⟩]
    "Print" ≠ "Let" ∧
      interpreter.machine.env.lookupCallable? "Print" = some (.native .print) ∧
      interpreter.Prints params (.ok .undefined)
        { interpreter with machine.printer := .buffer "oldtrue z\n" } := by
  intro greater interpreter params
  have hname : "Print" ≠ "Let" := by decide
  have hprint : interpreter.machine.env.lookupCallable? "Print" = some (.native .print) := rfl
  exact ⟨hname, hprint, (evaluate_print_iff_prints hname hprint params _ _).1 rfl⟩

end Interpreter

end TagScript
