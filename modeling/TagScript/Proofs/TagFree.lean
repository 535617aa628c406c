import TagScript.Proofs.Declaration

namespace TagScript

namespace Statement

def TagFree (s : Statement) : Prop := ∀ t ∈ s.nodes, ¬ t.IsTag

instance : DecidablePred TagFree := fun _ => inferInstanceAs (Decidable (∀ _ ∈ _, _))

end Statement

namespace Run

variable {α β : Type} {names : String → Prop}

/-- Neither computation changes its machine, and both come to the same on machines on which these
names stand for the same. -/
def OnlyReads (names : String → Prop) (x y : Run α) : Prop :=
  ∀ m n : Machine, (∀ name, names name → m.env.lookup? name = n.env.lookup? name) →
    ∃ result, x.exec m = (result, m) ∧ y.exec n = (result, n)

namespace OnlyReads

theorem pure (a : α) : OnlyReads names (pure a) (pure a) :=
  fun _ _ _ => ⟨.ok a, rfl, rfl⟩

theorem lift (r : Except Fault α) : OnlyReads names (liftExcept r) (liftExcept r) :=
  fun m n _ => ⟨r, exec_liftExcept r m, exec_liftExcept r n⟩

theorem bind {x y : Run α} {f g : α → Run β} (hx : OnlyReads names x y)
    (hf : ∀ a, OnlyReads names (f a) (g a)) : OnlyReads names (x >>= f) (y >>= g) := by
  intro m n hmn
  obtain ⟨result, hm, hn⟩ := hx m n hmn
  cases result with
  | error fault => exact ⟨.error fault, exec_bind_of_error f hm, exec_bind_of_error g hn⟩
  | ok a =>
    rw [exec_bind_of_ok f hm, exec_bind_of_ok g hn]
    exact hf a m n hmn

theorem readVariable {name : String} (h : names name) :
    OnlyReads names (readVariable name) (readVariable name) := by
  intro m n hmn
  rw [exec_readVariable, exec_readVariable, hmn name h]
  cases n.env.lookup? name with
  | some value => exact ⟨.ok value, rfl, rfl⟩
  | none => exact ⟨.error (.undefinedIdentifier name), rfl, rfl⟩

theorem exec_eq_self {x : Run α} (h : OnlyReads names x x) (m : Machine) : (x.exec m).2 = m := by
  obtain ⟨result, hm, -⟩ := h m m fun _ _ => rfl
  rw [hm]

end OnlyReads

end Run

namespace Statement

variable {names : String → Prop} {left right : Host}

def Reads (names : String → Prop) (t : Statement) : Prop :=
  ¬ t.IsTag ∧ ∀ name, t = identifier name → names name

theorem onlyReads_reduce {items : List Statement}
    (h : ∀ item ∈ items, Run.OnlyReads names (item.eval left) (item.eval right))
    (stack : List Value) :
    Run.OnlyReads names (reduce left stack items) (reduce right stack items) := by
  induction items generalizing stack with
  | nil => exact .pure stack
  | cons item rest ih =>
    obtain ⟨hitem, hrest⟩ := List.forall_mem_cons.1 h
    simp only [reduce]
    split
    · exact .bind (.lift _) fun stack => ih hrest stack
    · exact .bind hitem fun value => ih hrest (value :: stack)

mutual

theorem onlyReads_eval : ∀ s : Statement, (∀ t ∈ s.nodes, t.Reads names) →
    Run.OnlyReads names (s.eval left) (s.eval right)
  | openTag .., h => absurd (.inl rfl) (h _ List.mem_cons_self).1
  | closeTag .., h => absurd (.inr (.inl rfl)) (h _ List.mem_cons_self).1
  | ifTag .., h => absurd (.inr (.inr rfl)) (h _ List.mem_cons_self).1
  | identifier name, h => .readVariable ((h _ List.mem_cons_self).2 name rfl)
  | number n, _ => .pure (Value.number n)
  | string text, _ => .pure (Value.string text)
  | .expression items, h => by
    simp only [nodes, List.forall_mem_cons] at h
    rw [eval_expression, eval_expression]
    exact .bind (onlyReads_reduce (onlyReads_item items h.2) []) fun stack => .lift _
  | wrapped inner, h => by
    simp only [nodes, List.forall_mem_cons] at h
    exact onlyReads_eval inner h.2
  | operator _, _ => .lift (.error _)
  | endMark, _ => .pure Value.undefined

theorem onlyReads_item : ∀ items : List Statement, (∀ t ∈ allNodes items, t.Reads names) →
    ∀ item ∈ items, Run.OnlyReads names (item.eval left) (item.eval right)
  | [], _ => List.forall_mem_nil _
  | item :: rest, h => by
    simp only [allNodes, List.forall_mem_append] at h
    exact List.forall_mem_cons.2 ⟨onlyReads_eval item h.1, onlyReads_item rest h.2⟩

end

theorem TagFree.onlyReads {s : Statement} (h : s.TagFree) (left right : Host) :
    Run.OnlyReads (identifier · ∈ s.nodes) (s.eval left) (s.eval right) :=
  onlyReads_eval s fun t ht => ⟨h t ht, by rintro name rfl; exact ht⟩

theorem onlyReads_evalArgument {param : Entry Statement} (h : param.value.TagFree) (host : Host)
    (asksName : String → Bool) :
    Run.OnlyReads (fun _ => True) (evalArgument host asksName param)
      (evalArgument host asksName param) := by
  rw [evalArgument]
  split
  · rw [Run.nameArgument]
    split
    · exact .pure _
    · exact .bind (.readVariable trivial) fun value => .pure _
  · exact onlyReads_eval param.value fun t ht => ⟨h t ht, fun _ _ => trivial⟩

theorem onlyReads_evalArguments {params : List (Entry Statement)}
    (h : ∀ param ∈ params, param.value.TagFree) (host : Host) (asksName : String → Bool)
    (args : Arguments) :
    Run.OnlyReads (fun _ => True) (evalArguments host asksName params args)
      (evalArguments host asksName params args) := by
  induction params generalizing args with
  | nil => exact .pure args
  | cons param rest ih =>
    obtain ⟨hparam, hrest⟩ := List.forall_mem_cons.1 h
    rw [evalArguments_cons]
    exact .bind (onlyReads_evalArgument hparam host asksName) fun value => ih hrest _

end Statement

namespace Run

variable {α β : Type}

def KeepsEnv (x : Run α) : Prop := ∀ m, (x.exec m).2.env = m.env

theorem KeepsEnv.bind {x : Run α} {f : α → Run β} (hx : x.KeepsEnv) (hf : ∀ a, (f a).KeepsEnv) :
    (x >>= f).KeepsEnv := by
  intro m
  rw [exec_bind, ← hx m]
  split
  · next a n h => rw [hf a n, h]
  · next fault n h => rw [h]

theorem OnlyReads.keepsEnv {names : String → Prop} {x : Run α} (h : OnlyReads names x x) :
    x.KeepsEnv :=
  fun m => congrArg Machine.env (h.exec_eq_self m)

theorem keepsEnv_callee (name : String) : (callee name).KeepsEnv := by
  intro m
  rw [exec_callee]
  split <;> rfl

theorem keepsEnv_call (library : Library) (f : Native) (args : Arguments) :
    (call library f args).KeepsEnv := by
  intro m
  rw [exec_call]

theorem declareFrom_fails_or_declares (args : Arguments) (m : Machine) :
    (∃ fault, (declareFrom args).exec m = (.error fault, m)) ∨
      ∃ name value, m.env.lookup? name = none ∧ (declareFrom args).exec m =
        (.ok .undefined, { m with env := m.env.modifyCurrent (·.extend [⟨name, value⟩]) }) := by
  rw [exec_declareFrom]
  split
  · exact .inl ⟨_, rfl⟩
  · exact .inl ⟨_, rfl⟩
  · split
    · exact .inl ⟨_, rfl⟩
    · next h => exact .inr ⟨_, _, Option.not_isSome_iff_eq_none.1 h, rfl⟩
  · exact .inl ⟨_, rfl⟩

end Run

namespace Statement

variable {name : String} {params : List (Entry Statement)}

theorem keepsEnv_call_of_tagFree (hname : name ≠ letName)
    (h : ∀ param ∈ params, param.value.TagFree) (host : Host) :
    (eval host (closeTag name params)).KeepsEnv := by
  rw [eval, if_neg hname]
  apply (Run.keepsEnv_callee name).bind
  intro f
  exact (onlyReads_evalArguments h host _ _).keepsEnv.bind (Run.keepsEnv_call _ f)

theorem let_fails_or_declares_of_tagFree (h : ∀ param ∈ params, param.value.TagFree) (host : Host)
    (m : Machine) :
    (∃ fault, (eval host (closeTag letName params)).exec m = (.error fault, m)) ∨
      ∃ name value, m.env.lookup? name = none ∧ (eval host (closeTag letName params)).exec m =
        (.ok .undefined, { m with env := m.env.modifyCurrent (·.extend [⟨name, value⟩]) }) := by
  obtain ⟨result, hargs, -⟩ :=
    onlyReads_evalArguments h host (· = "id") .empty m m fun _ _ => rfl
  rw [eval, if_pos rfl]
  cases result with
  | error fault => exact .inl ⟨fault, Run.exec_bind_of_error _ hargs⟩
  | ok args =>
    rw [Run.exec_bind_of_ok _ hargs]
    exact Run.declareFrom_fails_or_declares args m

end Statement

namespace Interpreter

/-- Statements without tags change nothing, and what they come to depends on what their names stand
for. A closing tag that has such parameters leaves the scopes as they are, except that a declaration
that succeeds binds one new name. -/
theorem evaluate_tagFree_and_closeTag (interpreter : Interpreter) :
    (∀ s : Statement, s.TagFree → (interpreter.evaluate s).2 = interpreter ∧
      ∀ other : Interpreter, (∀ name, .identifier name ∈ s.nodes →
          interpreter.machine.env.lookup? name = other.machine.env.lookup? name) →
        (interpreter.evaluate s).1 = (other.evaluate s).1) ∧
    ∀ name params, (∀ param ∈ params, param.value.TagFree) →
      let outcome := interpreter.evaluate (.closeTag name params)
      let before := interpreter.machine.env
      let after := outcome.2.machine.env
      (∀ fault, outcome.1 = .error fault → after = before) ∧
      (∀ value, outcome.1 = .ok value → name = "Let" → ∃ x v, before.lookup? x = none ∧
        after = before.modifyCurrent (·.extend [⟨x, v⟩])) ∧
      (∀ value, outcome.1 = .ok value → name ≠ "Let" → after = before) := by
  rcases interpreter with ⟨host, m⟩
  constructor
  · intro s hs
    constructor
    · exact congrArg (Interpreter.mk host) ((hs.onlyReads host host).exec_eq_self m)
    · rintro ⟨host', n⟩ hnames
      obtain ⟨result, hm, hn⟩ := hs.onlyReads host host' m n hnames
      exact (congrArg Prod.fst hm).trans (congrArg Prod.fst hn).symm
  · intro name params hparams outcome before after
    by_cases hname : name = letName
    · subst hname
      rcases Statement.let_fails_or_declares_of_tagFree hparams host m with
        ⟨fault, h⟩ | ⟨x, v, hx, h⟩
      · have henv : after = before := congrArg (·.2.env) h
        have hfault : outcome.1 = .error fault := congrArg Prod.fst h
        refine ⟨fun _ _ => henv, ?_, fun _ _ _ => henv⟩
        intro value hvalue
        cases hvalue.symm.trans hfault
      · have hvalue : outcome.1 = .ok .undefined := congrArg Prod.fst h
        refine ⟨?_, fun _ _ _ => ⟨x, v, hx, congrArg (·.2.env) h⟩, fun _ _ hne => absurd rfl hne⟩
        intro fault hfault
        cases hfault.symm.trans hvalue
    · have henv : after = before := Statement.keepsEnv_call_of_tagFree hname hparams host m
      exact ⟨fun _ _ => henv, fun _ _ hlet => absurd hlet hname, fun _ _ _ => henv⟩

theorem evaluate_tagFree_and_closeTag_division :
    let x : Entry Value := ⟨"x", .number 6⟩
    let m : Machine := ⟨⟨⟨[x], [.undefined]⟩, []⟩, .buffer "earlier\n"⟩
    let n : Machine := ⟨⟨⟨[⟨"y", .number 1⟩], []⟩, [⟨⟨[x], []⟩, false⟩]⟩, .console ""⟩
    let left : Interpreter := ⟨⟨.lexical, .none⟩, m⟩
    let right : Interpreter := ⟨⟨.isolated, .none⟩, n⟩
    let s : Statement :=
      .binary (.number 7) .add (.binary (.wrapped (.identifier "x")) .divide (.number 0))
    let params : List (Entry Statement) :=
      [⟨"id", .identifier "y"⟩, ⟨"value", .binary (.identifier "x") .multiply (.number 7)⟩]
    let outcome := left.evaluate (.closeTag "Let" params)
    s.TagFree ∧ left.evaluate s = (.error .divisionByZero, left) ∧
      (right.evaluate s).1 = .error .divisionByZero ∧
      (∀ param ∈ params, param.value.TagFree) ∧ outcome.1 = .ok .undefined ∧
      ∃ name value, m.env.lookup? name = none ∧
        outcome.2.machine.env = m.env.modifyCurrent (·.extend [⟨name, value⟩]) := by
  intro x m n left right s params outcome
  have hs : s.TagFree := by decide
  have hparams : ∀ param ∈ params, param.value.TagFree := by decide
  have hnames : ∀ name, .identifier name ∈ s.nodes → m.env.lookup? name = n.env.lookup? name := by
    intro name hname
    obtain rfl : name = "x" := by
      simpa [s, Statement.binary, Statement.nodes, Statement.allNodes] using hname
    rfl
  obtain ⟨hpure, hcloseTag⟩ := evaluate_tagFree_and_closeTag left
  obtain ⟨hstate, hresult⟩ := hpure s hs
  have hleft : (left.evaluate s).1 = .error .divisionByZero := rfl
  refine ⟨hs, Prod.ext hleft hstate, (hresult right hnames).symm.trans hleft, hparams, rfl, ?_⟩
  exact (hcloseTag "Let" params hparams).2.1 .undefined rfl rfl

end Interpreter

end TagScript
