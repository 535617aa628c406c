import TagScript.Proofs.Respect

/-!
The course of an evaluation: which statements it comes to evaluate, each on the machine as it is by
then, and which calls it makes. The description of the calls is adequate, since they are all that an
evaluation asks of the functions of its host. A discipline that evaluation respects is respected all
the way.
-/

namespace TagScript

namespace Statement

/-- Evaluating a statement on a machine takes evaluating a part of it, on the machine that the parts
before it have left. -/
inductive Takes (host : Host) : Statement → Machine → Statement → Machine → Prop
  | child {name params before child after m n v} (hbefore : ∀ s ∈ before, s.kind ≠ .ifTag)
    (hchild : child.kind = .openTag ∨ child.kind = .closeTag ∨ child.kind = .ifTag)
    (h : (evalBlock host before).exec { m with env := m.env.enter host.scoping } = (.ok v, n)) :
    Takes host (openTag name params (before ++ child :: after)) m child n
  | declared {before key s after m n args} (hs : s.bareName? = none)
    (h : (evalArguments host (· = "id") before .empty).exec m = (.ok args, n)) :
    Takes host (closeTag letName (before ++ ⟨key, s⟩ :: after)) m s n
  | argument {name before key s after m n f args} (hname : name ≠ letName)
    (hf : (Run.callee name).exec m = (.ok f, m)) (hs : s.bareName? = none)
    (h : (evalArguments host (fun _ => false) before .empty).exec m = (.ok args, n)) :
    Takes host (closeTag name (before ++ ⟨key, s⟩ :: after)) m s n
  | condition {name condition params children m} :
    Takes host (ifTag name (⟨"condition", condition⟩ :: params) children) m condition m
  | body {name params before child after m m' n}
    (hcondition : (evalCondition host params).exec m = (.ok true, m'))
    (h : (evalAll host before).exec m' = (.ok (), n)) :
    Takes host (ifTag name params (before ++ child :: after)) m child n
  | item {before item after m n} (hitem : item.operator? = none)
    (h : (evalItems host m.env.operandDepth before).exec m = (.ok (), n)) :
    Takes host (expression (before ++ item :: after)) m item n
  | wrapped {inner m} : Takes host (wrapped inner) m inner m

inductive ComesTo (host : Host) (s : Statement) (m : Machine) : Statement → Machine → Prop
  | start : ComesTo host s m s m
  | next {t u n k} (h : ComesTo host s m t n) (hnext : Takes host t n u k) : ComesTo host s m u k

/-- In the course of evaluating a statement, a function is called with arguments that come from these
parameters. -/
inductive Calls (host : Host) (s : Statement) (m : Machine) :
    Native → List (Entry Statement) → Arguments → Prop
  | intro {name params n n' f args} (h : ComesTo host s m (closeTag name params) n)
    (hname : name ≠ letName) (hf : (Run.callee name).exec n = (.ok f, n))
    (hargs : (evalArguments host (fun _ => false) params .empty).exec n = (.ok args, n')) :
    Calls host s m f params args

def IsTag (s : Statement) : Prop := s.kind = .openTag ∨ s.kind = .closeTag ∨ s.kind = .ifTag

instance : DecidablePred IsTag := fun _ => inferInstanceAs (Decidable (_ ∨ _ ∨ _))

section

variable {host : Host} {child : Statement} (rest : List Statement)

theorem evalBlock_cons_of_ifTag (h : child.kind = .ifTag) :
    evalBlock host (child :: rest) = eval host child := by
  simp only [evalBlock, h]

theorem evalBlock_cons_of_tag (h : child.kind = .openTag ∨ child.kind = .closeTag) :
    evalBlock host (child :: rest) = (do discard (eval host child); evalBlock host rest) := by
  rcases h with h | h <;> simp only [evalBlock, h]

theorem evalBlock_cons_of_not_tag (hif : child.kind ≠ .ifTag)
    (h : ¬(child.kind = .openTag ∨ child.kind = .closeTag)) :
    evalBlock host (child :: rest) = evalBlock host rest := by
  simp only [evalBlock]
  split
  · contradiction
  · next hkind => exact absurd (.inl hkind) h
  · next hkind => exact absurd (.inr hkind) h
  · rfl

end

def evalArgument (host : Host) (asksName : String → Bool) (param : Entry Statement) : Run Value :=
  match param.value.bareName? with
  | some name => Run.nameArgument (asksName param.key) name
  | none => eval host param.value

theorem evalArguments_cons {host : Host} (asksName : String → Bool) (param : Entry Statement)
    (rest : List (Entry Statement)) (args : Arguments) :
    evalArguments host asksName (param :: rest) args =
      evalArgument host asksName param >>= fun value =>
        evalArguments host asksName rest (args.insert param.key value) := by
  simp only [evalArguments, evalArgument]
  cases param.value.bareName? <;> rfl

theorem evalArguments_append {host : Host} (asksName : String → Bool)
    (before after : List (Entry Statement)) (args : Arguments) :
    evalArguments host asksName (before ++ after) args =
      evalArguments host asksName before args >>= fun args =>
        evalArguments host asksName after args := by
  induction before generalizing args with
  | nil => rfl
  | cons param rest ih => simp only [List.cons_append, evalArguments_cons, bind_assoc, ih]

theorem ComesTo.head {host : Host} {s t u : Statement} {m n k : Machine}
    (hfirst : Takes host s m t n) (h : ComesTo host t n u k) : ComesTo host s m u k := by
  induction h with
  | start => exact .next .start hfirst
  | next _ hnext ih => exact .next ih hnext

def Agrees (host : Host) (library : Library) (s : Statement) (m : Machine) : Prop :=
  ∀ f params args, s.Calls host m f params args → f.call host.library args = f.call library args

theorem Agrees.takes {host : Host} {library : Library} {s t : Statement} {m n : Machine}
    (h : Agrees host library s m) (htakes : Takes host s m t n) : Agrees host library t n := by
  rintro f params args ⟨hcomes, hname, hf, hargs⟩
  exact h f params args (.intro (hcomes.head htakes) hname hf hargs)

section

variable (host : Host) (library : Library)

mutual

/-- Adequacy of `Calls`, which misses no call that an evaluation makes: the evaluation cannot tell two
libraries apart that reply alike to those calls. -/
theorem exec_eval_congr : ∀ (s : Statement) {m : Machine}, Agrees host library s m →
    (s.eval host).exec m = (s.eval ⟨host.scoping, library⟩).exec m
  | openTag name params children, m, h => by
    simp only [eval]
    rw [Run.exec_inBlock, Run.exec_inBlock, exec_evalBlock_congr children]
    rintro before child after n v rfl hbefore hchild hexec
    exact h.takes (.child hbefore hchild hexec)
  | closeTag name params, m, h => by
    simp only [eval]
    split
    · next hname =>
      subst hname
      refine Run.exec_bind_congr (exec_evalArguments_congr _ params ?_) fun _ _ _ => rfl
      rintro before param after n args rfl hparam hexec
      exact h.takes (.declared hparam hexec)
    · next hname =>
      refine Run.exec_bind_congr rfl fun f n hf => ?_
      obtain rfl := Run.eq_of_exec_callee hf
      refine Run.exec_bind_congr (exec_evalArguments_congr _ params ?_) fun args n' hargs => ?_
      · rintro before param after n args rfl hparam hexec
        exact h.takes (.argument hname hf hparam hexec)
      · rw [Run.exec_call, Run.exec_call, h f params args (.intro .start hname hf hargs)]
  | ifTag name params children, m, h => by
    simp only [eval]
    refine Run.exec_bind_congr (exec_evalCondition_congr params ?_) fun holds n hholds => ?_
    · rintro key condition rest rfl rfl
      exact h.takes .condition
    · cases holds with
      | true =>
        refine Run.exec_bind_congr (exec_evalAll_congr children ?_) fun _ _ _ => rfl
        rintro before child after n rfl hexec
        exact h.takes (.body hholds hexec)
      | false => rfl
  | identifier name, _, _ => rfl
  | number n, _, _ => rfl
  | string text, _, _ => rfl
  | .expression items, m, h => by
    simp only [eval]
    refine Run.exec_onOperands_congr (exec_evalItems_congr items _ ?_)
    rintro before item after n rfl hitem hexec
    exact h.takes (.item hitem hexec)
  | wrapped inner, m, h => exec_eval_congr inner (h.takes .wrapped)
  | operator _, _, _ => rfl
  | endMark, _, _ => rfl

-- For lists, what is known of an item is known on the machine that the items before it have left.
theorem exec_evalBlock_congr : ∀ (children : List Statement) {m : Machine},
    (∀ before child after n v, children = before ++ child :: after →
      (∀ s ∈ before, s.kind ≠ .ifTag) →
      (child.kind = .openTag ∨ child.kind = .closeTag ∨ child.kind = .ifTag) →
      (evalBlock host before).exec m = (.ok v, n) → Agrees host library child n) →
    (evalBlock host children).exec m = (evalBlock ⟨host.scoping, library⟩ children).exec m
  | [], _, _ => rfl
  | child :: rest, m, h => by
    by_cases hif : child.kind = .ifTag
    · rw [evalBlock_cons_of_ifTag rest hif, evalBlock_cons_of_ifTag rest hif]
      exact exec_eval_congr child (h [] child rest m _ rfl nofun (.inr (.inr hif)) rfl)
    by_cases htag : child.kind = .openTag ∨ child.kind = .closeTag
    · have hchild := exec_eval_congr child
        (h [] child rest m _ rfl nofun (htag.imp_right .inl) rfl)
      rw [evalBlock_cons_of_tag rest htag, evalBlock_cons_of_tag rest htag]
      refine Run.exec_bind_congr (Run.exec_discard_congr hchild) fun _ n hn => ?_
      apply exec_evalBlock_congr rest
      rintro before next after k v rfl hbefore hnext hexec
      refine h (child :: before) next after k v rfl (List.forall_mem_cons.2 ⟨hif, hbefore⟩) hnext ?_
      rw [evalBlock_cons_of_tag before htag, Run.exec_bind_of_ok _ hn, hexec]
    · rw [evalBlock_cons_of_not_tag rest hif htag, evalBlock_cons_of_not_tag rest hif htag]
      apply exec_evalBlock_congr rest
      rintro before next after k v rfl hbefore hnext hexec
      refine h (child :: before) next after k v rfl (List.forall_mem_cons.2 ⟨hif, hbefore⟩) hnext ?_
      rw [evalBlock_cons_of_not_tag before hif htag, hexec]

theorem exec_evalAll_congr : ∀ (children : List Statement) {m : Machine},
    (∀ before child after n, children = before ++ child :: after →
      (evalAll host before).exec m = (.ok (), n) → Agrees host library child n) →
    (evalAll host children).exec m = (evalAll ⟨host.scoping, library⟩ children).exec m
  | [], _, _ => rfl
  | child :: rest, m, h => by
    simp only [evalAll]
    have hchild := exec_eval_congr child (h [] child rest m rfl rfl)
    refine Run.exec_bind_congr (Run.exec_discard_congr hchild) fun _ n hn => ?_
    apply exec_evalAll_congr rest
    rintro before next after k rfl hexec
    refine h (child :: before) next after k rfl ?_
    rw [evalAll, Run.exec_bind_of_ok _ hn, hexec]

theorem exec_evalCondition_congr : ∀ (params : List (Entry Statement)) {m : Machine},
    (∀ key condition rest, params = ⟨key, condition⟩ :: rest → key = "condition" →
      Agrees host library condition m) →
    (evalCondition host params).exec m = (evalCondition ⟨host.scoping, library⟩ params).exec m
  | [], _, _ => rfl
  | ⟨key, condition⟩ :: rest, m, h => by
    simp only [evalCondition]
    split
    · next hkey =>
      have hcondition := exec_eval_congr condition (h key condition rest rfl hkey)
      exact Run.exec_bind_congr hcondition fun _ _ _ => rfl
    · rfl

theorem exec_evalItems_congr : ∀ (items : List Statement) (base : Nat) {m : Machine},
    (∀ before item after n, items = before ++ item :: after → item.operator? = none →
      (evalItems host base before).exec m = (.ok (), n) → Agrees host library item n) →
    (evalItems host base items).exec m = (evalItems ⟨host.scoping, library⟩ base items).exec m
  | [], _, _, _ => rfl
  | item :: rest, base, m, h => by
    simp only [evalItems]
    split
    · next op hop =>
      refine Run.exec_bind_congr rfl fun _ n hn => ?_
      apply exec_evalItems_congr rest
      rintro before next after k rfl hnext hexec
      refine h (item :: before) next after k rfl hnext ?_
      simp only [evalItems, hop]
      rw [Run.exec_bind_of_ok _ hn, hexec]
    · next hitem =>
      have heval := exec_eval_congr item (h [] item rest m rfl hitem rfl)
      refine Run.exec_bind_congr heval fun value n hn => ?_
      refine Run.exec_bind_congr rfl fun _ n' hn' => ?_
      apply exec_evalItems_congr rest
      rintro before next after k rfl hnext hexec
      refine h (item :: before) next after k rfl hnext ?_
      simp only [evalItems, hitem]
      rw [Run.exec_bind_of_ok _ hn, Run.exec_bind_of_ok _ hn', hexec]

theorem exec_evalArguments_congr (asksName : String → Bool) : ∀ (params : List (Entry Statement))
    {args : Arguments} {m : Machine},
    (∀ before param after n args', params = before ++ param :: after →
      param.value.bareName? = none →
      (evalArguments host asksName before args).exec m = (.ok args', n) →
        Agrees host library param.value n) →
    (evalArguments host asksName params args).exec m =
      (evalArguments ⟨host.scoping, library⟩ asksName params args).exec m
  | [], _, _, _ => rfl
  | param :: rest, args, m, h => by
    rw [evalArguments_cons, evalArguments_cons]
    have hargument : (evalArgument host asksName param).exec m =
        (evalArgument ⟨host.scoping, library⟩ asksName param).exec m := by
      rw [evalArgument, evalArgument]
      split
      · rfl
      · next hparam =>
        exact exec_eval_congr param.value (h [] param rest m args rfl hparam rfl)
    refine Run.exec_bind_congr hargument fun value n hn => ?_
    apply exec_evalArguments_congr asksName rest
    rintro before next after k args' rfl hnext hexec
    refine h (param :: before) next after k args' rfl hnext ?_
    rw [evalArguments_cons, Run.exec_bind_of_ok _ hn, hexec]

end

end

end Statement

theorem Environment.Holds.stack {P : Value → Prop} {m : Machine} (h : m.env.Holds P)
    (values : List Value) : (m.stack values).env.Holds P := by
  intro scope hscope
  rcases mem_scopes_modifyCurrent hscope with rfl | hscope
  · exact fun e he => h _ m.env.current_mem_scopes e he
  · exact h scope hscope

namespace Statement

section

variable {d : Discipline} {host : Host} {F : Fault → Prop} {s t : Statement} {m n : Machine}
  (hrules : Rules d host host fun P x _ => x.Respects d F P) (hnode : ∀ s, d.node s)

include hrules hnode

theorem holds_evalItems {items : List Statement} (hm : m.env.Holds d.stored)
    (h : (evalItems host m.env.operandDepth items).exec m = (.ok (), n)) :
    n.env.Holds d.stored := by
  obtain ⟨left, hitems, -⟩ :=
    exec_evalItems (fun item _ => (congruence_uniform host).eval item) [] m
  have hreduce : (reduce host [] items).Respects d F d.stack :=
    hrules.reduce (fun item _ => hrules.eval item fun _ _ => hnode _) nofun
  rw [Machine.stack_nil, h] at hitems
  obtain rfl := congrArg Prod.snd hitems
  exact (hreduce m hm).1.stack left

theorem Takes.holds (h : Takes host s m t n) (hm : m.env.Holds d.stored) :
    n.env.Holds d.stored := by
  have hempty : d.arguments .empty := List.forall_mem_nil _
  cases h with
  | child _ _ h =>
    exact (hrules.evalBlock _ fun _ _ => hnode _).holds (hm.enter host.scoping) h
  | declared _ h => exact (hrules.evalArguments _ _ (fun _ _ => hnode _) hempty).holds hm h
  | argument _ _ _ h => exact (hrules.evalArguments _ _ (fun _ _ => hnode _) hempty).holds hm h
  | condition => exact hm
  | body hcondition h =>
    have hm' := (hrules.evalCondition _ fun _ _ => hnode _).holds hm hcondition
    exact (hrules.evalAll _ fun _ _ => hnode _).holds hm' h
  | item _ h => exact holds_evalItems hrules hnode hm h
  | wrapped => exact hm

theorem ComesTo.holds (h : ComesTo host s m t n) (hm : m.env.Holds d.stored) :
    n.env.Holds d.stored := by
  induction h with
  | start => exact hm
  | next _ hnext ih => exact hnext.holds hrules hnode ih

end

end Statement

end TagScript
