import TagScript.Machine

namespace TagScript

namespace Statement

mutual

def nodes : Statement → List Statement
  | openTag name params children =>
    openTag name params children :: (paramNodes params ++ allNodes children)
  | closeTag name params => closeTag name params :: paramNodes params
  | ifTag name params children =>
    ifTag name params children :: (paramNodes params ++ allNodes children)
  | expression items => expression items :: allNodes items
  | wrapped inner => wrapped inner :: inner.nodes
  | s => [s]

def allNodes : List Statement → List Statement
  | [] => []
  | s :: rest => s.nodes ++ allNodes rest

def paramNodes : List (Entry Statement) → List Statement
  | [] => []
  | ⟨_, s⟩ :: rest => s.nodes ++ paramNodes rest

end

theorem identifier_mem_nodes {s : Statement} {name : String} (h : s.bareName? = some name) :
    identifier name ∈ s.nodes := by
  fun_induction bareName? s with
  | case1 => cases h; exact List.mem_singleton_self _
  | case2 inner ih => exact List.mem_cons_of_mem _ (ih h)
  | case3 => cases h

end Statement

def Operator.Accepts (op : Operator) (left right : ValueType) : Prop :=
  left = .number ∧ right = .number ∨
    left = .string ∧ right = .string ∧ (op = .add ∨ op = .equal ∨ op = .notEqual)

namespace Fault

/-- What a fault has to say to be true, given which statements occur. -/
def Truthful (node : Statement → Prop) : Fault → Prop
  | undefinedIdentifier name => node (.identifier name)
  | missingParameter tag param =>
    tag = letName ∧ (param = "value" ∨ param = "id") ∨ tag = ifName ∧ param = "condition"
  | unexpectedParameter tag expected found =>
    tag = ifName ∧ expected = "condition" ∧ found ≠ "condition"
  | typeMismatch op left right =>
    ¬ op.Accepts left right ∧ left ≠ .identifier ∧ right ≠ .identifier
  | mismatchedType expected found =>
    (expected = .boolean ∨ expected = .string) ∧ found ≠ expected
  | unresolvedCall name => name ≠ letName ∧ ∃ params, node (.closeTag name params)
  | notCallable name found =>
    found ≠ .native ∧ name ≠ letName ∧ ∃ params, node (.closeTag name params)
  | integerOverflow operation =>
    operation ∈ ["addition", "subtraction", "multiplication", "division"]
  | duplicateVariable _ | divisionByZero | stackUnderflow | structural _ => True

end Fault

def Sound {α : Type} (node : Statement → Prop) (P : α → Prop) : Except Fault α → Prop
  | .ok a => P a
  | .error fault => fault.Truthful node

namespace Sound

variable {α β : Type} {node : Statement → Prop} {P : α → Prop} {r : Except Fault α}

theorem mono {Q : α → Prop} (h : Sound node P r) (hPQ : ∀ a, P a → Q a) : Sound node Q r := by
  cases r with
  | ok a => exact hPQ a h
  | error fault => exact h

theorem map {Q : β → Prop} {f : α → β} (h : Sound node P r) (hf : ∀ a, P a → Q (f a)) :
    Sound node Q (r.map f) := by
  cases r with
  | ok a => exact hf a h
  | error fault => exact h

end Sound

namespace Value

inductive Plain : Value → Prop
  | undefined : Plain .undefined
  | string (text : String) : Plain (.string text)
  | number (n : Int64) : Plain (.number n)
  | boolean (b : Bool) : Plain (.boolean b)

theorem type_resolved_ne_identifier (v : Value) : v.resolved.type ≠ .identifier := by
  cases h : v.resolved with
  | identifier w => exact absurd h (v.resolved_ne_identifier w)
  | _ => nofun

theorem exists_number_of_type {v : Value} (h : v.type = .number) : ∃ n, v = number n := by
  cases v with
  | number n => exact ⟨n, rfl⟩
  | _ => cases h

theorem exists_string_of_type {v : Value} (h : v.type = .string) : ∃ text, v = string text := by
  cases v with
  | string text => exact ⟨text, rfl⟩
  | _ => cases h

theorem exists_native_of_type {v : Value} (h : v.type = .native) : ∃ f, v = native f := by
  cases v with
  | native f => exact ⟨f, rfl⟩
  | _ => cases h

variable (node : Statement → Prop)

theorem sound_condition (v : Value) : Sound node (fun _ => True) v.condition := by
  unfold condition
  cases v.resolved with
  | boolean b => trivial
  | _ => exact ⟨.inl rfl, nofun⟩

theorem sound_nameText (v : Value) : Sound node (fun _ => True) v.nameText := by
  unfold nameText
  cases v.resolved with
  | string text => trivial
  | _ => exact ⟨.inr rfl, nofun⟩

end Value

namespace Operator

variable (node : Statement → Prop) (op : Operator)

theorem sound_narrow (operation : String) (n : Int)
    (h : operation ∈ ["addition", "subtraction", "multiplication", "division"]) :
    Sound node Value.Plain (narrow operation n) := by
  unfold narrow
  cases fit? n with
  | some r => exact .number r
  | none => exact h

theorem sound_onNumbers (a b : Int64) : Sound node Value.Plain (op.onNumbers a b) := by
  cases op with
  | add => exact sound_narrow node "addition" _ (by simp)
  | subtract => exact sound_narrow node "subtraction" _ (by simp)
  | multiply => exact sound_narrow node "multiplication" _ (by simp)
  | divide =>
    rw [onNumbers]
    split
    · trivial
    · exact sound_narrow node "division" _ (by simp)
  | _ => exact .boolean _

theorem sound_onStrings (s t : String) : Sound node Value.Plain (op.onStrings s t) := by
  cases op with
  | add => exact .string _
  | equal => exact .boolean _
  | notEqual => exact .boolean _
  | _ => exact ⟨by simp [Accepts], nofun, nofun⟩

theorem not_accepts {left right : Value}
    (hnumbers : ∀ a b, left = .number a → right = .number b → False)
    (hstrings : ∀ s t, left = .string s → right = .string t → False) :
    ¬ op.Accepts left.type right.type := by
  rintro (⟨hleft, hright⟩ | ⟨hleft, hright, -⟩)
  · obtain ⟨a, ha⟩ := Value.exists_number_of_type hleft
    obtain ⟨b, hb⟩ := Value.exists_number_of_type hright
    exact hnumbers a b ha hb
  · obtain ⟨s, hs⟩ := Value.exists_string_of_type hleft
    obtain ⟨t, ht⟩ := Value.exists_string_of_type hright
    exact hstrings s t hs ht

theorem sound_apply (left right : Value) : Sound node Value.Plain (op.apply left right) := by
  unfold apply
  split
  · exact sound_onNumbers ..
  · exact sound_onStrings ..
  · next hnumbers hstrings =>
    exact ⟨op.not_accepts hnumbers hstrings, left.type_resolved_ne_identifier,
      right.type_resolved_ne_identifier⟩

end Operator

end TagScript
