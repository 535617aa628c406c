import TagScript.Json.Parser

namespace TagScript.Json

namespace Parser

theorem steps_cons (state : State) (token : Token) (rest : List Token) :
    steps state (token :: rest) = (step state token).bind (steps · rest) := by
  rw [steps]
  cases step state token <;> rfl

theorem steps_firstItem (j : Json) (frames : List Frame) (rest : List Token) :
    steps (.firstItem frames) (j.tokensOnto rest) =
      steps (.value (.array [] :: frames)) (j.tokensOnto rest) := by
  cases j with
  | array items => cases items <;> rfl
  | object members => rcases members with _ | ⟨⟨_, _⟩, _⟩ <;> rfl
  | _ => rfl

mutual

theorem steps_tokensOnto : ∀ (j : Json) (frames : List Frame) (rest : List Token),
    steps (.value frames) (j.tokensOnto rest) = steps (complete j frames) rest
  | .null, _, _ => rfl
  | .bool _, _, _ => rfl
  | .number _, _, _ => rfl
  | .string _, _, _ => rfl
  | .array [], _, _ => rfl
  | .array (j :: items), frames, rest => by
    simp only [tokensOnto, steps_cons, step, begin, Option.bind_some]
    rw [steps_firstItem, steps_tokensOnto j, complete, steps_moreItems items]
    rfl
  | .object [], _, _ => rfl
  | .object ((_, j) :: members), frames, rest => by
    simp only [tokensOnto, steps_cons, step, begin, Option.bind_some]
    rw [steps_tokensOnto j, complete, steps_moreMembers members]
    rfl

theorem steps_moreItems : ∀ (items before : List Json) (frames : List Frame) (rest : List Token),
    steps (.afterItem before frames) (moreItems items (.closeArray :: rest)) =
      steps (complete (.array (before.reverse ++ items)) frames) rest
  | [], _, _, _ => by simp [moreItems, steps_cons, step]
  | j :: items, before, frames, rest => by
    simp only [moreItems, steps_cons, step, Option.bind_some]
    rw [steps_tokensOnto j, complete, steps_moreItems items]
    simp

theorem steps_moreMembers :
    ∀ (members before : List (Option String × Json)) (frames : List Frame) (rest : List Token),
    steps (.afterMember before frames) (moreMembers members (.closeObject :: rest)) =
      steps (complete (.object (before.reverse ++ members)) frames) rest
  | [], _, _, _ => by simp [moreMembers, steps_cons, step]
  | (_, j) :: members, before, frames, rest => by
    simp only [moreMembers, steps_cons, step, Option.bind_some]
    rw [steps_tokensOnto j, complete, steps_moreMembers members]
    simp

end

end Parser

theorem ofTokens?_tokens (j : Json) : ofTokens? j.tokens = some j := by
  rw [ofTokens?, tokens, Parser.steps_tokensOnto]
  rfl

end TagScript.Json
