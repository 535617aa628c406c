import TagScript.Json.Parser.Laws
import TagScript.Proofs.Json.Lexing

namespace TagScript.Json

mutual

def Plain : Json → Prop
  | null | bool _ => True
  | number n => n.Integral
  | string text => text.isSome
  | array items => PlainItems items
  | object members => PlainMembers members

def PlainItems : List Json → Prop
  | [] => True
  | j :: items => j.Plain ∧ PlainItems items

def PlainMembers : List (Option String × Json) → Prop
  | [] => True
  | (name, j) :: members => name.isSome ∧ j.Plain ∧ PlainMembers members

end

open Lexer

theorem endsNumeral_moreItems (items : List Json) {rest : List Token}
    (h : endsNumeral (rest.flatMap Token.chars)) :
    endsNumeral ((moreItems items rest).flatMap Token.chars) := by
  cases items with
  | nil => exact h
  | cons => rfl

theorem endsNumeral_moreMembers (members : List (Option String × Json)) {rest : List Token}
    (h : endsNumeral (rest.flatMap Token.chars)) :
    endsNumeral ((moreMembers members rest).flatMap Token.chars) := by
  cases members with
  | nil => exact h
  | cons => rfl

mutual

theorem legible_tokensOnto : ∀ (j : Json) {rest : List Token}, j.Plain → Legible rest →
    endsNumeral (rest.flatMap Token.chars) → Legible (j.tokensOnto rest)
  | .null, _, _, h, _ => h
  | .bool _, _, _, h, _ => h
  | .number _, _, hn, h, hends => ⟨hn, hends, h⟩
  | .string _, _, htext, h, _ => ⟨htext, h⟩
  | .array [], _, _, h, _ => h
  | .array (j :: items), _, ⟨hj, hitems⟩, h, _ =>
    legible_tokensOnto j hj (legible_moreItems items hitems h rfl) (endsNumeral_moreItems items rfl)
  | .object [], _, _, h, _ => h
  | .object ((_, j) :: members), _, ⟨hname, hj, hmembers⟩, h, _ =>
    ⟨hname, legible_tokensOnto j hj (legible_moreMembers members hmembers h rfl)
      (endsNumeral_moreMembers members rfl)⟩

theorem legible_moreItems : ∀ (items : List Json) {rest : List Token}, PlainItems items →
    Legible rest → endsNumeral (rest.flatMap Token.chars) → Legible (moreItems items rest)
  | [], _, _, h, _ => h
  | j :: items, _, ⟨hj, hitems⟩, h, hends =>
    legible_tokensOnto j hj (legible_moreItems items hitems h hends)
      (endsNumeral_moreItems items hends)

theorem legible_moreMembers : ∀ (members : List (Option String × Json)) {rest : List Token},
    PlainMembers members → Legible rest → endsNumeral (rest.flatMap Token.chars) →
    Legible (moreMembers members rest)
  | [], _, _, h, _ => h
  | (_, j) :: members, _, ⟨hname, hj, hmembers⟩, h, hends =>
    ⟨hname, legible_tokensOnto j hj (legible_moreMembers members hmembers h hends)
      (endsNumeral_moreMembers members hends)⟩

end

def Spells (j : Json) (text : String) : Prop := Spaced j.tokens text.toList

theorem spells_render (j : Json) : j.Spells j.render := by
  rw [Spells, render, String.toList_ofList]
  exact spaced_flatMap_chars j.tokens

theorem parse?_of_spells {j : Json} {text : String} (h : j.Plain) (htext : j.Spells text) :
    parse? text = some j := by
  have hlegible : Legible j.tokens := legible_tokensOnto j h trivial rfl
  rw [parse?, lex?_of_spaced htext hlegible, Option.bind_some, ofTokens?_tokens]

theorem parse?_render {j : Json} (h : j.Plain) : parse? j.render = some j :=
  parse?_of_spells h j.spells_render

end TagScript.Json
