import TagScript.Proofs.Json.RoundTrip

namespace TagScript.Json

namespace Lexer

/-- A text of tokens, with any blanks before each of them and behind the last one. Numerals may be
written in several ways. -/
inductive Written : List Token → List Char → Prop
  | nil {blanks} (h : blanks.all isBlank) : Written [] blanks
  | numeral {blanks n chars tokens text} (h : blanks.all isBlank) (hn : n.Written chars)
    (hrest : Written tokens text) : Written (.number n :: tokens) (blanks ++ (chars ++ text))
  | token {blanks token tokens text} (h : blanks.all isBlank) (htoken : token.isNumeral = false)
    (hrest : Written tokens text) : Written (token :: tokens) (blanks ++ (token.chars ++ text))

def endsValue : List Token → Bool
  | [] => true
  | .comma :: _ | .closeArray :: _ | .closeObject :: _ => true
  | _ => false

def Separated : List Token → Prop
  | [] => True
  | token :: rest => (token.isNumeral → endsValue rest) ∧ Separated rest

theorem endsNumeral_of_written {tokens : List Token} {text : List Char} (h : Written tokens text)
    (hends : endsValue tokens) : endsNumeral text := by
  cases h with
  | nil h => simpa using @endsNumeral_blanks _ [] h rfl
  | numeral => cases hends
  | @token _ token _ _ h htoken _ =>
    apply endsNumeral_blanks h
    cases token with
    | comma | closeArray | closeObject => rfl
    | _ => cases hends

theorem read_written {tokens : List Token} {text : List Char} (h : Written tokens text)
    (hseparated : Separated tokens) (before : List Token) :
    read ⟨before, .between⟩ text = some (before.reverse ++ tokens) := by
  induction h generalizing before with
  | nil hblanks =>
    have hread := read_blanks before hblanks []
    rw [List.append_nil] at hread
    rw [hread]
    simp [read, steps, finish]
  | numeral hblanks hn hrest ih =>
    rw [read_blanks before hblanks,
      read_numeral before hn (endsNumeral_of_written hrest (hseparated.1 rfl)), ih hseparated.2]
    simp
  | token hblanks htoken _ ih =>
    rw [read_blanks before hblanks, read_token before htoken, ih hseparated.2]
    simp

end Lexer

open Lexer

theorem endsValue_moreItems (items : List Json) {rest : List Token} (h : endsValue rest) :
    endsValue (moreItems items rest) := by
  cases items with
  | nil => exact h
  | cons => rfl

theorem endsValue_moreMembers (members : List (Option String × Json)) {rest : List Token}
    (h : endsValue rest) : endsValue (moreMembers members rest) := by
  cases members with
  | nil => exact h
  | cons => rfl

theorem separated_cons {token : Token} {rest : List Token} (htoken : token.isNumeral = false)
    (h : Separated rest) : Separated (token :: rest) := by
  rw [Separated, htoken]
  exact ⟨by simp, h⟩

mutual

theorem separated_tokensOnto : ∀ (j : Json) {rest : List Token}, Separated rest → endsValue rest →
    Separated (j.tokensOnto rest)
  | .null, _, h, _ => separated_cons rfl h
  | .bool _, _, h, _ => separated_cons rfl h
  | .number _, _, h, hends => ⟨fun _ => hends, h⟩
  | .string _, _, h, _ => separated_cons rfl h
  | .array [], _, h, _ => separated_cons rfl (separated_cons rfl h)
  | .array (j :: items), _, h, _ => separated_cons rfl <|
    separated_tokensOnto j (separated_moreItems items (separated_cons rfl h) rfl)
      (endsValue_moreItems items rfl)
  | .object [], _, h, _ => separated_cons rfl (separated_cons rfl h)
  | .object ((_, j) :: members), _, h, _ =>
    separated_cons rfl <| separated_cons rfl <| separated_cons rfl <|
      separated_tokensOnto j (separated_moreMembers members (separated_cons rfl h) rfl)
        (endsValue_moreMembers members rfl)

theorem separated_moreItems : ∀ (items : List Json) {rest : List Token}, Separated rest →
    endsValue rest → Separated (moreItems items rest)
  | [], _, h, _ => h
  | j :: items, _, h, hends => separated_cons rfl <|
    separated_tokensOnto j (separated_moreItems items h hends) (endsValue_moreItems items hends)

theorem separated_moreMembers : ∀ (members : List (Option String × Json)) {rest : List Token},
    Separated rest → endsValue rest → Separated (moreMembers members rest)
  | [], _, h, _ => h
  | (_, j) :: members, _, h, hends =>
    separated_cons rfl <| separated_cons rfl <| separated_cons rfl <|
      separated_tokensOnto j (separated_moreMembers members h hends)
        (endsValue_moreMembers members hends)

end

def WrittenAs (j : Json) (text : String) : Prop := Written j.tokens text.toList

theorem parse?_of_writtenAs {j : Json} {text : String} (h : j.WrittenAs text) :
    parse? text = some j := by
  have hseparated : Separated j.tokens := separated_tokensOnto j trivial rfl
  have hlex : lex? text.toList = some j.tokens := read_written h hseparated []
  rw [parse?, hlex, Option.bind_some, ofTokens?_tokens]

end TagScript.Json
