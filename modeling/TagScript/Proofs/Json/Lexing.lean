import TagScript.Json.Lexer
import TagScript.Proofs.Json.Numeral
import Mathlib.Data.Fintype.Basic
import Mathlib.Tactic.FinCases

namespace TagScript.Json

def Token.isNumeral : Token → Bool
  | number _ => true
  | _ => false

namespace Lexer

def read (state : State) (text : List Char) : Option (List Token) :=
  (steps state text).bind finish

theorem steps_cons (state : State) (c : Char) (rest : List Char) :
    steps state (c :: rest) = (step state c).bind (steps · rest) := by
  rw [steps]
  cases step state c <;> rfl

theorem steps_append (state : State) (text rest : List Char) :
    steps state (text ++ rest) = (steps state text).bind (steps · rest) := by
  induction text generalizing state with
  | nil => rfl
  | cons c text ih =>
    rw [List.cons_append, steps_cons, steps_cons]
    cases step state c with
    | none => rfl
    | some next => exact ih next

theorem read_append {state next : State} {text : List Char} (h : steps state text = some next)
    (rest : List Char) : read state (text ++ rest) = read next rest := by
  rw [read, steps_append, h]
  rfl

section Strings

theorem hexDigit?_digitChar : ∀ d < 16, hexDigit? (Nat.digitChar d) = some d := by
  decide

theorem steps_escaped (tokens : List Token) (codes : List Nat) (c : Char) :
    steps ⟨tokens, .text codes⟩ (escaped c) = some ⟨tokens, .text (c.toNat :: codes)⟩ := by
  unfold escaped
  split
  · rfl
  · rfl
  · rfl
  · rfl
  · rfl
  · rfl
  · rfl
  · next hquote hbackslash _ _ _ _ _ =>
    split
    · next hcontrol =>
      have hhigh := hexDigit?_digitChar (c.toNat / 16) (by omega)
      have hlow := hexDigit?_digitChar (c.toNat % 16) (by omega)
      have hzero : hexDigit? '0' = some 0 := by decide
      simp [steps, step, hzero, hhigh, hlow]
      omega
    · next hplain =>
      have hquote : c ≠ '"' := hquote
      have hbackslash : c ≠ '\\' := hbackslash
      simp [steps, step, hquote, hbackslash, hplain]

theorem steps_flatMap_escaped (tokens : List Token) (codes : List Nat) (text : List Char) :
    steps ⟨tokens, .text codes⟩ (text.flatMap escaped) =
      some ⟨tokens, .text ((text.map Char.toNat).reverse ++ codes)⟩ := by
  induction text generalizing codes with
  | nil => rfl
  | cons c text ih =>
    rw [List.flatMap_cons, steps_append, steps_escaped, Option.bind_some, ih]
    simp

theorem isSurrogate_toNat (c : Char) :
    isLowSurrogate c.toNat = false ∧ isHighSurrogate c.toNat = false := by
  have hvalid : c.toNat < 0xD800 ∨ (0xDFFF < c.toNat ∧ c.toNat < 0x110000) := c.valid
  simp [isLowSurrogate, isHighSurrogate]
  omega

theorem charsOfCodes_map_toNat (chars rest : List Char) :
    charsOfCodes (chars.map Char.toNat) rest = some (chars.reverse ++ rest) := by
  induction chars generalizing rest with
  | nil => rfl
  | cons c chars ih =>
    obtain ⟨hlow, hhigh⟩ := isSurrogate_toNat c
    cases chars with
    | nil => simp [charsOfCodes, hlow, hhigh]
    | cons high chars =>
      simp only [List.map_cons] at ih
      simp [charsOfCodes, hlow, hhigh, ih]

theorem steps_quoted (tokens : List Token) (text : String) :
    steps ⟨tokens, .between⟩ (quoted text) = some ⟨.string (some text) :: tokens, .between⟩ := by
  have hopen : step ⟨tokens, .between⟩ '"' = some ⟨tokens, .text []⟩ := rfl
  have hchars : charsOfCodes (text.toList.map Char.toNat).reverse [] = some text.toList := by
    rw [← List.map_reverse, charsOfCodes_map_toNat, List.reverse_reverse, List.append_nil]
  rw [quoted, List.cons_append, steps_cons, hopen, Option.bind_some, steps_append,
    steps_flatMap_escaped, Option.bind_some, List.append_nil, steps_cons]
  simp [step, steps, hchars]

end Strings

section Numerals

theorem start_char (tokens : List Token) (d : Digit) :
    start tokens d.char = some ⟨tokens, .whole false [d]⟩ := by
  fin_cases d <;> rfl

theorem steps_row (tokens : List Token) {mode : List Digit → Mode} {P : List Digit → Prop}
    (hstep : ∀ d digits, P digits → P (d :: digits) ∧
      step ⟨tokens, mode digits⟩ d.char = some ⟨tokens, mode (d :: digits)⟩)
    {digits : List Digit} (h : P digits) (more : List Digit) :
    steps ⟨tokens, mode digits⟩ (more.map Digit.char) =
      some ⟨tokens, mode (more.reverse ++ digits)⟩ := by
  induction more generalizing digits with
  | nil => rfl
  | cons d more ih =>
    obtain ⟨hnext, hd⟩ := hstep d digits h
    rw [List.map_cons, steps_cons, hd, Option.bind_some, ih hnext]
    simp

theorem steps_proper (tokens : List Token) (negative : Bool) {first : Digit} {rest : List Digit}
    (h : first = Digit.zero → rest = []) :
    steps ⟨tokens, .whole negative [first]⟩ (rest.map Digit.char) =
      some ⟨tokens, .whole negative (first :: rest).reverse⟩ := by
  by_cases hzero : first = Digit.zero
  · rw [h hzero]
    rfl
  · have hrow := @steps_row tokens (.whole negative)
      (fun digits => digits ≠ [] ∧ digits ≠ [Digit.zero]) (by simp +contextual [step]) [first]
      (by simpa using hzero) rest
    rwa [← List.reverse_cons] at hrow

theorem steps_fraction (tokens : List Token) (negative : Bool) (whole digits more : List Digit) :
    steps ⟨tokens, .fraction negative whole digits⟩ (more.map Digit.char) =
      some ⟨tokens, .fraction negative whole (more.reverse ++ digits)⟩ :=
  @steps_row tokens (.fraction negative whole) (fun _ => True) (by simp [step]) digits trivial more

theorem steps_exponent (tokens : List Token) {mode : Mode} {mantissa : Numeral} {negative : Bool}
    (hfirst : ∀ d : Digit, step ⟨tokens, mode⟩ d.char =
      some ⟨tokens, .exponent mantissa negative [d]⟩)
    {digits : List Digit} (h : digits ≠ []) :
    steps ⟨tokens, mode⟩ (digits.map Digit.char) =
      some ⟨tokens, .exponent mantissa negative digits.reverse⟩ := by
  obtain ⟨d, more, rfl⟩ := List.exists_cons_of_ne_nil h
  rw [List.map_cons, steps_cons, hfirst, Option.bind_some, List.reverse_cons]
  exact @steps_row tokens (.exponent mantissa negative) (fun _ => True) (by simp [step]) [d] trivial
    more

def behind (n : Numeral) : Mode :=
  match n.exponent with
  | some e => .exponent n.mantissa e.negative e.digits.reverse
  | none =>
    if n.fraction = [] then .whole n.negative n.whole.reverse
    else .fraction n.negative n.whole n.fraction.reverse

theorem steps_whole (tokens : List Token) (negative : Bool) {whole : List Digit}
    (h : Digit.Proper whole) :
    steps ⟨tokens, .between⟩ ((if negative then ['-'] else []) ++ whole.map Digit.char) =
      some ⟨tokens, .whole negative whole.reverse⟩ := by
  obtain ⟨first, rest, rfl, hfirst⟩ := h
  cases negative with
  | false =>
    have hstep : step ⟨tokens, .between⟩ first.char = some ⟨tokens, .whole false [first]⟩ :=
      start_char tokens first
    simpa [steps_cons, hstep] using steps_proper tokens false hfirst
  | true =>
    have hminus : step ⟨tokens, .between⟩ '-' = some ⟨tokens, .minus⟩ := rfl
    have hstep : step ⟨tokens, .minus⟩ first.char = some ⟨tokens, .whole true [first]⟩ := by
      simp [step]
    simpa [steps_cons, hminus, hstep] using steps_proper tokens true hfirst

theorem steps_mantissa (tokens : List Token) {n : Numeral} (h : Digit.Proper n.whole) :
    steps ⟨tokens, .between⟩ n.mantissa.chars = some ⟨tokens, behind n.mantissa⟩ := by
  obtain ⟨negative, whole, fraction, exponent⟩ := n
  rw [Numeral.mantissa, Numeral.chars, List.append_nil, steps_append, steps_whole tokens negative h,
    Option.bind_some]
  rcases fraction with _ | ⟨d, more⟩
  · rfl
  · have hpoint : step ⟨tokens, .whole negative whole.reverse⟩ '.' =
        some ⟨tokens, .point negative whole⟩ := by
      have hdot : Digit.ofChar? '.' = none := rfl
      simp [step, hdot]
    have hdigit : step ⟨tokens, .point negative whole⟩ d.char =
        some ⟨tokens, .fraction negative whole [d]⟩ := by
      simp [step]
    simp [steps_cons, hpoint, hdigit, steps_fraction, behind]

theorem step_mark (tokens : List Token) (n : Numeral) {mark : Char}
    (hmark : mark = 'e' ∨ mark = 'E') :
    step ⟨tokens, behind n.mantissa⟩ mark = some ⟨tokens, .mark n.mantissa⟩ := by
  obtain ⟨negative, whole, fraction, exponent⟩ := n
  rcases fraction with _ | ⟨d, more⟩ <;> rcases hmark with rfl | rfl <;>
    simp [behind, Numeral.mantissa, step, Digit.ofChar?, isMark]

theorem step_mark_digit (tokens : List Token) (mantissa : Numeral) (d : Digit) :
    step ⟨tokens, .mark mantissa⟩ d.char = some ⟨tokens, .exponent mantissa false [d]⟩ := by
  have hsign : d.char ≠ '+' ∧ d.char ≠ '-' := by
    revert d
    decide
  simp [step, hsign]

theorem steps_written (tokens : List Token) {n : Numeral} {chars : List Char}
    (h : n.Written chars) : steps ⟨tokens, .between⟩ chars = some ⟨tokens, behind n⟩ := by
  cases h with
  | intro hwhole h =>
    rw [steps_append, steps_mantissa tokens hwhole, Option.bind_some]
    have hmark {mark : Char} := @step_mark tokens n mark
    obtain ⟨negative, whole, fraction, exponent⟩ := n
    cases h with
    | missing => rfl
    | unsigned he hdigits =>
      rw [steps_cons, hmark he, Option.bind_some]
      exact steps_exponent tokens (step_mark_digit tokens _) hdigits
    | plus he hdigits =>
      rw [steps_cons, hmark he, Option.bind_some]
      exact steps_exponent tokens (by simp [step]) hdigits
    | minus he hdigits =>
      rw [steps_cons, hmark he, Option.bind_some]
      exact steps_exponent tokens (by simp [step]) hdigits

def endsNumeral : List Char → Bool
  | [] => true
  | c :: _ => (Digit.ofChar? c).isNone && c ≠ '.' && !isMark c

theorem read_behind (tokens : List Token) (n : Numeral) {text : List Char} (h : endsNumeral text) :
    read ⟨tokens, behind n⟩ text = read ⟨.number n :: tokens, .between⟩ text := by
  obtain ⟨negative, whole, fraction, exponent⟩ := n
  cases text with
  | nil =>
    rcases exponent with _ | e
    · rcases fraction with _ | ⟨d, more⟩ <;> simp [read, steps, finish, behind]
    · simp [read, steps, finish, behind, Numeral.mantissa]
  | cons c rest =>
    simp [endsNumeral] at h
    rw [read, read, steps_cons, steps_cons]
    rcases exponent with _ | e
    · rcases fraction with _ | ⟨d, more⟩ <;> simp [behind, step, h]
    · simp [behind, step, h, Numeral.mantissa]

end Numerals

/-- Tokens that can be read back from the text they make: strings are complete, numerals are those of
integers, and no numeral runs on. -/
def Legible : List Token → Prop
  | [] => True
  | .number n :: rest => n.Integral ∧ endsNumeral (rest.flatMap Token.chars) ∧ Legible rest
  | .string text :: rest => text.isSome ∧ Legible rest
  | _ :: rest => Legible rest

section Blanks

def isBlank (c : Char) : Bool := c = ' ' || c = '\t' || c = '\n' || c = '\r'

theorem eq_of_isBlank {c : Char} (h : isBlank c) : c = ' ' ∨ c = '\t' ∨ c = '\n' ∨ c = '\r' := by
  simpa [isBlank, or_assoc] using h

theorem step_blank (before : List Token) {c : Char} (h : isBlank c) :
    step ⟨before, .between⟩ c = some ⟨before, .between⟩ := by
  rcases eq_of_isBlank h with rfl | rfl | rfl | rfl <;> rfl

theorem endsNumeral_blanks {blanks text : List Char} (h : blanks.all isBlank)
    (hends : endsNumeral text) : endsNumeral (blanks ++ text) := by
  cases blanks with
  | nil => exact hends
  | cons c blanks =>
    have hc : isBlank c := List.all_eq_true.1 h c List.mem_cons_self
    rcases eq_of_isBlank hc with rfl | rfl | rfl | rfl <;> rfl

theorem read_blanks (before : List Token) {blanks : List Char} (h : blanks.all isBlank)
    (text : List Char) :
    read ⟨before, .between⟩ (blanks ++ text) = read ⟨before, .between⟩ text := by
  induction blanks with
  | nil => rfl
  | cons c blanks ih =>
    rw [List.all_cons, Bool.and_eq_true] at h
    rw [List.cons_append, read, steps_cons, step_blank before h.1, Option.bind_some]
    exact ih h.2

inductive Spaced : List Token → List Char → Prop
  | nil {blanks} (h : blanks.all isBlank) : Spaced [] blanks
  | cons {blanks token tokens text} (h : blanks.all isBlank) (hrest : Spaced tokens text) :
    Spaced (token :: tokens) (blanks ++ (token.chars ++ text))

theorem spaced_flatMap_chars (tokens : List Token) :
    Spaced tokens (tokens.flatMap Token.chars) := by
  induction tokens with
  | nil => exact .nil rfl
  | cons token rest ih =>
    rw [List.flatMap_cons]
    exact @Spaced.cons [] token rest _ rfl ih

theorem endsNumeral_spaced {tokens : List Token} {text : List Char} (h : Spaced tokens text)
    (hends : endsNumeral (tokens.flatMap Token.chars)) : endsNumeral text := by
  induction h with
  | nil h => simpa using @endsNumeral_blanks _ [] h rfl
  | @cons _ token _ _ h _ ih =>
    apply endsNumeral_blanks h
    rw [List.flatMap_cons] at hends
    generalize token.chars = chars at hends ⊢
    cases chars with
    | nil => exact ih hends
    | cons c chars => exact hends

end Blanks

theorem read_numeral (before : List Token) {n : Numeral} {chars text : List Char}
    (h : n.Written chars) (hends : endsNumeral text) :
    read ⟨before, .between⟩ (chars ++ text) = read ⟨.number n :: before, .between⟩ text := by
  rw [read_append (steps_written before h), read_behind before n hends]

theorem read_token (before : List Token) {token : Token} (h : token.isNumeral = false)
    (text : List Char) :
    read ⟨before, .between⟩ (token.chars ++ text) = read ⟨token :: before, .between⟩ text := by
  apply read_append
  cases token with
  | number => cases h
  | string content =>
    cases content with
    | none => rfl
    | some content => exact steps_quoted before content
  | bool b => cases b <;> rfl
  | _ => rfl

theorem read_spaced {tokens : List Token} {text : List Char} (hspaced : Spaced tokens text)
    (h : Legible tokens) (before : List Token) :
    read ⟨before, .between⟩ text = some (before.reverse ++ tokens) := by
  induction hspaced generalizing before with
  | nil hblanks =>
    have hread := read_blanks before hblanks []
    rw [List.append_nil] at hread
    rw [hread]
    simp [read, steps, finish]
  | @cons _ token rest text hblanks hspaced ih =>
    -- Whatever the token is, it is enough to read it and to go on between tokens behind it.
    suffices hread : read ⟨before, .between⟩ (token.chars ++ text) =
        read ⟨token :: before, .between⟩ text ∧ Legible rest by
      rw [read_blanks before hblanks, hread.1, ih hread.2]
      simp
    cases token with
    | number n =>
      rw [Legible] at h
      obtain ⟨hn, hends, hrest⟩ := h
      exact ⟨read_numeral before hn.written (endsNumeral_spaced hspaced hends), hrest⟩
    | string content =>
      rw [Legible] at h
      exact ⟨read_token before rfl text, h.2⟩
    | _ => exact ⟨read_token before rfl text, h⟩

end Lexer

theorem lex?_of_spaced {tokens : List Token} {text : List Char} (hspaced : Lexer.Spaced tokens text)
    (h : Lexer.Legible tokens) : lex? text = some tokens :=
  Lexer.read_spaced hspaced h []

end TagScript.Json
