import TagScript.Json.Token

namespace TagScript.Json

def isHighSurrogate (code : Nat) : Bool := 0xD800 ≤ code && code < 0xDC00

def isLowSurrogate (code : Nat) : Bool := 0xDC00 ≤ code && code < 0xE000

/-- The characters that a row of codes stands for, in front of `rest`. The codes come last one
first; a low surrogate needs the high one before it and a high one the low one behind it. -/
def charsOfCodes : List Nat → List Char → Option (List Char)
  | [], rest => some rest
  | low :: high :: codes, rest =>
    if isLowSurrogate low then
      if isHighSurrogate high then
        charsOfCodes codes
          (Char.ofNat (0x10000 + (high - 0xD800) * 0x400 + (low - 0xDC00)) :: rest)
      else none
    else if isHighSurrogate low then none
    else charsOfCodes (high :: codes) (Char.ofNat low :: rest)
  | [code], rest =>
    if isLowSurrogate code || isHighSurrogate code then none else some (Char.ofNat code :: rest)

def hexDigit? (c : Char) : Option Nat :=
  if '0' ≤ c ∧ c ≤ '9' then some (c.toNat - '0'.toNat)
  else if 'a' ≤ c ∧ c ≤ 'f' then some (c.toNat - 'a'.toNat + 10)
  else if 'A' ≤ c ∧ c ≤ 'F' then some (c.toNat - 'A'.toNat + 10)
  else none

def escapeCode? : Char → Option Nat
  | '"' => some 0x22
  | '\\' => some 0x5C
  | '/' => some 0x2F
  | 'b' => some 0x08
  | 'f' => some 0x0C
  | 'n' => some 0x0A
  | 'r' => some 0x0D
  | 't' => some 0x09
  | _ => none

namespace Lexer

/-- Where the reader stands. Digits and codes that a token has brought so far are kept last one
first. -/
inductive Mode
  | between
  | word (rest : List Char) (token : Token)
  | minus
  | whole (negative : Bool) (digits : List Digit)
  | point (negative : Bool) (whole : List Digit)
  | fraction (negative : Bool) (whole digits : List Digit)
  | mark (mantissa : Numeral)
  | exponentSign (mantissa : Numeral) (negative : Bool)
  | exponent (mantissa : Numeral) (negative : Bool) (digits : List Digit)
  | text (codes : List Nat)
  | escape (codes : List Nat)
  | hex (missing : Nat) (code : Nat) (codes : List Nat)

structure State where
  tokens : List Token
  mode : Mode

def start (tokens : List Token) (c : Char) : Option State :=
  match c with
  | ' ' | '\t' | '\n' | '\r' => some ⟨tokens, .between⟩
  | '[' => some ⟨.openArray :: tokens, .between⟩
  | ']' => some ⟨.closeArray :: tokens, .between⟩
  | '\x7b' => some ⟨.openObject :: tokens, .between⟩
  | '\x7d' => some ⟨.closeObject :: tokens, .between⟩
  | ',' => some ⟨.comma :: tokens, .between⟩
  | ':' => some ⟨.colon :: tokens, .between⟩
  | '"' => some ⟨tokens, .text []⟩
  | 'n' => some ⟨tokens, .word ['u', 'l', 'l'] .null⟩
  | 't' => some ⟨tokens, .word ['r', 'u', 'e'] (.bool true)⟩
  | 'f' => some ⟨tokens, .word ['a', 'l', 's', 'e'] (.bool false)⟩
  | '-' => some ⟨tokens, .minus⟩
  | c => (Digit.ofChar? c).map fun d => ⟨tokens, .whole false [d]⟩

def isMark (c : Char) : Bool := c = 'e' || c = 'E'

def step (state : State) (c : Char) : Option State :=
  let tokens := state.tokens
  match state.mode with
  | .between => start tokens c
  | .word [] _ => none
  | .word [x] token => if c = x then some ⟨token :: tokens, .between⟩ else none
  | .word (x :: rest) token => if c = x then some ⟨tokens, .word rest token⟩ else none
  | .minus => (Digit.ofChar? c).map fun d => ⟨tokens, .whole true [d]⟩
  | .whole negative digits =>
    match Digit.ofChar? c with
    | some d => if digits = [Digit.zero] then none else some ⟨tokens, .whole negative (d :: digits)⟩
    | none =>
      let n : Numeral := ⟨negative, digits.reverse, [], none⟩
      if c = '.' then some ⟨tokens, .point negative n.whole⟩
      else if isMark c then some ⟨tokens, .mark n⟩
      else start (.number n :: tokens) c
  | .point negative whole =>
    (Digit.ofChar? c).map fun d => ⟨tokens, .fraction negative whole [d]⟩
  | .fraction negative whole digits =>
    match Digit.ofChar? c with
    | some d => some ⟨tokens, .fraction negative whole (d :: digits)⟩
    | none =>
      let n : Numeral := ⟨negative, whole, digits.reverse, none⟩
      if isMark c then some ⟨tokens, .mark n⟩ else start (.number n :: tokens) c
  | .mark mantissa =>
    if c = '+' then some ⟨tokens, .exponentSign mantissa false⟩
    else if c = '-' then some ⟨tokens, .exponentSign mantissa true⟩
    else (Digit.ofChar? c).map fun d => ⟨tokens, .exponent mantissa false [d]⟩
  | .exponentSign mantissa negative =>
    (Digit.ofChar? c).map fun d => ⟨tokens, .exponent mantissa negative [d]⟩
  | .exponent mantissa negative digits =>
    match Digit.ofChar? c with
    | some d => some ⟨tokens, .exponent mantissa negative (d :: digits)⟩
    | none =>
      start (.number { mantissa with exponent := some ⟨negative, digits.reverse⟩ } :: tokens) c
  | .text codes =>
    if c = '"' then
      some ⟨.string ((charsOfCodes codes []).map String.ofList) :: tokens, .between⟩
    else if c = '\\' then some ⟨tokens, .escape codes⟩
    else if c.toNat < 0x20 then none
    else some ⟨tokens, .text (c.toNat :: codes)⟩
  | .escape codes =>
    if c = 'u' then some ⟨tokens, .hex 4 0 codes⟩
    else (escapeCode? c).map fun code => ⟨tokens, .text (code :: codes)⟩
  | .hex missing code codes =>
    (hexDigit? c).map fun d =>
      if missing ≤ 1 then ⟨tokens, .text ((16 * code + d) :: codes)⟩
      else ⟨tokens, .hex (missing - 1) (16 * code + d) codes⟩

def steps : State → List Char → Option State
  | state, [] => some state
  | state, c :: rest =>
    match step state c with
    | some next => steps next rest
    | none => none

def finish (state : State) : Option (List Token) :=
  match state.mode with
  | .between => some state.tokens.reverse
  | .whole negative digits =>
    some (Token.number ⟨negative, digits.reverse, [], none⟩ :: state.tokens).reverse
  | .fraction negative whole digits =>
    some (Token.number ⟨negative, whole, digits.reverse, none⟩ :: state.tokens).reverse
  | .exponent mantissa negative digits =>
    let n := { mantissa with exponent := some ⟨negative, digits.reverse⟩ }
    some (Token.number n :: state.tokens).reverse
  | _ => none

end Lexer

def lex? (text : List Char) : Option (List Token) :=
  (Lexer.steps ⟨[], .between⟩ text).bind Lexer.finish

end TagScript.Json
