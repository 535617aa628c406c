import TagScript.Json.Basic
import TagScript.Json.Lexer

namespace TagScript.Json

namespace Parser

inductive Frame
  | array (items : List Json)
  | object (members : List (Option String × Json)) (name : Option String)

inductive State
  | value (frames : List Frame)
  | firstItem (frames : List Frame)
  | firstMember (frames : List Frame)
  | member (members : List (Option String × Json)) (frames : List Frame)
  | colon (members : List (Option String × Json)) (name : Option String) (frames : List Frame)
  | afterItem (items : List Json) (frames : List Frame)
  | afterMember (members : List (Option String × Json)) (frames : List Frame)
  | done (j : Json)

def complete (j : Json) : List Frame → State
  | [] => .done j
  | .array items :: frames => .afterItem (j :: items) frames
  | .object members name :: frames => .afterMember ((name, j) :: members) frames

def begin (frames : List Frame) : Token → Option State
  | .openArray => some (.firstItem frames)
  | .openObject => some (.firstMember frames)
  | .null => some (complete .null frames)
  | .bool b => some (complete (.bool b) frames)
  | .number n => some (complete (.number n) frames)
  | .string text => some (complete (.string text) frames)
  | _ => none

def step : State → Token → Option State
  | .value frames, token => begin frames token
  | .firstItem frames, .closeArray => some (complete (.array []) frames)
  | .firstItem frames, token => begin (.array [] :: frames) token
  | .firstMember frames, .closeObject => some (complete (.object []) frames)
  | .firstMember frames, .string name => some (.colon [] name frames)
  | .member members frames, .string name => some (.colon members name frames)
  | .colon members name frames, .colon => some (.value (.object members name :: frames))
  | .afterItem items frames, .comma => some (.value (.array items :: frames))
  | .afterItem items frames, .closeArray => some (complete (.array items.reverse) frames)
  | .afterMember members frames, .comma => some (.member members frames)
  | .afterMember members frames, .closeObject => some (complete (.object members.reverse) frames)
  | _, _ => none

def steps : State → List Token → Option State
  | state, [] => some state
  | state, token :: rest =>
    match step state token with
    | some next => steps next rest
    | none => none

end Parser

def ofTokens? (tokens : List Token) : Option Json :=
  match Parser.steps (.value []) tokens with
  | some (.done j) => some j
  | _ => none

def parse? (text : String) : Option Json := (lex? text.toList).bind ofTokens?

end TagScript.Json
