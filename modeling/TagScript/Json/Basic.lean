import TagScript.Json.Token

namespace TagScript

/-- Strings and member names are missing where the text left half of a surrogate pair. -/
inductive Json
  | null
  | bool (b : Bool)
  | number (n : Json.Numeral)
  | string (text : Option String)
  | array (items : List Json)
  | object (members : List (Option String × Json))

namespace Json

def ofString (text : String) : Json := string (some text)

def ofMembers (members : List (String × Json)) : Json :=
  object (members.map fun (name, j) => (some name, j))

mutual

def tokensOnto : Json → List Token → List Token
  | null, rest => .null :: rest
  | bool b, rest => .bool b :: rest
  | number n, rest => .number n :: rest
  | string text, rest => .string text :: rest
  | array [], rest => .openArray :: .closeArray :: rest
  | array (j :: items), rest => .openArray :: j.tokensOnto (moreItems items (.closeArray :: rest))
  | object [], rest => .openObject :: .closeObject :: rest
  | object ((name, j) :: members), rest =>
    .openObject :: .string name :: .colon ::
      j.tokensOnto (moreMembers members (.closeObject :: rest))

def moreItems : List Json → List Token → List Token
  | [], rest => rest
  | j :: items, rest => .comma :: j.tokensOnto (moreItems items rest)

def moreMembers : List (Option String × Json) → List Token → List Token
  | [], rest => rest
  | (name, j) :: members, rest =>
    .comma :: .string name :: .colon :: j.tokensOnto (moreMembers members rest)

end

def tokens (j : Json) : List Token := j.tokensOnto []

def render (j : Json) : String := String.ofList (j.tokens.flatMap Token.chars)

mutual

def depth : Json → Nat
  | array items => itemsDepth items + 1
  | object members => membersDepth members + 1
  | _ => 0

def itemsDepth : List Json → Nat
  | [] => 0
  | j :: items => max j.depth (itemsDepth items)

def membersDepth : List (Option String × Json) → Nat
  | [] => 0
  | (_, j) :: members => max j.depth (membersDepth members)

end

/-- Whether a document can be stored: it nests no deeper than `room`, its numbers are finite and its
texts complete. -/
def storable : Nat → Json → Bool
  | _, null | _, bool _ => true
  | _, number n => n.finite
  | _, string text => text.isSome
  | 0, array _ | 0, object _ => false
  | room + 1, array items => items.all (storable room)
  | room + 1, object members => members.all fun (name, j) => name.isSome && storable room j

def positional? : List String → List Json → Option (List (Option Json))
  | [], [] => some []
  | [], _ :: _ => none
  | _ :: names, [] => (positional? names []).map (none :: ·)
  | _ :: names, j :: items => (positional? names items).map (some j :: ·)

def member? (members : List (Option String × Json)) (name : String) : Option (Option Json) :=
  match members.filter (·.1 = some name) with
  | [] => some none
  | [(_, j)] => some (some j)
  | _ => none

/-- The fields of a record, which is an object or an array of them in order. Members of other names
are passed over. -/
def fields? (names : List String) : Json → Option (List (Option Json))
  | array items => positional? names items
  | object members =>
    if members.all (·.1.isSome) then names.mapM (member? members) else none
  | _ => none

def text? : Json → Option String
  | string text => text
  | _ => none

end Json

end TagScript
