import TagScript.Fault
import TagScript.Json.Parser

/-!
Programs as JSON documents. Arrays and objects may nest only so deep, and a reader's `room` counts
the levels that are left; what stands under a name that a program does not use is not looked at and
may nest deeper. A body that comes before its kind has to be stored until the kind is known: all of
it has to keep to the limits then, and it is read in the stored form.
-/

namespace TagScript

namespace Statement

def tagged (kind : Kind) (body : Json) : Json :=
  .ofMembers [("kind", .ofString kind.name), ("body", body)]

mutual

def toJson : Statement → Json
  | openTag name params children => tagged .openTag (.ofMembers
      [("name", .ofString name), ("params", .array (paramsJson params)),
        ("children", .array (allJson children))])
  | closeTag name params => tagged .closeTag (.ofMembers
      [("name", .ofString name), ("params", .array (paramsJson params))])
  | ifTag name params children => tagged .ifTag (.ofMembers
      [("name", .ofString name), ("params", .array (paramsJson params)),
        ("children", .array (allJson children))])
  | identifier name => tagged .identifier (.ofString name)
  | number n => tagged .number (.number (.ofInt64 n))
  | string text => tagged .string (.ofString text)
  | expression items => tagged .expression (.ofMembers [("statements", .array (allJson items))])
  | wrapped inner => tagged .wrapped inner.toJson
  | operator op => tagged .operator (.ofString op.symbol)
  | endMark => .ofMembers [("kind", .ofString Kind.endMark.name)]

def allJson : List Statement → List Json
  | [] => []
  | s :: rest => s.toJson :: allJson rest

def paramsJson : List (Entry Statement) → List Json
  | [] => []
  | ⟨key, s⟩ :: rest =>
    .ofMembers [("key", .ofString key), ("value", s.toJson)] :: paramsJson rest

end

end Statement

def Program.toJson (program : Program) : Json :=
  .ofMembers [("statements", .array (Statement.allJson program.statements))]

def Program.render (program : Program) : String := program.toJson.render

namespace Json

def isVoid (stored : Bool) : Json → Bool
  | null => true
  | object [] => stored
  | _ => false

def symbol? (stored : Bool) (room : Nat) : Json → Option String
  | string text => text
  | object [(name, content)] => if 0 < room ∧ isVoid stored content then name else none
  | _ => none

end Json

namespace Statement

structure Parts where
  kind : Kind
  body : Option Json
  bodyFirst : Bool

def kindMember? (stored : Bool) (room : Nat) (j : Json) : Option Kind := do
  Kind.ofName? (← j.symbol? stored room)

/-- The kind of a statement that is written as an array: its name, or in stored form also its place
among the kinds. -/
def kindItem? (stored : Bool) : Json → Option Kind
  | .string (some name) => Kind.ofName? name
  | .number n => if stored then n.toNat?.bind (Kind.all[·]?) else none
  | _ => none

def isPart (name : Option String) : Bool := name = some "kind" || name = some "body"

def parts? (stored : Bool) (room : Nat) : Json → Option Parts
  | .array [kind, body] => do
    return ⟨← kindItem? stored kind, some body, false⟩
  | .object members =>
    if members.all (·.1.isSome) then
      match members.filter (isPart ·.1) with
      | [(some "kind", kind)] => do
        return ⟨← kindMember? stored room kind, none, false⟩
      | [(some "kind", kind), (some "body", body)] => do
        return ⟨← kindMember? stored room kind, some body, false⟩
      | [(some "body", body), (some "kind", kind)] => do
        return ⟨← kindMember? stored room kind, some body, true⟩
      | _ => none
    else none
  | _ => none

mutual

def ofJson? (stored : Bool) : Nat → Json → Option Statement
  | 0, _ => none
  | room + 1, j => do
    let parts ← parts? stored room j
    match parts.kind, parts.body with
    | .endMark, none => some .endMark
    | .endMark, some .null => some .endMark
    | .endMark, some _ => none
    | _, none => none
    | kind, some body =>
      if parts.bodyFirst ∧ ¬ body.storable room then none
      else
        let stored := stored || parts.bodyFirst
        match kind with
        | .openTag => do
          let (name, params, children) ← openTag? stored room body
          return .openTag name params children
        | .closeTag => do
          let (name, params) ← closeTag? stored room body
          return .closeTag name params
        | .ifTag => do
          let (name, params, children) ← openTag? stored room body
          return .ifTag name params children
        | .identifier => body.text?.map .identifier
        | .number =>
          match body with
          | .number n => n.toInt64?.map .number
          | _ => none
        | .string => body.text?.map .string
        | .expression => (sequence? stored room body).map .expression
        | .wrapped => (ofJson? stored room body).map .wrapped
        | .operator => do
          let op ← Operator.ofSymbol? (← body.symbol? stored room)
          return .operator op
        | .endMark => none

def sequence? (stored : Bool) : Nat → Json → Option (List Statement)
  | 0, _ => none
  | room + 1, j =>
    match j.fields? ["statements"] with
    | some [some items] => all? stored room items
    | _ => none

def openTag? (stored : Bool) :
    Nat → Json → Option (String × List (Entry Statement) × List Statement)
  | 0, _ => none
  | room + 1, j =>
    match j.fields? ["name", "params", "children"] with
    | some [some name, params, children] => do
      let name ← name.text?
      let params ← match params with
        | none => some []
        | some items => params? stored room items
      let children ← match children with
        | none => some []
        | some items => all? stored room items
      return (name, params, children)
    | _ => none

def closeTag? (stored : Bool) : Nat → Json → Option (String × List (Entry Statement))
  | 0, _ => none
  | room + 1, j =>
    match j.fields? ["name", "params"] with
    | some [some name, params] => do
      let name ← name.text?
      let params ← match params with
        | none => some []
        | some items => params? stored room items
      return (name, params)
    | _ => none

def all? (stored : Bool) : Nat → Json → Option (List Statement)
  | room + 1, .array items => items.mapM (ofJson? stored room)
  | _, _ => none

def params? (stored : Bool) : Nat → Json → Option (List (Entry Statement))
  | room + 1, .array items => items.mapM (param? stored room)
  | _, _ => none

def param? (stored : Bool) : Nat → Json → Option (Entry Statement)
  | 0, _ => none
  | room + 1, j =>
    match j.fields? ["key", "value"] with
    | some [some key, some value] => do
      return ⟨← key.text?, ← ofJson? stored room value⟩
    | _ => none

end

end Statement

namespace Program

def maxDepth : Nat := 127

def ofJson? (j : Json) : Option Program :=
  (Statement.sequence? false maxDepth j).map (⟨·⟩)

/-- The two texts stand for the message of the JSON library, whose wording is left open here. -/
def load (source : String) : Except Fault Program :=
  match Json.parse? source with
  | none => .error (.structural "the source is not JSON")
  | some j =>
    match ofJson? j with
    | none => .error (.structural "the source does not describe a program")
    | some program => .ok program

end Program

end TagScript
