import TagScript.Fault

namespace TagScript

structure Arguments where
  entries : List (Entry Value)

namespace Arguments

def empty : Arguments := ⟨[]⟩

def insert (args : Arguments) (key : String) (value : Value) : Arguments :=
  ⟨Entry.set key value args.entries⟩

def get? (args : Arguments) (key : String) : Option Value := Entry.get? key args.entries

def size (args : Arguments) : Nat := args.entries.length

def isEmpty (args : Arguments) : Bool := args.entries.isEmpty

def ofList (entries : List (Entry Value)) : Arguments :=
  entries.foldl (fun args e => args.insert e.key e.value) empty

end Arguments

structure Reply where
  lines : List String
  result : Except Fault Value

/-- What the host's functions do, by the number that their handles carry. -/
abbrev Library := Nat → Arguments → Reply

def Library.none : Library := fun _ _ => ⟨[], .ok .undefined⟩

/-- What an argument adds to a printed line: a string its text, a bare name the text of the value
it stands for, and any other argument nothing. -/
def Value.printed? : Value → Option String
  | .string text => some text
  | .identifier value => some value.display
  | _ => none

def Arguments.printedLine (args : Arguments) : String :=
  " ".intercalate (args.entries.filterMap (·.value.printed?))

def Arguments.conditionValue (args : Arguments) : Except Fault Value :=
  match args.get? "condition" with
  | none => .error (.missingParameter ifName "condition")
  | some value => value.condition.map .boolean

def Native.call (library : Library) : Native → Arguments → Reply
  | .print, args => ⟨[args.printedLine], .ok .undefined⟩
  | .condition, args => ⟨[], args.conditionValue⟩
  | .host serial _, args => library serial args

end TagScript
