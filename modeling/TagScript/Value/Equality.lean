import TagScript.Statement.Equality
import TagScript.Value

namespace TagScript

namespace Value

mutual

def same : Value → Value → Bool
  | undefined, undefined => true
  | string t, string t' => t == t'
  | number n, number n' => n == n'
  | boolean b, boolean b' => b == b'
  | identifier v, identifier v' => same v v'
  | function n ps b, function n' ps' b' => n == n' && ps == ps' && b == b'
  | native f, native f' => f == f'
  | array vs, array vs' => sameAll vs vs'
  | object fs, object fs' => sameFields fs fs'
  | _, _ => false

def sameAll : List Value → List Value → Bool
  | [], [] => true
  | v :: rest, v' :: rest' => same v v' && sameAll rest rest'
  | _, _ => false

def sameFields : List (Entry Value) → List (Entry Value) → Bool
  | [], [] => true
  | ⟨k, v⟩ :: rest, ⟨k', v'⟩ :: rest' => k == k' && same v v' && sameFields rest rest'
  | _, _ => false

end

mutual

theorem same_iff : ∀ v w : Value, v.same w = true ↔ v = w
  | undefined, w => by cases w <;> simp [same]
  | string _, w => by cases w <;> simp [same]
  | number _, w => by cases w <;> simp [same]
  | boolean _, w => by cases w <;> simp [same]
  | identifier v, w => by cases w <;> simp [same, same_iff v]
  | function .., w => by cases w <;> simp [same, and_assoc]
  | native _, w => by cases w <;> simp [same]
  | array vs, w => by cases w <;> simp [same, sameAll_iff vs]
  | object fs, w => by cases w <;> simp [same, sameFields_iff fs]

theorem sameAll_iff : ∀ vs ws : List Value, sameAll vs ws = true ↔ vs = ws
  | [], ws => by cases ws <;> simp [sameAll]
  | v :: rest, ws => by cases ws <;> simp [sameAll, same_iff v, sameAll_iff rest]

theorem sameFields_iff : ∀ fs gs : List (Entry Value), sameFields fs gs = true ↔ fs = gs
  | [], gs => by cases gs <;> simp [sameFields]
  | ⟨k, v⟩ :: rest, gs => by
    cases gs <;> simp [sameFields, same_iff v, sameFields_iff rest, Entry.ext_iff]

end

instance : DecidableEq Value := fun v w =>
  decidable_of_decidable_of_iff (same_iff v w)

end Value

end TagScript
