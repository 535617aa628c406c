import Mathlib.Data.List.Perm.Basic
import TagScript.Proofs.Json.RoundTrip

namespace TagScript.Json

mutual

/-- The second document is the first one laid out anew: members of objects may have changed places,
and members of an optional name may have been left out if they are empty arrays. -/
inductive Relaid (optional : String → Prop) : Json → Json → Prop
  | null : Relaid optional null null
  | bool {b} : Relaid optional (bool b) (bool b)
  | number {n} : Relaid optional (number n) (number n)
  | string {text} : Relaid optional (string text) (string text)
  | array {items items'} (h : RelaidItems optional items items') :
    Relaid optional (array items) (array items')
  | object {members kept members'} (h : RelaidMembers optional members kept)
    (hperm : kept.Perm members') : Relaid optional (object members) (object members')

inductive RelaidItems (optional : String → Prop) : List Json → List Json → Prop
  | nil : RelaidItems optional [] []
  | cons {j j' items items'} (h : Relaid optional j j')
    (hrest : RelaidItems optional items items') :
    RelaidItems optional (j :: items) (j' :: items')

inductive RelaidMembers (optional : String → Prop) :
    List (Option String × Json) → List (Option String × Json) → Prop
  | nil : RelaidMembers optional [] []
  | keep {name j j' members kept} (h : Relaid optional j j')
    (hrest : RelaidMembers optional members kept) :
    RelaidMembers optional ((name, j) :: members) ((name, j') :: kept)
  | drop {name members kept} (hname : optional name) (hrest : RelaidMembers optional members kept) :
    RelaidMembers optional ((some name, array []) :: members) kept

end

inductive RelaidField (optional : String → Prop) : List Json → Option Json → Prop
  | missing : RelaidField optional [] none
  | present {items items'} (h : RelaidItems optional items items') :
    RelaidField optional items (some (array items'))

def fieldMember (name : String) (field : Option Json) : List (Option String × Json) :=
  (field.map fun j => (some name, j)).toList

section Members

variable {optional : String → Prop} {name : String} {members kept : List (Option String × Json)}

theorem RelaidMembers.of_cons {j : Json} (hname : ¬ optional name)
    (h : RelaidMembers optional ((some name, j) :: members) kept) :
    ∃ j' kept', kept = (some name, j') :: kept' ∧ Relaid optional j j' ∧
      RelaidMembers optional members kept' := by
  cases h with
  | keep h hrest => exact ⟨_, _, rfl, h, hrest⟩
  | drop hdrop => exact absurd hdrop hname

theorem RelaidMembers.of_cons_array {items : List Json}
    (h : RelaidMembers optional ((some name, array items) :: members) kept) :
    ∃ field kept', kept = fieldMember name field ++ kept' ∧ RelaidField optional items field ∧
      RelaidMembers optional members kept' := by
  cases h with
  | keep h hrest =>
    cases h with
    | array h => exact ⟨_, _, rfl, .present h, hrest⟩
  | drop _ hrest => exact ⟨none, kept, rfl, .missing, hrest⟩

end Members

structure Compositional (P : Json → Prop) : Prop where
  string : ∀ text, P (string (some text))
  integer : ∀ n, P (number (.ofInt64 n))
  array : ∀ items, P (array items) ↔ ∀ j ∈ items, P j
  object : ∀ members, P (object members) ↔ ∀ m ∈ members, m.1.isSome ∧ P m.2

theorem Compositional.ofMembers_iff {P : Json → Prop} (hP : Compositional P)
    {members : List (String × Json)} : P (ofMembers members) ↔ ∀ m ∈ members, P m.2 := by
  rw [ofMembers, hP.object, List.forall_mem_map]
  exact forall₂_congr fun _ _ => ⟨And.right, fun h => ⟨rfl, h⟩⟩

section Keeps

variable {optional : String → Prop} {P : Json → Prop}

mutual

theorem Relaid.keeps (hP : Compositional P) : ∀ {j j' : Json}, Relaid optional j j' → P j → P j'
  | _, _, .null, h => h
  | _, _, .bool, h => h
  | _, _, .number, h => h
  | _, _, .string, h => h
  | _, _, .array hitems, h => (hP.array _).2 (hitems.keeps hP ((hP.array _).1 h))
  | _, _, .object hmembers hperm, h =>
    (hP.object _).2 fun m hm => hmembers.keeps hP ((hP.object _).1 h) m (hperm.mem_iff.2 hm)

theorem RelaidItems.keeps (hP : Compositional P) : ∀ {items items' : List Json},
    RelaidItems optional items items' → (∀ j ∈ items, P j) → ∀ j ∈ items', P j
  | _, _, .nil, h => h
  | _, _, .cons hj hrest, h => by
    rw [List.forall_mem_cons] at h ⊢
    exact ⟨hj.keeps hP h.1, hrest.keeps hP h.2⟩

theorem RelaidMembers.keeps (hP : Compositional P) : ∀ {members kept : List (Option String × Json)},
    RelaidMembers optional members kept → (∀ m ∈ members, m.1.isSome ∧ P m.2) →
    ∀ m ∈ kept, m.1.isSome ∧ P m.2
  | _, _, .nil, h => h
  | _, _, .keep hj hrest, h => by
    rw [List.forall_mem_cons] at h ⊢
    exact ⟨⟨h.1.1, hj.keeps hP h.1.2⟩, hrest.keeps hP h.2⟩
  | _, _, .drop _ hrest, h => hrest.keeps hP (List.forall_mem_cons.1 h).2

end

end Keeps

mutual

theorem Relaid.refl (optional : String → Prop) : ∀ j : Json, Relaid optional j j
  | .null => .null
  | .bool _ => .bool
  | .number _ => .number
  | .string _ => .string
  | .array items => .array (RelaidItems.refl optional items)
  | .object members => .object (RelaidMembers.refl optional members) (.refl _)

theorem RelaidItems.refl (optional : String → Prop) :
    ∀ items : List Json, RelaidItems optional items items
  | [] => .nil
  | j :: items => .cons (Relaid.refl optional j) (RelaidItems.refl optional items)

theorem RelaidMembers.refl (optional : String → Prop) :
    ∀ members : List (Option String × Json), RelaidMembers optional members members
  | [] => .nil
  | (_, j) :: members => .keep (Relaid.refl optional j) (RelaidMembers.refl optional members)

end

theorem plainItems_iff (items : List Json) : PlainItems items ↔ ∀ j ∈ items, j.Plain := by
  induction items with
  | nil => simp [PlainItems]
  | cons j items ih => simp [PlainItems, ih]

theorem plainMembers_iff (members : List (Option String × Json)) :
    PlainMembers members ↔ ∀ m ∈ members, m.1.isSome ∧ m.2.Plain := by
  induction members with
  | nil => simp [PlainMembers]
  | cons m members ih => simp [PlainMembers, ih, and_assoc]

theorem compositional_plain : Compositional Plain where
  string _ := rfl
  integer := Numeral.integral_ofInt64
  array := plainItems_iff
  object := plainMembers_iff

inductive Complete : Json → Prop
  | null : Complete null
  | bool {b} : Complete (bool b)
  | number {n} (h : n.finite) : Complete (number n)
  | string {text} : Complete (string (some text))
  | array {items} (h : ∀ j ∈ items, Complete j) : Complete (array items)
  | object {members} (hnames : ∀ m ∈ members, m.1.isSome) (h : ∀ m ∈ members, Complete m.2) :
    Complete (object members)

theorem compositional_complete : Compositional Complete where
  string _ := .string
  integer n := .number (Numeral.finite_ofInt64 n)
  array items := by
    constructor
    · intro h
      cases h with
      | array h => exact h
    · exact .array
  object members := by
    constructor
    · intro h
      cases h with
      | object hnames h => exact fun m hm => ⟨hnames m hm, h m hm⟩
    · exact fun h => .object (fun m hm => (h m hm).1) fun m hm => (h m hm).2

theorem itemsDepth_le_iff {items : List Json} {room : Nat} :
    itemsDepth items ≤ room ↔ ∀ j ∈ items, j.depth ≤ room := by
  induction items with
  | nil => simp [itemsDepth]
  | cons j items ih => simp [itemsDepth, ih]

theorem membersDepth_le_iff {members : List (Option String × Json)} {room : Nat} :
    membersDepth members ≤ room ↔ ∀ m ∈ members, m.2.depth ≤ room := by
  induction members with
  | nil => simp [membersDepth]
  | cons m members ih => simp [membersDepth, ih]

theorem Complete.storable_iff {j : Json} (h : j.Complete) (room : Nat) :
    j.storable room ↔ j.depth ≤ room := by
  induction h generalizing room with
  | null => simp [storable, depth]
  | bool => simp [storable, depth]
  | number h => simp [storable, depth, h]
  | string => simp [storable, depth]
  | array _ ih =>
    cases room with
    | zero => simp [storable, depth]
    | succ room =>
      rw [storable, List.all_eq_true, depth, Nat.add_le_add_iff_right, itemsDepth_le_iff]
      exact forall₂_congr fun j hj => ih j hj room
  | object hnames _ ih =>
    cases room with
    | zero => simp [storable, depth]
    | succ room =>
      rw [storable, List.all_eq_true, depth, Nat.add_le_add_iff_right, membersDepth_le_iff]
      refine forall₂_congr fun m hm => ?_
      rw [Bool.and_eq_true, hnames m hm, ih m hm room]
      simp

section Order

variable {members members' : List (Option String × Json)} (h : members.Perm members')

include h

theorem membersDepth_le_of_perm : membersDepth members ≤ membersDepth members' := by
  rw [membersDepth_le_iff]
  intro m hm
  exact membersDepth_le_iff.1 (Nat.le_refl _) m (h.mem_iff.1 hm)

theorem depth_object_of_perm : (object members').depth = (object members).depth := by
  rw [depth, depth, Nat.le_antisymm (membersDepth_le_of_perm h.symm) (membersDepth_le_of_perm h)]

theorem member?_of_perm (name : String) : member? members' name = member? members name := by
  have hfilter := h.filter (·.1 = some name)
  rw [member?, member?]
  generalize members.filter (·.1 = some name) = found, members'.filter (·.1 = some name) = found'
    at hfilter ⊢
  rcases found with _ | ⟨m, _ | ⟨m₂, rest⟩⟩
  · rw [List.nil_perm.1 hfilter]
  · rw [List.singleton_perm.1 hfilter]
  · -- Two or more members of one name are refused in any order.
    have hlength := hfilter.length_eq
    rcases found' with _ | ⟨m', _ | ⟨m₂', rest'⟩⟩
    · cases hlength
    · cases hlength
    · rfl

theorem fields?_of_perm (names : List String) :
    fields? names (object members') = fields? names (object members) := by
  have hmember : member? members' = member? members := funext (member?_of_perm h)
  have hall : members'.all (·.1.isSome) = members.all (·.1.isSome) := h.symm.all_eq
  simp only [fields?, hmember, hall]

end Order

end TagScript.Json
