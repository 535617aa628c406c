universe u

namespace TagScript

@[ext]
structure Entry (α : Type u) where
  key : String
  value : α
  deriving DecidableEq

namespace Entry

variable {α : Type u}

def keys (entries : List (Entry α)) : List String := entries.map (·.key)

def get? (key : String) : List (Entry α) → Option α
  | [] => none
  | e :: rest => if e.key = key then some e.value else get? key rest

def set (key : String) (value : α) : List (Entry α) → List (Entry α)
  | [] => [⟨key, value⟩]
  | e :: rest => if e.key = key then ⟨key, value⟩ :: rest else e :: set key value rest

def add (key : String) (value : α) (entries : List (Entry α)) : List (Entry α) :=
  match get? key entries with
  | some _ => entries
  | none => entries ++ [⟨key, value⟩]

@[simp] theorem get?_nil (key : String) : get? key ([] : List (Entry α)) = none := rfl

theorem get?_cons (key : String) (e : Entry α) (rest : List (Entry α)) :
    get? key (e :: rest) = if e.key = key then some e.value else get? key rest := rfl

theorem get?_append (key : String) (xs ys : List (Entry α)) :
    get? key (xs ++ ys) = (get? key xs).or (get? key ys) := by
  induction xs with
  | nil => simp
  | cons e rest ih => by_cases h : e.key = key <;> simp [get?, h, ih]

theorem get?_eq_none_iff (key : String) (entries : List (Entry α)) :
    get? key entries = none ↔ key ∉ keys entries := by
  induction entries with
  | nil => simp [keys]
  | cons e rest ih =>
    by_cases h : e.key = key
    · simp [get?, keys, h]
    · simpa [get?, keys, h, Ne.symm h, eq_comm] using ih

theorem get?_eq_some_iff_append {key : String} {value : α} {entries : List (Entry α)} :
    get? key entries = some value ↔
      ∃ before after, entries = before ++ ⟨key, value⟩ :: after ∧ key ∉ keys before := by
  constructor
  · intro h
    induction entries with
    | nil => cases h
    | cons e rest ih =>
      rw [get?_cons] at h
      split at h
      · next hkey =>
        subst hkey
        cases h
        exact ⟨[], rest, rfl, List.not_mem_nil⟩
      · next hkey =>
        obtain ⟨before, after, rfl, hbefore⟩ := ih h
        exact ⟨e :: before, after, rfl, List.not_mem_cons_of_ne_of_not_mem (Ne.symm hkey) hbefore⟩
  · rintro ⟨before, after, rfl, hbefore⟩
    rw [get?_append, (get?_eq_none_iff key before).2 hbefore, get?_cons, if_pos rfl]
    rfl

theorem mem_of_get? {key : String} {value : α} {entries : List (Entry α)}
    (h : get? key entries = some value) : ⟨key, value⟩ ∈ entries := by
  obtain ⟨before, after, rfl, -⟩ := get?_eq_some_iff_append.1 h
  exact List.mem_append_right before List.mem_cons_self

@[simp] theorem get?_set_self (key : String) (value : α) (entries : List (Entry α)) :
    get? key (set key value entries) = some value := by
  induction entries with
  | nil => simp [set, get?]
  | cons e rest ih => by_cases h : e.key = key <;> simp [set, get?, h, ih]

theorem get?_set_of_ne {key other : String} (h : other ≠ key) (value : α)
    (entries : List (Entry α)) : get? other (set key value entries) = get? other entries := by
  induction entries with
  | nil => simp [set, get?, Ne.symm h]
  | cons e rest ih =>
    by_cases he : e.key = key
    · simp [set, get?, he, Ne.symm h]
    · simp [set, get?, he, ih]

end Entry

end TagScript
