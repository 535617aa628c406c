import Mathlib.Data.List.Nodup
import TagScript.Interpreter

universe u

namespace TagScript

namespace Entry

variable {α : Type u}

theorem get?_set (key other : String) (value : α) (entries : List (Entry α)) :
    get? other (set key value entries) = if key = other then some value else get? other entries := by
  by_cases h : key = other
  · subst h
    simp
  · rw [if_neg h, get?_set_of_ne (Ne.symm h)]

theorem keys_set (key : String) (value : α) (entries : List (Entry α)) :
    keys (set key value entries) =
      if key ∈ keys entries then keys entries else keys entries ++ [key] := by
  induction entries with
  | nil => rfl
  | cons e rest ih =>
    by_cases h : e.key = key
    · simp [set, keys, h]
    · simp only [keys] at ih
      by_cases hmem : key ∈ rest.map (·.key) <;> simp [set, keys, h, Ne.symm h, ih, hmem]

theorem nodup_keys_set {entries : List (Entry α)} (h : (keys entries).Nodup) (key : String)
    (value : α) : (keys (set key value entries)).Nodup := by
  rw [keys_set]
  split
  · exact h
  · next hkey =>
    rw [← List.concat_eq_append]
    exact h.concat hkey

theorem nodup_keys_add {entries : List (Entry α)} (h : (keys entries).Nodup) (key : String)
    (value : α) : (keys (add key value entries)).Nodup := by
  rw [add]
  split
  · exact h
  · next hkey =>
    rw [get?_eq_none_iff] at hkey
    rw [keys, List.map_append, List.map_singleton, ← List.concat_eq_append]
    exact h.concat hkey

theorem get?_of_mem {entries : List (Entry α)} (h : (keys entries).Nodup) {e : Entry α}
    (he : e ∈ entries) : get? e.key entries = some e.value := by
  induction entries with
  | nil => cases he
  | cons first rest ih =>
    obtain ⟨hfirst, hrest⟩ := List.nodup_cons.1 h
    rw [get?_cons]
    rcases List.mem_cons.1 he with rfl | he
    · exact if_pos rfl
    · have hkey : first.key ≠ e.key := by
        intro heq
        have hmem : e.key ∈ keys rest := List.mem_map_of_mem he
        rw [← heq] at hmem
        exact hfirst hmem
      rw [if_neg hkey, ih hrest he]

theorem get?_eq_some_iff {entries : List (Entry α)} (h : (keys entries).Nodup) {key : String}
    {value : α} : get? key entries = some value ↔ ⟨key, value⟩ ∈ entries :=
  ⟨mem_of_get?, get?_of_mem h⟩

theorem get?_reverse {entries : List (Entry α)} (h : (keys entries).Nodup) (key : String) :
    get? key entries.reverse = get? key entries := by
  induction entries with
  | nil => rfl
  | cons e rest ih =>
    obtain ⟨he, hrest⟩ := List.nodup_cons.1 h
    rw [List.reverse_cons, get?_append, ih hrest, get?_cons, get?_cons]
    split
    · next hkey =>
      have hnone : get? key rest = none := by
        rw [get?_eq_none_iff, ← hkey]
        exact he
      simp [hnone]
    · simp

theorem get?_reverse_concat (key : String) (entries : List (Entry α)) (e : Entry α) :
    get? key (entries ++ [e]).reverse =
      if e.key = key then some e.value else get? key entries.reverse := by
  rw [List.reverse_append, List.reverse_singleton, List.singleton_append, get?_cons]

theorem get?_foldl_set (key : String) (entries more : List (Entry α)) :
    get? key (more.foldl (fun entries e => set e.key e.value entries) entries) =
      (get? key more.reverse).or (get? key entries) := by
  induction more generalizing entries with
  | nil => rfl
  | cons e rest ih =>
    rw [List.foldl_cons, ih, get?_set, List.reverse_cons, get?_append, get?_cons]
    by_cases h : e.key = key <;> simp [h]

end Entry

theorem Arguments.get?_insert (args : Arguments) (key other : String) (value : Value) :
    (args.insert key value).get? other = if key = other then some value else args.get? other :=
  Entry.get?_set key other value args.entries

def Native.last? (name : String) (fs : List Native) : Option Native :=
  fs.reverse.find? (·.name = name)

namespace Registry

theorem get?_foldl_register (name : String) (fs : List Native) (registry : Registry) :
    (fs.foldl register registry).get? name = (Native.last? name fs).or (registry.get? name) := by
  induction fs generalizing registry with
  | nil => rfl
  | cons f rest ih =>
    rw [List.foldl_cons, ih, get?, register, Entry.get?_set, Native.last?, Native.last?,
      List.reverse_cons, List.find?_append]
    by_cases h : f.name = name <;> simp [h, get?]

theorem get?_ofList (name : String) (fs : List Native) :
    (ofList fs).get? name = Native.last? name fs := by
  rw [ofList, get?_foldl_register]
  exact Option.or_none

theorem nodup_foldl_register (fs : List Native) {registry : Registry}
    (h : (Entry.keys registry.functions).Nodup) :
    (Entry.keys (fs.foldl register registry).functions).Nodup := by
  induction fs generalizing registry with
  | nil => exact h
  | cons f rest ih => exact ih (Entry.nodup_keys_set h f.name f)

theorem get?_merge (name : String) (registry : Registry) {other : Registry}
    (h : (Entry.keys other.functions).Nodup) :
    (registry.merge other).get? name = (other.get? name).or (registry.get? name) := by
  rw [get?, merge, Entry.get?_foldl_set, Entry.get?_reverse h]
  rfl

theorem get?_merge_ofList (name : String) (registry : Registry) (fs : List Native) :
    (registry.merge (ofList fs)).get? name =
      (Native.last? name fs).or (registry.get? name) := by
  have hnodup : (Entry.keys (ofList fs).functions).Nodup := nodup_foldl_register fs .nil
  rw [get?_merge name registry hnodup, get?_ofList]

end Registry

namespace Scope

theorem get?_define (scope : Scope) (key name : String) (value : Value) :
    (scope.define key value).get? name =
      (scope.get? name).or (if key = name then some value else none) := by
  rw [get?, define, Entry.add]
  split
  · next old hold =>
    split
    · next h => simp [get?, ← h, hold]
    · simp [get?]
  · rw [Entry.get?_append]
    rfl

theorem get?_install (registry : Registry) (scope : Scope) (name : String) :
    (registry.install scope).get? name =
      (scope.get? name).or ((registry.get? name).map .native) := by
  rcases registry with ⟨functions⟩
  simp only [Registry.install, Registry.get?]
  induction functions generalizing scope with
  | nil => simp
  | cons e rest ih =>
    rw [List.foldl_cons, ih, get?_define, Entry.get?_cons]
    by_cases h : e.key = name <;> simp [h]

theorem nodup_install (registry : Registry) {scope : Scope}
    (h : (Entry.keys scope.bindings).Nodup) :
    (Entry.keys (registry.install scope).bindings).Nodup := by
  rcases registry with ⟨functions⟩
  simp only [Registry.install]
  induction functions generalizing scope with
  | nil => exact h
  | cons e rest ih => exact ih (Entry.nodup_keys_add h e.key (.native e.value))

end Scope

namespace Interpreter

/-- The function that an interpreter built with these functions has under a name. -/
def registered? (natives : List Native) (name : String) : Option Native :=
  Native.last? name ([.print, .condition] ++ natives)

theorem get?_global_build (host : Host) (printer : Printer) (natives : List Native)
    (name : String) : (build host printer natives).machine.env.global.get? name =
      (registered? natives name).map .native := by
  have hbuiltins : Registry.builtins.get? name = Native.last? name [.print, .condition] :=
    Registry.get?_ofList ..
  have h := Scope.get?_install (Registry.builtins.merge (Registry.ofList natives)) .empty name
  rw [Registry.get?_merge_ofList, hbuiltins] at h
  rw [registered?, Native.last?, List.reverse_append, List.find?_append]
  exact h

theorem exists_registered_of_mem_global_build {host : Host} {printer : Printer}
    {natives : List Native} {e : Entry Value}
    (h : e ∈ (build host printer natives).machine.env.global.bindings) :
    ∃ f, registered? natives e.key = some f ∧ .native f = e.value := by
  have hnodup : (Entry.keys (build host printer natives).machine.env.global.bindings).Nodup :=
    Scope.nodup_install _ .nil
  have hget := get?_global_build host printer natives e.key
  rw [Scope.get?, Entry.get?_of_mem hnodup h] at hget
  exact Option.map_eq_some_iff.1 hget.symm

end Interpreter

end TagScript
