import Mathlib.Data.Finset.Card
import Mathlib.Data.List.Induction
import Mathlib.Data.List.Sort
import TagScript.Proofs.Registry

universe u

namespace TagScript

namespace Entry

variable {α : Type u}

theorem eraseDups_concat (names : List String) (name : String) :
    (names ++ [name]).eraseDups =
      if name ∈ names then names.eraseDups else names.eraseDups ++ [name] := by
  rw [List.eraseDups_append]
  by_cases h : name ∈ names <;> simp [h, List.removeAll, List.eraseDups_cons]

theorem pairwise_idxOf_eraseDups (names : List String) :
    names.eraseDups.Pairwise fun name later => names.idxOf name < names.idxOf later := by
  induction names using List.reverseRecOn with
  | nil => exact .nil
  | append_singleton names last ih =>
    have hbefore : names.eraseDups.Pairwise fun name later =>
        (names ++ [last]).idxOf name < (names ++ [last]).idxOf later := by
      refine ih.imp_of_mem fun hname hlater h => ?_
      rw [List.mem_eraseDups] at hname hlater
      rwa [List.idxOf_append_of_mem hname, List.idxOf_append_of_mem hlater]
    rw [eraseDups_concat]
    split
    · exact hbefore
    · next hlast =>
      refine List.pairwise_append.2 ⟨hbefore, List.pairwise_singleton .., ?_⟩
      intro name hname later hlater
      rw [List.mem_eraseDups] at hname
      rw [List.mem_singleton.1 hlater, List.idxOf_append_of_mem hname,
        List.idxOf_append_of_notMem hlast]
      exact Nat.lt_add_right _ (List.idxOf_lt_length_of_mem hname)

theorem keys_foldl_set (more : List (Entry α)) :
    keys (more.foldl (fun entries e => set e.key e.value entries) []) = (keys more).eraseDups := by
  induction more using List.reverseRecOn with
  | nil => rfl
  | append_singleton more e ih =>
    have hkeys : keys (more ++ [e]) = keys more ++ [e.key] := by simp [keys]
    rw [List.foldl_concat, keys_set, ih, hkeys, eraseDups_concat]
    simp only [List.mem_eraseDups]

theorem nodup_keys_foldl_set (more : List (Entry α)) {entries : List (Entry α)}
    (h : (keys entries).Nodup) :
    (keys (more.foldl (fun entries e => set e.key e.value entries) entries)).Nodup := by
  induction more generalizing entries with
  | nil => exact h
  | cons e rest ih => exact ih (nodup_keys_set h e.key e.value)

theorem get?_reverse_eq_some_iff {key : String} {value : α} {entries : List (Entry α)} :
    get? key entries.reverse = some value ↔
      ∃ before after, entries = before ++ ⟨key, value⟩ :: after ∧ key ∉ keys after := by
  rw [get?_eq_some_iff_append]
  constructor
  · rintro ⟨before, after, h, hbefore⟩
    refine ⟨after.reverse, before.reverse, ?_, by simpa [keys] using hbefore⟩
    rw [← entries.reverse_reverse, h]
    simp
  · rintro ⟨before, after, rfl, hafter⟩
    exact ⟨after.reverse, before.reverse, by simp, by simpa [keys] using hafter⟩

theorem filterMap_get?_keys {entries : List (Entry α)} (h : (keys entries).Nodup) :
    (keys entries).filterMap (fun key => (get? key entries).map (Entry.mk key)) = entries := by
  rw [keys, List.filterMap_map]
  have hsome : ∀ e ∈ entries,
      ((fun key => (get? key entries).map (Entry.mk key)) ∘ Entry.key) e = some e := by
    intro e he
    rw [Function.comp_apply, get?_of_mem h he]
    rfl
  rw [List.filterMap_congr hsome, List.filterMap_some]

theorem eq_of_keys_of_get? {entries others : List (Entry α)} (h : (keys entries).Nodup)
    (hkeys : keys others = keys entries) (hget : ∀ key, get? key others = get? key entries) :
    others = entries := by
  have hothers : (keys others).Nodup := hkeys ▸ h
  rw [← filterMap_get?_keys hothers, ← filterMap_get?_keys h, hkeys]
  simp only [hget]

end Entry

namespace Arguments

section OfList

variable (values : List (Entry Value))

theorem entries_ofList :
    (ofList values).entries =
      values.foldl (fun entries e => Entry.set e.key e.value entries) [] := by
  rw [ofList]
  exact (List.foldl_hom entries fun _ _ => rfl).symm

theorem keys_ofList : Entry.keys (ofList values).entries = (Entry.keys values).eraseDups := by
  rw [entries_ofList, Entry.keys_foldl_set]

theorem nodup_keys_ofList : (Entry.keys (ofList values).entries).Nodup := by
  rw [entries_ofList]
  exact Entry.nodup_keys_foldl_set values List.nodup_nil

theorem get?_ofList (key : String) : (ofList values).get? key = Entry.get? key values.reverse := by
  rw [get?, entries_ofList, Entry.get?_foldl_set]
  exact Option.or_none

theorem get?_of_mem_ofList {e : Entry Value} (h : e ∈ (ofList values).entries) :
    Entry.get? e.key values.reverse = some e.value := by
  rw [← get?_ofList]
  exact Entry.get?_of_mem (nodup_keys_ofList values) h

end OfList

/-- Arguments gather pairs if they have the keys of the pairs, in the order in which each is given
first, and under each key the value that it is given last. -/
structure Gather (args : Arguments) (pairs : List (Entry Value)) : Prop where
  mem_keys_iff : ∀ key, key ∈ Entry.keys args.entries ↔ key ∈ Entry.keys pairs
  inOrder : (Entry.keys args.entries).Pairwise fun key later =>
    (Entry.keys pairs).idxOf key < (Entry.keys pairs).idxOf later
  get?_iff : ∀ key value, args.get? key = some value ↔
    ∃ before after, pairs = before ++ ⟨key, value⟩ :: after ∧ key ∉ Entry.keys after

theorem gather_ofList (pairs : List (Entry Value)) : (ofList pairs).Gather pairs where
  mem_keys_iff key := by rw [keys_ofList, List.mem_eraseDups]
  inOrder := by
    rw [keys_ofList]
    exact Entry.pairwise_idxOf_eraseDups _
  get?_iff key value := by rw [get?_ofList, Entry.get?_reverse_eq_some_iff]

theorem gather_entries {args : Arguments} (h : (Entry.keys args.entries).Nodup) :
    args.Gather args.entries where
  mem_keys_iff _ := Iff.rfl
  inOrder := by
    refine List.pairwise_iff_getElem.2 fun i j hi hj hij => ?_
    rwa [h.idxOf_getElem, h.idxOf_getElem]
  get?_iff key value := by
    rw [get?, ← Entry.get?_reverse h, Entry.get?_reverse_eq_some_iff]

namespace Gather

variable {args other : Arguments} {pairs : List (Entry Value)}

theorem nodup (h : args.Gather pairs) : (Entry.keys args.entries).Nodup := by
  refine h.inOrder.imp ?_
  rintro key _ hlt rfl
  exact Nat.lt_irrefl _ hlt

theorem get?_eq_none_iff (h : args.Gather pairs) (key : String) :
    args.get? key = none ↔ key ∉ Entry.keys pairs := by
  rw [get?, Entry.get?_eq_none_iff, h.mem_keys_iff]

theorem size_eq (h : args.Gather pairs) : args.size = (Entry.keys pairs).toFinset.card := by
  have hkeys : (Entry.keys args.entries).toFinset = (Entry.keys pairs).toFinset :=
    List.toFinset.ext h.mem_keys_iff
  rw [← hkeys, List.toFinset_card_of_nodup h.nodup, Entry.keys, List.length_map]
  rfl

theorem keys_eq (h : args.Gather pairs) (hother : other.Gather pairs) :
    Entry.keys args.entries = Entry.keys other.entries := by
  let before (key later : String) := (Entry.keys pairs).idxOf key < (Entry.keys pairs).idxOf later
  have : Std.Irrefl before := ⟨fun _ => Nat.lt_irrefl _⟩
  have : Std.Antisymm before := ⟨fun _ _ h h' => absurd h' h.asymm⟩
  -- The places in the pairs are a strict order, and in such an order a set is listed in one way.
  refine List.Pairwise.eq_of_mem_iff h.inOrder hother.inOrder fun key => ?_
  rw [h.mem_keys_iff, hother.mem_keys_iff]

theorem unique (h : args.Gather pairs) (hother : other.Gather pairs) : args = other := by
  have hget : ∀ key, args.get? key = other.get? key := by
    intro key
    ext value
    rw [h.get?_iff, hother.get?_iff]
  rcases args with ⟨entries⟩
  rcases other with ⟨others⟩
  exact congrArg Arguments.mk (Entry.eq_of_keys_of_get? hother.nodup (h.keys_eq hother) hget)

end Gather

/-- Pairs inserted one by one and pairs collected at once give the same arguments, and these alone
gather the pairs. Look-up agrees with the entries, and the entries collected once more give
the arguments back. -/
theorem ofList_insertion_ordered (pairs : List (Entry Value)) :
    let args := ofList pairs
    pairs.foldl (fun args pair => args.insert pair.key pair.value) empty = args ∧
      (∀ other : Arguments, other.Gather pairs ↔ other = args) ∧
      (Entry.keys args.entries).Nodup ∧
      (∀ key, args.get? key = none ↔ key ∉ Entry.keys pairs) ∧
      (∀ key value, args.get? key = some value ↔ ⟨key, value⟩ ∈ args.entries) ∧
      args.size = (Entry.keys pairs).toFinset.card ∧
      ofList args.entries = args := by
  intro args
  have hargs : args.Gather pairs := gather_ofList pairs
  refine ⟨rfl, fun other => ⟨fun h => h.unique hargs, fun h => h ▸ hargs⟩, hargs.nodup,
    hargs.get?_eq_none_iff, fun key value => Entry.get?_eq_some_iff hargs.nodup, hargs.size_eq, ?_⟩
  exact (gather_ofList args.entries).unique (gather_entries hargs.nodup)

example :
    (ofList [⟨"a", .number 1⟩, ⟨"b", .number 2⟩, ⟨"a", .number 3⟩]).entries =
      [⟨"a", .number 3⟩, ⟨"b", .number 2⟩] := rfl

end Arguments

end TagScript
