import Mathlib.Data.List.Induction
import Mathlib.Data.List.Nodup
import Mathlib.Tactic.Common

/-!
Dictionaries that keep the order in which their keys came. A later value for a key takes
the place of an earlier one.
-/
namespace OrderedDicts
variable {κ ν : Type}

structure Dict (κ ν : Type) where
  entries : List (κ × ν)
  distinct : (entries.map Prod.fst).Nodup

def Dict.empty : Dict κ ν := ⟨[],List.nodup_nil⟩

section
variable [DecidableEq κ] {key key' : κ} {value : ν}

def replace (key : κ) (value : ν) (entry : κ × ν) : κ × ν :=
  if entry.1 = key then (key,value) else entry

@[simp] theorem replace_key (entry : κ × ν) : (replace key value entry).1 = entry.1 := by
  unfold replace
  split
  · exact Eq.symm ‹_›
  · rfl

def Dict.insert (d : Dict κ ν) (key : κ) (value : ν) : Dict κ ν :=
  if known : key ∈ d.entries.map Prod.fst then
    { entries := d.entries.map (replace key value)
      distinct := by
        have same : (d.entries.map (replace key value)).map Prod.fst = d.entries.map Prod.fst := by
          simp
        rw [same]
        exact d.distinct }
  else
    { entries := d.entries ++ [(key,value)]
      distinct := by
        rw [List.map_append, List.map_singleton, ← List.concat_eq_append]
        exact d.distinct.concat known }

def Dict.ofPairs (pairs : List (κ × ν)) : Dict κ ν :=
  pairs.foldl (fun d pair => d.insert pair.1 pair.2) Dict.empty

def Dict.get? (d : Dict κ ν) (key : κ) : Option ν := d.entries.lookup key

theorem lookup_map_replace (entries : List (κ × ν)) :
    (entries.map (replace key value)).lookup key' =
      if key' = key then (entries.lookup key).map fun _ => value else entries.lookup key' := by
  induction entries with
  | nil => simp
  | cons entry rest ih =>
    obtain ⟨k,v⟩ := entry
    rw [List.map_cons, replace]
    by_cases here : k = key
    · subst k
      by_cases asked : key' = key
      · simp [asked]
      · have other : (key' == key) = false := by simpa using asked
        simp only [if_true, List.lookup_cons, other, ih, if_neg asked]
    · rw [if_neg here]
      by_cases asked : key' = key
      · subst key'
        have other : (key == k) = false := by simpa using Ne.symm here
        simp only [List.lookup_cons, other, ih, if_true]
      · simp only [List.lookup_cons, ih, if_neg asked]

theorem lookup_isSome_of_mem {entries : List (κ × ν)} (known : key ∈ entries.map Prod.fst) :
    ∃ v, entries.lookup key = some v := by
  obtain ⟨entry,member,same⟩ := List.mem_map.mp known
  apply Option.isSome_iff_exists.mp
  rw [List.lookup_isSome_iff]
  exact ⟨entry,member,by simpa using same.symm⟩

theorem lookup_of_not_mem {entries : List (κ × ν)} (unknown : key ∉ entries.map Prod.fst) :
    entries.lookup key = none := by
  rw [List.lookup_eq_none_iff]
  intro entry member
  have other : key ≠ entry.1 := fun same => unknown (same ▸ List.mem_map_of_mem member)
  simpa using other

theorem get?_insert (d : Dict κ ν) :
    (d.insert key value).get? key' = if key' = key then some value else d.get? key' := by
  unfold Dict.insert Dict.get?
  split
  · rename_i known
    rw [lookup_map_replace]
    split
    · obtain ⟨v,found⟩ := lookup_isSome_of_mem known
      rw [found, Option.map_some]
    · rfl
  · rename_i unknown
    rw [List.lookup_append, List.lookup_cons, List.lookup_nil]
    by_cases asked : key' = key
    · subst key'
      rw [lookup_of_not_mem unknown]
      simp
    · have other : (key' == key) = false := by simpa using asked
      rw [other, if_neg asked, Option.or_none]

theorem ofPairs_snoc (pairs : List (κ × ν)) (pair : κ × ν) :
    Dict.ofPairs (pairs ++ [pair]) = (Dict.ofPairs pairs).insert pair.1 pair.2 := by
  rw [Dict.ofPairs, List.foldl_append]
  rfl

theorem get?_ofPairs (pairs : List (κ × ν)) :
    (Dict.ofPairs pairs).get? key = pairs.reverse.lookup key := by
  induction pairs using List.reverseRecOn with
  | nil => rfl
  | append_singleton pairs pair ih =>
    rw [ofPairs_snoc, get?_insert, ih, List.reverse_append, List.reverse_singleton,
      List.singleton_append, List.lookup_cons]
    by_cases asked : key = pair.1
    · simp [asked]
    · have other : (key == pair.1) = false := by simpa using asked
      rw [other, if_neg asked]

theorem entries_insert_new {d : Dict κ ν} (new : key ∉ d.entries.map Prod.fst) :
    (d.insert key value).entries = d.entries ++ [(key,value)] := by
  rw [Dict.insert, dif_neg new]

theorem entries_ofPairs {pairs : List (κ × ν)} (distinct : (pairs.map Prod.fst).Nodup) :
    (Dict.ofPairs pairs).entries = pairs := by
  induction pairs using List.reverseRecOn with
  | nil => rfl
  | append_singleton pairs pair ih =>
    rw [List.map_append, List.map_singleton] at distinct
    have before := ih distinct.of_append_left
    have new : pair.1 ∉ (Dict.ofPairs pairs).entries.map Prod.fst := by
      rw [before]
      exact fun known => (List.nodup_append'.mp distinct).2.2 known (List.mem_singleton.mpr rfl)
    rw [ofPairs_snoc, entries_insert_new new, before]

theorem get?_ofPairs_append (first second : List (κ × ν)) :
    (Dict.ofPairs (first ++ second)).get? key =
      ((Dict.ofPairs second).get? key).or ((Dict.ofPairs first).get? key) := by
  rw [get?_ofPairs, get?_ofPairs, get?_ofPairs, List.reverse_append, List.lookup_append]

theorem get?_ofPairs_of_not_mem {pairs : List (κ × ν)} (unknown : key ∉ pairs.map Prod.fst) :
    (Dict.ofPairs pairs).get? key = none := by
  rw [get?_ofPairs]
  apply lookup_of_not_mem
  rwa [List.map_reverse, List.mem_reverse]

end
end OrderedDicts
