import Mathlib.Data.List.Induction
import Mathlib.Data.Set.Function
import Mathlib.Logic.Function.Basic

/-!
A store that keeps one item under each key: putting an item replaces what its key had.
Where the key tells the items apart, it does not matter in which order and how often
they are put.
-/
namespace KeyedStores
variable {κ ν : Type} [DecidableEq κ]

abbrev Store (κ ν : Type) := κ → Option ν

def put (key : ν → κ) (s : Store κ ν) (item : ν) : Store κ ν :=
  Function.update s (key item) (some item)

/-- The store after one item after another, from the empty one. -/
def store (key : ν → κ) (items : List ν) : Store κ ν := items.foldl (put key) fun _ => none

variable {key : ν → κ} {items : List ν} {k : κ} {v : ν}

theorem store_snoc (items : List ν) (item : ν) :
    store key (items ++ [item]) = put key (store key items) item := by
  rw [store, List.foldl_append]
  rfl

theorem store_eq_some : store key items k = some v → v ∈ items ∧ key v = k := by
  induction items using List.reverseRecOn with
  | nil => exact fun none_ => nomatch none_
  | append_singleton items item ih =>
    rw [store_snoc, put]
    intro kept
    by_cases same : k = key item
    · subst k
      rw [Function.update_self] at kept
      obtain rfl := Option.some.inj kept
      exact ⟨by simp,rfl⟩
    · rw [Function.update_of_ne same] at kept
      obtain ⟨member,at_⟩ := ih kept
      exact ⟨List.mem_append_left _ member,at_⟩

theorem store_eq_some_iff (apart : Set.InjOn key {v | v ∈ items}) :
    store key items k = some v ↔ v ∈ items ∧ key v = k := by
  refine ⟨store_eq_some,?_⟩
  induction items using List.reverseRecOn with
  | nil => exact fun no => nomatch no.1
  | append_singleton items item ih =>
    rintro ⟨member,rfl⟩
    rw [store_snoc, put]
    by_cases same : key v = key item
    · obtain rfl := apart member (by simp) same
      rw [Function.update_self]
    · have earlier : v ∈ items := by
        rcases List.mem_append.mp member with old | new
        · exact old
        · exact absurd (congrArg key (List.mem_singleton.mp new)) same
      rw [Function.update_of_ne same]
      exact ih (apart.mono fun w old => List.mem_append_left _ old) ⟨earlier,rfl⟩

end KeyedStores
