import Mathlib.Data.List.Nodup
import Mathlib.Tactic.Common

/-!
Objects that bear names. Objects come, go and are renamed; at any time no two of them bear
one name, but a name that is free again can be given to another object.
-/
namespace NamedObjects
variable {ι ν : Type}

structure Directory (ι ν : Type) where
  entries : List (ι × ν)
  ids : (entries.map Prod.fst).Nodup
  names : (entries.map Prod.snd).Nodup

inductive Event (ι ν : Type) where
  | create (id : ι) (name : ν)
  | rename (old new : ν)
  | drop (name : ν)
  deriving DecidableEq, Repr

def Directory.empty : Directory ι ν := ⟨[],List.nodup_nil,List.nodup_nil⟩

theorem find?_key {α κ : Type} [DecidableEq κ] {key : α → κ} {entries : List α}
    (distinct : (entries.map key).Nodup) {k : κ} {entry : α} :
    entries.find? (fun other => key other = k) = some entry ↔ entry ∈ entries ∧ key entry = k := by
  constructor
  · intro found
    exact ⟨List.mem_of_find?_eq_some found,by simpa using List.find?_some found⟩
  · rintro ⟨member,rfl⟩
    cases found : entries.find? fun other => key other = key entry with
    | none => simpa using List.find?_eq_none.mp found entry member
    | some other =>
      have same : key other = key entry := by simpa using List.find?_some found
      rw [List.inj_on_of_nodup_map distinct (List.mem_of_find?_eq_some found) member same]

variable {d : Directory ι ν} {id : ι} {name : ν}

section
variable [DecidableEq ν]

def Directory.idOf (d : Directory ι ν) (name : ν) : Option ι :=
  (d.entries.find? fun entry => entry.2 = name).map Prod.fst

theorem idOf_eq_some_iff_mem : d.idOf name = some id ↔ (id,name) ∈ d.entries := by
  simp only [Directory.idOf, Option.map_eq_some_iff, find?_key d.names]
  constructor
  · rintro ⟨entry,⟨member,rfl⟩,rfl⟩
    exact member
  · intro member
    exact ⟨_,⟨member,rfl⟩,rfl⟩

def renamed (old new : ν) (entry : ι × ν) : ι × ν :=
  if entry.2 = old then (entry.1,new) else entry

theorem renamed_id (old new : ν) (entry : ι × ν) : (renamed old new entry).1 = entry.1 := by
  unfold renamed
  split <;> rfl

theorem names_renamed {old new : ν} {entries : List (ι × ν)} (names : (entries.map Prod.snd).Nodup)
    (free : new ∉ entries.map Prod.snd) :
    (entries.map fun entry => (renamed old new entry).2).Nodup := by
  apply (List.Nodup.of_map _ names).map_on
  intro a inA b inB same
  have fresh : ∀ entry ∈ entries, entry.2 ≠ new :=
    fun entry member taken => free (taken ▸ List.mem_map_of_mem member)
  unfold renamed at same
  split at same <;> split at same
  · rename_i isA isB
    exact List.inj_on_of_nodup_map names inA inB (isA.trans isB.symm)
  · exact absurd same.symm (fresh b inB)
  · exact absurd same (fresh a inA)
  · exact List.inj_on_of_nodup_map names inA inB same

end
section
variable [DecidableEq ι]

def Directory.nameOf (d : Directory ι ν) (id : ι) : Option ν :=
  (d.entries.find? fun entry => entry.1 = id).map Prod.snd

theorem nameOf_eq_some_iff : d.nameOf id = some name ↔ (id,name) ∈ d.entries := by
  simp only [Directory.nameOf, Option.map_eq_some_iff, find?_key d.ids]
  constructor
  · rintro ⟨entry,⟨member,rfl⟩,rfl⟩
    exact member
  · intro member
    exact ⟨_,⟨member,rfl⟩,rfl⟩

end
section
variable [DecidableEq ι] [DecidableEq ν]

/-- An event that is refused changes nothing. -/
def Directory.step (d : Directory ι ν) : Event ι ν → Directory ι ν
  | .create id name =>
    if new : id ∉ d.entries.map Prod.fst ∧ name ∉ d.entries.map Prod.snd then
      { entries := (id,name) :: d.entries
        ids := List.nodup_cons.mpr ⟨new.1,d.ids⟩
        names := List.nodup_cons.mpr ⟨new.2,d.names⟩ }
    else d
  | .rename old new =>
    if free : new ∉ d.entries.map Prod.snd then
      { entries := d.entries.map (renamed old new)
        ids := by simpa [Function.comp_def, renamed_id] using d.ids
        names := by simpa [Function.comp_def] using names_renamed d.names free }
    else d
  | .drop name =>
    { entries := d.entries.filter fun entry => entry.2 ≠ name
      ids := d.ids.sublist (List.filter_sublist.map _)
      names := d.names.sublist (List.filter_sublist.map _) }

def Directory.run (d : Directory ι ν) (history : List (Event ι ν)) : Directory ι ν :=
  history.foldl Directory.step d

theorem idOf_eq_some_iff : d.idOf name = some id ↔ d.nameOf id = some name := by
  rw [idOf_eq_some_iff_mem, nameOf_eq_some_iff]

def Event.after (d : Directory ι ν) (name : ν) : Event ι ν → Option ν
  | .create _ _ => some name
  | .rename old new =>
    if name = old ∧ new ∉ d.entries.map Prod.snd then some new else some name
  | .drop gone => if name = gone then none else some name

theorem nameOf_step (bears : d.nameOf id = some name) (event : Event ι ν) :
    (d.step event).nameOf id = event.after d name := by
  rw [nameOf_eq_some_iff] at bears
  cases event with
  | create other new =>
    rw [Event.after, nameOf_eq_some_iff, Directory.step]
    split
    · exact List.mem_cons_of_mem _ bears
    · exact bears
  | rename old new =>
    have kept : ∀ entry ∈ d.entries, entry.1 = id → entry.2 = name := by
      intro entry member same
      rw [List.inj_on_of_nodup_map d.ids member bears same]
    rw [Event.after, Directory.step]
    by_cases free : new ∉ d.entries.map Prod.snd
    · rw [dif_pos free]
      by_cases hit : name = old
      · rw [if_pos ⟨hit,free⟩, nameOf_eq_some_iff]
        exact List.mem_map.mpr ⟨_,bears,if_pos hit⟩
      · rw [if_neg fun both => hit both.1, nameOf_eq_some_iff]
        exact List.mem_map.mpr ⟨_,bears,if_neg hit⟩
    · rw [dif_neg free, if_neg fun both => free both.2, nameOf_eq_some_iff]
      exact bears
  | drop gone =>
    rw [Event.after, Directory.step]
    split
    · rename_i hit
      rw [Option.eq_none_iff_forall_ne_some]
      intro other named
      rw [nameOf_eq_some_iff, List.mem_filter] at named
      have same := List.inj_on_of_nodup_map d.ids named.1 bears rfl
      have here : other = name := congrArg Prod.snd same
      simp [here, hit] at named
    · rename_i missed
      rw [nameOf_eq_some_iff, List.mem_filter]
      exact ⟨bears,by simpa using missed⟩

def Event.Frees (name : ν) (event : Event ι ν) : Prop :=
  event = .drop name ∨ ∃ new, event = .rename name new

theorem nameOf_run_kept (bears : d.nameOf id = some name) {history : List (Event ι ν)}
    (kept : ∀ event ∈ history, ¬ event.Frees name) : (d.run history).nameOf id = some name := by
  induction history generalizing d with
  | nil => exact bears
  | cons event rest ih =>
    have here := kept event List.mem_cons_self
    have next : (d.step event).nameOf id = some name := by
      rw [nameOf_step bears]
      cases event with
      | create other new => rfl
      | rename old new =>
        exact if_neg fun both => here (Or.inr ⟨new,by rw [both.1]⟩)
      | drop gone => exact if_neg fun same => here (Or.inl (by rw [same]))
    exact ih next fun other member => kept other (List.mem_cons_of_mem _ member)

theorem nameOf_run_present (bears : d.nameOf id = some name) {history : List (Event ι ν)}
    (present : ∀ event ∈ history, ∀ gone, event ≠ .drop gone) :
    ∃ current, (d.run history).nameOf id = some current := by
  induction history generalizing d name with
  | nil => exact ⟨name,bears⟩
  | cons event rest ih =>
    have later := fun other member => present other (List.mem_cons_of_mem _ member)
    have next := nameOf_step bears event
    cases event with
    | create other new => exact ih next later
    | rename old new =>
      rw [Event.after] at next
      split at next <;> exact ih next later
    | drop gone => exact absurd rfl (present _ List.mem_cons_self gone)

end
end NamedObjects
