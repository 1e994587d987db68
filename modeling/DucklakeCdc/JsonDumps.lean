import DucklakeCdc.JsonText
import DucklakeCdc.Programs
import Mathlib.Data.List.Sort

/-!
`json.dumps` of Python values, with `default=` and `sort_keys=True`. `τ` are the objects of
types that JSON does not know. As a value such an object is replaced by the text that
`default` gives for it; as a key it is a `TypeError`, as are keys without an order. `none`
stands for the `TypeError`.
-/
namespace JsonDumps
open JsonText Programs
variable {τ : Type}

inductive Atom (τ : Type) where
  | none
  | bool (value : Bool)
  | int (value : Int)
  | str (value : String)
  | other (value : τ)
  deriving DecidableEq

/-- Python's values: atoms, in lists and in dictionaries whose keys are atoms. -/
abbrev Value (τ : Type) := Tree (Atom τ) (Atom τ)

def Atom.name : Atom τ → Option String
  | .none => some "null"
  | .bool value => some (if value then "true" else "false")
  | .int value => some (toString value)
  | .str value => some value
  | .other _ => Option.none

def Atom.number : Atom τ → Option Int
  | .bool value => some (if value then 1 else 0)
  | .int value => some value
  | _ => Option.none

/-- `<` of two strings: by code points, from the left. -/
def textLt : List Char → List Char → Bool
  | _, [] => false
  | [], _ :: _ => true
  | c :: cs, d :: ds => if c = d then textLt cs ds else c.toNat < d.toNat

section
variable (before : τ → τ → Option Bool) (default_ : τ → String)

def Atom.lt : Atom τ → Atom τ → Option Bool
  | .str a, .str b => some (textLt a.toList b.toList)
  | .other a, .other b => before a b
  | a, b => do return decide ((← a.number) < (← b.number))

def Atom.scalar : Atom τ → Scalar
  | .none => .null
  | .bool value => .bool value
  | .int value => .int value
  | .str value => .str value
  | .other value => .str (default_ value)

def Comparable (a b : Atom τ) : Prop := (a.lt before b).isSome = true

instance (a b : Atom τ) : Decidable (Comparable before a b) := inferInstanceAs (Decidable (_ = true))

def precedes {α : Type} (a b : Atom τ × α) : Prop := b.1.lt before a.1 ≠ some true

instance {α : Type} : DecidableRel (precedes before : Atom τ × α → Atom τ × α → Prop) :=
  fun _ _ => inferInstanceAs (Decidable (_ ≠ _))

/-- The items in the order of their keys, which differ: no two values are compared. -/
def sortItems {α : Type} (items : List (Atom τ × α)) : Option (List (Atom τ × α)) :=
  if (items.map Prod.fst).Pairwise (Comparable before) then
    some (items.insertionSort (precedes before))
  else none

def encodeMember (entry : Atom τ × Option Json) : Option (String × Json) := do
  return (← entry.1.name,← entry.2)

def encodeDict (entries : List (Atom τ × Option Json)) : Option Json := do
  let sorted ← sortItems before entries
  let members ← sorted.mapM encodeMember
  return .dict members

def encode : Value τ → Option Json :=
  Tree.fold (fun atom => some (.leaf (atom.scalar default_))) (fun items => (items.mapM id).map .list)
    (encodeDict before)

def dumps (value : Value τ) : Option (List Char) := (encode before default_ value).map render

end

def keyLists : Value τ → List (List (Atom τ)) :=
  Tree.fold (fun _ => []) List.flatten fun entries => entries.map Prod.fst :: entries.flatMap Prod.snd

/-- A JSON value with everything of a Python value: lists in order, each entry of a dictionary
    under the text of its key, and the other objects as texts. -/
inductive Recovers (default_ : τ → String) : Value τ → Json → Prop where
  | none : Recovers default_ (.leaf .none) (.leaf .null)
  | bool (value : Bool) : Recovers default_ (.leaf (.bool value)) (.leaf (.bool value))
  | int (value : Int) : Recovers default_ (.leaf (.int value)) (.leaf (.int value))
  | str (value : String) : Recovers default_ (.leaf (.str value)) (.leaf (.str value))
  | other (value : τ) : Recovers default_ (.leaf (.other value)) (.leaf (.str (default_ value)))
  | list {items : List (Value τ)} {values : List Json}
      (each : List.Forall₂ (Recovers default_) items values) :
      Recovers default_ (.list items) (.list values)
  | dict {entries sorted : List (Atom τ × Value τ)} {members : List (String × Json)}
      (same : sorted.Perm entries)
      (names : sorted.map (fun entry => entry.1.name) = members.map fun member => some member.1)
      (values : List.Forall₂ (Recovers default_) (sorted.map Prod.snd) (members.map Prod.snd))
      (distinct : (members.map Prod.fst).Nodup) : Recovers default_ (.dict entries) (.dict members)

inductive Kind where
  | none | bool | int | str | other
  deriving DecidableEq

def Atom.kind : Atom τ → Kind
  | .none => .none
  | .bool _ => .bool
  | .int _ => .int
  | .str _ => .str
  | .other _ => .other

/-- The keys of a dictionary as a database returns it: different, and of one kind. -/
def OneKind (keys : List (Atom τ)) : Prop := keys.Nodup ∧ ∀ a ∈ keys, ∀ b ∈ keys, a.kind = b.kind

def Typed (value : Value τ) : Prop := ∀ keys ∈ keyLists value, OneKind keys

def KnownKeys (value : Value τ) : Prop := ∀ keys ∈ keyLists value, ∀ key ∈ keys, key.kind ≠ .other

instance [DecidableEq τ] (keys : List (Atom τ)) : Decidable (OneKind keys) :=
  inferInstanceAs (Decidable (_ ∧ _))

instance [DecidableEq τ] (value : Value τ) : Decidable (Typed value) :=
  inferInstanceAs (Decidable (∀ keys ∈ keyLists value, OneKind keys))

instance (value : Value τ) : Decidable (KnownKeys value) :=
  inferInstanceAs (Decidable (∀ keys ∈ keyLists value, ∀ key ∈ keys, key.kind ≠ .other))

section
variable {value : Value τ} {items : List (Value τ)} {entries : List (Atom τ × Value τ)}

theorem keyLists_list (items : List (Value τ)) : keyLists (.list items) = items.flatMap keyLists := by
  rw [keyLists, Tree.fold_list, List.flatMap_def]

theorem keyLists_dict (entries : List (Atom τ × Value τ)) : keyLists (.dict entries) =
    entries.map Prod.fst :: entries.flatMap fun entry => keyLists entry.2 := by
  rw [keyLists, Tree.fold_dict, List.map_map, List.flatMap_map]
  rfl

theorem forall_keyLists_list {P : List (Atom τ) → Prop} :
    (∀ keys ∈ keyLists (.list items), P keys) ↔ ∀ item ∈ items, ∀ keys ∈ keyLists item, P keys := by
  rw [keyLists_list]
  simp only [List.mem_flatMap]
  exact ⟨fun h item member keys inside => h keys ⟨item,member,inside⟩,
    fun h keys ⟨item,member,inside⟩ => h item member keys inside⟩

theorem forall_keyLists_dict {P : List (Atom τ) → Prop} :
    (∀ keys ∈ keyLists (.dict entries), P keys) ↔
      P (entries.map Prod.fst) ∧ ∀ entry ∈ entries, ∀ keys ∈ keyLists entry.2, P keys := by
  rw [keyLists_dict, List.forall_mem_cons]
  simp only [List.mem_flatMap]
  refine and_congr_right fun _ => ?_
  exact ⟨fun h entry member keys inside => h keys ⟨entry,member,inside⟩,
    fun h keys ⟨entry,member,inside⟩ => h entry member keys inside⟩

theorem name_isSome {key : Atom τ} : key.name.isSome = true ↔ key.kind ≠ .other := by
  cases key <;> simp [Atom.name, Atom.kind]

theorem name_injective {a b : Atom τ} (kind : a.kind = b.kind) (known : a.kind ≠ .other)
    (same : a.name = b.name) : a = b := by
  cases a <;> cases b <;> simp only [Atom.kind, reduceCtorEq] at kind
  · rfl
  · rename_i a b
    have texts := Option.some.inj same
    cases a <;> cases b <;> first | rfl | exact absurd texts (by decide)
  · rename_i a b
    have texts : (toString a).toList = (toString b).toList :=
      congrArg String.toList (Option.some.inj same)
    have nothing : Readers.NotNext Char.isDigit [] := fun _ no => by cases no
    have left := reads_int a [] nothing
    have right := reads_int b [] nothing
    rw [texts, right] at left
    cases left
    rfl
  · cases same
    rfl
  · contradiction

end

section
variable {before : τ → τ → Option Bool} {default_ : τ → String} {value : Value τ}

theorem comparable_of_kind {a b : Atom τ} (kind : a.kind = b.kind) (known : a.kind ≠ .other)
    (different : a ≠ b) : Comparable before a b := by
  cases a <;> cases b <;> simp only [Atom.kind, reduceCtorEq] at kind
  · contradiction
  · rfl
  · rfl
  · rfl
  · contradiction

theorem comparable_keys {keys : List (Atom τ)} (one : OneKind keys)
    (known : ∀ key ∈ keys, key.kind ≠ .other) : keys.Pairwise (Comparable before) :=
  one.1.pairwise_of_forall_ne fun a member b member' different =>
    comparable_of_kind (one.2 a member b member') (known a member) different

theorem encode_list (items : List (Value τ)) : encode before default_ (.list items) =
    (items.mapM (encode before default_)).map .list := by
  rw [encode, Tree.fold_list, List.mapM_map]
  rfl

theorem encode_dict (entries : List (Atom τ × Value τ)) : encode before default_ (.dict entries) =
    encodeDict before (entries.map fun entry => (entry.1,encode before default_ entry.2)) :=
  Tree.fold_dict _ _ _ entries

theorem sortItems_map {α β : Type} (f : α → β) (items : List (Atom τ × α)) :
    sortItems before (items.map fun item => (item.1,f item.2)) =
      (sortItems before items).map (List.map fun item => (item.1,f item.2)) := by
  have keys : (items.map fun item => (item.1,f item.2)).map Prod.fst = items.map Prod.fst := by
    simp
  rw [sortItems, keys, sortItems]
  split
  · rw [Option.map_some, List.map_insertionSort (precedes before) (precedes before)]
    exact fun _ _ _ _ => Iff.rfl
  · rfl

theorem perm_of_sortItems {α : Type} {items sorted : List (Atom τ × α)}
    (ran : sortItems before items = some sorted) : sorted.Perm items := by
  rw [sortItems] at ran
  split at ran
  · cases ran
    exact List.perm_insertionSort _ _
  · cases ran

theorem encodeMember_eq_some_iff {entry : Atom τ × Option Json} {member : String × Json} :
    encodeMember entry = some member ↔ entry.1.name = some member.1 ∧ entry.2 = some member.2 := by
  obtain ⟨key,value⟩ := entry
  obtain ⟨name,json⟩ := member
  simp only [encodeMember, Option.bind_eq_bind, Option.bind_eq_some_iff, Option.pure_def,
    Option.some.injEq, Prod.mk.injEq]
  constructor
  · rintro ⟨_,here,_,there,rfl,rfl⟩
    exact ⟨here,there⟩
  · rintro ⟨here,there⟩
    exact ⟨_,here,_,there,rfl,rfl⟩

/-- A dictionary is encoded where its entries can be sorted and each of them has a text for
    its key and a value that is encoded. -/
theorem encode_dict_eq_some_iff {entries : List (Atom τ × Value τ)} {json : Json} :
    encode before default_ (.dict entries) = some json ↔
      ∃ sorted members, sortItems before entries = some sorted ∧
        List.Forall₂ (fun entry member => entry.1.name = some member.1 ∧
          encode before default_ entry.2 = some member.2) sorted members ∧ .dict members = json := by
  rw [encode_dict, encodeDict, sortItems_map]
  simp only [Option.bind_eq_bind, Option.bind_eq_some_iff, Option.map_eq_some_iff, Option.pure_def,
    Option.some.injEq, mapM_eq_some_iff]
  constructor
  · rintro ⟨_,⟨sorted,ran,rfl⟩,members,each,rfl⟩
    rw [List.forall₂_map_left_iff] at each
    exact ⟨sorted,members,ran,each.imp fun _ _ here => encodeMember_eq_some_iff.mp here,rfl⟩
  · rintro ⟨sorted,members,ran,each,rfl⟩
    refine ⟨_,⟨sorted,ran,rfl⟩,members,?_,rfl⟩
    rw [List.forall₂_map_left_iff]
    exact each.imp fun _ _ here => encodeMember_eq_some_iff.mpr here

theorem encode_of_known (typed : Typed value) (known : KnownKeys value) :
    ∃ json, encode before default_ value = some json := by
  induction value using Tree.induction with
  | leaf atom => exact ⟨_,rfl⟩
  | list items ih =>
    have one := forall_keyLists_list.mp typed
    have keys := forall_keyLists_list.mp known
    obtain ⟨values,each⟩ := exists_forall₂ fun item member =>
      ih item member (one item member) (keys item member)
    exact ⟨.list values,by rw [encode_list, mapM_eq_some_iff.mpr each]; rfl⟩
  | dict entries ih =>
    obtain ⟨one,ones⟩ := forall_keyLists_dict.mp typed
    obtain ⟨keys,rest⟩ := forall_keyLists_dict.mp known
    have ran : sortItems before entries = some (entries.insertionSort (precedes before)) := by
      rw [sortItems, if_pos (comparable_keys one keys)]
    have member : ∀ entry ∈ entries.insertionSort (precedes before), ∃ member : String × Json,
        entry.1.name = some member.1 ∧ encode before default_ entry.2 = some member.2 := by
      intro entry sorted
      have inside := (List.mem_insertionSort _).mp sorted
      obtain ⟨json,encoded⟩ := ih entry inside (ones entry inside) (rest entry inside)
      obtain ⟨name,text⟩ := Option.isSome_iff_exists.mp
        (name_isSome.mpr (keys entry.1 (List.mem_map_of_mem inside)))
      exact ⟨(name,json),text,encoded⟩
    obtain ⟨members,each⟩ := exists_forall₂ member
    exact ⟨.dict members,encode_dict_eq_some_iff.mpr ⟨_,members,ran,each,rfl⟩⟩

theorem known_of_encode {json : Json} (encoded : encode before default_ value = some json) :
    KnownKeys value := by
  induction value using Tree.induction generalizing json with
  | leaf atom => exact fun _ no => by cases no
  | list items ih =>
    rw [encode_list, Option.map_eq_some_iff] at encoded
    obtain ⟨values,all,_⟩ := encoded
    refine forall_keyLists_list.mpr fun item member => ?_
    obtain ⟨json,here⟩ := exists_of_forall₂ (mapM_eq_some_iff.mp all) member
    exact ih item member here
  | dict entries ih =>
    obtain ⟨sorted,members,ran,each,_⟩ := encode_dict_eq_some_iff.mp encoded
    have inside : ∀ entry ∈ entries, ∃ member : String × Json, entry.1.name = some member.1 ∧
        encode before default_ entry.2 = some member.2 := by
      intro entry member
      exact exists_of_forall₂ each ((perm_of_sortItems ran).mem_iff.mpr member)
    refine forall_keyLists_dict.mpr ⟨?_,?_⟩
    · rintro key known
      obtain ⟨entry,member,rfl⟩ := List.mem_map.mp known
      obtain ⟨_,text,_⟩ := inside entry member
      exact name_isSome.mp (by rw [text]; rfl)
    · intro entry member
      obtain ⟨_,_,here⟩ := inside entry member
      exact ih entry member here

theorem names_distinct {keys : List (Atom τ)} (one : OneKind keys)
    (known : ∀ key ∈ keys, key.kind ≠ .other) : (keys.map Atom.name).Nodup :=
  one.1.map_on fun a member b member' same =>
    name_injective (one.2 a member b member') (known a member) same

theorem recovers_of_encode {json : Json} (typed : Typed value)
    (encoded : encode before default_ value = some json) : Recovers default_ value json := by
  have known := known_of_encode encoded
  induction value using Tree.induction generalizing json with
  | leaf atom =>
    cases encoded
    cases atom with
    | none => exact .none
    | bool value => exact .bool value
    | int value => exact .int value
    | str value => exact .str value
    | other value => exact .other value
  | list items ih =>
    have one := forall_keyLists_list.mp typed
    have keys := forall_keyLists_list.mp known
    rw [encode_list, Option.map_eq_some_iff] at encoded
    obtain ⟨values,all,rfl⟩ := encoded
    have each := (List.forall₂_and_left _ _).mpr ⟨fun item member => member,mapM_eq_some_iff.mp all⟩
    exact .list (each.imp fun item json ⟨member,here⟩ =>
      ih item member (one item member) here (keys item member))
  | dict entries ih =>
    obtain ⟨one,ones⟩ := forall_keyLists_dict.mp typed
    obtain ⟨keys,rest⟩ := forall_keyLists_dict.mp known
    obtain ⟨sorted,members,ran,each,rfl⟩ := encode_dict_eq_some_iff.mp encoded
    have same := perm_of_sortItems ran
    have names : sorted.map (fun entry => entry.1.name) = members.map fun member => some member.1 := by
      rw [← List.forall₂_eq_eq_eq, List.forall₂_map_left_iff, List.forall₂_map_right_iff]
      exact each.imp fun _ _ here => here.1
    have values : List.Forall₂ (Recovers default_) (sorted.map Prod.snd) (members.map Prod.snd) := by
      rw [List.forall₂_map_left_iff, List.forall₂_map_right_iff]
      have inside := (List.forall₂_and_left _ _).mpr ⟨fun entry => same.mem_iff.mp,each⟩
      exact inside.imp fun entry json ⟨member,here⟩ =>
        ih entry member (ones entry member) here.2 (rest entry member)
    refine .dict same names values ?_
    have distinct : (sorted.map fun entry => entry.1.name).Nodup := by
      have before_ := names_distinct one keys
      rw [List.map_map] at before_
      exact (same.map _).nodup_iff.mpr before_
    rw [names] at distinct
    exact List.Nodup.of_map some (by rwa [List.map_map])

end
end JsonDumps
