import Mathlib.Data.Set.Insert

/-!
Straight-line code checked against an abstract state. Each instruction demands something
of the abstract state and changes it; `Checks` follows a list of instructions and asks
for every demand on the way. `Since` speaks of the part of a log after its last event of
a kind, `Throughout` of every event together with the log before it.
-/
namespace CheckedCode
variable {A I : Type}

section
variable (demand : I → A → Prop) (after : I → A → A) (last : A → Prop)

/-- From `a`, every instruction finds what it demands, and the end satisfies `last`. -/
def Checks : A → List I → Prop
  | a, [] => last a
  | a, i :: rest => demand i a ∧ Checks (after i a) rest

/-- More in the abstract state is never worse. -/
structure Monotone (le : A → A → Prop) : Prop where
  demand : ∀ i a b, le a b → demand i a → demand i b
  after : ∀ i a b, le a b → le (after i a) (after i b)
  last : ∀ a b, le a b → last a → last b

variable {demand} {after} {last} {le : A → A → Prop} {a b : A} {code code' : List I} {i : I}

theorem checks_mono (mono : Monotone demand after last le) (more : le a b)
    (h : Checks demand after last a code) : Checks demand after last b code := by
  induction code generalizing a b with
  | nil => exact mono.last a b more h
  | cons i rest ih =>
    exact ⟨mono.demand i a b more h.1,ih (mono.after i a b more) h.2⟩

/-- The rest of checked code checks from any state that has what the first instruction
    leaves behind. -/
theorem checks_rest (mono : Monotone demand after last le) (more : le (after i a) b)
    (h : Checks demand after last a (i :: code)) : Checks demand after last b code :=
  checks_mono mono more h.2

theorem checks_undemanding (undemanding : ∀ i ∈ code, ∀ a, demand i a) (ends : ∀ a, last a) :
    Checks demand after last a code := by
  induction code generalizing a with
  | nil => exact ends a
  | cons i rest ih =>
    refine ⟨undemanding i List.mem_cons_self a,ih ?_⟩
    exact fun j member => undemanding j (List.mem_cons_of_mem i member)

theorem checks_neutral (neutral : ∀ i ∈ code, ∀ a, demand i a ∧ after i a = a) :
    Checks demand after last a (code ++ code') ↔ Checks demand after last a code' := by
  induction code with
  | nil => rfl
  | cons i rest ih =>
    obtain ⟨given,same⟩ := neutral i List.mem_cons_self a
    have later := ih fun j member => neutral j (List.mem_cons_of_mem i member)
    constructor
    · intro h
      rw [List.cons_append, Checks, same] at h
      exact later.mp h.2
    · intro h
      rw [List.cons_append, Checks, same]
      exact ⟨given,later.mpr h⟩

theorem checks_neutral_loop {ν : Type} {names : List ν} {body : ν → List I}
    (neutral : ∀ name, ∀ i ∈ body name, ∀ a, demand i a ∧ after i a = a) :
    Checks demand after last a (names.flatMap body ++ code) ↔
      Checks demand after last a code := by
  apply checks_neutral
  intro i member
  obtain ⟨name,_,inside⟩ := List.mem_flatMap.mp member
  exact neutral name i inside

theorem checks_neutral_map {ν : Type} {names : List ν} {instr : ν → I}
    (neutral : ∀ name a, demand (instr name) a ∧ after (instr name) a = a) :
    Checks demand after last a (names.map instr ++ code) ↔ Checks demand after last a code := by
  apply checks_neutral
  intro i member
  obtain ⟨name,_,rfl⟩ := List.mem_map.mp member
  exact neutral name

end

section
variable {ν : Type} {demand : I → Set ν → Prop} {after : I → Set ν → Set ν} {last : Set ν → Prop}
  {names : List ν} {body : ν → List I} {code : List I}

theorem checks_gathered
    (adds : ∀ name (a : Set ν) (rest : List I), Checks demand after last (insert name a) rest →
      Checks demand after last a (body name ++ rest)) {a : Set ν}
    (later : ∀ more : Set ν, a ⊆ more → (∀ name ∈ names, name ∈ more) →
      Checks demand after last more code) :
    Checks demand after last a (names.flatMap body ++ code) := by
  induction names generalizing a with
  | nil => exact later a subset_rfl fun _ no => absurd no List.not_mem_nil
  | cons first names ih =>
    rw [List.flatMap_cons, List.append_assoc]
    refine adds first a _ (ih ?_)
    intro more wider all
    refine later more (subset_trans (Set.subset_insert first a) wider) ?_
    intro name member
    rcases List.mem_cons.mp member with same | other
    · subst name
      exact wider (Set.mem_insert first a)
    · exact all name other

end

section
variable {ε : Type} (begins : List ε → ε → Prop) (ends : ε → Prop)

/-- The log has an event that begins something, and none after it that ends it. An event
    may begin it or not by what came before. -/
def Since (log : List ε) : Prop :=
  ∃ before event later, log = before ++ event :: later ∧ begins before event ∧
    ∀ other ∈ later, ¬ ends other

variable {begins} {ends} {log : List ε} {event : ε}

theorem since_snoc : Since begins ends (log ++ [event]) ↔
    begins log event ∨ (Since begins ends log ∧ ¬ ends event) := by
  constructor
  · intro h
    obtain ⟨before,first,later,same,begun,open_⟩ := h
    rcases List.eq_nil_or_concat later with none_later | ⟨middle,final,rest⟩
    · subst later
      obtain ⟨whole,one⟩ := List.append_inj' same rfl
      obtain rfl := List.singleton_inj.mp one
      rw [whole]
      exact Or.inl begun
    · rw [List.concat_eq_append] at rest
      subst later
      have split : log ++ [event] = (before ++ first :: middle) ++ [final] := by
        simpa using same
      obtain ⟨whole,one⟩ := List.append_inj' split rfl
      obtain rfl := List.singleton_inj.mp one
      right
      constructor
      · exact ⟨before,first,middle,whole,begun,
          fun other member => open_ other (List.mem_append_left _ member)⟩
      · exact open_ event (List.mem_append_right _ (List.mem_singleton.mpr rfl))
  · intro h
    rcases h with begun | ⟨⟨before,first,later,same,begun,open_⟩,still⟩
    · exact ⟨log,event,[],rfl,begun,fun _ no => absurd no List.not_mem_nil⟩
    · refine ⟨before,first,later ++ [event],by simp [same],begun,?_⟩
      intro other member
      rcases List.mem_append.mp member with earlier | final
      · exact open_ other earlier
      · obtain rfl := List.mem_singleton.mp final
        exact still

end

section
variable {ε : Type} (P : List ε → ε → Prop)

def Throughout (log : List ε) : Prop :=
  ∀ before event later, log = before ++ event :: later → P before event

variable {P} {log : List ε} {event : ε}

theorem throughout_nil : Throughout P [] := by
  intro before event later same
  simp at same

theorem throughout_snoc (h : Throughout P log) (last : P log event) :
    Throughout P (log ++ [event]) := by
  intro before first later same
  rcases List.eq_nil_or_concat later with none_later | ⟨middle,final,rest⟩
  · subst later
    obtain ⟨whole,one⟩ := List.append_inj' same rfl
    obtain rfl := List.singleton_inj.mp one
    rwa [← whole]
  · rw [List.concat_eq_append] at rest
    subst later
    have split : log ++ [event] = (before ++ first :: middle) ++ [final] := by
      simpa using same
    exact h before first middle (List.append_inj' split rfl).1

end
end CheckedCode
