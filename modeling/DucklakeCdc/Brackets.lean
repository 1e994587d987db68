import Mathlib.Data.List.Basic

/-!
Bracketed use of resources: a log of the opens that returned and the closes that were
called, for any kind of resource. `holding` tells whether a resource is open at the end
of a log; a log is bracketed when every close closes something open.
-/
namespace Brackets
variable {κ : Type}

inductive Event (κ : Type) where
  | opened (key : κ)
  | closed (key : κ)
  deriving DecidableEq, Repr

section
variable [DecidableEq κ]

def update (key : κ) (held : Bool) : Event κ → Bool
  | .opened other => if other = key then true else held
  | .closed other => if other = key then false else held

def holding (log : List (Event κ)) (key : κ) : Bool := log.foldl (update key) false

/-- Every close comes after an open of the same resource, with no other close of it
    in between. -/
def Bracketed (log : List (Event κ)) : Prop :=
  ∀ before key after, log = before ++ Event.closed key :: after → holding before key = true

def Settled (log : List (Event κ)) : Prop := ∀ key, holding log key = false

variable {log : List (Event κ)} {key : κ}

theorem holding_snoc (event : Event κ) :
    holding (log ++ [event]) key = update key (holding log key) event := by
  simp [holding]

theorem bracketed_nil : Bracketed ([] : List (Event κ)) := by
  intro before key after same
  simp at same

theorem bracketed_snoc {event : Event κ} (bracketed : Bracketed log)
    (last : ∀ key, event = .closed key → holding log key = true) :
    Bracketed (log ++ [event]) := by
  intro before key after same
  rcases List.eq_nil_or_concat after with none_after | ⟨middle,final,rest⟩
  · subst after
    obtain ⟨whole,closing⟩ := List.append_inj' same rfl
    rw [← whole]
    exact last key (List.singleton_inj.mp closing)
  · subst after
    have split : log ++ [event] = before ++ Event.closed key :: middle ++ [final] := by
      simpa using same
    exact bracketed before key middle (List.append_inj' split rfl).1

theorem bracketed_opens (bracketed : Bracketed log) (keys : List κ) :
    Bracketed (log ++ keys.map .opened) := by
  induction keys generalizing log with
  | nil => simpa using bracketed
  | cons first rest ih =>
    have next : Bracketed (log ++ [Event.opened first]) := by
      apply bracketed_snoc bracketed
      intro key same
      cases same
    simpa using ih next

theorem holding_opens (log : List (Event κ)) (keys : List κ) :
    holding (log ++ keys.map .opened) key = (decide (key ∈ keys) || holding log key) := by
  induction keys generalizing log with
  | nil => simp
  | cons first rest ih =>
    have step := ih (log ++ [Event.opened first])
    rw [holding_snoc] at step
    simp only [List.append_assoc, List.singleton_append] at step
    rw [List.map_cons, step]
    by_cases same : first = key
    · simp [update, same]
    · simp [update, same, Ne.symm same]

theorem bracketed_closes {keys : List κ} (bracketed : Bracketed log) (distinct : keys.Nodup)
    (held : ∀ key ∈ keys, holding log key = true) : Bracketed (log ++ keys.map .closed) := by
  induction keys generalizing log with
  | nil => simpa using bracketed
  | cons first rest ih =>
    obtain ⟨new,distinct⟩ := List.nodup_cons.mp distinct
    have next : Bracketed (log ++ [Event.closed first]) := by
      apply bracketed_snoc bracketed
      intro key same
      cases same
      exact held first List.mem_cons_self
    have still : ∀ key ∈ rest, holding (log ++ [Event.closed first]) key = true := by
      intro key member
      have other : first ≠ key := by
        intro same
        subst key
        exact new member
      rw [holding_snoc]
      simp only [update, if_neg other]
      exact held key (List.mem_cons_of_mem _ member)
    simpa using ih next distinct still

theorem holding_closes (log : List (Event κ)) (keys : List κ) :
    holding (log ++ keys.map .closed) key = (!decide (key ∈ keys) && holding log key) := by
  induction keys generalizing log with
  | nil => simp
  | cons first rest ih =>
    have step := ih (log ++ [Event.closed first])
    rw [holding_snoc] at step
    simp only [List.append_assoc, List.singleton_append] at step
    rw [List.map_cons, step]
    by_cases same : first = key
    · simp [update, same]
    · simp [update, same, Ne.symm same]

end
end Brackets
