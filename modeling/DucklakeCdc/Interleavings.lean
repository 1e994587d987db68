import DucklakeCdc.Histories
import Mathlib.Logic.Function.Basic

/-!
Processes that take turns on a shared state, in any order. A turn is one process's: it may
change the shared state and what that process has for itself, and leaves in the trace what
was done. An invariant is a part about the shared state and a part about each process;
it has to be kept by a process's own turns and, where it speaks of a process, by the
turns of all others.
-/
namespace Interleavings
open Histories
variable {π σ τ κ μ : Type} [DecidableEq π]

structure State (π σ τ κ : Type) where
  shared : σ
  locals : π → τ
  trace : List (π × κ) := []

/-- What a turn of `p` does: what is left of it in the trace, and both states after it;
    `none` where the turn is not possible. -/
abbrev Does (π σ τ κ μ : Type) := π → σ → τ → μ → Option (List κ × σ × τ)

def State.after (s : State π σ τ κ) (p : π) (done : List κ × σ × τ) : State π σ τ κ where
  shared := done.2.1
  locals := Function.update s.locals p done.2.2
  trace := s.trace ++ done.1.map (p,·)

/-- A turn that is not possible leaves everything as it is. -/
def act (does : Does π σ τ κ μ) (s : State π σ τ κ) (turn : π × μ) : State π σ τ κ :=
  ((does turn.1 s.shared (s.locals turn.1) turn.2).map (s.after turn.1)).getD s

def run (does : Does π σ τ κ μ) (s : State π σ τ κ) (turns : List (π × μ)) : State π σ τ κ :=
  turns.foldl (act does) s

theorem run_snoc (does : Does π σ τ κ μ) (s : State π σ τ κ) (turns : List (π × μ)) (turn : π × μ) :
    run does s (turns ++ [turn]) = act does (run does s turns) turn := by
  rw [run, List.foldl_append]
  rfl

def own (p : π) (trace : List (π × κ)) : List κ :=
  trace.filterMap fun entry => if entry.1 = p then some entry.2 else none

theorem own_append (p : π) (trace more : List (π × κ)) :
    own p (trace ++ more) = own p trace ++ own p more := List.filterMap_append

theorem own_same (p : π) (done : List κ) : own p (done.map (p,·)) = done := by
  induction done with
  | nil => rfl
  | cons k rest ih =>
    have first : own p ((p,k) :: rest.map (p,·)) = k :: own p (rest.map (p,·)) := by simp [own]
    rw [List.map_cons, first, ih]

theorem own_other {p q : π} (other : q ≠ p) (done : List κ) : own q (done.map (p,·)) = [] := by
  rw [own, List.filterMap_eq_nil_iff]
  rintro _ member
  obtain ⟨k,_,rfl⟩ := List.mem_map.mp member
  exact if_neg (Ne.symm other)

section
variable {does : Does π σ τ κ μ} {s : State π σ τ κ} {p q : π} {done : List κ × σ × τ}

@[simp] theorem after_shared : (s.after p done).shared = done.2.1 := rfl

@[simp] theorem after_trace : (s.after p done).trace = s.trace ++ done.1.map (p,·) := rfl

@[simp] theorem after_self : (s.after p done).locals p = done.2.2 := Function.update_self ..

@[simp] theorem after_other (other : q ≠ p) : (s.after p done).locals q = s.locals q :=
  Function.update_of_ne other ..

theorem act_cases {P : State π σ τ κ → Prop} (turn : π × μ) (idle : P s)
    (moves : ∀ done, does turn.1 s.shared (s.locals turn.1) turn.2 = some done →
      P (s.after turn.1 done)) : P (act does s turn) := by
  unfold act
  cases possible : does turn.1 s.shared (s.locals turn.1) turn.2 with
  | none => exact idle
  | some done => exact moves done possible

structure Holds (common : List (π × κ) → σ → Prop) (each : π → List (π × κ) → σ → τ → Prop)
    (s : State π σ τ κ) : Prop where
  common : common s.trace s.shared
  each : ∀ p, each p s.trace s.shared (s.locals p)

/-- What the turns must keep: a process its own part and the common one, and the parts of all
    others. -/
structure Kept (does : Does π σ τ κ μ) (common : List (π × κ) → σ → Prop)
    (each : π → List (π × κ) → σ → τ → Prop) : Prop where
  own : ∀ p m trace s t done, common trace s → each p trace s t → does p s t m = some done →
    common (trace ++ done.1.map (p,·)) done.2.1 ∧
      each p (trace ++ done.1.map (p,·)) done.2.1 done.2.2
  others : ∀ p q m trace s t u done, q ≠ p → common trace s → each p trace s t →
    each q trace s u → does p s t m = some done →
    each q (trace ++ done.1.map (p,·)) done.2.1 u

variable {common : List (π × κ) → σ → Prop} {each : π → List (π × κ) → σ → τ → Prop}

theorem act_keeps (kept : Kept does common each) (holds : Holds common each s) (turn : π × μ) :
    Holds common each (act does s turn) := by
  apply act_cases turn holds
  intro done moves
  obtain ⟨shared,mine⟩ := kept.own _ _ _ _ _ _ holds.common (holds.each turn.1) moves
  refine ⟨shared,fun q => ?_⟩
  by_cases same : q = turn.1
  · subst q
    rw [after_self]
    exact mine
  · rw [after_other same]
    exact kept.others _ _ _ _ _ _ _ _ same holds.common (holds.each turn.1) (holds.each q) moves

theorem run_keeps (kept : Kept does common each) (turns : List (π × μ)) (holds : Holds common each s) :
    Holds common each (run does s turns) := by
  induction turns generalizing s with
  | nil => exact holds
  | cons turn rest ih => exact ih (act_keeps kept holds turn)

end
end Interleavings
