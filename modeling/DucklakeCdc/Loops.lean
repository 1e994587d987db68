import Mathlib.Data.Fintype.Pigeonhole
import Mathlib.Logic.Relation
import Mathlib.Tactic.Common

/-!
Loops that may not end, and walks along links. A loop is given by its body, which goes on
with another state or returns; it returns when some number of passes is enough. A walk
follows links up to the first object that passes a test or has no next one; among objects
that are linked in a circle it may go round for ever.
-/
namespace Loops
open Relation
variable {σ α ρ : Type}

def passes (body : σ → σ ⊕ α) : Nat → σ → Option α
  | 0, _ => none
  | fuel + 1, s =>
    match body s with
    | .inl t => passes body fuel t
    | .inr a => some a

def Returns (body : σ → σ ⊕ α) (s : σ) (a : α) : Prop := ∃ fuel, passes body fuel s = some a

section
variable {body : σ → σ ⊕ α} {s t : σ} {a b : α}

theorem passes_succ {fuel : Nat} (h : passes body fuel s = some a) :
    passes body (fuel + 1) s = some a := by
  induction fuel generalizing s with
  | zero => contradiction
  | succ fuel ih =>
    rw [passes] at h ⊢
    cases once : body s with
    | inl t =>
      simp only [once] at h
      exact ih h
    | inr b =>
      simp only [once] at h
      exact h

theorem passes_mono {fuel more : Nat} (enough : fuel ≤ more) (h : passes body fuel s = some a) :
    passes body more s = some a := by
  induction enough with
  | refl => exact h
  | step _ ih => exact passes_succ ih

theorem returns_unique (first : Returns body s a) (second : Returns body s b) : a = b := by
  obtain ⟨fuel,h⟩ := first
  obtain ⟨fuel',h'⟩ := second
  have left := passes_mono (Nat.le_max_left fuel fuel') h
  have right := passes_mono (Nat.le_max_right fuel fuel') h'
  exact Option.some.inj (left.symm.trans right)

theorem returns_on (once : body s = .inl t) : Returns body s a ↔ Returns body t a := by
  constructor
  · rintro ⟨fuel,h⟩
    cases fuel with
    | zero => contradiction
    | succ fuel =>
      simp only [passes, once] at h
      exact ⟨fuel,h⟩
  · rintro ⟨fuel,h⟩
    refine ⟨fuel + 1,?_⟩
    simp only [passes, once]
    exact h

theorem returns_last (once : body s = .inr b) : Returns body s a ↔ b = a := by
  constructor
  · rintro ⟨fuel,h⟩
    cases fuel with
    | zero => contradiction
    | succ fuel =>
      simp only [passes, once] at h
      exact Option.some.inj h
  · rintro rfl
    refine ⟨1,?_⟩
    simp only [passes, once]

theorem returns_invariant (inv : σ → Prop) {post : α → Prop} (start : inv s)
    (step : ∀ s t, inv s → body s = .inl t → inv t)
    (last : ∀ s a, inv s → body s = .inr a → post a) (h : Returns body s a) : post a := by
  obtain ⟨fuel,h⟩ := h
  induction fuel generalizing s with
  | zero => contradiction
  | succ fuel ih =>
    cases once : body s with
    | inl t =>
      simp only [passes, once] at h
      exact ih (step s t start once) h
    | inr b =>
      simp only [passes, once] at h
      obtain rfl := Option.some.inj h
      exact last s _ start once

end
section
variable (test : ρ → Bool) (next : ρ → Option ρ)

/-- One pass of a walk that looks for an object passing the test. -/
def walk : Option ρ → Option ρ ⊕ Bool
  | none => .inr false
  | some r => if test r then .inr true else .inl (next r)

def Reaches : ρ → ρ → Prop := ReflTransGen fun r r' => next r = some r'

/-- The walk comes to its end with the right answer. -/
def Answers (start : ρ) : Prop :=
  ∃ answer, Returns (walk test next) (some start) answer ∧
    (answer = true ↔ ∃ r, Reaches next start r ∧ test r = true)

end
section
variable {test : ρ → Bool} {next : ρ → Option ρ} {start : ρ}

theorem walk_found (passes : test start = true) : walk test next (some start) = .inr true :=
  if_pos passes

theorem walk_on (fails : test start = false) : walk test next (some start) = .inl (next start) :=
  if_neg (Bool.eq_false_iff.mp fails)

theorem returns_true (found : ∃ r, Reaches next start r ∧ test r = true) :
    Returns (walk test next) (some start) true := by
  obtain ⟨r,reached,passes⟩ := found
  induction reached using ReflTransGen.head_induction_on with
  | refl => exact (returns_last (walk_found passes)).mpr rfl
  | @head a b link _ ih =>
    cases here : test a with
    | true => exact (returns_last (walk_found here)).mpr rfl
    | false =>
      rw [returns_on (walk_on here), link]
      exact ih

theorem returns_false (ends : ∃ r, Reaches next start r ∧ next r = none)
    (nowhere : ∀ r, Reaches next start r → test r = false) :
    Returns (walk test next) (some start) false := by
  obtain ⟨r,reached,last⟩ := ends
  induction reached using ReflTransGen.head_induction_on with
  | refl =>
    rw [returns_on (walk_on (nowhere r .refl)), last]
    have stops : walk test next none = .inr false := rfl
    exact (returns_last stops).mpr rfl
  | @head a b link _ ih =>
    rw [returns_on (walk_on (nowhere a .refl)), link]
    exact ih fun r reached => nowhere r (.head link reached)

theorem walk_sound {answer : Bool} (h : Returns (walk test next) (some start) answer) :
    if answer then ∃ r, Reaches next start r ∧ test r = true
    else ∃ r, Reaches next start r ∧ next r = none := by
  let inv : Option ρ → Prop := fun at_ =>
    match at_ with
    | none => ∃ r, Reaches next start r ∧ next r = none
    | some r => Reaches next start r
  let post : Bool → Prop := fun answer =>
    if answer then ∃ r, Reaches next start r ∧ test r = true
    else ∃ r, Reaches next start r ∧ next r = none
  have begins : inv (some start) := ReflTransGen.refl
  change post answer
  refine returns_invariant inv begins ?_ ?_ h
  · intro at_ on held once
    cases at_ with
    | none => contradiction
    | some r =>
      cases here : test r with
      | true => simp [walk, here] at once
      | false =>
        rw [walk_on here] at once
        obtain rfl := Sum.inl.inj once
        cases link : next r with
        | none => exact ⟨r,held,link⟩
        | some r' => exact ReflTransGen.tail held link
  · intro at_ answer held once
    cases at_ with
    | none =>
      obtain rfl := Sum.inr.inj once
      exact held
    | some r =>
      cases here : test r with
      | false =>
        rw [walk_on here] at once
        contradiction
      | true =>
        rw [walk_found here] at once
        obtain rfl := Sum.inr.inj once
        exact ⟨r,held,here⟩

theorem answer_correct {answer : Bool} (h : Returns (walk test next) (some start) answer) :
    answer = true ↔ ∃ r, Reaches next start r ∧ test r = true := by
  constructor
  · rintro rfl
    exact walk_sound h
  · intro found
    exact returns_unique h (returns_true found)

/-- A walk comes to its end where it finds something, or where the links do. -/
theorem walk_returns_iff : (∃ answer, Returns (walk test next) (some start) answer) ↔
    (∃ r, Reaches next start r ∧ test r = true) ∨ ∃ r, Reaches next start r ∧ next r = none := by
  constructor
  · rintro ⟨answer,returned⟩
    have told := walk_sound returned
    cases answer with
    | true => exact Or.inl told
    | false => exact Or.inr told
  · intro either
    by_cases found : ∃ r, Reaches next start r ∧ test r = true
    · exact ⟨true,returns_true found⟩
    · have ends := either.resolve_left found
      refine ⟨false,returns_false ends fun r reached => ?_⟩
      exact Bool.eq_false_iff.mpr fun passes => found ⟨r,reached,passes⟩

theorem answers_iff : Answers test next start ↔
    ∃ answer, Returns (walk test next) (some start) answer := by
  constructor
  · rintro ⟨answer,returned,_⟩
    exact ⟨answer,returned⟩
  · rintro ⟨answer,returned⟩
    exact ⟨answer,returned,answer_correct returned⟩

theorem links_unique : Relator.RightUnique fun r r' => next r = some r' := by
  intro r a b first second
  exact Option.some.inj (first.symm.trans second)

theorem returns_to {r r' : ρ} (circle : TransGen (fun a b => next a = some b) r r)
    (reached : Reaches next r r') : Reaches next r' r := by
  induction reached with
  | refl => exact .refl
  | @tail a b _ link ih =>
    rcases ReflTransGen.cases_head ih with same | ⟨c,link',rest⟩
    · subst a
      obtain ⟨c,link',rest⟩ := TransGen.head'_iff.mp circle
      rw [links_unique link link']
      exact rest
    · rw [links_unique link link']
      exact rest

/-- Among finitely many objects, links that never end go round in a circle. -/
theorem endless_iff [Finite ρ] : (¬ ∃ r, Reaches next start r ∧ next r = none) ↔
    ∃ r, Reaches next start r ∧ TransGen (fun a b => next a = some b) r r := by
  constructor
  · intro endless
    have onward : ∀ r : {r // Reaches next start r}, ∃ r' : {r // Reaches next start r},
        next r.1 = some r'.1 := by
      intro r
      cases link : next r.1 with
      | none => exact absurd ⟨r.1,r.2,link⟩ endless
      | some r' => exact ⟨⟨r',ReflTransGen.tail r.2 link⟩,rfl⟩
    choose follow linked using onward
    let path : ℕ → {r // Reaches next start r} := fun n => follow^[n] ⟨start,.refl⟩
    have steps : ∀ n, next (path n).1 = some (path (n + 1)).1 := by
      intro n
      have unfolded : path (n + 1) = follow (path n) := Function.iterate_succ_apply' follow n _
      rw [unfolded]
      exact linked (path n)
    have along : ∀ i k, TransGen (fun a b => next a = some b) (path i).1 (path (i + k + 1)).1 := by
      intro i k
      induction k with
      | zero => exact .single (steps i)
      | succ k ih => exact ih.tail (steps (i + k + 1))
    obtain ⟨i,j,other,same⟩ := Finite.exists_ne_map_eq_of_infinite path
    rcases Nat.lt_or_gt_of_ne other with less | less
    · refine ⟨(path i).1,(path i).2,?_⟩
      obtain ⟨k,rfl⟩ := Nat.exists_eq_add_of_lt less
      have round := along i k
      rwa [← same] at round
    · refine ⟨(path j).1,(path j).2,?_⟩
      obtain ⟨k,rfl⟩ := Nat.exists_eq_add_of_lt less
      have round := along j k
      rwa [same] at round
  · rintro ⟨r,reached,circle⟩ ⟨last,ends,stop⟩
    have onward : Reaches next r last := by
      rcases ReflTransGen.total_of_right_unique links_unique reached ends with onto | back
      · exact onto
      · rcases ReflTransGen.cases_head back with same | ⟨c,link,_⟩
        · rw [same]
          exact .refl
        · rw [stop] at link
          contradiction
    rcases ReflTransGen.cases_head (returns_to circle onward) with same | ⟨c,link,_⟩
    · subst last
      obtain ⟨c,link,_⟩ := TransGen.head'_iff.mp circle
      rw [stop] at link
      contradiction
    · rw [stop] at link
      contradiction

end
end Loops
