import DucklakeCdc.Programs

/-!
Programs with a budget. What an allowance counts is up to its user: a predicate of the
state for each amount, where having more is having less too. A program that costs `k` can
be run on any amount from `k` on and leaves the rest, whether it returns or raises; the
costs of its parts add up.
-/
namespace Programs
variable {σ ε α β : Type}

structure Allowance (σ : Type) where
  left : Nat → σ → Prop
  less : ∀ {m n : Nat} {s : σ}, m ≤ n → left n s → left m s

def Costs (A : Allowance σ) (k : Nat) (p : EStateM ε σ α) : Prop :=
  ∀ n s, A.left (n + k) s → Ends p s (fun _ => A.left n) (fun _ => A.left n)

variable {A : Allowance σ} {k l : Nat} {p q : EStateM ε σ α}

theorem costs_mono (costs : Costs A k p) (more : k ≤ l) : Costs A l p :=
  fun n s h => costs n s (A.less (Nat.add_le_add_left more n) h)

theorem costs_pure (a : α) : Costs A 0 (pure a : EStateM ε σ α) := fun _ _ h => h

theorem costs_throw (e : ε) : Costs A 0 (throw e : EStateM ε σ α) := fun _ _ h => h

theorem costs_bind {f : α → EStateM ε σ β} (hp : Costs A k p) (hf : ∀ a, Costs A l (f a)) :
    Costs A (k + l) (p >>= f) := by
  intro n s h
  have first : A.left (n + l + k) s := A.less (by omega) h
  rw [ends_bind]
  exact ends_mono (hp (n + l) s first) (fun a t ht => hf a n t ht)
    (fun _ _ ht => A.less (Nat.le_add_right n l) ht)

theorem costs_bind_free {f : α → EStateM ε σ β} (hp : Costs A k p) (hf : ∀ a, Costs A 0 (f a)) :
    Costs A k (p >>= f) := costs_bind hp hf

theorem costs_ite {c : Prop} [Decidable c] (hp : Costs A k p) (hq : Costs A k q) :
    Costs A k (if c then p else q) := by
  split
  · exact hp
  · exact hq

theorem costs_tryExcept {caught : ε → Bool} {handler : ε → EStateM ε σ α} (hp : Costs A k p)
    (hh : ∀ e, Costs A l (handler e)) : Costs A (k + l) (tryExcept caught p handler) := by
  intro n s h
  have first : A.left (n + l + k) s := A.less (by omega) h
  rw [ends_tryExcept]
  refine ends_mono (hp (n + l) s first) (fun _ _ ht => A.less (Nat.le_add_right n l) ht) ?_
  intro e t ht
  split
  · exact hh e n t ht
  · exact A.less (Nat.le_add_right n l) ht

end Programs
