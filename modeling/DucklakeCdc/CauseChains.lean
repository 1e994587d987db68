import DucklakeCdc.ConsumerSetup
import DucklakeCdc.Loops

/-!
The walks along `__cause__` (`is_transient_error` in `retry.py`, `_consumer_error_contains`
in `consumers/base.py`) over exception objects as Python has them: objects that refer to one
another, so that an exception may be its own cause.
-/
namespace CdcCauses
open Relation CdcRetry CdcSetup Loops
variable {ρ : Type}

structure ExcObject (ρ : Type) where
  message : String
  cause : Option ρ

section
variable (heap : ρ → ExcObject ρ)

def transientPass : Option ρ → Option ρ ⊕ Bool
  | none => .inr false
  | some current =>
    let message := lower (heap current).message
    if textContains "database is locked" message then .inr true
    else if textContains "thread::join failed" message then .inr true
    else .inl (heap current).cause

def consumerErrorPass (consumerName needle : String) : Option ρ → Option ρ ⊕ Bool
  | none => .inr false
  | some current =>
    let quotedName := "consumer '" ++ consumerName ++ "'"
    let message := (heap current).message.toList
    if textContains quotedName message && textContains needle message then .inr true
    else .inl (heap current).cause

/-- What the walk over the chain of `exc` comes to, where so many passes are enough. -/
def isTransientError (fuel : Nat) (exc : ρ) : Option Bool :=
  passes (transientPass heap) fuel (some exc)

def consumerErrorContains (fuel : Nat) (exc : ρ) (consumerName needle : String) : Option Bool :=
  passes (consumerErrorPass heap consumerName needle) fuel (some exc)

/-- The loop of `retry_on_transient`, by the attempts left after this one; `none` where a walk
    is still under way. -/
def attempts {α : Type} (outcomes : Nat → Except ρ α) (fuel : Nat) :
    Nat → Nat → Option (Except ρ α)
  | left, attempt =>
    match outcomes attempt with
    | .ok a => some (.ok a)
    | .error exc =>
      match isTransientError heap fuel exc with
      | none => none
      | some false => some (.error exc)
      | some true =>
        match left with
        | 0 => some (.error exc)
        | left + 1 => attempts outcomes fuel left (attempt + 1)

def causeOf (r : ρ) : Option ρ := (heap r).cause

def tells (kind : String → Bool) (r : ρ) : Bool := kind (heap r).message

def OnChain (kind : String → Bool) (start : ρ) : Prop :=
  ∃ r, Reaches (causeOf heap) start r ∧ tells heap kind r = true

/-- The chain leads into a circle: an exception on it is, through its causes, its own cause. -/
def Circular (start : ρ) : Prop :=
  ∃ r, Reaches (causeOf heap) start r ∧ TransGen (fun a b => causeOf heap a = some b) r r

def AnswersRightly (pass : Option ρ → Option ρ ⊕ Bool) (kind : String → Bool) (start : ρ) : Prop :=
  ∃ answer, Returns pass (some start) answer ∧ (answer = true ↔ OnChain heap kind start)

/-- An operation that raises nothing but `start` does not hang under retry. -/
def NeverHangs (start : ρ) : Prop :=
  ∀ (α : Type) (outcomes : Nat → Except ρ α), (∀ n e, outcomes n = .error e → e = start) →
    ∀ left, ∃ fuel result, attempts heap outcomes fuel left 0 = some result

end
section
variable {heap : ρ → ExcObject ρ} {start : ρ}

theorem transientPass_walk : transientPass heap =
    walk (tells heap transientMessage) (causeOf heap) := by
  funext at_
  cases at_ with
  | none => rfl
  | some r =>
    simp only [transientPass, walk, tells, transientMessage, Bool.or_eq_true]
    by_cases locked : textContains "database is locked" (lower (heap r).message) = true
    · rw [if_pos locked, if_pos (Or.inl locked)]
    · rw [if_neg locked]
      simp only [locked, false_or, causeOf, Bool.false_eq_true]

theorem consumerErrorPass_walk (consumerName needle : String) :
    consumerErrorPass heap consumerName needle =
      walk (tells heap (CdcSetup.consumerErrorContains.named consumerName needle))
        (causeOf heap) := by
  funext at_
  cases at_ with
  | none => rfl
  | some r => rfl

/-- On objects that stand for an exception of finite depth, the walk is the recursion over it. -/
inductive Represents (heap : ρ → ExcObject ρ) : ρ → Exc → Prop where
  | raised {r : ρ} (cls : ExcClass) (last : (heap r).cause = none) :
      Represents heap r (.raised cls (heap r).message)
  | caused {r next : ρ} {cause : Exc} (cls : ExcClass) (link : (heap r).cause = some next)
      (rest : Represents heap next cause) :
      Represents heap r (.caused cls (heap r).message cause)

theorem returns_of_represents (kind : String → Bool) (found : Exc → Bool)
    (raised : ∀ cls message, found (.raised cls message) = kind message)
    (caused : ∀ cls message cause, found (.caused cls message cause) = (kind message || found cause))
    {e : Exc} (rep : Represents heap start e) :
    Returns (walk (tells heap kind) (causeOf heap)) (some start) (found e) := by
  induction rep with
  | @raised r cls last =>
    rw [raised]
    cases told : tells heap kind r with
    | true => exact (returns_last (walk_found told)).mpr told.symm
    | false =>
      have stops : walk (tells heap kind) (causeOf heap) none = .inr false := rfl
      rw [returns_on (walk_on told), causeOf, last]
      exact (returns_last stops).mpr told.symm
  | @caused r next cause cls link rest ih =>
    rw [caused]
    change Returns _ _ (tells heap kind r || found cause)
    cases told : tells heap kind r with
    | true =>
      rw [Bool.true_or]
      exact (returns_last (walk_found told)).mpr rfl
    | false =>
      rw [Bool.false_or, returns_on (walk_on told), causeOf, link]
      exact ih

theorem walks_represented {e : Exc} (rep : Represents heap start e) :
    Returns (transientPass heap) (some start) (CdcRetry.isTransientError e) ∧
      ∀ consumerName needle, Returns (consumerErrorPass heap consumerName needle) (some start)
        (CdcSetup.consumerErrorContains consumerName needle e) := by
  constructor
  · rw [transientPass_walk]
    exact returns_of_represents _ _ (fun _ _ => rfl) (fun _ _ _ => rfl) rep
  · intro consumerName needle
    rw [consumerErrorPass_walk]
    exact returns_of_represents _ _ (fun _ _ => rfl) (fun _ _ _ => rfl) rep

theorem answersRightly_iff (kind : String → Bool) :
    AnswersRightly heap (walk (tells heap kind) (causeOf heap)) kind start ↔
      ∃ answer, Returns (walk (tells heap kind) (causeOf heap)) (some start) answer :=
  answers_iff

theorem neverHangs_iff :
    NeverHangs heap start ↔ ∃ answer, Returns (transientPass heap) (some start) answer := by
  constructor
  · intro never
    obtain ⟨fuel,result,ended⟩ := never Unit (fun _ => .error start) (fun _ _ same => by cases same; rfl) 0
    rw [attempts] at ended
    cases walked : isTransientError heap fuel start with
    | none =>
      simp only [walked] at ended
      contradiction
    | some answer => exact ⟨answer,fuel,walked⟩
  · rintro ⟨answer,fuel,walked⟩ α outcomes only left
    have ends : ∀ left attempt, ∃ result, attempts heap outcomes fuel left attempt = some result := by
      intro left
      induction left with
      | zero =>
        intro attempt
        rw [attempts]
        cases outcome : outcomes attempt with
        | ok a => exact ⟨_,rfl⟩
        | error exc =>
          obtain rfl := only attempt exc outcome
          simp only [isTransientError, walked]
          cases answer <;> exact ⟨_,rfl⟩
      | succ left ih =>
        intro attempt
        rw [attempts]
        cases outcome : outcomes attempt with
        | ok a => exact ⟨_,rfl⟩
        | error exc =>
          obtain rfl := only attempt exc outcome
          simp only [isTransientError, walked]
          cases answer with
          | false => exact ⟨_,rfl⟩
          | true => exact ih (attempt + 1)
    exact ⟨fuel,ends left 0⟩

variable [Finite ρ]

theorem returns_iff (kind : String → Bool) :
    (∃ answer, Returns (walk (tells heap kind) (causeOf heap)) (some start) answer) ↔
      OnChain heap kind start ∨ ¬ Circular heap start := by
  have circles := not_congr (@endless_iff _ (causeOf heap) start _)
  rw [not_not] at circles
  rw [Circular, ← circles]
  exact walk_returns_iff

/-- Over any finite set of exceptions, with any causes: both walks end, with the right answer,
    and a retry does not hang, just where a message on the chain matches or the chain does
    not lead into a circle. -/
theorem chain_walks_end_iff (heap : ρ → ExcObject ρ) (start : ρ) :
    (AnswersRightly heap (transientPass heap) transientMessage start ↔
      OnChain heap transientMessage start ∨ ¬ Circular heap start) ∧
    (∀ consumerName needle,
      AnswersRightly heap (consumerErrorPass heap consumerName needle)
          (CdcSetup.consumerErrorContains.named consumerName needle) start ↔
        OnChain heap (CdcSetup.consumerErrorContains.named consumerName needle) start ∨
          ¬ Circular heap start) ∧
    (NeverHangs heap start ↔ OnChain heap transientMessage start ∨ ¬ Circular heap start) := by
  refine ⟨?_,?_,?_⟩
  · rw [transientPass_walk, answersRightly_iff]
    exact returns_iff transientMessage
  · intro consumerName needle
    rw [consumerErrorPass_walk, answersRightly_iff]
    exact returns_iff _
  · rw [neverHangs_iff, transientPass_walk]
    exact returns_iff transientMessage

end

def wrapped : Fin 2 → ExcObject (Fin 2)
  | 0 => ⟨"DuckLake CDC query failed",some 1⟩
  | 1 => ⟨"IO Error: Database is locked",none⟩

theorem chain_walks_end_wrapped :
    (AnswersRightly wrapped (transientPass wrapped) transientMessage 0 ↔
      OnChain wrapped transientMessage 0 ∨ ¬ Circular wrapped 0) ∧
    (∀ consumerName needle,
      AnswersRightly wrapped (consumerErrorPass wrapped consumerName needle)
          (CdcSetup.consumerErrorContains.named consumerName needle) 0 ↔
        OnChain wrapped (CdcSetup.consumerErrorContains.named consumerName needle) 0 ∨
          ¬ Circular wrapped 0) ∧
    (NeverHangs wrapped 0 ↔ OnChain wrapped transientMessage 0 ∨ ¬ Circular wrapped 0) :=
  chain_walks_end_iff wrapped 0

def ownCause (_ : Unit) : ExcObject Unit := ⟨"sink refused",some ()⟩

theorem ownCause_hangs (fuel : Nat) : isTransientError ownCause fuel () = none := by
  induction fuel with
  | zero => rfl
  | succ fuel ih =>
    have again : transientPass ownCause (some ()) = .inl (some ()) := by decide
    rw [isTransientError, passes, again]
    exact ih

/-- An exception raised from itself is walked round for ever. -/
theorem own_cause_walked_for_ever :
    ¬ AnswersRightly ownCause (transientPass ownCause) transientMessage () ∧
      ¬ NeverHangs ownCause () := by
  have hangs : ¬ ∃ answer, Returns (transientPass ownCause) (some ()) answer := by
    rintro ⟨answer,fuel,ended⟩
    have still := ownCause_hangs fuel
    rw [isTransientError, ended] at still
    contradiction
  constructor
  · rintro ⟨answer,returned,_⟩
    exact hangs ⟨answer,returned⟩
  · intro never
    exact hangs (neverHangs_iff.mp never)

end CdcCauses
