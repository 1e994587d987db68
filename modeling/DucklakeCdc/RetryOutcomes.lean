import DucklakeCdc.RetryPolicy
import Mathlib.Tactic.Linarith

/-!
What `retry_on_transient` does with an operation whose outcomes are given in advance: how
often it calls it, how often it sleeps, and which outcome it hands on.
-/
namespace CdcRetry
open Programs
variable {α : Type}

def Exc.chain : Exc → List Exc
  | e@(.raised _ _) => [e]
  | e@(.caused _ _ cause) => e :: cause.chain

def Exc.message : Exc → String
  | .raised _ message => message
  | .caused _ message _ => message

/-- The needle's letters, each in one of its cases. -/
def SameLetters (part needle : List Char) : Prop := List.Forall₂ (fun c d => lowerChar c = [d]) part needle

def InAnyCase (needle message : String) : Prop :=
  ∃ before part after, message.toList = before ++ (part ++ after) ∧ SameLetters part needle.toList

def Transient (e : Exc) : Prop :=
  ∃ x ∈ e.chain, InAnyCase "database is locked" x.message ∨ InAnyCase "thread::join failed" x.message

/-- The outcome is a transient failure. -/
def TransientFailure (outcome : Except Exc α) : Prop := ∃ e, outcome = .error e ∧ Transient e

structure Tally where
  calls : Nat := 0
  sleeps : List ℚ := []

/-- The operation: its `n`-th call ends in the `n`-th outcome. -/
def operation (outcomes : Nat → Except Exc α) : EStateM Exc Tally α := do
  let t ← get
  set { t with calls := t.calls + 1 }
  match outcomes t.calls with
  | .ok a => pure a
  | .error e => throw e

def negativeSleepError : Exc := .raised .valueError "sleep length must be non-negative"

def timeSleep (seconds : ℚ) : EStateM Exc Tally Unit :=
  if seconds < 0 then throw negativeSleepError
  else modify fun t => { t with sleeps := t.sleeps ++ [seconds] }

def ended (outcome : Except Exc α) (t : Tally) : EStateM.Result Exc Tally α :=
  match outcome with
  | .ok a => .ok a t
  | .error e => .error e t

def combiningDot : Char := Char.ofNat 0x307

theorem lowerChar_cases (c : Char) : (∃ d, lowerChar c = [d]) ∨ lowerChar c = ['i',combiningDot] := by
  unfold lowerChar
  split
  · exact Or.inl ⟨_,rfl⟩
  · split
    · exact Or.inr rfl
    · exact Or.inl ⟨_,rfl⟩

theorem lowered_drop {text before rest : List Char} (clean : rest.head? ≠ some combiningDot)
    (h : text.flatMap lowerChar = before ++ rest) :
    ∃ front back, text = front ++ back ∧ back.flatMap lowerChar = rest := by
  induction text generalizing before with
  | nil =>
    have both := List.append_eq_nil_iff.mp h.symm
    exact ⟨[],[],rfl,both.2.symm⟩
  | cons c text ih =>
    cases before with
    | nil => exact ⟨[],c :: text,rfl,h⟩
    | cons b before =>
      rw [List.flatMap_cons] at h
      rcases lowerChar_cases c with ⟨d,one⟩ | two
      · rw [one] at h
        obtain ⟨front,back,rfl,same⟩ := ih (List.cons.inj h).2
        exact ⟨c :: front,back,rfl,same⟩
      · rw [two] at h
        have tail := (List.cons.inj h).2
        cases before with
        | nil =>
          change combiningDot :: _ = rest at tail
          rw [← tail] at clean
          exact absurd rfl clean
        | cons b' before =>
          obtain ⟨front,back,rfl,same⟩ := ih (List.cons.inj tail).2
          exact ⟨c :: front,back,rfl,same⟩

theorem lowered_prefix {text needle after : List Char} (clean : combiningDot ∉ needle)
    (ends : needle.getLast? ≠ some 'i') (h : text.flatMap lowerChar = needle ++ after) :
    ∃ part rest, text = part ++ rest ∧ SameLetters part needle := by
  induction needle generalizing text with
  | nil => exact ⟨[],text,rfl,.nil⟩
  | cons n needle ih =>
    cases text with
    | nil => contradiction
    | cons c text =>
      rw [List.flatMap_cons] at h
      rcases lowerChar_cases c with ⟨d,one⟩ | two
      · rw [one] at h
        obtain ⟨rfl,tail⟩ := List.cons.inj h
        have later : needle.getLast? ≠ some 'i' := by
          cases needle with
          | nil => simp
          | cons m needle => simpa [List.getLast?_cons_cons] using ends
        obtain ⟨part,rest,rfl,same⟩ := ih (fun member => clean (List.mem_cons_of_mem _ member)) later tail
        exact ⟨c :: part,rest,rfl,.cons one same⟩
      · rw [two] at h
        obtain ⟨rfl,tail⟩ := List.cons.inj h
        cases needle with
        | nil => exact absurd rfl ends
        | cons m needle =>
          obtain ⟨rfl,_⟩ := List.cons.inj tail
          exact absurd (List.mem_cons_of_mem _ List.mem_cons_self) clean

theorem lowered_sameLetters {part needle : List Char} (same : SameLetters part needle) :
    part.flatMap lowerChar = needle := by
  induction same with
  | nil => rfl
  | cons one _ ih => rw [List.flatMap_cons, one, ih, List.singleton_append]

/-- Looking for a needle in the lowered message is looking for its letters in any case. -/
theorem lowered_contains_iff {needle message : String} (some_ : needle.toList ≠ [])
    (clean : combiningDot ∉ needle.toList) (ends : needle.toList.getLast? ≠ some 'i') :
    textContains needle (lower message) = true ↔ InAnyCase needle message := by
  rw [textContains_iff]
  constructor
  · rintro ⟨before,after,found⟩
    rw [List.append_assoc] at found
    have starts : (needle.toList ++ after).head? ≠ some combiningDot := by
      rw [List.head?_append_of_ne_nil _ some_]
      exact fun same => clean (List.mem_of_head? same)
    obtain ⟨front,back,split,lowered⟩ := lowered_drop starts found.symm
    obtain ⟨part,rest,rfl,same⟩ := lowered_prefix clean ends lowered
    exact ⟨front,part,rest,split,same⟩
  · rintro ⟨before,part,after,split,same⟩
    refine ⟨before.flatMap lowerChar,after.flatMap lowerChar,?_⟩
    rw [lower, split, List.flatMap_append, List.flatMap_append, lowered_sameLetters same,
      List.append_assoc]

theorem transientMessage_anyCase {message : String} : transientMessage message = true ↔
    InAnyCase "database is locked" message ∨ InAnyCase "thread::join failed" message := by
  rw [transientMessage, Bool.or_eq_true,
    lowered_contains_iff (by decide) (by decide) (by decide),
    lowered_contains_iff (by decide) (by decide) (by decide)]

theorem isTransientError_iff (e : Exc) : isTransientError e = true ↔ Transient e := by
  unfold Transient
  induction e with
  | raised cls message => simp [isTransientError, Exc.chain, Exc.message, transientMessage_anyCase]
  | caused cls message cause ih =>
    rw [isTransientError, Bool.or_eq_true, ih, transientMessage_anyCase]
    simp [Exc.chain, Exc.message]

section
variable {outcomes : Nat → Except Exc α} {t : Tally} {baseSleep : ℚ}

theorem operation_run : (operation outcomes).run t =
    ended (outcomes t.calls) { t with calls := t.calls + 1 } := by
  simp only [operation, EStateM.run_bind, EStateM.run_get, EStateM.run_set]
  cases outcomes t.calls with
  | ok a => rfl
  | error e => rfl

theorem timeSleep_run (forward : 0 ≤ baseSleep) : (timeSleep baseSleep).run t =
    .ok () { t with sleeps := t.sleeps ++ [baseSleep] } := by
  rw [timeSleep, if_neg (not_lt.mpr forward)]
  rfl

theorem isTransient_iff {outcome : Except Exc α} {e : Exc} (same : outcome = .error e) :
    isTransient e = true ↔ TransientFailure outcome := by
  have asked : isTransient e = isTransientError e := rfl
  rw [asked, isTransientError_iff, TransientFailure, same]
  constructor
  · exact fun transient => ⟨e,rfl,transient⟩
  · rintro ⟨e',again,transient⟩
    cases again
    exact transient

theorem attempts_ended {left : Nat} (final : ¬ TransientFailure (outcomes t.calls)) :
    (attempts (timeSleep baseSleep) (operation outcomes) left).run t =
      ended (outcomes t.calls) { t with calls := t.calls + 1 } := by
  cases left with
  | zero => exact operation_run
  | succ left =>
    rw [attempts, run_tryExcept, operation_run]
    cases outcome : outcomes t.calls with
    | ok a => rfl
    | error e =>
      have raised : isTransient e = false :=
        Bool.eq_false_iff.mpr fun transient => final ((isTransient_iff outcome).mp transient)
      simp only [ended, raised, Bool.false_eq_true, if_false]

theorem attempts_again {left : Nat} (forward : 0 ≤ baseSleep)
    (failed : TransientFailure (outcomes t.calls)) :
    (attempts (timeSleep baseSleep) (operation outcomes) (left + 1)).run t =
      (attempts (timeSleep baseSleep) (operation outcomes) left).run
        ⟨t.calls + 1,t.sleeps ++ [baseSleep]⟩ := by
  obtain ⟨e,outcome,transient⟩ := failed
  have caught : isTransient e = true := (isTransient_iff outcome).mpr ⟨e,outcome,transient⟩
  rw [attempts, run_tryExcept, operation_run, outcome]
  simp only [ended, caught, if_true]
  rw [EStateM.run_bind, timeSleep_run forward]

theorem attempts_run (outcomes : Nat → Except Exc α) (t : Tally) (forward : 0 ≤ baseSleep)
    {k left : Nat} (enough : k ≤ left)
    (failed : ∀ i < k, TransientFailure (outcomes (t.calls + i)))
    (last : k = left ∨ ¬ TransientFailure (outcomes (t.calls + k))) :
    (attempts (timeSleep baseSleep) (operation outcomes) left).run t =
      ended (outcomes (t.calls + k)) ⟨t.calls + k + 1,t.sleeps ++ List.replicate k baseSleep⟩ := by
  induction k generalizing left t with
  | zero =>
    rw [List.replicate_zero, List.append_nil]
    rcases last with rfl | final
    · exact operation_run
    · exact attempts_ended final
  | succ k ih =>
    obtain ⟨left,rfl⟩ : ∃ rest, left = rest + 1 := ⟨left - 1,by omega⟩
    have shifted : ∀ i, t.calls + 1 + i = t.calls + (i + 1) := fun i => by omega
    have rest := ih ⟨t.calls + 1,t.sleeps ++ [baseSleep]⟩ (show k ≤ left by omega)
      (fun i below => by
        have earlier := failed (i + 1) (by omega)
        rwa [← shifted] at earlier)
      (by
        rcases last with same | final
        · exact Or.inl (by omega)
        · rw [← shifted] at final
          exact Or.inr final)
    rw [attempts_again forward (failed 0 (by omega)), rest, shifted, List.append_assoc,
      List.singleton_append, ← List.replicate_succ]

end

/-- For any outcomes of the operation: the first that is no transient failure is handed on, after
    a call for it and a call and a sleep for each one before it; if no attempt is left for it,
    the last transient exception is raised. -/
theorem retry_refines_specification (outcomes : Nat → Except Exc α) (maxAttempts : Int)
    (baseSleep : ℚ) (some_ : 1 ≤ maxAttempts) (forward : 0 ≤ baseSleep) :
    (∀ k : Nat, (∀ i < k, TransientFailure (outcomes i)) → ¬ TransientFailure (outcomes k) →
      k < maxAttempts →
        (retryOnTransient timeSleep maxAttempts baseSleep (operation outcomes)).run {} =
          ended (outcomes k) ⟨k + 1,List.replicate k baseSleep⟩) ∧
    ((∀ i : Nat, i < maxAttempts → TransientFailure (outcomes i)) →
      ∃ e, Transient e ∧ outcomes (maxAttempts - 1).toNat = .error e ∧
        (retryOnTransient timeSleep maxAttempts baseSleep (operation outcomes)).run {} =
          .error e ⟨maxAttempts.toNat,List.replicate (maxAttempts - 1).toNat baseSleep⟩) := by
  have begun : retryOnTransient timeSleep maxAttempts baseSleep (operation outcomes) =
      attempts (timeSleep baseSleep) (operation outcomes) (maxAttempts - 1).toNat :=
    if_neg (by omega)
  rw [begun]
  constructor
  · intro k failed final below
    have run := attempts_run outcomes {} forward (show k ≤ (maxAttempts - 1).toNat by omega)
      (fun i earlier => by simpa using failed i earlier) (Or.inr (by simpa using final))
    simpa using run
  · intro failed
    obtain ⟨e,outcome,transient⟩ := failed (maxAttempts - 1).toNat (by omega)
    have run := attempts_run outcomes {} forward
      (le_refl (maxAttempts - 1).toNat)
      (fun i earlier => by simpa using failed i (by omega)) (Or.inl rfl)
    have calls : (maxAttempts - 1).toNat + 1 = maxAttempts.toNat := by omega
    refine ⟨e,transient,outcome,?_⟩
    simp only [Nat.zero_add, List.nil_append, calls, outcome, ended] at run
    exact run

def lockedTwice (n : Nat) : Except Exc Nat :=
  if n < 2 then .error (.raised .otherException "IO Error: DATABASE is Locked") else .ok n

theorem retry_refines_lockedTwice :
    (∀ k : Nat, (∀ i < k, TransientFailure (lockedTwice i)) → ¬ TransientFailure (lockedTwice k) →
      k < (5 : Int) →
        (retryOnTransient timeSleep 5 (1 / 5) (operation lockedTwice)).run {} =
          ended (lockedTwice k) ⟨k + 1,List.replicate k (1 / 5)⟩) ∧
    ((∀ i : Nat, i < (5 : Int) → TransientFailure (lockedTwice i)) →
      ∃ e, Transient e ∧ lockedTwice ((5 : Int) - 1).toNat = .error e ∧
        (retryOnTransient timeSleep 5 (1 / 5) (operation lockedTwice)).run {} =
          .error e ⟨(5 : Int).toNat,List.replicate ((5 : Int) - 1).toNat (1 / 5)⟩) :=
  retry_refines_specification lockedTwice 5 (1 / 5) (by decide) (by norm_num)

end CdcRetry
