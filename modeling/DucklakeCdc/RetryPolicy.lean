import DucklakeCdc.Programs
import Mathlib.Algebra.Order.Ring.Rat
import Mathlib.Data.List.Infix

/-!
Exceptions and the retry policy of the client (`retry.py`). An exception carries
its class, its message and its `__cause__`; the class decides which `except` clause
sees it, the messages along the causes decide whether it is transient.
-/
namespace CdcRetry
open Programs

inductive ExcClass where
  | duckLakeQueryError
  | runtimeError
  | timeoutError
  | valueError
  | typeError
  | assertionError
  | otherException
  | keyboardInterrupt
  | systemExit
  | otherBaseException
  deriving DecidableEq, Repr

/-- `caused` is an exception raised `from` another one. -/
inductive Exc where
  | raised (cls : ExcClass) (message : String)
  | caused (cls : ExcClass) (message : String) (cause : Exc)
  deriving DecidableEq, Repr

def Exc.cls : Exc → ExcClass
  | .raised cls _ => cls
  | .caused cls _ _ => cls

/-- Whether `except Exception` sees it. -/
def Exc.isException (e : Exc) : Bool :=
  match e.cls with
  | .keyboardInterrupt | .systemExit | .otherBaseException => false
  | _ => true

/-- `str.lower`, exact as far as ASCII letters of the result go: besides the ASCII
    capitals only the Kelvin sign and the dotted capital I have one. -/
def lowerChar (c : Char) : List Char :=
  if c.val = 0x212A then ['k']
  else if c.val = 0x130 then ['i',Char.ofNat 0x307]
  else [c.toLower]

def lower (message : String) : List Char := message.toList.flatMap lowerChar

def textContains (needle : String) (text : List Char) : Bool :=
  text.tails.any fun rest => needle.toList.isPrefixOf rest

theorem textContains_iff {needle : String} {text : List Char} :
    textContains needle text = true ↔ needle.toList <:+: text := by
  rw [textContains, List.any_eq_true, List.infix_iff_prefix_suffix]
  constructor
  · intro found
    obtain ⟨rest,suffix,here⟩ := found
    exact ⟨rest,List.isPrefixOf_iff_prefix.mp here,(List.mem_tails _ _).mp suffix⟩
  · intro found
    obtain ⟨rest,here,suffix⟩ := found
    exact ⟨rest,(List.mem_tails _ _).mpr suffix,List.isPrefixOf_iff_prefix.mpr here⟩

def transientMessage (message : String) : Bool :=
  textContains "database is locked" (lower message) ||
    textContains "thread::join failed" (lower message)

def isTransientError : Exc → Bool
  | .raised _ message => transientMessage message
  | .caused _ message cause => transientMessage message || isTransientError cause

example : isTransientError (.caused .duckLakeQueryError "DuckLake CDC query failed"
    (.raised .otherException "IO Error: Database is locked")) = true := by decide

/-- What a program can end with besides a value: `python` is the exception an `except`
    clause gets to see, `none` when there is no one left to see it. -/
class Failure (ε : Type) where
  raised : Exc → ε
  python : ε → Option Exc
  python_raised : ∀ e, python (raised e) = some e

instance : Failure Exc := ⟨id,some,fun _ => rfl⟩

/-- The end of a run that may also stop between two steps: the process is gone and
    no handler runs. -/
inductive Stop where
  | raised (e : Exc)
  | crashed
  deriving DecidableEq, Repr

instance : Failure Stop where
  raised := .raised
  python
    | .raised e => some e
    | .crashed => none
  python_raised _ := rfl

variable {ε σ α : Type} [Failure ε]

def isTransient (e : ε) : Bool := (Failure.python e).any isTransientError

def caughtByException (e : ε) : Bool := (Failure.python e).any Exc.isException

def caughtByBaseException (e : ε) : Bool := (Failure.python e).isSome

def throwExc (e : Exc) : EStateM ε σ α := throw (Failure.raised e)

@[simp] theorem ends_throwExc {e : Exc} {s : σ} {ok : α → σ → Prop} {err : ε → σ → Prop} :
    Ends (throwExc e) s ok err ↔ err (Failure.raised e) s := Iff.rfl

/-- The loop of `retry_on_transient`, by the number of attempts left after this one.
    Whatever the last attempt raises is raised again. -/
def attempts (sleep : EStateM ε σ Unit) (operation : EStateM ε σ α) : Nat → EStateM ε σ α
  | 0 => operation
  | left + 1 => tryExcept isTransient operation fun _ => do
      sleep
      attempts sleep operation left

inductive RetryPolicy where
  | retryOnTransient (maxAttempts : Int) (baseSleep : ℚ)
  | noRetry

def maxAttemptsError : Exc := .raised .valueError "max_attempts must be >= 1"

def retryOnTransient (sleep : ℚ → EStateM ε σ Unit) (maxAttempts : Int) (baseSleep : ℚ)
    (operation : EStateM ε σ α) : EStateM ε σ α :=
  if maxAttempts < 1 then throwExc maxAttemptsError
  else attempts (sleep baseSleep) operation (maxAttempts - 1).toNat

def noRetry (operation : EStateM ε σ α) : EStateM ε σ α := operation

def RetryPolicy.run (sleep : ℚ → EStateM ε σ Unit) (operation : EStateM ε σ α) :
    RetryPolicy → EStateM ε σ α
  | .retryOnTransient maxAttempts baseSleep =>
      CdcRetry.retryOnTransient sleep maxAttempts baseSleep operation
  | .noRetry => CdcRetry.noRetry operation

def RetryPolicy.default : RetryPolicy := .retryOnTransient 5 (1 / 5)

variable {inv : σ → Prop} {ok : α → σ → Prop} {err : ε → σ → Prop}

/-- The retry rule: an operation that either succeeds or raises with the invariant
    intact may be tried any number of times. -/
theorem ends_attempts {sleep : EStateM ε σ Unit} {operation : EStateM ε σ α}
    (op : ∀ s, inv s → Ends operation s ok (fun e t => err e t ∧ inv t))
    (rest : ∀ s, inv s → Ends sleep s (fun _ => inv) (fun _ _ => False))
    (n : Nat) (s : σ) (start : inv s) : Ends (attempts sleep operation n) s ok err := by
  induction n generalizing s with
  | zero => exact ends_mono (op s start) (fun _ _ h => h) (fun _ _ h => h.1)
  | succ left ih =>
    rw [attempts, ends_tryExcept]
    apply ends_mono (op s start) (fun _ _ h => h)
    intro e t facts
    obtain ⟨failed,kept⟩ := facts
    split
    · rw [ends_bind]
      exact ends_mono (rest t kept) (fun _ u hu => ih u hu) (fun _ _ h => h.elim)
    · exact failed

/-- The retry rule with a budget: every transient failure costs one, and there are as
    many attempts left as the budget allows failures. -/
theorem ends_attempts_budget (inv : Nat → σ → Prop) {sleep : EStateM ε σ Unit}
    {operation : EStateM ε σ α}
    (op : ∀ n s, inv n s → Ends operation s ok
      (fun e t => if isTransient e then ∃ m, n = m + 1 ∧ inv m t else err e t))
    (rest : ∀ n s, inv n s → Ends sleep s (fun _ => inv n) (fun _ _ => False))
    (n : Nat) (s : σ) (start : inv n s) : Ends (attempts sleep operation n) s ok err := by
  induction n generalizing s with
  | zero =>
    apply ends_mono (op 0 s start) (fun _ _ h => h)
    intro e t failed
    split at failed
    · obtain ⟨m,none_left,_⟩ := failed
      omega
    · exact failed
  | succ left ih =>
    rw [attempts, ends_tryExcept]
    apply ends_mono (op (left + 1) s start) (fun _ _ h => h)
    intro e t failed
    split
    · rename_i retried
      rw [if_pos retried] at failed
      obtain ⟨m,spent,kept⟩ := failed
      obtain rfl : left = m := by omega
      rw [ends_bind]
      exact ends_mono (rest left t kept) (fun _ u hu => ih u hu) (fun _ _ h => h.elim)
    · rename_i final
      rwa [if_neg final] at failed

theorem ends_policy_err {sleep : ℚ → EStateM ε σ Unit} {operation : EStateM ε σ α}
    (policy : RetryPolicy)
    (op : ∀ s, inv s → Ends operation s ok (fun e t => err e t ∧ inv t))
    (rest : ∀ d s, inv s → Ends (sleep d) s (fun _ => inv) (fun _ _ => False))
    (none_allowed : ∀ s, inv s → err (Failure.raised maxAttemptsError) s)
    (s : σ) (start : inv s) : Ends (policy.run sleep operation) s ok err := by
  cases policy with
  | noRetry => exact ends_mono (op s start) (fun _ _ h => h) (fun _ _ h => h.1)
  | retryOnTransient maxAttempts baseSleep =>
    rw [RetryPolicy.run, retryOnTransient, ends_ite]
    constructor
    · intro _
      exact none_allowed s start
    · intro _
      exact ends_attempts op (rest baseSleep) _ s start

theorem ends_policy {sleep : ℚ → EStateM ε σ Unit} {operation : EStateM ε σ α}
    (policy : RetryPolicy) (op : ∀ s, inv s → Ends operation s ok (fun _ => inv))
    (rest : ∀ d s, inv s → Ends (sleep d) s (fun _ => inv) (fun _ _ => False))
    (s : σ) (start : inv s) : Ends (policy.run sleep operation) s ok (fun _ => inv) := by
  apply ends_policy_err policy _ rest (fun _ h => h) s start
  intro t ht
  exact ends_mono (op t ht) (fun _ _ h => h) (fun _ _ h => ⟨h,h⟩)

theorem ends_policy_raises {sleep : ℚ → EStateM ε σ Unit} {operation : EStateM ε σ α}
    (policy : RetryPolicy) (op : ∀ s, Ends operation s (fun _ _ => False) (fun _ _ => True))
    (s : σ) : Ends (policy.run sleep operation) s (fun _ _ => False) (fun _ _ => True) := by
  have tried : ∀ rest n s, Ends (attempts (sleep rest) operation n) s (fun _ _ => False)
      (fun _ _ => True) := by
    intro rest n
    induction n with
    | zero => exact op
    | succ left ih =>
      intro s
      rw [attempts, ends_tryExcept]
      apply ends_mono (op s) (fun _ _ no => no)
      intro e t _
      split
      · rw [ends_bind]
        apply ends_mono (ends_total (sleep rest) t) _ (fun _ _ h => h)
        intro _ u _
        exact ih u
      · trivial
  cases policy with
  | noRetry => exact op s
  | retryOnTransient maxAttempts baseSleep =>
    rw [RetryPolicy.run, retryOnTransient, ends_ite]
    constructor
    · intro _
      trivial
    · intro _
      exact tried baseSleep _ s

theorem keeps_policy {sleep : ℚ → EStateM ε σ Unit} {operation : EStateM ε σ α}
    (policy : RetryPolicy) (op : Keeps inv operation)
    (rest : ∀ d s, inv s → Ends (sleep d) s (fun _ => inv) (fun _ _ => False)) :
    Keeps inv (policy.run sleep operation) :=
  fun s start => ends_policy policy op rest s start

end CdcRetry
