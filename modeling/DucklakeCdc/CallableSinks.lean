import DucklakeCdc.ConsumerSetup
import DucklakeCdc.Signatures

/-!
Callables as sinks (`sinks/base.py`): `sink` looks at the signature once, and `write` calls
with or without the context from then on.
-/
namespace CdcSinks
open CdcRetry CdcSetup Signatures

/-- A callable: its `__name__` if that is a string, the name of its type, and its signature
    if `inspect.signature` has one. -/
structure Callable where
  dunderName : Option String
  typeName : String
  signature : Option Signature

def callableName (fn : Callable) : String :=
  match fn.dunderName with
  | some name => if name ≠ "" ∧ name ≠ "<lambda>" then name else fn.typeName
  | none => fn.typeName

inductive Given where
  | batch | ctx
  deriving DecidableEq, Repr

section
variable (p : Platform)

def tooManyError (fn : Callable) (required : Nat) : Exc := .raised .typeError
  ("callable sink takes at most 2 positional arguments (batch, ctx); " ++
    pyRepr p (callableName fn) ++ " requires " ++ toString required)

def noneAcceptedError (fn : Callable) : Exc := .raised .typeError
  ("callable sink must accept (batch) or (batch, ctx); " ++
    pyRepr p (callableName fn) ++ " accepts no positional arguments")

def callableWantsContext (fn : Callable) : Except Exc Bool :=
  match fn.signature with
  | none => .ok true
  | some sig =>
    if takesRest sig.parameters then .ok true
    else if (required sig.parameters).length > 2 then
      .error (tooManyError p fn (required sig.parameters).length)
    else if (positional sig.parameters).length ≥ 2 then .ok true
    else if (positional sig.parameters).length = 1 then .ok false
    else .error (noneAcceptedError p fn)

/-- A `_CallableSink`: what it wants was asked of the callable when it was made. -/
structure CallableSink where
  fn : Callable
  name : String
  required : Bool
  wantsCtx : Bool
  asked : callableWantsContext p fn = .ok wantsCtx

def sink (fn : Callable) (name : Option String) (required : Bool) :
    Except Exc (CallableSink p) :=
  let given := name.getD ""
  match asked : callableWantsContext p fn with
  | .error e => .error e
  | .ok wantsCtx =>
    .ok ⟨fn,if given ≠ "" then given else callableName fn,required,wantsCtx,asked⟩

def CallableSink.write {p : Platform} (s : CallableSink p) : List Given :=
  if s.wantsCtx then [.batch, .ctx] else [.batch]

/-- `sink` refuses exactly what neither call form fits, with a `TypeError`; what it makes
    calls in a form that fits. -/
def AcceptsExactly (fn : Callable) (sig : Signature) (name : Option String) (required_ : Bool) :
    Prop :=
  ((∃ e, sink p fn name required_ = .error e ∧ e.cls = .typeError) ↔
      bind sig.parameters [Given.batch] = none ∧ bind sig.parameters [Given.batch, .ctx] = none) ∧
    ∀ s, sink p fn name required_ = .ok s → (bind sig.parameters s.write).isSome = true

end

/-- What `sink` refuses: no positional parameter, or more than two that are required,
    without `*args`. -/
def Refused (sig : Signature) : Prop :=
  takesRest sig.parameters = false ∧
    ((positional sig.parameters).length = 0 ∨ 2 < (required sig.parameters).length)

/-- No keyword is needed, and `*args` does not stand behind more than two required
    parameters. -/
def PlainCall (sig : Signature) : Prop :=
  needsKeyword sig.parameters = false ∧
    (takesRest sig.parameters = true → (required sig.parameters).length ≤ 2)

section
variable {p : Platform} {fn : Callable} {sig : Signature} {name : Option String} {required_ : Bool}

theorem sink_refuses {e : Exc} (wants : callableWantsContext p fn = .error e) :
    sink p fn name required_ = .error e := by
  unfold sink
  split
  · rename_i e' asked
    exact congrArg Except.error (Except.error.inj (asked.symm.trans wants))
  · rename_i wantsCtx asked
    rw [wants] at asked
    contradiction

theorem sink_makes {wantsCtx : Bool} (wants : callableWantsContext p fn = .ok wantsCtx) :
    ∃ s, sink p fn name required_ = .ok s := by
  unfold sink
  split
  · rename_i e asked
    rw [wants] at asked
    contradiction
  · exact ⟨_,rfl⟩

theorem sink_fn {s : CallableSink p} (made : sink p fn name required_ = .ok s) : s.fn = fn := by
  unfold sink at made
  split at made
  · contradiction
  · cases made
    rfl

theorem bind_eq_none_iff (sig : Signature) (args : List Given) :
    bind sig.parameters args = none ↔ ¬ Fits sig.parameters args.length := by
  rw [← bind_isSome_iff sig.legal args, Option.isSome_iff_ne_none, not_not]

theorem unfit_of_refused (refused : Refused sig) {n : Nat} (one : 1 ≤ n) (two : n ≤ 2) :
    ¬ Fits sig.parameters n := by
  intro fits
  have enough := fits.enough
  have few := fits.few.resolve_left (by simp [refused.1])
  rcases refused.2 with none_ | many <;> omega

theorem wants_of_refused (p : Platform) (fn : Callable) (refused : Refused sig) (given : fn.signature = some sig) :
    ∃ e, callableWantsContext p fn = .error e ∧ e.cls = .typeError := by
  have rest : ¬ takesRest sig.parameters = true := by simp [refused.1]
  have counts := required_le_positional sig.parameters
  simp only [callableWantsContext, given, if_neg rest]
  split
  · exact ⟨_,rfl,rfl⟩
  · have none_ : (positional sig.parameters).length = 0 := refused.2.resolve_right ‹_›
    rw [if_neg (by omega), if_neg (by omega)]
    exact ⟨_,rfl,rfl⟩

theorem wants_of_not_refused (kept : ¬ Refused sig) (given : fn.signature = some sig) :
    callableWantsContext p fn =
      .ok (takesRest sig.parameters || decide (2 ≤ (positional sig.parameters).length)) := by
  simp only [callableWantsContext, given]
  cases rest : takesRest sig.parameters with
  | true => rfl
  | false =>
    have some_ : (positional sig.parameters).length ≠ 0 := fun h => kept ⟨rest,Or.inl h⟩
    have few : ¬ (required sig.parameters).length > 2 := fun h => kept ⟨rest,Or.inr h⟩
    rw [if_neg Bool.false_ne_true, if_neg few]
    split
    · rename_i two
      simp [two]
    · rename_i one
      rw [if_pos (by omega)]
      simp [one]

theorem chosen_fits_iff (kept : ¬ Refused sig) :
    Fits sig.parameters
        (if takesRest sig.parameters || decide (2 ≤ (positional sig.parameters).length) then 2 else 1) ↔
      PlainCall sig := by
  have counts := required_le_positional sig.parameters
  cases rest : takesRest sig.parameters with
  | true =>
    rw [Bool.true_or, if_pos rfl]
    exact ⟨fun fits => ⟨fits.keywords,fun _ => fits.enough⟩,
      fun h => ⟨h.1,h.2 rest,Or.inl rest⟩⟩
  | false =>
    have some_ : (positional sig.parameters).length ≠ 0 := fun h => kept ⟨rest,Or.inl h⟩
    have few : ¬ (required sig.parameters).length > 2 := fun h => kept ⟨rest,Or.inr h⟩
    rw [Bool.false_or]
    constructor
    · intro fits
      exact ⟨fits.keywords,fun taken => by rw [rest] at taken; contradiction⟩
    · intro h
      split
      · rename_i two
        have two' := of_decide_eq_true two
        exact ⟨h.1,by omega,Or.inr two'⟩
      · rename_i one
        have one' : ¬ 2 ≤ (positional sig.parameters).length := by simpa using one
        exact ⟨h.1,by omega,Or.inr (by omega)⟩

end

theorem write_fits_iff {p : Platform} {fn : Callable} {sig : Signature} {name : Option String}
    {required_ : Bool} (kept : ¬ Refused sig) (given : fn.signature = some sig)
    {s : CallableSink p} (made : sink p fn name required_ = .ok s) :
    (bind sig.parameters s.write).isSome = true ↔ PlainCall sig := by
  have wants : callableWantsContext p s.fn = _ :=
    (congrArg (callableWantsContext p) (sink_fn made)).trans (wants_of_not_refused kept given)
  have chosen := Except.ok.inj (s.asked.symm.trans wants)
  have form : s.write.length = if s.wantsCtx then 2 else 1 := by
    rw [CallableSink.write]
    split <;> rfl
  rw [bind_isSome_iff sig.legal, form, chosen]
  exact chosen_fits_iff kept

/-- `sink` keeps its promise for a callable exactly when it refuses the signature, or the
    signature needs no keyword and, with `*args`, no more than two arguments. -/
theorem sink_accepts_iff (p : Platform) (dunderName : Option String) (typeName : String)
    (sig : Signature) (name : Option String) (required_ : Bool) :
    AcceptsExactly p ⟨dunderName,typeName,some sig⟩ sig name required_ ↔
      Refused sig ∨ PlainCall sig := by
  let fn : Callable := ⟨dunderName,typeName,some sig⟩
  by_cases refused : Refused sig
  · obtain ⟨e,wants,cls⟩ := wants_of_refused p fn refused rfl
    refine ⟨fun _ => Or.inl refused,fun _ => ⟨⟨fun _ => ⟨?_,?_⟩,fun _ => ?_⟩,?_⟩⟩
    · exact (bind_eq_none_iff sig [.batch]).mpr (unfit_of_refused refused (by decide) (by decide))
    · exact (bind_eq_none_iff sig [.batch, .ctx]).mpr
        (unfit_of_refused refused (by decide) (by decide))
    · exact ⟨e,sink_refuses wants,cls⟩
    · intro s made
      rw [sink_refuses wants] at made
      contradiction
  · obtain ⟨s,made⟩ : ∃ s, sink p fn name required_ = .ok s :=
      sink_makes (wants_of_not_refused refused rfl)
    have fits := write_fits_iff refused rfl made
    constructor
    · exact fun accepts => Or.inr (fits.mp (accepts.2 s made))
    · intro either
      have callables := either.resolve_left refused
      refine ⟨⟨?_,?_⟩,fun s' made' => (write_fits_iff refused rfl made').mpr callables⟩
      · rintro ⟨e,failed,_⟩
        rw [made] at failed
        contradiction
      · rintro ⟨one,two⟩
        have bound := fits.mpr callables
        rw [CallableSink.write] at bound
        split at bound
        · rw [two] at bound
          contradiction
        · rw [one] at bound
          contradiction

def needsKey : Signature where
  parameters := [⟨"batch",.positionalOrKeyword,false⟩,⟨"key",.keywordOnly,false⟩]
  legal := List.pairwise_pair.mpr
    ⟨Nat.le_of_ble_eq_true rfl,fun no => (by cases no),fun _ no => (by cases no),by decide⟩
  bare := by
    intro p member variadic
    simp only [List.mem_cons, List.not_mem_nil, or_false] at member
    rcases member with rfl | rfl <;> rfl

theorem keyword_sink_fails : ¬ ∀ (p : Platform) (dunderName : Option String) (typeName : String)
    (sig : Signature) (name : Option String) (required_ : Bool),
    AcceptsExactly p ⟨dunderName,typeName,some sig⟩ sig name required_ := by
  intro all
  have accepts := all .plain (some "f") "function" needsKey none true
  have wants : callableWantsContext .plain ⟨some "f","function",some needsKey⟩ = .ok false := rfl
  obtain ⟨s,made⟩ : ∃ s, sink .plain ⟨some "f","function",some needsKey⟩ none true = .ok s :=
    sink_makes wants
  have bound := accepts.2 s made
  rw [CallableSink.write] at bound
  split at bound <;> contradiction

end CdcSinks
