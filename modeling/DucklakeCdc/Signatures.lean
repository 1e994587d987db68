import Mathlib.Data.List.Basic
import Mathlib.Tactic.Common

/-!
Parameter lists of Python callables and the calls with positional arguments that bind to
them: enough arguments for the parameters that need one, none too many, and a default for
every parameter that only a keyword could fill.
-/
namespace Signatures

inductive Kind where
  | positionalOnly | positionalOrKeyword | varPositional | keywordOnly | varKeyword
  deriving DecidableEq, Repr

def Kind.rank : Kind → Nat
  | .positionalOnly => 0
  | .positionalOrKeyword => 1
  | .varPositional => 2
  | .keywordOnly => 3
  | .varKeyword => 4

def Kind.isPositional : Kind → Bool
  | .positionalOnly | .positionalOrKeyword => true
  | _ => false

def Kind.isVariadic : Kind → Bool
  | .varPositional | .varKeyword => true
  | _ => false

structure Parameter where
  name : String
  kind : Kind
  hasDefault : Bool := false
  deriving DecidableEq, Repr

structure Parameter.MayPrecede (p q : Parameter) : Prop where
  order : p.kind.rank ≤ q.kind.rank
  variadic : p.kind.isVariadic = true → p.kind ≠ q.kind
  defaults : p.kind.isPositional = true → q.kind.isPositional = true → p.hasDefault = true →
    q.hasDefault = true
  names : p.name ≠ q.name

structure Signature where
  parameters : List Parameter
  legal : parameters.Pairwise Parameter.MayPrecede
  bare : ∀ p ∈ parameters, p.kind.isVariadic = true → p.hasDefault = false

/-- A call with these positional arguments: the arguments of each parameter that gets any,
    `none` where Python raises a `TypeError`. -/
def bind {α : Type} : List Parameter → List α → Option (List (Parameter × List α))
  | [], [] => some []
  | [], _ :: _ => none
  | p :: rest, args =>
    match p.kind with
    | .positionalOnly | .positionalOrKeyword =>
      match args with
      | a :: args => (bind rest args).map ((p, [a]) :: ·)
      | [] => if p.hasDefault then bind rest [] else none
    | .varPositional => (bind rest []).map ((p, args) :: ·)
    | .keywordOnly => if p.hasDefault then bind rest args else none
    | .varKeyword => bind rest args

def positional (ps : List Parameter) : List Parameter := ps.filter (·.kind.isPositional)

def required (ps : List Parameter) : List Parameter := (positional ps).filter (!·.hasDefault)

def takesRest (ps : List Parameter) : Bool := ps.any (·.kind == .varPositional)

def needsKeyword (ps : List Parameter) : Bool :=
  ps.any fun p => p.kind == .keywordOnly && !p.hasDefault

variable {α : Type} {p : Parameter} {rest ps : List Parameter} {args : List α}

theorem positional_cons (h : p.kind.isPositional = true) :
    positional (p :: rest) = p :: positional rest := List.filter_cons_of_pos h

theorem positional_cons_other (h : p.kind.isPositional = false) :
    positional (p :: rest) = positional rest :=
  List.filter_cons_of_neg (by simpa using h)

theorem required_cons_other (h : p.kind.isPositional = false) :
    required (p :: rest) = required rest := by rw [required, positional_cons_other h, required]

theorem required_cons (h : p.kind.isPositional = true) (needs : p.hasDefault = false) :
    required (p :: rest) = p :: required rest := by
  rw [required, positional_cons h]
  exact List.filter_cons_of_pos (by simp [needs])

theorem required_cons_default (h : p.kind.isPositional = true) (default : p.hasDefault = true) :
    required (p :: rest) = required rest := by
  rw [required, positional_cons h, required]
  exact List.filter_cons_of_neg (by simp [default])

theorem required_after_default (h : p.kind.isPositional = true) (default : p.hasDefault = true)
    (legal : (p :: rest).Pairwise Parameter.MayPrecede) : required rest = [] := by
  rw [required, List.filter_eq_nil_iff]
  intro q member
  obtain ⟨given,isPositional⟩ := List.mem_filter.mp member
  have may := (List.pairwise_cons.mp legal).1 q given
  simp [may.defaults h isPositional default]

theorem positional_after_rest (h : p.kind = .varPositional)
    (legal : (p :: rest).Pairwise Parameter.MayPrecede) : positional rest = [] := by
  rw [positional, List.filter_eq_nil_iff]
  intro q given isPositional
  have may := (List.pairwise_cons.mp legal).1 q given
  have order := may.order
  rw [h] at order
  cases kind : q.kind <;> simp [kind, Kind.rank, Kind.isPositional] at order isPositional

theorem required_le_positional (ps : List Parameter) :
    (required ps).length ≤ (positional ps).length := List.length_filter_le _ _

/-- When a call with positional arguments only binds. -/
structure Fits (ps : List Parameter) (n : Nat) : Prop where
  keywords : needsKeyword ps = false
  enough : (required ps).length ≤ n
  few : takesRest ps = true ∨ n ≤ (positional ps).length

theorem needsKeyword_cons (h : p.kind ≠ .keywordOnly) :
    needsKeyword (p :: rest) = needsKeyword rest := by
  simp [needsKeyword, h]

theorem takesRest_cons (h : p.kind ≠ .varPositional) : takesRest (p :: rest) = takesRest rest := by
  simp [takesRest, h]

theorem fits_positional (h : p.kind.isPositional = true)
    (legal : (p :: rest).Pairwise Parameter.MayPrecede) (n : Nat) :
    Fits (p :: rest) (n + 1) ↔ Fits rest n := by
  have keyword : p.kind ≠ .keywordOnly := by rintro same; rw [same] at h; contradiction
  have variadic : p.kind ≠ .varPositional := by rintro same; rw [same] at h; contradiction
  have counts : (required (p :: rest)).length ≤ n + 1 ↔ (required rest).length ≤ n := by
    cases default : p.hasDefault with
    | true =>
      rw [required_cons_default h default, required_after_default h default legal]
      simp
    | false => simp [required_cons h default]
  constructor
  · intro fits
    refine ⟨by rw [← needsKeyword_cons keyword]; exact fits.keywords,counts.mp fits.enough,?_⟩
    have few := fits.few
    rw [takesRest_cons variadic, positional_cons h, List.length_cons] at few
    exact few.imp id (by omega)
  · intro fits
    refine ⟨by rw [needsKeyword_cons keyword]; exact fits.keywords,counts.mpr fits.enough,?_⟩
    rw [takesRest_cons variadic, positional_cons h, List.length_cons]
    exact fits.few.imp id (by omega)

theorem fits_default (h : p.kind.isPositional = true) (default : p.hasDefault = true) :
    Fits (p :: rest) 0 ↔ Fits rest 0 := by
  have keyword : p.kind ≠ .keywordOnly := by rintro same; rw [same] at h; contradiction
  have same : required (p :: rest) = required rest := required_cons_default h default
  constructor
  · intro fits
    refine ⟨by rw [← needsKeyword_cons keyword]; exact fits.keywords,?_,Or.inr (Nat.zero_le _)⟩
    rw [← same]
    exact fits.enough
  · intro fits
    refine ⟨by rw [needsKeyword_cons keyword]; exact fits.keywords,?_,Or.inr (Nat.zero_le _)⟩
    rw [same]
    exact fits.enough

theorem fits_missing (h : p.kind.isPositional = true) (needs : p.hasDefault = false) :
    ¬ Fits (p :: rest) 0 := by
  intro fits
  have enough := fits.enough
  rw [required_cons h needs] at enough
  exact absurd enough (by simp)

theorem fits_other (h : p.kind.isPositional = false) (variadic : p.kind ≠ .varPositional)
    (filled : p.kind = .keywordOnly → p.hasDefault = true) (n : Nat) :
    Fits (p :: rest) n ↔ Fits rest n := by
  have keywords : needsKeyword (p :: rest) = needsKeyword rest := by
    by_cases keyword : p.kind = .keywordOnly
    · simp [needsKeyword, filled keyword]
    · exact needsKeyword_cons keyword
  constructor
  · rintro ⟨h1,h2,h3⟩
    rw [keywords] at h1
    rw [required_cons_other h] at h2
    rw [takesRest_cons variadic, positional_cons_other h] at h3
    exact ⟨h1,h2,h3⟩
  · rintro ⟨h1,h2,h3⟩
    rw [← keywords] at h1
    rw [← required_cons_other h] at h2
    rw [← takesRest_cons variadic, ← positional_cons_other h] at h3
    exact ⟨h1,h2,h3⟩

theorem fits_rest (h : p.kind = .varPositional)
    (legal : (p :: rest).Pairwise Parameter.MayPrecede) (n : Nat) :
    Fits (p :: rest) n ↔ Fits rest 0 := by
  have keyword : p.kind ≠ .keywordOnly := by rw [h]; exact Kind.noConfusion
  have other : p.kind.isPositional = false := by rw [h]; rfl
  have none_ := positional_after_rest h legal
  have later : required rest = [] := by rw [required, none_]; rfl
  constructor
  · intro fits
    exact ⟨by rw [← needsKeyword_cons keyword]; exact fits.keywords,by simp [later],
      Or.inr (Nat.zero_le _)⟩
  · intro fits
    refine ⟨by rw [needsKeyword_cons keyword]; exact fits.keywords,?_,Or.inl ?_⟩
    · rw [required_cons_other other, later]
      exact Nat.zero_le n
    · simp [takesRest, h]

theorem bind_isSome_iff (legal : ps.Pairwise Parameter.MayPrecede) (args : List α) :
    (bind ps args).isSome = true ↔ Fits ps args.length := by
  induction ps generalizing args with
  | nil =>
    cases args with
    | nil => exact ⟨fun _ => ⟨rfl,Nat.le_refl 0,Or.inr (Nat.le_refl 0)⟩,fun _ => rfl⟩
    | cons a args =>
      refine ⟨fun no => (by cases no),fun fits => ?_⟩
      rcases fits.few with no | no <;> cases no
  | cons p rest ih =>
    have tail := (List.pairwise_cons.mp legal).2
    have taken : ∀ a args, p.kind.isPositional = true →
        ((bind rest args).isSome = true ↔ Fits (p :: rest) (a :: args : List α).length) := by
      intro a args h
      rw [List.length_cons, fits_positional h legal]
      exact ih tail args
    have unfilled : p.kind.isPositional = true →
        ((if p.hasDefault then bind rest ([] : List α) else none).isSome = true ↔
          Fits (p :: rest) ([] : List α).length) := by
      intro h
      cases default : p.hasDefault with
      | true =>
        rw [if_pos rfl, List.length_nil, fits_default h default]
        exact ih tail []
      | false =>
        rw [if_neg Bool.false_ne_true]
        exact ⟨fun no => (by cases no),fun fits => absurd fits (fits_missing h default)⟩
    cases kind : p.kind with
    | positionalOnly =>
      have h : p.kind.isPositional = true := by rw [kind]; rfl
      cases args with
      | nil => simpa only [bind, kind] using unfilled h
      | cons a args => simpa only [bind, kind, Option.isSome_map] using taken a args h
    | positionalOrKeyword =>
      have h : p.kind.isPositional = true := by rw [kind]; rfl
      cases args with
      | nil => simpa only [bind, kind] using unfilled h
      | cons a args => simpa only [bind, kind, Option.isSome_map] using taken a args h
    | varPositional =>
      rw [fits_rest kind legal]
      simpa only [bind, kind, Option.isSome_map, List.length_nil] using ih tail []
    | keywordOnly =>
      have h : p.kind.isPositional = false := by rw [kind]; rfl
      have variadic : p.kind ≠ .varPositional := by rw [kind]; exact Kind.noConfusion
      simp only [bind, kind]
      cases default : p.hasDefault with
      | true =>
        rw [if_pos rfl, fits_other h variadic (fun _ => default)]
        exact ih tail args
      | false =>
        rw [if_neg Bool.false_ne_true]
        refine ⟨fun no => (by cases no),fun fits => ?_⟩
        have keywords := fits.keywords
        simp [needsKeyword, kind, default] at keywords
    | varKeyword =>
      have h : p.kind.isPositional = false := by rw [kind]; rfl
      have variadic : p.kind ≠ .varPositional := by rw [kind]; exact Kind.noConfusion
      rw [fits_other h variadic (fun same => by rw [kind] at same; contradiction)]
      simpa only [bind, kind] using ih tail args

end Signatures
