import Mathlib.Data.List.Forall2
import Mathlib.Tactic.Common

/-!
Reasoning about programs with a state and exceptions, written in core's `EStateM`.
`Ends` reads both ways a program can end; its equations run a program symbolically
and its rules carry an invariant through sequencing, handlers and loops.
The state survives an exception, as it does in Python. At the end stand the rules for
a partial function applied to each element of a list.
-/
namespace Programs
variable {σ ε α β : Type}

/-- Started in `s`, the program returns in a state of `ok` or raises in one of `err`. -/
def Ends (p : EStateM ε σ α) (s : σ) (ok : α → σ → Prop) (err : ε → σ → Prop) : Prop :=
  match p.run s with
  | .ok a t => ok a t
  | .error e t => err e t

def finalState (p : EStateM ε σ α) (s : σ) : σ :=
  match p.run s with
  | .ok _ t => t
  | .error _ t => t

variable {p : EStateM ε σ α} {s t : σ} {ok ok' : α → σ → Prop} {err err' : ε → σ → Prop}

@[simp] theorem ends_pure (a : α) : Ends (pure a) s ok err ↔ ok a s := Iff.rfl

@[simp] theorem ends_throw (e : ε) : Ends (throw e) s ok err ↔ err e s := Iff.rfl

@[simp] theorem ends_get {ok : σ → σ → Prop} : Ends get s ok err ↔ ok s s := Iff.rfl

@[simp] theorem ends_set {ok : PUnit → σ → Prop} : Ends (set t) s ok err ↔ ok ⟨⟩ t := Iff.rfl

@[simp] theorem ends_modify {f : σ → σ} {ok : PUnit → σ → Prop} :
    Ends (modify f) s ok err ↔ ok ⟨⟩ (f s) := Iff.rfl

@[simp] theorem ends_bind (f : α → EStateM ε σ β) {ok : β → σ → Prop} :
    Ends (p >>= f) s ok err ↔ Ends p s (fun a t => Ends (f a) t ok err) err := by
  simp only [Ends, EStateM.run_bind]
  cases p.run s <;> rfl

@[simp] theorem ends_tryCatch (h : ε → EStateM ε σ α) :
    Ends (tryCatch p h) s ok err ↔ Ends p s ok (fun e t => Ends (h e) t ok err) := by
  simp only [Ends, EStateM.run, tryCatch, tryCatchThe, MonadExceptOf.tryCatch, EStateM.tryCatch]
  cases p s <;> rfl

theorem ends_ite {c : Prop} [Decidable c] {q : EStateM ε σ α} :
    Ends (if c then p else q) s ok err ↔
      (c → Ends p s ok err) ∧ (¬ c → Ends q s ok err) := by
  split <;> simp_all

theorem ends_mono (h : Ends p s ok err) (hok : ∀ a t, ok a t → ok' a t)
    (herr : ∀ e t, err e t → err' e t) : Ends p s ok' err' := by
  unfold Ends at *
  cases run : p.run s with
  | ok a t => rw [run] at h; exact hok a t h
  | error e t => rw [run] at h; exact herr e t h

theorem ends_congr (same : ∀ a t, ok a t ↔ ok' a t) : Ends p s ok err ↔ Ends p s ok' err := by
  constructor
  · exact fun h => ends_mono h (fun a t => (same a t).mp) (fun _ _ h => h)
  · exact fun h => ends_mono h (fun a t => (same a t).mpr) (fun _ _ h => h)

theorem ends_and (h : Ends p s ok err) (h' : Ends p s ok' err') :
    Ends p s (fun a t => ok a t ∧ ok' a t) (fun e t => err e t ∧ err' e t) := by
  unfold Ends at *
  cases run : p.run s with
  | ok a t => rw [run] at h h'; exact ⟨h,h'⟩
  | error e t => rw [run] at h h'; exact ⟨h,h'⟩

theorem ends_final (inv : σ → Prop) (h : Ends p s (fun _ => inv) (fun _ => inv)) :
    inv (finalState p s) := by
  unfold Ends at h
  unfold finalState
  cases run : p.run s <;> rw [run] at h <;> exact h

theorem ends_total (p : EStateM ε σ α) (s : σ) : Ends p s (fun _ _ => True) (fun _ _ => True) := by
  unfold Ends
  split <;> trivial

theorem ends_of_ok {a : α} (run : p.run s = .ok a t) : Ends p s ok err ↔ ok a t := by
  rw [Ends, run]

theorem ends_cases (h : Ends p s ok err) :
    (∃ a t, p.run s = .ok a t ∧ ok a t) ∨ ∃ e t, p.run s = .error e t ∧ err e t := by
  unfold Ends at h
  cases run : p.run s with
  | ok a t =>
    rw [run] at h
    exact Or.inl ⟨a,t,rfl,h⟩
  | error e t =>
    rw [run] at h
    exact Or.inr ⟨e,t,rfl,h⟩

theorem ends_iff {cond : Prop}
    (h : Ends p s (fun a t => ok a t ↔ cond) (fun e t => err e t ↔ cond)) :
    Ends p s ok err ↔ cond := by
  unfold Ends at *
  cases run : p.run s with
  | ok a t => rw [run] at h; exact h
  | error e t => rw [run] at h; exact h

def returnsWith (p : EStateM ε σ α) (s : σ) (check : σ → Bool) : Bool :=
  match p.run s with
  | .ok _ t => check t
  | .error _ _ => false

def returns (p : EStateM ε σ α) (s : σ) : Bool := returnsWith p s fun _ => true

theorem ends_returns :
    Ends p s (fun _ _ => returns p s = true) (fun _ _ => returns p s = false) := by
  unfold Ends returns returnsWith
  cases p.run s <;> rfl

theorem returns_of_ends (h : Ends p s (fun _ _ => True) (fun _ _ => False)) :
    returns p s = true := by
  obtain ⟨a,t,run,_⟩ | ⟨_,_,_,no⟩ := ends_cases h
  · rw [returns, returnsWith, run]
  · exact no.elim

theorem ends_returnsWith {check : σ → Bool} (h : Ends p s ok err)
    (run : returnsWith p s check = true) : ∃ a t, ok a t ∧ check t = true := by
  unfold returnsWith at run
  obtain ⟨a,t,ran,here⟩ | ⟨e,t,ran,_⟩ := ends_cases h
  · rw [ran] at run
    exact ⟨a,t,here,run⟩
  · rw [ran] at run
    contradiction

def raisesWith (p : EStateM ε σ α) (s : σ) (check : ε → σ → Bool) : Bool :=
  match p.run s with
  | .ok _ _ => false
  | .error e t => check e t

theorem ends_raisesWith {check : ε → σ → Bool} (run : raisesWith p s check = true) :
    Ends p s (fun _ _ => False) (fun e t => check e t = true) := by
  unfold raisesWith at run
  unfold Ends
  cases ran : p.run s with
  | ok a t => simp [ran] at run
  | error e t => simpa [ran] using run

/-- Where `inv` holds, the program returns with `inv` or raises with `bad`. -/
def Leads (inv bad : σ → Prop) (p : EStateM ε σ α) : Prop :=
  ∀ s, inv s → Ends p s (fun _ => inv) (fun _ => bad)

abbrev Keeps (inv : σ → Prop) (p : EStateM ε σ α) : Prop := Leads inv inv p

section
variable {inv bad : σ → Prop}

theorem leads_pure (a : α) : Leads inv bad (pure a : EStateM ε σ α) := fun _ h => h

theorem keeps_throw (e : ε) : Keeps inv (throw e : EStateM ε σ α) := fun _ h => h

theorem leads_bind {f : α → EStateM ε σ β} (hp : Leads inv bad p)
    (hf : ∀ a, Leads inv bad (f a)) : Leads inv bad (p >>= f) := by
  intro s hs
  rw [ends_bind]
  exact ends_mono (hp s hs) (fun a t ht => hf a t ht) (fun _ _ ht => ht)

theorem leads_ite {c : Prop} [Decidable c] {q : EStateM ε σ α}
    (hp : Leads inv bad p) (hq : Leads inv bad q) : Leads inv bad (if c then p else q) := by
  split
  · exact hp
  · exact hq

end

/-- `except`: run the handler on the exceptions `caught`, let the others through. -/
def tryExcept (caught : ε → Bool) (p : EStateM ε σ α) (h : ε → EStateM ε σ α) :
    EStateM ε σ α :=
  tryCatch p fun e => if caught e then h e else throw e

theorem run_tryExcept {caught : ε → Bool} {h : ε → EStateM ε σ α} :
    (tryExcept caught p h).run s =
      match p.run s with
      | .ok a t => .ok a t
      | .error e t => if caught e then (h e).run t else .error e t := by
  simp only [tryExcept, EStateM.run, tryCatch, tryCatchThe, MonadExceptOf.tryCatch,
    EStateM.tryCatch]
  cases p s with
  | ok a t => rfl
  | error e t =>
    dsimp only
    split <;> rfl

@[simp] theorem ends_tryExcept {caught : ε → Bool} {h : ε → EStateM ε σ α} :
    Ends (tryExcept caught p h) s ok err ↔
      Ends p s ok (fun e t => if caught e then Ends (h e) t ok err else err e t) := by
  rw [tryExcept, ends_tryCatch]
  have handlers : ∀ e t, Ends (if caught e then h e else throw e) t ok err ↔
      (if caught e then Ends (h e) t ok err else err e t) := by
    intro e t
    cases caught e <;> simp
  constructor
  · exact fun h => ends_mono h (fun _ _ h => h) (fun e t h => (handlers e t).mp h)
  · exact fun h => ends_mono h (fun _ _ h => h) (fun e t h => (handlers e t).mpr h)

section
variable {τ : Type} {q : EStateM ε τ α} {into : σ → τ} {back : σ → τ → σ}

/-- A program over another state, run in the state that `into` gives; `back` keeps what
    it leaves behind. -/
def within (into : σ → τ) (back : σ → τ → σ) (q : EStateM ε τ α) : EStateM ε σ α := fun s =>
  match q.run (into s) with
  | .ok a t => .ok a (back s t)
  | .error e t => .error e (back s t)

@[simp] theorem ends_within :
    Ends (within into back q) s ok err ↔
      Ends q (into s) (fun a t => ok a (back s t)) (fun e t => err e (back s t)) := by
  simp only [Ends, within, EStateM.run]
  cases q (into s) <;> rfl

end

section
variable {τ : Type}

inductive Alike (R : σ → τ → Prop) : EStateM.Result ε σ α → EStateM.Result ε τ α → Prop where
  | ok {a : α} {s : σ} {t : τ} (related : R s t) : Alike R (.ok a s) (.ok a t)
  | error {e : ε} {s : σ} {t : τ} (related : R s t) : Alike R (.error e s) (.error e t)

/-- The programs end alike. -/
def InStep (R : σ → τ → Prop) (p : EStateM ε σ α) (s : σ) (q : EStateM ε τ α) (t : τ) : Prop :=
  Alike R (p.run s) (q.run t)

variable {R R' : σ → τ → Prop} {p : EStateM ε σ α} {q : EStateM ε τ α} {s : σ} {t : τ}

/-- `ends` tells what else the first part leaves for the second. -/
theorem inStep_bind {f : α → EStateM ε σ β} {g : α → EStateM ε τ β} {ok : α → τ → Prop}
    {err : ε → τ → Prop} (h : InStep R p s q t) (ends : Ends q t ok err)
    (next : ∀ a s' t', R s' t' → ok a t' → InStep R' (f a) s' (g a) t')
    (raised : ∀ s' t', R s' t' → R' s' t') : InStep R' (p >>= f) s (q >>= g) t := by
  unfold InStep Ends at *
  rw [EStateM.run_bind, EStateM.run_bind]
  generalize p.run s = x at h
  generalize q.run t = y at h ends
  cases h with
  | ok related => exact next _ _ _ related ends
  | error related => exact .error (raised _ _ related)

theorem inStep_get {f : σ → EStateM ε σ α} {g : τ → EStateM ε τ α}
    (next : InStep R (f s) s (g t) t) : InStep R (get >>= f) s (get >>= g) t := next

theorem inStep_tryExcept {caught : ε → Bool} {f : ε → EStateM ε σ α} {g : ε → EStateM ε τ α}
    (h : InStep R p s q t) (handled : ∀ e s' t', R s' t' → InStep R (f e) s' (g e) t') :
    InStep R (tryExcept caught p f) s (tryExcept caught q g) t := by
  unfold InStep tryExcept at *
  simp only [EStateM.run, tryCatch, tryCatchThe, MonadExceptOf.tryCatch, EStateM.tryCatch] at *
  generalize p s = x at h
  generalize q t = y at h
  cases h with
  | ok related => exact .ok related
  | @error e s' t' related =>
    change Alike R ((if caught e then f e else throw e) s') ((if caught e then g e else throw e) t')
    split
    · exact handled e s' t' related
    · exact .error related

theorem inStep_mono (h : InStep R p s q t) (weaker : ∀ s' t', R s' t' → R' s' t') :
    InStep R' p s q t := by
  unfold InStep at *
  generalize p.run s = x at h ⊢
  generalize q.run t = y at h ⊢
  cases h with
  | ok related => exact .ok (weaker _ _ related)
  | error related => exact .error (weaker _ _ related)

theorem inStep_within {into : σ → τ} {back : σ → τ → σ} (got : ∀ s t, into (back s t) = t)
    (q : EStateM ε τ α) (s : σ) :
    InStep (fun s t => into s = t) (within into back q) s q (into s) := by
  simp only [InStep, within, EStateM.run]
  cases q (into s) with
  | ok a t => exact .ok (got s t)
  | error e t => exact .error (got s t)

theorem inStep_of_ends
    (h : Ends p s (fun a s' => Ends q t (fun b t' => b = a ∧ R s' t') (fun _ _ => False))
      (fun e s' => Ends q t (fun _ _ => False) (fun e' t' => e' = e ∧ R s' t'))) :
    InStep R p s q t := by
  unfold Ends at h
  unfold InStep
  cases ran : p.run s <;> cases ran' : q.run t <;> simp only [ran, ran'] at h
  · obtain ⟨rfl,related⟩ := h
    exact .ok related
  · obtain ⟨rfl,related⟩ := h
    exact .error related

end

theorem mapM_eq_some_iff {f : α → Option β} {as : List α} {bs : List β} :
    as.mapM f = some bs ↔ List.Forall₂ (fun a b => f a = some b) as bs := by
  induction as generalizing bs with
  | nil => simp [eq_comm]
  | cons a as ih =>
    simp only [List.mapM_cons, Option.bind_eq_bind, Option.bind_eq_some_iff]
    constructor
    · rintro ⟨b,here,others,there,same⟩
      cases same
      exact .cons here (ih.mp there)
    · intro each
      cases each with
      | cons here there => exact ⟨_,here,_,ih.mpr there,rfl⟩

theorem exists_forall₂ {R : α → β → Prop} {as : List α} (each : ∀ a ∈ as, ∃ b, R a b) :
    ∃ bs, List.Forall₂ R as bs := by
  induction as with
  | nil => exact ⟨[],.nil⟩
  | cons a as ih =>
    obtain ⟨b,here⟩ := each a List.mem_cons_self
    obtain ⟨bs,there⟩ := ih fun other member => each other (List.mem_cons_of_mem a member)
    exact ⟨b :: bs,.cons here there⟩

theorem exists_of_forall₂ {R : α → β → Prop} {as : List α} {bs : List β}
    (each : List.Forall₂ R as bs) {a : α} (member : a ∈ as) : ∃ b, R a b := by
  induction each with
  | nil => cases member
  | cons here there ih =>
    obtain rfl | later := List.mem_cons.mp member
    · exact ⟨_,here⟩
    · exact ih later

end Programs
