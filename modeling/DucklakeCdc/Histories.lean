import Mathlib.Tactic.Common

/-!
Histories of a system that takes step after step. `Path` follows a labelled relation
along a list of labels; `visited` lists the states a deterministic system goes
through. An invariant that every clean step keeps, and every other step breaks, makes
safety of a whole history the same thing as cleanness of its steps.
-/
namespace Histories
variable {σ κ : Type}

inductive Path (step : σ → κ → σ → Prop) : σ → List κ → σ → Prop where
  | nil (s : σ) : Path step s [] s
  | cons {s t u : σ} {k : κ} {ks : List κ} (first : step s k t) (rest : Path step t ks u) :
      Path step s (k :: ks) u

section
variable {step : σ → κ → σ → Prop} {s t u : σ} {k : κ} {ks ks' : List κ}

theorem path_append (left : Path step s ks t) (right : Path step t ks' u) :
    Path step s (ks ++ ks') u := by
  induction left with
  | nil => exact right
  | cons first _ ih => exact Path.cons first (ih right)

theorem path_snoc (path : Path step s ks t) (last : step t k u) :
    Path step s (ks ++ [k]) u :=
  path_append path (Path.cons last (Path.nil u))

theorem path_split (path : Path step s (ks ++ ks') u) :
    ∃ t, Path step s ks t ∧ Path step t ks' u := by
  induction ks generalizing s with
  | nil => exact ⟨s,Path.nil s,path⟩
  | cons k ks ih =>
    cases path with
    | cons first rest =>
      obtain ⟨t,left,right⟩ := ih rest
      exact ⟨t,Path.cons first left,right⟩

theorem path_at (path : Path step s (ks ++ k :: ks') u) :
    ∃ t t', Path step s ks t ∧ step t k t' ∧ Path step t' ks' u := by
  obtain ⟨t,left,right⟩ := path_split path
  cases right with
  | cons first rest => exact ⟨t,_,left,first,rest⟩

end

section
variable (step : σ → κ → σ)

def visited : σ → List κ → List σ
  | _, [] => []
  | s, k :: ks => step s k :: visited (step s k) ks

def EveryStep (clean : σ → κ → Prop) : σ → List κ → Prop
  | _, [] => True
  | s, k :: ks => clean s k ∧ EveryStep clean (step s k) ks

variable {step} {safe : σ → Prop} {clean : σ → κ → Prop}

theorem foldl_visited (s : σ) {ks : List κ} (some_ : ks ≠ []) :
    ks.foldl step s ∈ visited step s ks := by
  induction ks generalizing s with
  | nil => contradiction
  | cons k ks ih =>
    cases ks with
    | nil => exact List.mem_cons_self
    | cons k' ks => exact List.mem_cons_of_mem _ (ih (step s k) (by simp))

theorem everyStep_of_forall (all : ∀ s k, clean s k) (s : σ) (ks : List κ) :
    EveryStep step clean s ks := by
  induction ks generalizing s with
  | nil => trivial
  | cons k ks ih => exact ⟨all s k,ih (step s k)⟩

theorem safe_of_clean (inv : σ → Prop) (kept : ∀ s k, inv s → clean s k → inv (step s k))
    (sound : ∀ s, inv s → safe s) {s : σ} {ks : List κ} (start : inv s)
    (run : EveryStep step clean s ks) : ∀ t ∈ visited step s ks, safe t := by
  induction ks generalizing s with
  | nil => simp [visited]
  | cons k ks ih =>
    have next := kept s k start run.1
    intro t member
    rcases List.mem_cons.mp member with same | later
    · subst t
      exact sound _ next
    · exact ih next run.2 t later

/-- What every step keeps holds in every state a run goes through. -/
theorem always (inv : σ → Prop) (kept : ∀ s k, inv s → inv (step s k)) {s : σ} {ks : List κ}
    (start : inv s) : ∀ t ∈ visited step s ks, inv t := by
  have clean : EveryStep step (fun _ _ => True) s ks :=
    everyStep_of_forall (fun _ _ => trivial) s ks
  exact safe_of_clean inv (fun s k h _ => kept s k h) (fun _ h => h) start clean

theorem clean_of_safe (inv : σ → Prop) (kept : ∀ s k, inv s → clean s k → inv (step s k))
    (exact_ : ∀ s k, inv s → safe (step s k) → clean s k) {s : σ} {ks : List κ}
    (start : inv s) (all : ∀ t ∈ visited step s ks, safe t) : EveryStep step clean s ks := by
  induction ks generalizing s with
  | nil => trivial
  | cons k ks ih =>
    have first := exact_ s k start (all _ List.mem_cons_self)
    exact ⟨first,ih (kept s k start first) (fun t h => all t (List.mem_cons_of_mem _ h))⟩

theorem safe_iff_clean (inv : σ → Prop) (kept : ∀ s k, inv s → clean s k → inv (step s k))
    (sound : ∀ s, inv s → safe s) (exact_ : ∀ s k, inv s → safe (step s k) → clean s k)
    {s : σ} {ks : List κ} (start : inv s) :
    (∀ t ∈ visited step s ks, safe t) ↔ EveryStep step clean s ks :=
  ⟨clean_of_safe inv kept exact_ start,safe_of_clean inv kept sound start⟩

end
end Histories
