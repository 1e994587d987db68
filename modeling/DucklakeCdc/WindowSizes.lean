import DucklakeCdc.BatchesGenerator
import DucklakeCdc.Histories
import Mathlib.Algebra.Order.Ring.Int

/-!
The sizes a DML consumer's loop asks for (`_AdaptiveSnapshotWindow`). Observations halve the
window, double it or leave it alone; runs of one kind have a closed form, and every loop
asks for the sizes of a window that has seen one observation after each listen.
-/
namespace CdcWindow

inductive Observation where
  | empty
  | batch (rowCount snapshotSpan : Int) (listenElapsedMs : ℚ)

def AdaptiveWindow.observe (window : AdaptiveWindow) : Observation → AdaptiveWindow
  | .empty => window.observeEmpty
  | .batch rowCount snapshotSpan listenElapsedMs =>
      window.observeBatch rowCount snapshotSpan listenElapsedMs

def AdaptiveWindow.observed (window : AdaptiveWindow) (obs : List Observation) : AdaptiveWindow :=
  obs.foldl AdaptiveWindow.observe window

/-- The sizes asked for before each of these observations. -/
def AdaptiveWindow.requested (window : AdaptiveWindow) : List Observation → List Int
  | [] => []
  | ob :: obs => window.current :: (window.observe ob).requested obs

def Shrinks : Observation → Prop
  | .empty => True
  | .batch rowCount _ listenElapsedMs => 150 ≤ listenElapsedMs ∨ 8192 ≤ rowCount

/-- Fast and small, and it fills the window that was asked for. -/
def Grows (window : AdaptiveWindow) : Observation → Prop
  | .empty => False
  | .batch rowCount snapshotSpan listenElapsedMs =>
      window.current ≤ snapshotSpan ∧ rowCount ≤ 1024 ∧ listenElapsedMs ≤ 75

structure InRange (window : AdaptiveWindow) : Prop where
  low : 1 ≤ window.current
  high : window.current ≤ window.ceiling

section
variable {window : AdaptiveWindow} {ob : Observation} {obs : List Observation}

theorem inRange_new (maxSnapshots : Int) : InRange (.new maxSnapshots) := by
  constructor
  · simp [AdaptiveWindow.new, adaptiveInitialMaxSnapshots]
  · exact min_le_left _ _

theorem doubled (h : InRange window) :
    max (window.current + 1) (window.current * 2) = window.current * 2 := by
  have := h.low
  omega

theorem observe_cases (h : InRange window) (ob : Observation) :
    (Shrinks ob ∧ window.observe ob = { window with current := max 1 (window.current / 2) }) ∨
      (Grows window ob ∧
        window.observe ob = { window with current := min window.ceiling (window.current * 2) }) ∨
      (¬ Grows window ob ∧ window.observe ob = window) := by
  cases ob with
  | empty => exact Or.inl ⟨trivial,rfl⟩
  | batch rowCount snapshotSpan listenElapsedMs =>
    simp only [AdaptiveWindow.observe, AdaptiveWindow.observeBatch, doubled h]
    split
    · rename_i pressed
      exact Or.inl ⟨pressed,rfl⟩
    · split
      · rename_i fills
        exact Or.inr (Or.inl ⟨fills,rfl⟩)
      · rename_i loose
        exact Or.inr (Or.inr ⟨loose,rfl⟩)

theorem observe_shrinks (shrinks : Shrinks ob) :
    window.observe ob = { window with current := max 1 (window.current / 2) } := by
  cases ob with
  | empty => rfl
  | batch rowCount snapshotSpan listenElapsedMs => exact if_pos shrinks

theorem not_shrinks (grows : Grows window ob) : ¬ Shrinks ob := by
  cases ob with
  | empty => exact grows.elim
  | batch rowCount snapshotSpan listenElapsedMs =>
    obtain ⟨_,small,fast⟩ := grows
    rintro (slow | large)
    · exact absurd (slow.trans fast) (by decide)
    · omega

theorem observe_grows (h : InRange window) (grows : Grows window ob) :
    window.observe ob = { window with current := min window.ceiling (window.current * 2) } := by
  rcases observe_cases h ob with ⟨pressed,_⟩ | ⟨_,more⟩ | ⟨loose,_⟩
  · exact absurd pressed (not_shrinks grows)
  · exact more
  · exact absurd grows loose

theorem observe_ceiling (window : AdaptiveWindow) (ob : Observation) :
    (window.observe ob).ceiling = window.ceiling := by
  cases ob with
  | empty => rfl
  | batch rowCount snapshotSpan listenElapsedMs =>
    simp only [AdaptiveWindow.observe, AdaptiveWindow.observeBatch]
    split
    · rfl
    · split <;> rfl

theorem observe_bounds (h : InRange window) (ob : Observation) :
    InRange (window.observe ob) ∧
      max 1 (window.current / 2) ≤ (window.observe ob).current ∧
      (window.observe ob).current ≤ window.current * 2 := by
  have low := h.low
  have high := h.high
  rcases observe_cases h ob with ⟨_,same⟩ | ⟨_,same⟩ | ⟨_,same⟩
  · rw [same]
    exact ⟨⟨le_max_left _ _,by simp only; omega⟩,le_refl _,by simp only; omega⟩
  · rw [same]
    exact ⟨⟨by simp only; omega,min_le_left _ _⟩,by simp only; omega,min_le_right _ _⟩
  · rw [same]
    exact ⟨h,by omega,by omega⟩

theorem observed_inRange (h : InRange window) : InRange (window.observed obs) := by
  induction obs generalizing window with
  | nil => exact h
  | cons ob obs ih => exact ih (observe_bounds h ob).1

theorem observed_ceiling : (window.observed obs).ceiling = window.ceiling := by
  induction obs generalizing window with
  | nil => rfl
  | cons ob obs ih => exact ih.trans (observe_ceiling window ob)

theorem halved_again {a b : Int} (positive : 0 ≤ a) :
    max 1 (max 1 a / b) = max 1 (a / b) := by
  rcases lt_or_ge a 1 with none_ | one
  · obtain rfl : a = 0 := by omega
    have once : (1 : Int) / b ≤ 1 := Int.ediv_le_self b (by decide)
    rw [Int.zero_ediv]
    have := max_eq_left once
    simpa using this
  · rw [max_eq_right one]

theorem shrinking (h : InRange window) (all : ∀ ob ∈ obs, Shrinks ob) :
    (window.observed obs).current = max 1 (window.current / 2 ^ obs.length) := by
  induction obs generalizing window with
  | nil =>
    have low := h.low
    change window.current = max 1 (window.current / 1)
    rw [Int.ediv_one, max_eq_right low]
  | cons ob obs ih =>
    have low := h.low
    have next : window.observe ob = _ := observe_shrinks (all ob List.mem_cons_self)
    have rest := ih (observe_bounds h ob).1 fun other member => all other (List.mem_cons_of_mem _ member)
    change ((window.observe ob).observed obs).current = _
    rw [rest, next]
    dsimp only
    rw [halved_again (by omega), Int.ediv_ediv_of_nonneg (by decide), List.length_cons,
      pow_succ']

theorem doubled_again {ceiling a b : Int} (some_ : 1 ≤ b) (positive : 0 ≤ a) (room : 0 ≤ ceiling) :
    min ceiling (min ceiling a * b) = min ceiling (a * b) := by
  rcases le_total a ceiling with below | above
  · rw [min_eq_right below]
  · rw [min_eq_left above]
    have left : ceiling ≤ ceiling * b := le_mul_of_one_le_right room some_
    have right : ceiling ≤ a * b := above.trans (le_mul_of_one_le_right positive some_)
    rw [min_eq_left left, min_eq_left right]

theorem growing (h : InRange window)
    (all : Histories.EveryStep AdaptiveWindow.observe Grows window obs) :
    (window.observed obs).current = min window.ceiling (window.current * 2 ^ obs.length) := by
  induction obs generalizing window with
  | nil =>
    change window.current = min window.ceiling (window.current * 1)
    rw [mul_one, min_eq_right h.high]
  | cons ob obs ih =>
    have low := h.low
    have high := h.high
    have next := observe_grows h all.1
    have rest := ih (observe_bounds h ob).1 all.2
    change ((window.observe ob).observed obs).current = _
    rw [rest, next]
    have power : (1 : Int) ≤ 2 ^ obs.length := one_le_pow₀ (by decide)
    dsimp only
    rw [doubled_again power (by omega) (by omega), List.length_cons, pow_succ', mul_assoc]

def filling (window : AdaptiveWindow) : Nat → List Observation
  | 0 => []
  | n + 1 => .batch 1 window.current 0 :: filling (window.observe (.batch 1 window.current 0)) n

theorem length_filling (window : AdaptiveWindow) (n : Nat) : (filling window n).length = n := by
  induction n generalizing window with
  | zero => rfl
  | succ n ih => rw [filling, List.length_cons, ih]

theorem filling_grows (window : AdaptiveWindow) (n : Nat) :
    Histories.EveryStep AdaptiveWindow.observe Grows window (filling window n) := by
  induction n generalizing window with
  | zero => trivial
  | succ n ih => exact ⟨⟨le_refl _,by decide,by decide⟩,ih _⟩

/-- From any size in range the window can grow to its ceiling. -/
theorem recovers (h : InRange window) :
    ∃ obs, Histories.EveryStep AdaptiveWindow.observe Grows window obs ∧
      (window.observed obs).current = window.ceiling := by
  refine ⟨filling window window.ceiling.toNat,filling_grows window _,?_⟩
  rw [growing h (filling_grows window _), length_filling]
  have low := h.low
  have high := h.high
  have power : (window.ceiling.toNat : Int) < 2 ^ window.ceiling.toNat := by
    exact_mod_cast Nat.lt_two_pow_self
  have enough : window.ceiling ≤ window.current * 2 ^ window.ceiling.toNat := by
    have once : (2 : Int) ^ window.ceiling.toNat ≤ window.current * 2 ^ window.ceiling.toNat :=
      le_mul_of_one_le_left (pow_nonneg (by decide) _) low
    omega
  exact min_eq_left enough

theorem requested_concat (window : AdaptiveWindow) (obs : List Observation) (ob : Observation) :
    window.requested (obs ++ [ob]) = window.requested obs ++ [(window.observed obs).current] := by
  induction obs generalizing window with
  | nil => rfl
  | cons first obs ih => exact congrArg (window.current :: ·) (ih (window.observe first))

theorem observed_concat (window : AdaptiveWindow) (obs : List Observation) (ob : Observation) :
    window.observed (obs ++ [ob]) = (window.observed obs).observe ob :=
  List.foldl_concat ..

theorem requested_inRange (h : InRange window) :
    ∀ size ∈ window.requested obs, 1 ≤ size ∧ size ≤ window.ceiling := by
  induction obs generalizing window with
  | nil =>
    intro size member
    contradiction
  | cons ob obs ih =>
    intro size member
    rcases List.mem_cons.mp member with rfl | later
    · exact ⟨h.low,h.high⟩
    · rw [← observe_ceiling window ob]
      exact ih (observe_bounds h ob).1 size later

end
end CdcWindow

namespace CdcGenerator
open CdcBatch CdcWindow CdcLoop

section
variable {ι : Type} (c : Consumer) (o : BatchOptions)

def passObserves (t : Turn ι) (g : Generator) (r : Run ι) : Option Observation :=
  if (looked o t r).stopSeen o then none
  else
    match t.outcome with
    | .error _ => none
    | .ok rows =>
      if rows = [] then some .empty
      else
        (buildBatch c.name t.connection t.wall rows).map fun batch =>
          .batch rows.length (max 1 (batch.endSnapshot - batch.startSnapshot + 1))
            (((heard o t g r rows).around.clock - ((looked o t r).meet t.starts).around.clock) * 1000)

def observes (r : Run ι) : Move ι → List Observation
  | .next _ _ => []
  | .turn t =>
    match r.status with
    | .polling g => (passObserves c o t g r).toList
    | _ => []

def observations : Run ι → List (Move ι) → List Observation
  | _, [] => []
  | r, move :: moves => observes c o r move ++ observations (advance c o r move) moves

def asks : Deed ι → Option Int
  | .listens maxSnapshots => some maxSnapshots
  | _ => none

def Run.asked (r : Run ι) : List Int := (r.log.filterMap asks).reverse

def Sized (r : Run ι) (obs : List Observation) : Prop :=
  let window := AdaptiveWindow.new o.maxSnapshots
  match r.status with
  | .created => r.asked = [] ∧ obs = []
  | .polling g => g.adaptiveWindow = some (window.observed obs) ∧ r.asked = window.requested obs
  | .suspended _ g => g.adaptiveWindow = some (window.observed obs) ∧ r.asked = window.requested obs
  | .returned _ => r.asked = window.requested obs
  | .raised _ => r.asked <+: window.requested obs ++ [(window.observed obs).current]

variable {c o} {r : Run ι} {g : Generator} {t : Turn ι} {obs : List Observation}

@[simp] theorem asked_meet (r : Run ι) (m : Moment) : (r.meet m).asked = r.asked := rfl
@[simp] theorem asked_become (r : Run ι) (s : Status ι) : (r.become s).asked = r.asked := rfl
@[simp] theorem asked_resumed (r : Run ι) : r.resumed.asked = r.asked := rfl

@[simp] theorem asked_listens (r : Run ι) (size : Int) :
    (r.note (.listens size)).asked = r.asked ++ [size] := by
  simp [Run.asked, asks]

@[simp] theorem asked_listened (r : Run ι) (rows : List (Row ι)) (stop : Bool) :
    (r.note (.listened rows stop)).asked = r.asked := rfl

@[simp] theorem asked_yielded (r : Run ι) (batch : Batch ι) :
    (r.note (.yielded batch)).asked = r.asked := rfl

@[simp] theorem asked_checkStop (r : Run ι) : (r.checkStop o).asked = r.asked := by
  unfold Run.checkStop
  split <;> rfl

theorem asked_looked : (looked o t r).asked = r.asked := asked_checkStop _

theorem asked_listening : (listening o t g r).asked = r.asked ++ [g.request o] := by
  simp [listening, asked_looked]

theorem asked_heard (rows : List (Row ι)) :
    (heard o t g r rows).asked = r.asked ++ [g.request o] := by
  simp [heard, asked_listening]

theorem asked_quiet : (quiet o t g r).asked = r.asked ++ [g.request o] := by
  simp [quiet, asked_heard]

theorem asked_rested : (rested o t g r).asked = r.asked ++ [g.request o] := by
  simp [rested, asked_quiet]

theorem request_of_window {window : AdaptiveWindow} (same : g.adaptiveWindow = some window) :
    g.request o = window.current := by
  rw [Generator.request, same]
  rfl

theorem passObserves_empty (unseen : (looked o t r).stopSeen o = false)
    (outcome : t.outcome = .ok []) : passObserves c o t g r = some .empty := by
  rw [passObserves, if_neg (Bool.eq_false_iff.mp unseen), outcome]
  rfl

theorem sized_pass (sized : Sized o r obs) (status : r.status = .polling g) :
    Sized o (pass c o t g r) (obs ++ (passObserves c o t g r).toList) := by
  simp only [Sized, status] at sized
  obtain ⟨same,asked⟩ := sized
  have size : r.asked ++ [g.request o] =
      (AdaptiveWindow.new o.maxSnapshots).requested obs ++
        [((AdaptiveWindow.new o.maxSnapshots).observed obs).current] := by
    rw [asked, request_of_window same]
  have came := passes c o t g r
  generalize pass c o t g r = after at came ⊢
  cases came with
  | stopped seen =>
    have nothing : passObserves c o t g r = none := if_pos seen
    rw [nothing]
    simpa [Sized, asked_looked] using asked
  | failed e unseen outcome =>
    have nothing : passObserves c o t g r = none := by
      rw [passObserves, if_neg (Bool.eq_false_iff.mp unseen), outcome]
    rw [nothing]
    simp [Sized, asked_listening, size]
  | abandoned unseen outcome seen =>
    rw [passObserves_empty unseen outcome]
    simp [Sized, asked_quiet, size, requested_concat]
  | once unseen outcome unseen' finite =>
    rw [passObserves_empty unseen outcome]
    simp [Sized, asked_quiet, size, requested_concat]
  | idle limit unseen outcome unseen' infinite force reached =>
    rw [passObserves_empty unseen outcome]
    simp [Sized, asked_rested, size, requested_concat]
  | again unseen outcome unseen' infinite short =>
    rw [passObserves_empty unseen outcome]
    simp [Sized, asked_rested, size, requested_concat, observed_concat, Generator.observeEmpty, same,
      AdaptiveWindow.observe]
  | yielded rows batch elapsedMs unseen outcome some_ built took =>
    have told : passObserves c o t g r =
        some (.batch rows.length (max 1 (batch.endSnapshot - batch.startSnapshot + 1)) elapsedMs) := by
      rw [passObserves, if_neg (Bool.eq_false_iff.mp unseen), outcome]
      simp only [if_neg some_, built, took]
      rfl
    rw [told]
    simp [Sized, asked_heard, size, requested_concat, observed_concat, Generator.observeBatch, same,
      AdaptiveWindow.observe]

theorem sized_next (sized : Sized o r obs) (dml : c.kind = .dml) (asks reads : Moment) :
    Sized o (advance c o r (.next asks reads)) obs := by
  cases status : r.status with
  | created =>
    simp only [Sized, status] at sized
    obtain ⟨none_,rfl⟩ := sized
    simp only [advance, status, start, dml, if_true]
    split
    · exact ⟨rfl,none_⟩
    · simp [Sized, none_]
  | suspended batch g =>
    simp only [Sized, status] at sized
    simp only [advance, status, proceed]
    split
    · exact sized.2
    · split
      · exact sized.2
      · exact sized
  | polling g => simpa only [advance, status] using sized
  | returned why => simpa only [advance, status] using sized
  | raised e => simpa only [advance, status] using sized

theorem sized_move (sized : Sized o r obs) (dml : c.kind = .dml) (move : Move ι) :
    Sized o (advance c o r move) (obs ++ observes c o r move) := by
  cases move with
  | next asks reads =>
    rw [observes, List.append_nil]
    exact sized_next sized dml asks reads
  | turn t =>
    cases status : r.status with
    | polling g =>
      simp only [observes, status, advance]
      exact sized_pass sized status
    | _ => simpa only [observes, status, advance, List.append_nil] using sized

theorem sized_moves (sized : Sized o r obs) (dml : c.kind = .dml) (moves : List (Move ι)) :
    Sized o (movesOf c o r moves) (obs ++ observations c o r moves) := by
  induction moves generalizing r obs with
  | nil => simpa [movesOf, observations] using sized
  | cons move moves ih =>
    rw [observations, ← List.append_assoc]
    exact ih (sized_move sized dml move)

theorem sized_asked (sized : Sized o r obs) :
    r.asked <+: (AdaptiveWindow.new o.maxSnapshots).requested obs ++
      [((AdaptiveWindow.new o.maxSnapshots).observed obs).current] := by
  cases status : r.status with
  | created =>
    simp only [Sized, status] at sized
    rw [sized.1]
    exact List.nil_prefix
  | raised e => simpa only [Sized, status] using sized
  | returned why =>
    simp only [Sized, status] at sized
    exact sized ▸ List.prefix_append _ _
  | polling g =>
    simp only [Sized, status] at sized
    exact sized.2 ▸ List.prefix_append _ _
  | suspended batch g =>
    simp only [Sized, status] at sized
    exact sized.2 ▸ List.prefix_append _ _

end

/-- A DML loop asks for the sizes of a window that is told of each listen; the window stays in
    range, and runs of one kind of observation have a closed form. -/
theorem adaptive_window_sizes {ι : Type} (c : Consumer) (o : BatchOptions) (dml : c.kind = .dml)
    (moves : List (Move ι)) (obs : List Observation) :
    let new := AdaptiveWindow.new o.maxSnapshots
    let window := new.observed obs
    let r : Run ι := movesOf c o {} moves
    let told := observations c o {} moves
    (r.asked <+: new.requested told ++ [(new.observed told).current] ∧
      ∀ size ∈ r.asked, 1 ≤ size ∧ size ≤ max 1 o.maxSnapshots) ∧
    (1 ≤ window.current ∧ window.current ≤ max 1 o.maxSnapshots) ∧
    (∀ ob, max 1 (window.current / 2) ≤ (window.observe ob).current ∧
      (window.observe ob).current ≤ window.current * 2) ∧
    (∀ more, (∀ ob ∈ more, Shrinks ob) →
      (window.observed more).current = max 1 (window.current / 2 ^ more.length)) ∧
    (∀ more, Histories.EveryStep AdaptiveWindow.observe Grows window more →
      (window.observed more).current =
        min (max 1 o.maxSnapshots) (window.current * 2 ^ more.length)) ∧
    ∃ more, Histories.EveryStep AdaptiveWindow.observe Grows window more ∧
      (window.observed more).current = max 1 o.maxSnapshots := by
  intro new window r told
  have fresh : InRange new := inRange_new o.maxSnapshots
  have here : InRange window := observed_inRange fresh
  have ceiling : window.ceiling = max 1 o.maxSnapshots := observed_ceiling
  have start : Sized o ({} : Run ι) [] := ⟨rfl,rfl⟩
  have sized : Sized o r told := sized_moves start dml moves
  have asked := sized_asked sized
  refine ⟨⟨asked,?_⟩,⟨here.low,ceiling ▸ here.high⟩,fun ob => (observe_bounds here ob).2,
    fun more all => shrinking here all,fun more all => ceiling ▸ growing here all,
    ceiling ▸ recovers here⟩
  intro size member
  rcases List.mem_append.mp (asked.subset member) with earlier | latest
  · exact requested_inRange fresh size earlier
  · obtain rfl := List.mem_singleton.mp latest
    have last : InRange (new.observed told) := observed_inRange fresh
    exact ⟨last.low,last.high.trans (le_of_eq observed_ceiling)⟩

theorem adaptive_window_sizes_fast :
    let o : BatchOptions := { maxSnapshots := 10 }
    let moves : List (Move Int) :=
      [.next {} {},.turn { outcome := .ok [⟨some 1,some 8,7,0⟩] },.next {} {},.turn { outcome := .ok [] }]
    (∀ size ∈ (movesOf .orders o {} moves).asked, 1 ≤ size ∧ size ≤ 10) ∧
      (movesOf .orders o {} moves).asked = [8,10] :=
  ⟨(adaptive_window_sizes .orders { maxSnapshots := 10 } rfl _ []).1.2,by decide +kernel⟩

end CdcGenerator
