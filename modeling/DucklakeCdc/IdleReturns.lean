import DucklakeCdc.BatchesGenerator
import DucklakeCdc.Histories
import Mathlib.Tactic.Linarith

/-!
A generator of `batches` that hears nothing comes to an end: once a time limit is in force,
by `idle_timeout` or because the drain event is set, listen calls that bring nothing and
take some time each leave it no more passes than fit into the limit. Without a limit it
goes on for as long as nobody stops it.
-/
namespace CdcGenerator
open Histories CdcBatch CdcRetry CdcWindow CdcLoop
variable {ι : Type}

/-- A limit applies to an empty listen from now on, whatever is set later. -/
def Limited (o : BatchOptions) (s : Surroundings) : Prop :=
  0 < o.idleTimeout ∨ (o.drainEvent = true ∧ s.drainSet = true)

/-- No limit of these options is above `T`. -/
structure Within (o : BatchOptions) (T : ℚ) : Prop where
  idle : 0 < o.idleTimeout → o.idleTimeout ≤ T
  drain : o.drainEvent = true → o.drainIdleTimeout ≤ T

/-- A pass whose listen brings nothing, after `d` seconds or more. -/
structure Turn.Empty (t : Turn ι) (d : ℚ) : Prop where
  outcome : t.outcome = .ok []
  slow : d ≤ t.listens.elapsed

def Run.GivenUp (r : Run ι) : Prop :=
  r.status = .returned .stopped ∨ ∃ limit now, r.status = .returned (.idle limit now)

def passed (c : Consumer) (o : BatchOptions) (r : Run ι) (ts : List (Turn ι)) : Run ι :=
  ts.foldl (fun r t => advance c o r (.turn t)) r

section
variable {c : Consumer} {o : BatchOptions} {t : Turn ι} {g : Generator} {r : Run ι} {d T : ℚ}

theorem passed_over {why : Reason} (over_ : r.status = .returned why) (ts : List (Turn ι)) :
    passed c o r ts = r := by
  induction ts with
  | nil => rfl
  | cons t rest ih =>
    have same : advance c o r (.turn t) = r := by simp only [advance, over_]
    rw [passed, List.foldl_cons, same]
    exact ih

theorem passed_givenUp (h : r.GivenUp) (ts : List (Turn ι)) : (passed c o r ts).GivenUp := by
  have same : passed c o r ts = r := by
    rcases h with over_ | ⟨limit,now,over_⟩
    · exact passed_over over_ ts
    · exact passed_over over_ ts
  rw [same]
  exact h

theorem rested_drainSet (set_ : r.around.drainSet = true) :
    (rested o t g r).around.drainSet = true := by
  simp [rested, quiet, heard, listening, looked, Surroundings.meet, set_]

theorem rested_limited (h : Limited o r.around) : Limited o (rested o t g r).around := by
  rcases h with patient | ⟨given,set_⟩
  · exact Or.inl patient
  · exact Or.inr ⟨given,rested_drainSet set_⟩

theorem limit_of_limited (h : Limited o r.around) (within : Within o T) :
    ∃ limit, limitInForce o r = some limit ∧ limit ≤ T := by
  unfold limitInForce
  split
  · next drains =>
    have given : o.drainEvent = true := by
      rw [Run.drainSeen, Bool.and_eq_true] at drains
      exact drains.1
    exact ⟨_,rfl,within.drain given⟩
  · next polite =>
    rcases h with patient | ⟨given,set_⟩
    · exact ⟨_,if_pos patient,within.idle patient⟩
    · exact absurd (by rw [Run.drainSeen, given, set_]; rfl) polite

theorem clock_meet (s : Surroundings) (m : Moment) : s.clock ≤ (s.meet m).clock :=
  (before_meet s m).clock

theorem now_after : r.around.clock + max 0 t.listens.elapsed ≤ now o t g r := by
  let called := ((looked o t r).meet t.starts).around.meet t.listens
  have stops := clock_meet called t.stops
  have again := clock_meet (called.meet t.stops) t.again
  have reads := clock_meet ((called.meet t.stops).meet t.again) t.reads
  have last : now o t g r = (((called.meet t.stops).meet t.again).meet t.reads).clock := by
    simp only [now, quiet, heard, listening, meet_around, checkStop_around, note_around, called]
  have before := clock_meet r.around t.check
  have starts := clock_meet (r.around.meet t.check) t.starts
  have took : called.clock =
      ((r.around.meet t.check).meet t.starts).clock + max 0 t.listens.elapsed := by
    simp only [called, looked, meet_around, checkStop_around]
    rfl
  linarith

theorem empty_pass (c : Consumer) (infinite : o.infinite = true) (limited : Limited o r.around)
    (within : Within o T) (empty : t.Empty d) :
    (pass c o t g r).GivenUp ∨
      ((pass c o t g r).status = .polling g.observeEmpty ∧ Limited o (pass c o t g r).around ∧
        r.around.clock + d ≤ (pass c o t g r).around.clock ∧
        r.around.clock + d - g.lastActivity < T) := by
  have came := passes c o t g r
  have after : r.around.clock + d ≤ now o t g r :=
    (add_le_add_right (empty.slow.trans (le_max_right 0 _)) _).trans now_after
  generalize pass c o t g r = s at came
  cases came with
  | stopped seen => exact Or.inl (Or.inl rfl)
  | abandoned unseen outcome seen => exact Or.inl (Or.inl rfl)
  | idle limit unseen outcome unseen' infinite force reached => exact Or.inl (Or.inr ⟨_,_,rfl⟩)
  | failed e unseen outcome => rw [empty.outcome] at outcome; contradiction
  | once unseen outcome unseen' finite => rw [infinite] at finite; contradiction
  | yielded rows batch elapsedMs unseen outcome some_ built took =>
    rw [empty.outcome] at outcome
    cases outcome
    contradiction
  | again unseen outcome unseen' infinite short =>
    have limited' := rested_limited (t := t) (g := g) limited
    obtain ⟨limit,force,below⟩ := limit_of_limited limited' within
    have before := short limit force
    have drained : now o t g r ≤ (rested o t g r).around.clock := clock_meet _ t.drains
    exact Or.inr ⟨rfl,limited',by simpa using after.trans drained,by linarith⟩

/-- From an idle time of `x` on, passes that fill the rest of the limit are the last ones. -/
theorem empty_passes (c : Consumer) (infinite : o.infinite = true) (within : Within o T)
    (ts : List (Turn ι)) (some_ : ts ≠ []) (empty : ∀ t ∈ ts, t.Empty d) (x : ℚ)
    (status : r.status = .polling g) (limited : Limited o r.around)
    (idle : x ≤ r.around.clock - g.lastActivity) (enough : T ≤ x + ts.length * d) :
    (passed c o r ts).GivenUp := by
  induction ts generalizing r g x with
  | nil => contradiction
  | cons t rest ih =>
    obtain ⟨first,others⟩ := List.forall_mem_cons.mp empty
    rw [passed, List.foldl_cons, advance_turn status, ← passed]
    rcases empty_pass c infinite limited within first with given | ⟨polls,limited',took,short⟩
    · exact passed_givenUp given rest
    · rw [List.length_cons, Nat.cast_succ] at enough
      by_cases last : rest = []
      · subst rest
        simp only [List.length_nil, Nat.cast_zero, zero_add, one_mul] at enough
        linarith
      · refine ih last others (x + d) polls limited' ?_ ?_
        · have same : g.observeEmpty.lastActivity = g.lastActivity := rfl
          rw [same]
          linarith
        · linarith

def Punctual (r : Run ι) : Prop :=
  match r.status with
  | .polling g => g.lastActivity ≤ r.around.clock
  | .suspended _ g => g.lastActivity ≤ r.around.clock
  | _ => True

theorem punctual_pass (h : g.lastActivity ≤ r.around.clock) : Punctual (pass c o t g r) := by
  have came := passes c o t g r
  generalize pass c o t g r = s at came
  cases came with
  | again unseen outcome unseen' infinite short =>
    have after := now_after (o := o) (t := t) (g := g) (r := r)
    have drained : now o t g r ≤ (rested o t g r).around.clock := clock_meet _ t.drains
    have took := le_max_left 0 t.listens.elapsed
    have same : g.observeEmpty.lastActivity = g.lastActivity := rfl
    simp only [Punctual, become_status, become_around, same]
    linarith
  | yielded rows batch elapsedMs unseen outcome some_ built took => exact le_refl _
  | _ => trivial

theorem punctual_kept (c : Consumer) (o : BatchOptions) (r : Run ι) (move : Move ι)
    (h : Punctual r) : Punctual (advance c o r move) := by
  cases move with
  | next asks reads =>
    cases status : r.status with
    | created =>
      simp only [advance, status, start]
      split
      · exact le_refl _
      · trivial
    | suspended batch g =>
      have since : g.lastActivity ≤ r.around.clock := by simpa only [Punctual, status] using h
      simp only [advance, status, proceed]
      split
      · trivial
      · split
        · trivial
        · exact since.trans (clock_meet r.around asks)
    | _ => simpa only [advance, status] using h
  | turn t =>
    cases status : r.status with
    | polling g =>
      have since : g.lastActivity ≤ r.around.clock := by simpa only [Punctual, status] using h
      simp only [advance, status]
      exact punctual_pass since
    | _ => simpa only [advance, status] using h

theorem punctual_run (c : Consumer) (o : BatchOptions) (s : Surroundings) (moves : List (Move ι)) :
    Punctual (moves.foldl (advance c o) { around := s }) := by
  have kept : ∀ (moves : List (Move ι)) (r : Run ι), Punctual r →
      Punctual (moves.foldl (advance c o) r) := by
    intro moves
    induction moves with
    | nil => exact fun _ h => h
    | cons move rest ih => exact fun r h => ih _ (punctual_kept c o r move h)
  exact kept moves _ trivial

end

/-- In any state of a run in which an infinite generator polls under a time limit, and no
    limit is above `T`: listen calls of `d` seconds that bring nothing, as many as fill `T`,
    have it return, for idleness or because it is stopped. -/
theorem idle_returns (c : Consumer) (o : BatchOptions) (infinite : o.infinite = true) (T d : ℚ)
    (within : Within o T) (ts : List (Turn ι)) (some_ : ts ≠ []) (empty : ∀ t ∈ ts, t.Empty d)
    (enough : T ≤ ts.length * d) (s : Surroundings) (moves : List (Move ι)) :
    let r := moves.foldl (advance c o) { around := s }
    ∀ g, r.status = .polling g → Limited o r.around → (passed c o r ts).GivenUp := by
  intro r g status limited
  have since := punctual_run c o s moves
  have idle : 0 ≤ r.around.clock - g.lastActivity := by
    have since' : g.lastActivity ≤ r.around.clock := by
      simpa only [Punctual, r, status] using since
    linarith
  exact empty_passes c infinite within ts some_ empty 0 status limited idle (by linarith)

theorem ten_polls_end :
    (passed .orders { idleTimeout := 10 } (advance .orders { idleTimeout := 10 } {} (.next {} {}))
      (List.replicate 10 ({ outcome := .ok [], listens := { elapsed := 1 } } : Turn Unit))).GivenUp := by
  refine idle_returns .orders { idleTimeout := 10 } rfl 10 1 ⟨fun _ => le_refl _,fun no => nomatch no⟩
    _ (by simp) ?_ (by simp) {} [.next {} {}] _ rfl (Or.inl (by simp))
  intro t member
  rw [List.eq_of_mem_replicate member]
  exact ⟨rfl,le_refl _⟩

end CdcGenerator
