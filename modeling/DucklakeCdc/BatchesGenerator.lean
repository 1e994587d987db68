import DucklakeCdc.BatchLoop

/-!
The generator of `batches` on its own: what one `next` and one pass of its loop do, for
any results of the listen calls, any times between its steps and any moment at which
another thread sets an event. `CdcLoop.poll` is a run of such passes.
-/
namespace CdcGenerator
open Programs CdcBatch CdcRetry CdcWindow CdcLoop

structure Moment where
  elapsed : ℚ := 0
  setsStop : Bool := false
  setsDrain : Bool := false

structure Surroundings where
  clock : ℚ := 0
  stopSet : Bool := false
  drainSet : Bool := false

def Surroundings.meet (s : Surroundings) (m : Moment) : Surroundings where
  clock := s.clock + max 0 m.elapsed
  stopSet := s.stopSet || m.setsStop
  drainSet := s.drainSet || m.setsDrain

/-- What one pass of the loop meets: a moment before each of its steps, how the listen
    call ends (its retries included), and what the builder of the batch reads. -/
structure Turn (ι : Type) where
  outcome : Except Exc (List (Row ι))
  check : Moment := {}
  starts : Moment := {}
  listens : Moment := {}
  stops : Moment := {}
  again : Moment := {}
  reads : Moment := {}
  drains : Moment := {}
  connection : Option Nat := none
  wall : Int := 0

inductive Reason where
  | stopped
  | once
  | enough
  | idle (limit now : ℚ)

inductive Status (ι : Type) where
  | created
  | polling (g : Generator)
  | suspended (batch : Batch ι) (g : Generator)
  | returned (why : Reason)
  | raised (e : Exc)

/-- `listened` also says whether the stop event was set when the call returned. -/
inductive Deed (ι : Type) where
  | resumed
  | checked (stop : Bool)
  | listens (maxSnapshots : Int)
  | listened (rows : List (Row ι)) (stop : Bool)
  | yielded (batch : Batch ι)

structure Run (ι : Type) where
  status : Status ι := .created
  around : Surroundings := {}
  resumedAt : ℚ := 0
  log : List (Deed ι) := []

section
variable {ι : Type}

def Run.meet (r : Run ι) (m : Moment) : Run ι := { r with around := r.around.meet m }

def Run.note (r : Run ι) (deed : Deed ι) : Run ι := { r with log := deed :: r.log }

def Run.become (r : Run ι) (status : Status ι) : Run ι := { r with status := status }

def Run.stopSeen (r : Run ι) (o : BatchOptions) : Bool := o.stopEvent && r.around.stopSet

def Run.drainSeen (r : Run ι) (o : BatchOptions) : Bool := o.drainEvent && r.around.drainSet

def Run.checkStop (r : Run ι) (o : BatchOptions) : Run ι :=
  if o.stopEvent then r.note (.checked r.around.stopSet) else r

def Run.resumed (r : Run ι) : Run ι := { r.note .resumed with resumedAt := r.around.clock }

def start (c : Consumer) (o : BatchOptions) (asks reads : Moment) (r : Run ι) : Run ι :=
  let r := (r.meet asks).resumed
  if c.opened then
    let r := r.meet reads
    let adaptive := if c.kind = .dml then some (AdaptiveWindow.new o.maxSnapshots) else none
    r.become (.polling ⟨0,r.around.clock,adaptive⟩)
  else r.become (.raised (notOpenError c))

def proceed (o : BatchOptions) (asks : Moment) (g : Generator) (r : Run ι) : Run ι :=
  let r := (r.meet asks).resumed
  let g := { g with yielded := g.yielded + 1 }
  if !o.infinite then r.become (.returned .once)
  else if o.maxBatches > 0 ∧ g.yielded ≥ o.maxBatches then r.become (.returned .enough)
  else r.become (.polling g)

def afterNothing (o : BatchOptions) (t : Turn ι) (g : Generator) (r : Run ι) : Run ι :=
  let g := g.observeEmpty
  let r := (r.meet t.again).checkStop o
  if r.stopSeen o then r.become (.returned .stopped)
  else if !o.infinite then r.become (.returned .once)
  else
    let r := r.meet t.reads
    let now := r.around.clock
    let r := r.meet t.drains
    if r.drainSeen o then
      if now - g.lastActivity ≥ o.drainIdleTimeout then
        r.become (.returned (.idle o.drainIdleTimeout now))
      else r.become (.polling g)
    else if o.idleTimeout > 0 ∧ now - g.lastActivity ≥ o.idleTimeout then
      r.become (.returned (.idle o.idleTimeout now))
    else r.become (.polling g)

def afterRows (c : Consumer) (t : Turn ι) (rows : List (Row ι)) (elapsedMs : ℚ) (g : Generator)
    (r : Run ι) : Run ι :=
  let r := r.meet t.reads
  match buildBatch c.name t.connection t.wall rows with
  | none => r.become (.raised emptyRowsError)
  | some batch =>
    let g := { g.observeBatch rows.length batch elapsedMs with lastActivity := r.around.clock }
    (r.note (.yielded batch)).become (.suspended batch g)

def pass (c : Consumer) (o : BatchOptions) (t : Turn ι) (g : Generator) (r : Run ι) : Run ι :=
  let r := (r.meet t.check).checkStop o
  if r.stopSeen o then r.become (.returned .stopped)
  else
    let r := r.meet t.starts
    let listenStarted := r.around.clock
    let r := (r.note (.listens (g.request o))).meet t.listens
    match t.outcome with
    | .error e => r.become (.raised e)
    | .ok rows =>
      let r := (r.note (.listened rows (r.stopSeen o))).meet t.stops
      let listenElapsedMs := (r.around.clock - listenStarted) * 1000
      if rows.isEmpty then afterNothing o t g r
      else afterRows c t rows listenElapsedMs g r

inductive Move (ι : Type) where
  | next (asks reads : Moment)
  | turn (t : Turn ι)

/-- A generator that has returned or raised does nothing more, one that is suspended waits
    for its caller. -/
def advance (c : Consumer) (o : BatchOptions) (r : Run ι) : Move ι → Run ι
  | .next asks reads =>
    match r.status with
    | .created => start c o asks reads r
    | .suspended _ g => proceed o asks g r
    | _ => r
  | .turn t =>
    match r.status with
    | .polling g => pass c o t g r
    | _ => r

theorem advance_turn {c : Consumer} {o : BatchOptions} {r : Run ι} {g : Generator}
    (status : r.status = .polling g) (t : Turn ι) : advance c o r (.turn t) = pass c o t g r := by
  simp only [advance, status]

@[simp] theorem meet_status (r : Run ι) (m : Moment) : (r.meet m).status = r.status := rfl
@[simp] theorem meet_around (r : Run ι) (m : Moment) : (r.meet m).around = r.around.meet m := rfl
@[simp] theorem meet_resumedAt (r : Run ι) (m : Moment) : (r.meet m).resumedAt = r.resumedAt := rfl
@[simp] theorem meet_log (r : Run ι) (m : Moment) : (r.meet m).log = r.log := rfl
@[simp] theorem note_status (r : Run ι) (d : Deed ι) : (r.note d).status = r.status := rfl
@[simp] theorem note_around (r : Run ι) (d : Deed ι) : (r.note d).around = r.around := rfl
@[simp] theorem note_resumedAt (r : Run ι) (d : Deed ι) : (r.note d).resumedAt = r.resumedAt := rfl
@[simp] theorem note_log (r : Run ι) (d : Deed ι) : (r.note d).log = d :: r.log := rfl
@[simp] theorem become_status (r : Run ι) (s : Status ι) : (r.become s).status = s := rfl
@[simp] theorem become_around (r : Run ι) (s : Status ι) : (r.become s).around = r.around := rfl
@[simp] theorem become_resumedAt (r : Run ι) (s : Status ι) :
    (r.become s).resumedAt = r.resumedAt := rfl
@[simp] theorem become_log (r : Run ι) (s : Status ι) : (r.become s).log = r.log := rfl

def looks (o : BatchOptions) (stop : Bool) : List (Deed ι) :=
  if o.stopEvent then [.checked stop] else []

section
variable {o : BatchOptions} {r : Run ι}

@[simp] theorem checkStop_status : (r.checkStop o).status = r.status := by
  unfold Run.checkStop; split <;> rfl
@[simp] theorem checkStop_around : (r.checkStop o).around = r.around := by
  unfold Run.checkStop; split <;> rfl
@[simp] theorem checkStop_resumedAt : (r.checkStop o).resumedAt = r.resumedAt := by
  unfold Run.checkStop; split <;> rfl
@[simp] theorem checkStop_log :
    (r.checkStop o).log = looks o r.around.stopSet ++ r.log := by
  unfold Run.checkStop looks; split <;> rfl

theorem stopSeen_iff : r.stopSeen o = true ↔ o.stopEvent = true ∧ r.around.stopSet = true := by
  simp [Run.stopSeen]

theorem looks_of_seen (seen : r.stopSeen o = true) :
    (looks o r.around.stopSet : List (Deed ι)) = [.checked true] := by
  obtain ⟨given,set_⟩ := stopSeen_iff.mp seen
  rw [looks, if_pos given, set_]

theorem looks_of_unseen (unseen : r.stopSeen o = false) :
    ∀ deed ∈ (looks o r.around.stopSet : List (Deed ι)), deed = .checked false := by
  intro deed member
  rw [looks] at member
  split at member
  · rename_i given
    have clear : r.around.stopSet = false := by simpa [Run.stopSeen, given] using unseen
    rw [clear] at member
    exact List.mem_singleton.mp member
  · contradiction

end

structure Surroundings.Before (s s' : Surroundings) : Prop where
  clock : s.clock ≤ s'.clock
  stop : s.stopSet = true → s'.stopSet = true

theorem before_meet (s : Surroundings) (m : Moment) : s.Before (s.meet m) where
  clock := le_add_of_nonneg_right (le_max_left 0 m.elapsed)
  stop set_ := by simp [Surroundings.meet, set_]

theorem before_trans {s s' s'' : Surroundings} (first : s.Before s') (second : s'.Before s'') :
    s.Before s'' where
  clock := first.clock.trans second.clock
  stop set_ := second.stop (first.stop set_)

def limitInForce (o : BatchOptions) (r : Run ι) : Option ℚ :=
  if r.drainSeen o then some o.drainIdleTimeout
  else if o.idleTimeout > 0 then some o.idleTimeout else none

section
variable (o : BatchOptions) (t : Turn ι) (g : Generator) (r : Run ι)

/-- The generator at its first look of a pass, when the listen call has returned, after its
    second look, and when it has read the drain event. -/
def looked : Run ι := (r.meet t.check).checkStop o

def listening : Run ι := (((looked o t r).meet t.starts).note (.listens (g.request o))).meet t.listens

def heard (rows : List (Row ι)) : Run ι :=
  ((listening o t g r).note (.listened rows ((listening o t g r).stopSeen o))).meet t.stops

def quiet : Run ι := ((heard o t g r []).meet t.again).checkStop o

def now : ℚ := ((quiet o t g r).meet t.reads).around.clock

def rested : Run ι := ((quiet o t g r).meet t.reads).meet t.drains

end

inductive Passes (c : Consumer) (o : BatchOptions) (t : Turn ι) (g : Generator) (r : Run ι) :
    Run ι → Prop where
  | stopped (seen : (looked o t r).stopSeen o = true) :
      Passes c o t g r ((looked o t r).become (.returned .stopped))
  | failed (e : Exc) (unseen : (looked o t r).stopSeen o = false) (outcome : t.outcome = .error e) :
      Passes c o t g r ((listening o t g r).become (.raised e))
  | abandoned (unseen : (looked o t r).stopSeen o = false) (outcome : t.outcome = .ok [])
      (seen : (quiet o t g r).stopSeen o = true) :
      Passes c o t g r ((quiet o t g r).become (.returned .stopped))
  | once (unseen : (looked o t r).stopSeen o = false) (outcome : t.outcome = .ok [])
      (unseen' : (quiet o t g r).stopSeen o = false) (finite : o.infinite = false) :
      Passes c o t g r ((quiet o t g r).become (.returned .once))
  | idle (limit : ℚ) (unseen : (looked o t r).stopSeen o = false) (outcome : t.outcome = .ok [])
      (unseen' : (quiet o t g r).stopSeen o = false) (infinite : o.infinite = true)
      (force : limitInForce o (rested o t g r) = some limit)
      (reached : limit ≤ now o t g r - g.lastActivity) :
      Passes c o t g r ((rested o t g r).become (.returned (.idle limit (now o t g r))))
  | again (unseen : (looked o t r).stopSeen o = false) (outcome : t.outcome = .ok [])
      (unseen' : (quiet o t g r).stopSeen o = false) (infinite : o.infinite = true)
      (short : ∀ limit, limitInForce o (rested o t g r) = some limit →
        now o t g r - g.lastActivity < limit) :
      Passes c o t g r ((rested o t g r).become (.polling g.observeEmpty))
  | yielded (rows : List (Row ι)) (batch : Batch ι) (elapsedMs : ℚ)
      (unseen : (looked o t r).stopSeen o = false) (outcome : t.outcome = .ok rows)
      (some_ : rows ≠ []) (built : buildBatch c.name t.connection t.wall rows = some batch)
      (took : elapsedMs =
        ((heard o t g r rows).around.clock - ((looked o t r).meet t.starts).around.clock) * 1000) :
      Passes c o t g r
        ((((heard o t g r rows).meet t.reads).note (.yielded batch)).become
          (.suspended batch { g.observeBatch rows.length batch elapsedMs with
            lastActivity := ((heard o t g r rows).meet t.reads).around.clock }))

section
variable {c : Consumer} {o : BatchOptions} {t : Turn ι} {g : Generator} {r : Run ι}

theorem pass_stopped (seen : (looked o t r).stopSeen o = true) :
    pass c o t g r = (looked o t r).become (.returned .stopped) := if_pos seen

theorem pass_failed {e : Exc} (unseen : (looked o t r).stopSeen o = false)
    (outcome : t.outcome = .error e) : pass c o t g r = (listening o t g r).become (.raised e) := by
  have listened : pass c o t g r = _ := if_neg (Bool.eq_false_iff.mp unseen)
  rw [listened, outcome]
  rfl

theorem pass_nothing (unseen : (looked o t r).stopSeen o = false) (outcome : t.outcome = .ok []) :
    pass c o t g r = afterNothing o t g (heard o t g r []) := by
  have listened : pass c o t g r = _ := if_neg (Bool.eq_false_iff.mp unseen)
  rw [listened, outcome]
  rfl

theorem pass_rows {rows : List (Row ι)} (unseen : (looked o t r).stopSeen o = false)
    (outcome : t.outcome = .ok rows) (some_ : rows ≠ []) :
    pass c o t g r = afterRows c t rows (((heard o t g r rows).around.clock -
      ((looked o t r).meet t.starts).around.clock) * 1000) g (heard o t g r rows) := by
  have listened : pass c o t g r = _ := if_neg (Bool.eq_false_iff.mp unseen)
  rw [listened, outcome]
  exact if_neg fun empty => some_ (List.isEmpty_iff.mp empty)

theorem pass_suspends {rows : List (Row ι)} {batch : Batch ι}
    (unseen : (looked o t r).stopSeen o = false) (outcome : t.outcome = .ok rows)
    (some_ : rows ≠ []) (built : buildBatch c.name t.connection t.wall rows = some batch) :
    ∃ g', (pass c o t g r).status = .suspended batch g' := by
  rw [pass_rows unseen outcome some_]
  simp only [afterRows, built]
  exact ⟨_,rfl⟩

theorem afterNothing_eq : afterNothing o t g (heard o t g r []) =
    if (quiet o t g r).stopSeen o then (quiet o t g r).become (.returned .stopped)
    else if !o.infinite then (quiet o t g r).become (.returned .once)
    else if (rested o t g r).drainSeen o then
      if now o t g r - g.lastActivity ≥ o.drainIdleTimeout then
        (rested o t g r).become (.returned (.idle o.drainIdleTimeout (now o t g r)))
      else (rested o t g r).become (.polling g.observeEmpty)
    else if o.idleTimeout > 0 ∧ now o t g r - g.lastActivity ≥ o.idleTimeout then
      (rested o t g r).become (.returned (.idle o.idleTimeout (now o t g r)))
    else (rested o t g r).become (.polling g.observeEmpty) := rfl

end

theorem passes_nothing (c : Consumer) {o : BatchOptions} {t : Turn ι} {g : Generator} {r : Run ι}
    (unseen : (looked o t r).stopSeen o = false) (outcome : t.outcome = .ok []) :
    Passes c o t g r (afterNothing o t g (heard o t g r [])) := by
  rw [afterNothing_eq]
  split
  · rename_i seen
    exact .abandoned unseen outcome seen
  rename_i unseen'
  rw [Bool.not_eq_true] at unseen'
  split
  · rename_i finite
    exact .once unseen outcome unseen' (by simpa using finite)
  rename_i infinite
  have forever : o.infinite = true := by simpa using infinite
  split
  · rename_i drains
    have force : limitInForce o (rested o t g r) = some o.drainIdleTimeout := if_pos drains
    split
    · rename_i reached
      exact .idle _ unseen outcome unseen' forever force reached
    · rename_i short
      apply Passes.again unseen outcome unseen' forever
      intro limit same
      obtain rfl : o.drainIdleTimeout = limit := Option.some.inj (force.symm.trans same)
      exact not_le.mp short
  · rename_i polite
    have plain : limitInForce o (rested o t g r) =
        if o.idleTimeout > 0 then some o.idleTimeout else none := if_neg polite
    split
    · rename_i reached
      rw [if_pos reached.1] at plain
      exact .idle _ unseen outcome unseen' forever plain reached.2
    · rename_i short
      apply Passes.again unseen outcome unseen' forever
      intro limit same
      rw [plain] at same
      split at same
      · rename_i positive
        obtain rfl : o.idleTimeout = limit := Option.some.inj same
        exact not_le.mp fun reached => short ⟨positive,reached⟩
      · contradiction

theorem passes (c : Consumer) (o : BatchOptions) (t : Turn ι) (g : Generator) (r : Run ι) :
    Passes c o t g r (pass c o t g r) := by
  cases seen : (looked o t r).stopSeen o with
  | true =>
    rw [pass_stopped seen]
    exact .stopped seen
  | false =>
    cases outcome : t.outcome with
    | error e =>
      rw [pass_failed seen outcome]
      exact .failed e seen outcome
    | ok rows =>
      by_cases empty : rows = []
      · subst rows
        rw [pass_nothing seen outcome]
        exact passes_nothing c seen outcome
      · obtain ⟨batch,built⟩ := build_ne_none c.name t.connection t.wall empty
        rw [pass_rows seen outcome empty]
        simp only [afterRows, built]
        exact .yielded rows batch _ seen outcome empty built rfl

def surroundings (w : World ι) : Surroundings := ⟨w.clock,w.stopSet,w.drainSet⟩

theorem surroundings_meet (w : World ι) (act : Act ι) :
    surroundings (w.meet act) = (surroundings w).meet ⟨act.elapsed,act.setsStop,act.setsDrain⟩ :=
  rfl

def Since (s : Surroundings) (w : World ι) : Prop := ∃ m, surroundings w = s.meet m

theorem since_self (w : World ι) : Since (surroundings w) w :=
  ⟨{},by simp [Surroundings.meet]⟩

theorem since_meet {s : Surroundings} {w w' : World ι} (h : Since s w) (m : Moment)
    (next : surroundings w' = (surroundings w).meet m) : Since s w' := by
  obtain ⟨m',same⟩ := h
  have both : (0 : ℚ) ≤ max 0 m'.elapsed + max 0 m.elapsed :=
    add_nonneg (le_max_left 0 _) (le_max_left 0 _)
  refine ⟨⟨max 0 m'.elapsed + max 0 m.elapsed,m'.setsStop || m.setsStop,
    m'.setsDrain || m.setsDrain⟩,?_⟩
  rw [next, same]
  simp only [Surroundings.meet, max_eq_right both, Bool.or_assoc, add_assoc]

variable {w : World ι} {s : Surroundings}

theorem since_step (h : Since s w) :
    Ends step w (fun _ u => Since s u) (fun stop u => stop = .crashed ∧ Since s u) := by
  apply ends_step (fun _ => ⟨rfl,h⟩)
  intro act rest _
  exact since_meet h _ (surroundings_meet { w with script := rest } act)

theorem since_readClock (w : World ι) :
    Ends readClock w (fun now u => Since (surroundings w) u ∧ now = u.clock)
      (fun stop _ => stop = .crashed) := by
  rw [readClock, ends_bind]
  exact ends_mono (since_step (since_self w)) (fun _ u hu => ⟨hu,rfl⟩) (fun _ _ hu => hu.1)

theorem since_stopRequested (o : BatchOptions) (w : World ι) :
    Ends (stopRequested o) w
      (fun stop u => Since (surroundings w) u ∧ stop = (o.stopEvent && u.stopSet))
      (fun stop _ => stop = .crashed) := by
  rw [stopRequested, ends_ite]
  constructor
  · intro given
    rw [ends_bind]
    exact ends_mono (since_step (since_self w)) (fun _ u hu => ⟨hu,by rw [given]; rfl⟩)
      (fun _ _ hu => hu.1)
  · intro none_
    exact ⟨since_self w,by simp [none_]⟩

theorem since_drainRequested (o : BatchOptions) (w : World ι) :
    Ends (drainRequested o) w
      (fun drain u => Since (surroundings w) u ∧ drain = (o.drainEvent && u.drainSet))
      (fun stop _ => stop = .crashed) := by
  rw [drainRequested, ends_ite]
  constructor
  · intro given
    rw [ends_bind]
    exact ends_mono (since_step (since_self w)) (fun _ u hu => ⟨hu,by rw [given]; rfl⟩)
      (fun _ _ hu => hu.1)
  · intro none_
    exact ⟨since_self w,by simp [none_]⟩

theorem since_listens (cdc : Extension ι) (policy : RetryPolicy) (k : Int) (w : World ι) :
    Ends (policy.run sleep (listenOp cdc k)) w (fun _ u => Since (surroundings w) u)
      (fun _ u => Since (surroundings w) u) := by
  apply ends_policy policy _ _ w (since_self w)
  · intro u hu
    rw [listenOp, ends_bind]
    apply ends_mono (since_step hu) _ (fun _ _ hv => hv.2)
    intro act v hv
    cases act.raises with
    | some e => exact hv
    | none => exact hv
  · intro d u hu
    exact since_meet hu ⟨d,false,false⟩ (by simp [surroundings, Surroundings.meet])

def Gives (given : Option (Batch ι × Generator)) (w : World ι) (r : Run ι) : Prop :=
  r.around = surroundings w ∧
    match given with
    | none => ∃ why, r.status = .returned why
    | some (batch, g) => r.status = .suspended batch g

def movesOf (c : Consumer) (o : BatchOptions) (r : Run ι) (moves : List (Move ι)) : Run ι :=
  moves.foldl (advance c o) r

def turnsOf (c : Consumer) (o : BatchOptions) (r : Run ι) (turns : List (Turn ι)) : Run ι :=
  movesOf c o r (turns.map Move.turn)

theorem turnsOf_cons {c : Consumer} {o : BatchOptions} {r : Run ι} {g : Generator}
    (status : r.status = .polling g) (t : Turn ι) (turns : List (Turn ι)) :
    turnsOf c o r (t :: turns) = turnsOf c o (pass c o t g r) turns := by
  simp [turnsOf, movesOf, advance, status]

/-- What a program gives or raises is what some passes of the loop come to; where the process
    stops, nothing is said. -/
def Turns (c : Consumer) (o : BatchOptions) (r : Run ι)
    (p : Client ι (Option (Batch ι × Generator))) (w : World ι) : Prop :=
  Ends p w (fun given u => ∃ turns, Gives given u (turnsOf c o r turns))
    (fun stop _ => ∀ e, stop = .raised e → ∃ turns, (turnsOf c o r turns).status = .raised e)

def pollNothing (cdc : Extension ι) (c : Consumer) (o : BatchOptions) (fuel : Nat)
    (g : Generator) : Client ι (Option (Batch ι × Generator)) := do
  let stop ← stopRequested o
  if stop then pure none
  else if !o.infinite then pure none
  else do
    let now ← readClock
    let idleFor := now - g.lastActivity
    let drain ← drainRequested o
    if drain then
      if idleFor ≥ o.drainIdleTimeout then pure none
      else poll cdc c o fuel g.observeEmpty
    else if o.idleTimeout > 0 ∧ idleFor ≥ o.idleTimeout then pure none
    else poll cdc c o fuel g.observeEmpty

def pollRows (c : Consumer) (g : Generator) (elapsedMs : ℚ) (rows : List (Row ι)) :
    Client ι (Option (Batch ι × Generator)) := do
  let lastActivity ← readClock
  let batch ← buildRows c rows
  pure (some (batch,{ g.observeBatch rows.length batch elapsedMs with lastActivity := lastActivity }))

section
variable {cdc : Extension ι} {c : Consumer} {o : BatchOptions} {fuel : Nat} {g : Generator}
  {r : Run ι} {t : Turn ι}

theorem poll_succ : poll cdc c o (fuel + 1) g = (do
    let stop ← stopRequested o
    if stop then pure none
    else do
      let listenStarted ← readClock
      let rows ← (c.effectiveRetry o.retry).run sleep (listenOp cdc (g.request o))
      let listenEnded ← readClock
      if rows.isEmpty then pollNothing cdc c o fuel g
      else pollRows c g ((listenEnded - listenStarted) * 1000) rows) := rfl

theorem turns_pass (status : r.status = .polling g) (t : Turn ι)
    {p : Client ι (Option (Batch ι × Generator))} (rest : Turns c o (pass c o t g r) p w) :
    Turns c o r p w := by
  refine ends_mono rest ?_ ?_
  · rintro given u ⟨turns,gives⟩
    exact ⟨t :: turns,by rw [turnsOf_cons status]; exact gives⟩
  · intro stop u raised e same
    obtain ⟨turns,failed⟩ := raised e same
    exact ⟨t :: turns,by rw [turnsOf_cons status]; exact failed⟩

theorem turns_pure {given : Option (Batch ι × Generator)} (gives : Gives given w r) :
    Turns c o r (pure given) w := ⟨[],gives⟩

theorem turns_bind {α : Type} {p : Client ι α} {f : α → Client ι (Option (Batch ι × Generator))}
    {ok : α → World ι → Prop} (h : Ends p w ok (fun stop _ => stop = .crashed))
    (next : ∀ a u, ok a u → Turns c o r (f a) u) : Turns c o r (p >>= f) w := by
  rw [Turns, ends_bind]
  refine ends_mono h next ?_
  intro stop u crashed e raised
  rw [crashed] at raised
  cases raised

theorem turns_ite {cond : Prop} [Decidable cond] {p q : Client ι (Option (Batch ι × Generator))}
    (yes : cond → Turns c o r p w) (no : ¬ cond → Turns c o r q w) :
    Turns c o r (if cond then p else q) w := by
  split
  · exact yes ‹_›
  · exact no ‹_›

theorem stopSeen_of_around {s : Run ι} (here : s.around = surroundings w) :
    s.stopSeen o = (o.stopEvent && w.stopSet) := by
  rw [Run.stopSeen, here]
  rfl

theorem turns_nothing (status : r.status = .polling g)
    (ih : ∀ g' w' r', r'.status = .polling g' → r'.around = surroundings w' →
      Turns c o r' (poll cdc c o fuel g') w')
    (unseen : (looked o t r).stopSeen o = false) (outcome : t.outcome = .ok [])
    (here : (heard o t g r []).around = surroundings w) :
    Turns c o r (pollNothing cdc c o fuel g) w := by
  apply turns_bind (since_stopRequested o w)
  rintro stop w1 ⟨⟨again,at1⟩,seen⟩
  let t1 : Turn ι := { t with again := again }
  have here1 : (quiet o t1 g r).around = surroundings w1 := by
    rw [at1, ← here, quiet, checkStop_around]
    rfl
  rw [← stopSeen_of_around here1] at seen
  subst stop
  have came1 : pass c o t1 g r = _ := pass_nothing unseen outcome
  rw [afterNothing_eq] at came1
  apply turns_ite
  · intro stopped
    apply turns_pass status t1
    rw [came1, if_pos stopped]
    exact turns_pure ⟨here1,.stopped,rfl⟩
  intro unstopped
  apply turns_ite
  · intro finite
    apply turns_pass status t1
    rw [came1, if_neg unstopped, if_pos finite]
    exact turns_pure ⟨here1,.once,rfl⟩
  intro infinite
  apply turns_bind (since_readClock w1)
  rintro _ w2 ⟨⟨reads,at2⟩,rfl⟩
  apply turns_bind (since_drainRequested o w2)
  rintro drain w3 ⟨⟨drains,at3⟩,drained⟩
  let t3 : Turn ι := { t1 with reads := reads, drains := drains }
  have here2 : ((quiet o t3 g r).meet t3.reads).around = surroundings w2 := by
    rw [at2, ← here1]
    rfl
  have here3 : (rested o t3 g r).around = surroundings w3 := by
    rw [at3, ← here2]
    rfl
  have now3 : now o t3 g r = w2.clock := congrArg Surroundings.clock here2
  have drained3 : (rested o t3 g r).drainSeen o = drain := by
    rw [Run.drainSeen, here3, drained]
    rfl
  have unseen3 : ¬ (quiet o t3 g r).stopSeen o = true := unstopped
  have came3 : pass c o t3 g r = _ := pass_nothing unseen outcome
  rw [afterNothing_eq, if_neg unseen3, if_neg infinite, drained3, now3] at came3
  have ended : ∀ why, pass c o t3 g r = (rested o t3 g r).become (.returned why) →
      Turns c o r (pure none) w3 := by
    intro why same
    apply turns_pass status t3
    rw [same]
    exact turns_pure ⟨here3,why,rfl⟩
  have polls : pass c o t3 g r = (rested o t3 g r).become (.polling g.observeEmpty) →
      Turns c o r (poll cdc c o fuel g.observeEmpty) w3 := by
    intro same
    apply turns_pass status t3
    rw [same]
    exact ih _ _ _ rfl here3
  apply turns_ite
  · intro draining
    rw [if_pos draining] at came3
    exact turns_ite (fun reached => ended _ (came3.trans (if_pos reached)))
      (fun short => polls (came3.trans (if_neg short)))
  · intro polite
    rw [if_neg polite] at came3
    exact turns_ite (fun reached => ended _ (came3.trans (if_pos reached)))
      (fun short => polls (came3.trans (if_neg short)))

theorem turns_rows {rows : List (Row ι)} (status : r.status = .polling g) (some_ : rows ≠ [])
    (unseen : (looked o t r).stopSeen o = false) (outcome : t.outcome = .ok rows)
    (here : (heard o t g r rows).around = surroundings w) :
    Turns c o r (pollRows c g (((heard o t g r rows).around.clock -
      ((looked o t r).meet t.starts).around.clock) * 1000) rows) w := by
  apply turns_bind (since_readClock w)
  rintro _ w1 ⟨⟨reads,at1⟩,rfl⟩
  have builds : Ends (buildRows c rows) w1
      (fun batch u => u = w1 ∧ buildBatch c.name (some w1.db.live) w1.wall rows = some batch)
      (fun stop _ => stop = .crashed) := by
    obtain ⟨batch,works⟩ := build_ne_none c.name (some w1.db.live) w1.wall some_
    simp only [buildRows, ends_bind, ends_get, works]
    exact ⟨rfl,rfl⟩
  apply turns_bind builds
  rintro batch u ⟨same,works⟩
  subst u
  let t1 : Turn ι := { t with reads := reads, connection := some w1.db.live, wall := w1.wall }
  have here1 : ((heard o t1 g r rows).meet t1.reads).around = surroundings w1 := by
    rw [at1, ← here]
    rfl
  have built : buildBatch c.name t1.connection t1.wall rows = some batch := works
  have unseen1 : (looked o t1 r).stopSeen o = false := unseen
  have outcome1 : t1.outcome = .ok rows := outcome
  apply turns_pass status t1
  rw [pass_rows unseen1 outcome1 some_]
  simp only [afterRows, built]
  apply turns_pure
  refine ⟨here1,?_⟩
  rw [become_status, here1]
  rfl

end

theorem ends_poll_turns (cdc : Extension ι) (c : Consumer) (o : BatchOptions) (fuel : Nat)
    (g : Generator) (w : World ι) (r : Run ι) (status : r.status = .polling g)
    (here : r.around = surroundings w) : Turns c o r (poll cdc c o fuel g) w := by
  induction fuel generalizing g w r with
  | zero => exact fun e no => by cases no
  | succ fuel ih =>
    rw [poll_succ]
    apply turns_bind (since_stopRequested o w)
    rintro stop w1 ⟨⟨check,at1⟩,seen⟩
    let t1 : Turn ι := { outcome := .ok [], check := check }
    have here1 : (looked o t1 r).around = surroundings w1 := by
      rw [at1, ← here, looked, checkStop_around]
      rfl
    rw [← stopSeen_of_around here1] at seen
    subst stop
    apply turns_ite
    · intro stopped
      apply turns_pass status t1
      rw [pass_stopped stopped]
      exact turns_pure ⟨here1,.stopped,rfl⟩
    intro unstopped
    rw [Bool.not_eq_true] at unstopped
    apply turns_bind (since_readClock w1)
    rintro _ w2 ⟨⟨starts,at2⟩,rfl⟩
    rw [Turns, ends_bind]
    refine ends_mono (since_listens cdc _ _ w2) ?_ ?_
    · rintro rows w3 ⟨listens,at3⟩
      apply turns_bind (since_readClock w3)
      rintro _ w4 ⟨⟨stops,at4⟩,rfl⟩
      let t4 : Turn ι := {
        outcome := .ok rows
        check := check
        starts := starts
        listens := listens
        stops := stops }
      have here2 : ((looked o t4 r).meet t4.starts).around = surroundings w2 := by
        rw [at2, ← here1]
        rfl
      have here4 : (heard o t4 g r rows).around = surroundings w4 := by
        rw [at4, at3, ← here2]
        rfl
      have unseen4 : (looked o t4 r).stopSeen o = false := unstopped
      apply turns_ite
      · intro nothing
        obtain rfl : rows = [] := List.isEmpty_iff.mp nothing
        exact turns_nothing status ih unseen4 rfl here4
      · intro something
        have some_ : rows ≠ [] := fun empty => something (List.isEmpty_iff.mpr empty)
        have after := turns_rows (c := c) status some_ unseen4 rfl here4
        rw [here4, here2] at after
        exact after
    · rintro stop w3 ⟨listens,at3⟩ e rfl
      let t3 : Turn ι := { outcome := .error e, check := check, starts := starts, listens := listens }
      refine ⟨[t3],?_⟩
      have unseen3 : (looked o t3 r).stopSeen o = false := unstopped
      rw [turnsOf_cons status, pass_failed unseen3 rfl]
      rfl

def Moves (c : Consumer) (o : BatchOptions) (r : Run ι)
    (p : Client ι (Option (Batch ι × Generator))) (w : World ι) : Prop :=
  Ends p w (fun given u => ∃ moves, Gives given u (movesOf c o r moves))
    (fun stop _ => ∀ e, stop = .raised e → ∃ moves, (movesOf c o r moves).status = .raised e)

theorem moves_next {cdc : Extension ι} {c : Consumer} {o : BatchOptions} {fuel : Nat}
    {g : Generator} {w : World ι} {r : Run ι} (asks reads : Moment) (next : Run ι)
    (stands : advance c o r (.next asks reads) = next) (status : next.status = .polling g)
    (here : next.around = surroundings w) : Moves c o r (poll cdc c o fuel g) w := by
  have joined : ∀ turns, movesOf c o r (.next asks reads :: turns.map .turn) =
      turnsOf c o next turns := by
    intro turns
    rw [movesOf, List.foldl_cons, stands]
    rfl
  refine ends_mono (ends_poll_turns cdc c o fuel g w next status here) ?_ ?_
  · rintro given u ⟨turns,gives⟩
    exact ⟨_,by rw [joined]; exact gives⟩
  · intro stop u raised e same
    obtain ⟨turns,failed⟩ := raised e same
    exact ⟨_,by rw [joined]; exact failed⟩

theorem moves_batches (cdc : Extension ι) (c : Consumer) (o : BatchOptions) (fuel : Nat)
    (w : World ι) (r : Run ι) (status : r.status = .created) (here : r.around = surroundings w) :
    Moves c o r (batches cdc c o fuel) w := by
  rw [Moves, batches, ends_bind, requireOpen, ends_ite]
  constructor
  · intro opened
    rw [ends_pure, ends_bind]
    refine ends_mono (since_readClock w) ?_ ?_
    · rintro started w1 ⟨⟨reads,at1⟩,rfl⟩
      let adaptive := if c.kind = .dml then some (AdaptiveWindow.new o.maxSnapshots) else none
      have here1 : (((r.meet {}).resumed).meet reads).around = surroundings w1 := by
        rw [at1, ← here]
        simp [Run.resumed, Surroundings.meet]
      apply moves_next {} reads
        ((((r.meet {}).resumed).meet reads).become (.polling ⟨0,w1.clock,adaptive⟩)) _ rfl here1
      simp only [advance, status, start, opened, if_true, here1]
      rfl
    · intro stop _ crashed e raised
      rw [crashed] at raised
      contradiction
  · intro closed e raised
    cases raised
    refine ⟨[.next {} {}],?_⟩
    simp only [movesOf, List.foldl_cons, List.foldl_nil, advance, status, start, closed]
    rfl

theorem moves_resume (cdc : Extension ι) (c : Consumer) (o : BatchOptions) (fuel : Nat)
    (batch : Batch ι) (g : Generator) (w : World ι) (r : Run ι)
    (status : r.status = .suspended batch g) (here : r.around = surroundings w) :
    Moves c o r (resume cdc c o fuel g) w := by
  have stands : advance c o r (.next {} {}) = proceed o {} g r := by
    simp only [advance, status]
  have still : ((r.meet {}).resumed).around = surroundings w := by
    rw [← here]
    simp [Run.resumed, Surroundings.meet]
  have ended : ∀ why, proceed o {} g r = ((r.meet {}).resumed).become (.returned why) →
      ∃ moves, Gives none w (movesOf c o r moves) := by
    intro why same
    refine ⟨[.next {} {}],?_⟩
    rw [movesOf, List.foldl_cons, List.foldl_nil, stands, same]
    exact ⟨still,why,rfl⟩
  rw [Moves, resume, ends_ite, ends_ite]
  refine ⟨fun finite => ended .once (if_pos finite),fun infinite => ⟨fun enough => ?_,fun more => ?_⟩⟩
  · exact ended .enough ((if_neg infinite).trans (if_pos enough))
  · exact moves_next {} {} (((r.meet {}).resumed).become
      (.polling { g with yielded := g.yielded + 1 })) (stands.trans ((if_neg infinite).trans (if_neg more))) rfl still

end
end CdcGenerator
