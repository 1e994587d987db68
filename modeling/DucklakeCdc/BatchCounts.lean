import DucklakeCdc.BatchesGenerator
import DucklakeCdc.SinkDelivery

/-!
What a loop of `batches` listens for and hands out when nobody stops it, against the list
of the results of its listen calls; and what `run` counts.
-/
namespace CdcGenerator
open Programs CdcBatch CdcDatabase CdcRetry CdcWindow CdcLoop CdcDelivery
variable {ι : Type}

structure Tally (ι : Type) where
  asked : Nat
  heard : List (List (Row ι))
  given : List (Batch ι)

/-- The listen calls of a log, their results and the batches handed out, in their order. -/
def tally : List (Deed ι) → Tally ι
  | [] => ⟨0,[],[]⟩
  | .listens _ :: log => { tally log with asked := (tally log).asked + 1 }
  | .listened rows _ :: log => { tally log with heard := (tally log).heard ++ [rows] }
  | .yielded batch :: log => { tally log with given := (tally log).given ++ [batch] }
  | .resumed :: log => tally log
  | .checked _ :: log => tally log

structure Round (ι : Type) where
  asks : Moment := {}
  reads : Moment := {}
  turn : Turn ι

def consume (c : Consumer) (o : BatchOptions) (r : Run ι) (x : Round ι) : Run ι :=
  advance c o (advance c o r (.next x.asks x.reads)) (.turn x.turn)

def Round.rows (x : Round ι) : List (Row ι) :=
  match x.turn.outcome with
  | .ok rows => rows
  | .error _ => []

def Round.brings (x : Round ι) : Bool := !x.rows.isEmpty

def Round.batch (c : Consumer) (x : Round ι) : Option (Batch ι) :=
  buildBatch c.name x.turn.connection x.turn.wall x.rows

def Moment.Silent (m : Moment) : Prop := m.setsStop = false ∧ m.setsDrain = false

/-- The listen call returns, and neither event is set on the way. -/
structure Round.Undisturbed (x : Round ι) : Prop where
  returns : x.turn.outcome = .ok x.rows
  silent : ∀ m ∈ [x.asks, x.reads, x.turn.check, x.turn.starts, x.turn.listens, x.turn.stops,
    x.turn.again, x.turn.reads, x.turn.drains], m.Silent

/-- The rounds whose listen calls are made, after `yielded` batches. -/
def demand (o : BatchOptions) : Int → List (Round ι) → List (Round ι)
  | _, [] => []
  | yielded, x :: rest =>
    if !o.infinite then [x]
    else if x.brings then
      if o.maxBatches > 0 ∧ yielded + 1 ≥ o.maxBatches then [x]
      else x :: demand o (yielded + 1) rest
    else x :: demand o yielded rest

def Tally.round (c : Consumer) (s : Tally ι) (x : Round ι) : Tally ι :=
  ⟨s.asked + 1,s.heard ++ [x.rows],s.given ++ (x.batch c).toList⟩

theorem tally_rounds (c : Consumer) (xs : List (Round ι)) (s : Tally ι) :
    xs.foldl (Tally.round c) s = ⟨s.asked + xs.length,s.heard ++ xs.map Round.rows,
      s.given ++ xs.filterMap (Round.batch c)⟩ := by
  induction xs generalizing s with
  | nil => simp
  | cons x rest ih =>
    rw [List.foldl_cons, ih]
    cases built : x.batch c <;> simp [Tally.round, built, Nat.add_assoc, Nat.add_comm 1]

section
variable {o : BatchOptions} {x : Round ι} {rest xs : List (Round ι)} {yielded : Int}

theorem demand_initial (o : BatchOptions) (yielded : Int) (xs : List (Round ι)) :
    demand o yielded xs <+: xs := by
  induction xs generalizing yielded with
  | nil => exact List.prefix_refl []
  | cons x rest ih =>
    have one : [x] <+: x :: rest := ⟨rest,rfl⟩
    have more : ∀ n, x :: demand o n rest <+: x :: rest :=
      fun n => List.prefix_cons_inj x |>.mpr (ih n)
    rw [demand]
    split
    · exact one
    · split
      · split
        · exact one
        · exact more _
      · exact more _

theorem demand_finite (finite : o.infinite = false) (yielded : Int) (xs : List (Round ι)) :
    demand o yielded xs = xs.take 1 := by
  cases xs with
  | nil => rfl
  | cons x rest => simp [demand, finite]

theorem demand_unlimited (infinite : o.infinite = true) (unlimited : o.maxBatches ≤ 0)
    (yielded : Int) (xs : List (Round ι)) : demand o yielded xs = xs := by
  induction xs generalizing yielded with
  | nil => rfl
  | cons x rest ih =>
    have no : ¬ (o.maxBatches > 0 ∧ yielded + 1 ≥ o.maxBatches) := fun h => by omega
    simp only [demand, infinite, Bool.not_true, Bool.false_eq_true, if_false, if_neg no, ih,
      ite_self]

theorem demand_limited (infinite : o.infinite = true) (below : yielded < o.maxBatches)
    (limited : 0 < o.maxBatches) (xs : List (Round ι)) :
    ((demand o yielded xs).countP Round.brings : Int) =
        min (o.maxBatches - yielded) (xs.countP Round.brings) ∧
      ∀ before, before <+: demand o yielded xs → before ≠ demand o yielded xs →
        (before.countP Round.brings : Int) < o.maxBatches - yielded := by
  induction xs generalizing yielded with
  | nil =>
    refine ⟨by simp only [demand, List.countP_nil]; omega,?_⟩
    intro before short other
    exact absurd (List.prefix_nil.mp short) other
  | cons x rest ih =>
    have finite : ¬ (!o.infinite) = true := by simp [infinite]
    rw [demand, if_neg finite]
    cases brings : x.brings with
    | false =>
      obtain ⟨count,shorter⟩ := ih below
      rw [if_neg Bool.false_ne_true]
      refine ⟨by simpa [List.countP_cons, brings] using count,?_⟩
      intro before short other
      rcases List.prefix_cons_iff.mp short with rfl | ⟨tail,rfl,short'⟩
      · simp only [List.countP_nil]
        omega
      · have := shorter tail short' (fun same => other (by rw [same]))
        simpa [List.countP_cons, brings] using this
    | true =>
      rw [if_pos rfl]
      split
      · refine ⟨by simp only [List.countP_cons, List.countP_nil, brings, if_true]; omega,?_⟩
        intro before short other
        rcases List.prefix_cons_iff.mp short with rfl | ⟨tail,rfl,short'⟩
        · simp only [List.countP_nil]
          omega
        · exact absurd (by rw [List.prefix_nil.mp short']) other
      · rename_i more
        have below' : yielded + 1 < o.maxBatches := by omega
        obtain ⟨count,shorter⟩ := ih below'
        refine ⟨by simp only [List.countP_cons, brings, if_true, Nat.cast_add, Nat.cast_one]; omega,?_⟩
        intro before short other
        rcases List.prefix_cons_iff.mp short with rfl | ⟨tail,rfl,short'⟩
        · simp only [List.countP_nil]
          omega
        · have := shorter tail short' (fun same => other (by rw [same]))
          simp only [List.countP_cons, brings, if_true, Nat.cast_add, Nat.cast_one]
          omega

end

def Surroundings.Unset (s : Surroundings) : Prop := s.stopSet = false ∧ s.drainSet = false

theorem unset_meet {s : Surroundings} {m : Moment} (h : s.Unset) (silent : m.Silent) :
    (s.meet m).Unset := by
  simp [Surroundings.Unset, Surroundings.meet, h.1, h.2, silent.1, silent.2]

theorem unseen_of_unset {r : Run ι} (o : BatchOptions) (h : r.around.Unset) :
    r.stopSeen o = false := by
  simp [Run.stopSeen, h.1]

theorem tally_checkStop (o : BatchOptions) (r : Run ι) : tally (r.checkStop o).log = tally r.log := by
  rw [Run.checkStop]
  split <;> rfl

structure Made (c : Consumer) (o : BatchOptions) (x : Round ι) (g : Generator) (r s : Run ι) :
    Prop where
  unset : s.around.Unset
  counted : tally s.log = (tally r.log).round c x
  empty : x.rows = [] →
    if o.infinite then ∃ g', s.status = .polling g' ∧ g'.yielded = g.yielded
    else ∃ why, s.status = .returned why
  full : x.rows ≠ [] → ∃ batch g', s.status = .suspended batch g' ∧ g'.yielded = g.yielded

theorem pass_made {c : Consumer} {o : BatchOptions} {x : Round ι} {g : Generator} {r : Run ι}
    (patient : o.idleTimeout = 0) (h : r.around.Unset) (x_ : x.Undisturbed) :
    Made c o x g r (pass c o x.turn g r) := by
  have silent := x_.silent
  simp only [List.mem_cons, List.not_mem_nil, or_false, forall_eq_or_imp, forall_eq] at silent
  obtain ⟨_,_,check,starts,listens,stops,again,reads,drains⟩ := silent
  have looked_ : (looked o x.turn r).around.Unset := by
    rw [looked, checkStop_around]
    exact unset_meet h check
  have listening_ : (listening o x.turn g r).around.Unset :=
    unset_meet (unset_meet looked_ starts) listens
  have quiet_ : (quiet o x.turn g r).around.Unset := by
    rw [quiet, checkStop_around]
    exact unset_meet (unset_meet listening_ stops) again
  have rested_ : (rested o x.turn g r).around.Unset := unset_meet (unset_meet quiet_ reads) drains
  have noLimit : limitInForce o (rested o x.turn g r) = none := by
    simp [limitInForce, Run.drainSeen, rested_.2, patient]
  have looked' : tally (looked o x.turn r).log = tally r.log := tally_checkStop o _
  have heard' : ∀ rows, tally (heard o x.turn g r rows).log =
      ⟨(tally r.log).asked + 1,(tally r.log).heard ++ [rows],(tally r.log).given⟩ := by
    intro rows
    rw [← looked']
    rfl
  have quiet' : x.rows = [] → tally (quiet o x.turn g r).log = (tally r.log).round c x := by
    intro nothing
    have none_ : x.batch c = none := by simp [Round.batch, nothing, buildBatch]
    rw [Tally.round, nothing, none_, Option.toList_none, List.append_nil, ← heard' []]
    exact tally_checkStop o _
  have came := passes c o x.turn g r
  generalize pass c o x.turn g r = s at came
  cases came with
  | stopped seen =>
    rw [unseen_of_unset o looked_] at seen
    contradiction
  | abandoned _ _ seen =>
    rw [unseen_of_unset o quiet_] at seen
    contradiction
  | failed e _ outcome =>
    rw [x_.returns] at outcome
    contradiction
  | idle limit _ _ _ _ force _ =>
    rw [noLimit] at force
    contradiction
  | once _ outcome _ finite =>
    have nothing : x.rows = [] := Except.ok.inj (x_.returns.symm.trans outcome)
    refine ⟨quiet_,quiet' nothing,fun _ => ?_,fun some_ => absurd nothing some_⟩
    rw [finite]
    exact ⟨.once,rfl⟩
  | again _ outcome _ infinite _ =>
    have nothing : x.rows = [] := Except.ok.inj (x_.returns.symm.trans outcome)
    refine ⟨rested_,quiet' nothing,fun _ => ?_,fun some_ => absurd nothing some_⟩
    rw [infinite]
    exact ⟨g.observeEmpty,rfl,rfl⟩
  | yielded rows batch elapsedMs _ outcome some_ built _ =>
    obtain rfl : x.rows = rows := Except.ok.inj (x_.returns.symm.trans outcome)
    have one : x.batch c = some batch := built
    refine ⟨unset_meet (unset_meet listening_ stops) reads,?_,fun nothing => absurd nothing some_,
      fun _ => ⟨batch,_,rfl,rfl⟩⟩
    rw [Tally.round, one]
    simp only [become_log, note_log, meet_log, tally, heard', Option.toList_some]

def Ready (o : BatchOptions) (yielded : Int) (r : Run ι) : Prop :=
  (r.status = .created ∧ yielded = 0) ∨ (∃ g, r.status = .polling g ∧ g.yielded = yielded) ∨
    ∃ batch g, r.status = .suspended batch g ∧ g.yielded + 1 = yielded ∧ o.infinite = true ∧
      ¬ (o.maxBatches > 0 ∧ yielded ≥ o.maxBatches)

def Finished (o : BatchOptions) (r : Run ι) : Prop :=
  (∃ why, r.status = .returned why) ∨ ∃ batch g, r.status = .suspended batch g ∧
    (o.infinite = false ∨ (o.maxBatches > 0 ∧ g.yielded + 1 ≥ o.maxBatches))

section
variable {c : Consumer} {o : BatchOptions} {r : Run ι} {x : Round ι} {yielded : Int}

theorem next_ready (opened : c.opened = true) (h : r.around.Unset) (x_ : x.Undisturbed)
    (ready : Ready o yielded r) :
    ∃ g, (advance c o r (.next x.asks x.reads)).status = .polling g ∧ g.yielded = yielded ∧
      (advance c o r (.next x.asks x.reads)).around.Unset ∧
      tally (advance c o r (.next x.asks x.reads)).log = tally r.log := by
  have asks : x.asks.Silent := x_.silent _ (by simp)
  have reads : x.reads.Silent := x_.silent _ (by simp)
  rcases ready with ⟨status,rfl⟩ | ⟨g,status,rfl⟩ | ⟨batch,g,status,rfl,infinite,more⟩
  · simp only [advance, status, start, opened, if_true]
    exact ⟨_,rfl,rfl,unset_meet (unset_meet h asks) reads,rfl⟩
  · simp only [advance, status]
    exact ⟨g,rfl,rfl,h,trivial⟩
  · have finite : ¬ (!o.infinite) = true := by simp [infinite]
    simp only [advance, status, proceed, if_neg finite, if_neg more]
    exact ⟨_,rfl,rfl,unset_meet h asks,rfl⟩

theorem consume_finished (h : Finished o r) :
    Finished o (consume c o r x) ∧ tally (consume c o r x).log = tally r.log := by
  rcases h with ⟨why,status⟩ | ⟨batch,g,status,last⟩
  · simp only [consume, advance, status]
    exact ⟨Or.inl ⟨why,status⟩,trivial⟩
  · by_cases finite : (!o.infinite) = true
    · simp only [consume, advance, status, proceed, if_pos finite, become_status]
      exact ⟨Or.inl ⟨.once,rfl⟩,rfl⟩
    · have enough : o.maxBatches > 0 ∧ g.yielded + 1 ≥ o.maxBatches :=
        last.resolve_left (by simpa using finite)
      simp only [consume, advance, status, proceed, if_neg finite, if_pos enough, become_status]
      exact ⟨Or.inl ⟨.enough,rfl⟩,rfl⟩

theorem consumed_finished (h : Finished o r) (xs : List (Round ι)) :
    tally (xs.foldl (consume c o) r).log = tally r.log := by
  induction xs generalizing r with
  | nil => rfl
  | cons x rest ih =>
    obtain ⟨finished,same⟩ := consume_finished (c := c) (x := x) h
    exact (ih finished).trans same

theorem consumed_ready (opened : c.opened = true) (patient : o.idleTimeout = 0)
    (xs : List (Round ι)) (undisturbed : ∀ x ∈ xs, x.Undisturbed) (h : r.around.Unset)
    (ready : Ready o yielded r) :
    tally (xs.foldl (consume c o) r).log = (demand o yielded xs).foldl (Tally.round c) (tally r.log) := by
  induction xs generalizing r yielded with
  | nil => rfl
  | cons x rest ih =>
    obtain ⟨x_,rest_⟩ := List.forall_mem_cons.mp undisturbed
    obtain ⟨g,status,same,unset,still⟩ := next_ready opened h x_ ready
    have made := pass_made (c := c) (g := g) patient unset x_
    have came : consume c o r x = pass c o x.turn g (advance c o r (.next x.asks x.reads)) :=
      advance_turn status x.turn
    rw [← came] at made
    have counted := made.counted
    rw [still] at counted
    -- the rest of the run, by what the generator will do after this round
    have done : Finished o (consume c o r x) →
        tally (rest.foldl (consume c o) (consume c o r x)).log = (tally r.log).round c x :=
      fun finished => (consumed_finished finished rest).trans counted
    have more : ∀ n, Ready o n (consume c o r x) →
        tally (rest.foldl (consume c o) (consume c o r x)).log =
          (demand o n rest).foldl (Tally.round c) ((tally r.log).round c x) :=
      fun n next => (ih rest_ made.unset next).trans (by rw [counted])
    rw [List.foldl_cons, demand]
    by_cases nothing : x.rows = []
    · have brings : x.brings = false := by simp [Round.brings, nothing]
      have left := made.empty nothing
      cases infinite : o.infinite with
      | false =>
        rw [infinite] at left
        exact done (Or.inl left)
      | true =>
        rw [infinite] at left
        obtain ⟨g',status',same'⟩ := left
        simp only [Bool.not_true, Bool.false_eq_true, if_false, brings]
        exact more yielded (Or.inr (Or.inl ⟨g',status',same'.trans same⟩))
    · have brings : x.brings = true := by simpa [Round.brings] using nothing
      obtain ⟨batch,g',status',same'⟩ := made.full nothing
      cases infinite : o.infinite with
      | false => exact done (Or.inr ⟨batch,g',status',Or.inl infinite⟩)
      | true =>
        simp only [Bool.not_true, Bool.false_eq_true, if_false, brings, if_true]
        split
        · rename_i enough
          exact done (Or.inr ⟨batch,g',status',Or.inr (by rw [same', same]; exact enough)⟩)
        · rename_i more_
          refine more _ (Or.inr (Or.inr ⟨batch,g',status',?_,infinite,more_⟩))
          rw [same', same]

end
def goesOn (sink : Sink) : Option Exc → Bool
  | none => true
  | some e => !sink.required && e.isException

def completes (c : Consumer) (i : Nat) (raised : Option Exc) : Bool :=
  decide (i + 1 = c.sinks.length) && c.sinks.getLast?.any (goesOn · raised)

/-- The batches that have been through every sink, and those whose commit has returned. -/
def delivered (c : Consumer) (trace : List (Event ι)) : List (Batch ι) :=
  trace.filterMap fun
    | .wrote i b raised => if completes c i raised then some b else none
    | _ => none

def committed (trace : List (Event ι)) : List (Batch ι) :=
  trace.filterMap fun
    | .commitCalled b _ none => some b
    | _ => none

structure Books (c : Consumer) (ds cs : List (Batch ι)) (w : World ι) : Prop where
  delivered : delivered c w.trace = ds
  committed : committed w.trace = cs

section
variable {c : Consumer} {ds cs : List (Batch ι)} {w : World ι}

theorem books_record (event : Event ι) (h : Books c ds cs w) :
    Books c (ds ++ delivered c [event]) (cs ++ committed [event]) (w.record event) where
  delivered := by rw [← h.delivered]; exact List.filterMap_append
  committed := by rw [← h.committed]; exact List.filterMap_append

theorem books_silent (event : Event ι) (h : Books c ds cs w) (undelivered : delivered c [event] = [])
    (uncommitted : committed [event] = []) : Books c ds cs (w.record event) := by
  have recorded := books_record event h
  rwa [undelivered, uncommitted, List.append_nil, List.append_nil] at recorded

theorem ambient_books : Ambient (ι := ι) (Books c ds cs) := by
  apply ambient_of
  · intro w items h
    have landed : Books c ds cs (w.record (.landed (w.log.newest + 1) items)) :=
      books_silent _ h rfl rfl
    exact ⟨landed.delivered,landed.committed⟩
  · exact fun w _ _ _ _ _ h => ⟨h.delivered,h.committed⟩

theorem ends_writeSink (i : Nat) (b : Batch ι) (h : Books c ds cs w) :
    Ends (writeSink i b) w (fun _ => Books c (ds ++ delivered c [.wrote i b none]) cs)
      (fun stop u => ∀ e, stop = .raised e →
        Books c (ds ++ delivered c [.wrote i b (some e)]) cs u) := by
  have wrote : ∀ u raised, Books c ds cs u →
      Books c (ds ++ delivered c [.wrote i b raised]) cs (u.record (.wrote i b raised)) := by
    intro u raised hu
    have uncommitted : committed [Event.wrote i b raised] = [] := rfl
    have recorded := books_record (.wrote i b raised) hu
    rwa [uncommitted, List.append_nil] at recorded
  rw [writeSink, ends_bind]
  apply ends_step (fun _ _ no => by cases no)
  intro act rest script
  have met := wrote _ act.raises (ambient_books.meet w rest act script h)
  rw [ends_bind, ends_modify]
  cases raises : act.raises with
  | none =>
    rw [raises] at met
    exact met
  | some e =>
    rw [raises] at met
    intro e' same
    cases same
    exact met

theorem ends_deliverFrom (b : Batch ι) (before sinks : List Sink) (all : c.sinks = before ++ sinks)
    (h : Books c ds cs w) :
    Ends (deliverFrom b before.length sinks) w
      (fun _ => Books c (if sinks = [] then ds else ds ++ [b]) cs) (fun _ _ => True) := by
  induction sinks generalizing before ds w with
  | nil => exact h
  | cons sink rest ih =>
    have last : ∀ raised, goesOn sink raised = true →
        ds ++ delivered c [.wrote before.length b raised] = if rest = [] then ds ++ [b] else ds := by
      intro raised goes
      cases rest with
      | nil => simp [delivered, completes, all, goes]
      | cons next later => simp [delivered, completes, all]
    have later : ∀ u raised, goesOn sink raised = true →
        Books c (ds ++ delivered c [.wrote before.length b raised]) cs u →
        Ends (deliverFrom b (before.length + 1) rest) u
          (fun _ => Books c (if sink :: rest = [] then ds else ds ++ [b]) cs) (fun _ _ => True) := by
      intro u raised goes hu
      rw [last raised goes] at hu
      have next := ih (before ++ [sink]) (by simp [all]) hu
      rw [List.length_append, List.length_singleton] at next
      refine ends_mono next ?_ (fun _ _ h => h)
      intro _ v hv
      rw [if_neg (List.cons_ne_nil _ _)]
      by_cases ended : rest = []
      · simpa only [if_pos ended] using hv
      · simpa only [if_neg ended] using hv
    rw [deliverFrom, ends_bind, ends_tryExcept]
    refine ends_mono (ends_writeSink before.length b h) (fun _ u hu => later u none rfl hu) ?_
    intro stop u hu
    split
    · rename_i caught
      rw [ends_ite]
      refine ⟨fun _ => trivial,fun optional => ?_⟩
      cases stop with
      | crashed => cases caught
      | raised e =>
        have goes : goesOn sink (some e) = true := by
          have isException : e.isException = true := caught
          simp [goesOn, isException, optional]
        exact later u (some e) goes (hu e rfl)
    · trivial

theorem books_answered (b : Batch ι) (reply : Reply) (h : Books c ds cs w) :
    Books c ds (cs ++ if (w.db.answer (.cdcCommit b.endSnapshot) reply).1 = none then [b] else [])
      (World.commitAnswered w b reply) := by
  let db := (w.db.answer (.cdcCommit b.endSnapshot) reply).2
  have moved : Books c ds cs { w with db := db } := ⟨h.delivered,h.committed⟩
  have recorded := books_record (.commitCalled b (db.visible != w.db.visible)
    (w.db.answer (.cdcCommit b.endSnapshot) reply).1) moved
  refine ⟨?_,?_⟩
  · exact recorded.delivered.trans (List.append_nil ds)
  · refine recorded.committed.trans ?_
    cases (w.db.answer (.cdcCommit b.endSnapshot) reply).1 <;> simp [committed]

theorem ends_commit (b : Batch ι) (h : Books c ds cs w) :
    Ends (commit c b) w (fun _ => Books c ds (cs ++ [b])) (fun _ => Books c ds cs) := by
  apply ends_policy c.retryPolicy _ (ends_sleep ambient_books) w h
  intro u hu
  rw [commitOp, ends_bind]
  apply ends_step (fun _ => hu)
  intro act rest script
  have entered := books_answered b act.toReply (ambient_books.meet u rest act script hu)
  rw [ends_bind, ends_get, ends_bind, ends_set]
  cases raised : (({ u with script := rest }.meet act).db.answer (.cdcCommit b.endSnapshot)
    act.toReply).1 with
  | none =>
    rw [raised, if_pos rfl] at entered
    exact entered
  | some e =>
    rw [raised, if_neg (by simp), List.append_nil] at entered
    exact entered

theorem ends_run_books (cdc : Extension ι) (c : Consumer) (o : BatchOptions) (fuel : Nat)
    (h : Books c ds cs w) :
    Ends (run cdc c o fuel) w
      (fun n u => ∃ handled, n = (handled.length : Int) ∧ Books c (ds ++ handled) (cs ++ handled) u)
      (fun _ _ => True) := by
  let Kept (n : Int) (u : World ι) : Prop :=
    ∃ handled, n = (handled.length : Int) ∧ Books c (ds ++ handled) (cs ++ handled) u
  have ambient : ∀ n, Ambient (Kept n) := by
    intro n
    refine ⟨?_,?_⟩
    · rintro u rest act script ⟨handled,same,books⟩
      exact ⟨handled,same,ambient_books.meet u rest act script books⟩
    · rintro u t ⟨handled,same,books⟩
      exact ⟨handled,same,ambient_books.clock u t books⟩
  have listened : ∀ (n : Int) (u : World ι) k wish, Kept n u →
      Kept n (u.record (.listened (nextRows cdc u k wish))) := by
    rintro n u k wish ⟨handled,same,books⟩
    exact ⟨handled,same,books_silent _ books rfl rfl⟩
  rw [run, ends_bind]
  refine ends_mono (keeps_requireOpen c w h) ?_ (fun _ _ _ => trivial)
  intro _ u hu
  rw [ends_ite]
  refine ⟨fun _ => trivial,fun sinks => ?_⟩
  have some_ : c.sinks ≠ [] := fun none_ => sinks (List.isEmpty_iff.mpr none_)
  rw [ends_bind, ends_modify]
  refine ends_forBatches_acc (fun _ _ => True)
    (fun n => polling_of_offers (ambient n) (fun _ => ambient n) (listened n)
      (fun v k wish _ _ hv _ => listened n v k wish hv)) (fun _ _ _ _ => trivial) ?_ fuel 0 _ ?_
  · rintro n b v ⟨handled,rfl,books⟩ _
    rw [ends_bind]
    refine ends_mono (ends_deliverFrom b [] c.sinks rfl books) ?_ (fun _ _ _ => trivial)
    intro _ x hx
    rw [if_neg some_] at hx
    rw [ends_bind]
    refine ends_mono (ends_commit b hx) ?_ (fun _ _ _ => trivial)
    intro _ y hy
    refine ⟨handled ++ [b],by simp,?_⟩
    rwa [← List.append_assoc, ← List.append_assoc]
  · exact ⟨[],rfl,by simpa using books_silent .started hu rfl rfl⟩

end

theorem batch_isSome (c : Consumer) (x : Round ι) : (x.batch c).isSome = x.brings := by
  by_cases nothing : x.rows = []
  · simp [Round.batch, Round.brings, nothing, buildBatch]
  · obtain ⟨batch,built⟩ := build_ne_none c.name x.turn.connection x.turn.wall nothing
    have brings : x.brings = true := by simpa [Round.brings] using nothing
    rw [Round.batch, built, brings]
    rfl

theorem batches_length (c : Consumer) (xs : List (Round ι)) :
    (xs.filterMap (Round.batch c)).length = xs.countP Round.brings := by
  rw [List.length_filterMap_eq_countP]
  exact congrArg (fun p => xs.countP p) (funext fun x => batch_isSome c x)

/-- Nobody stops the loop: it hands out the batches of the results of its listen calls, in
    order, makes one call if it is finite, all of them if there is no limit, and none after
    the batch that reaches the limit. `run` returns the number of the batches that it has
    delivered and committed. -/
theorem batches_exactly (c : Consumer) (o : BatchOptions) (opened : c.opened = true)
    (patient : o.idleTimeout = 0) :
    (∀ (s : Surroundings) (rounds : List (Round ι)), s.Unset → (∀ x ∈ rounds, x.Undisturbed) →
      ∃ made : List (Round ι),
        tally (rounds.foldl (consume c o) { around := s }).log =
          ⟨made.length,made.map Round.rows,made.filterMap (Round.batch c)⟩ ∧
        made <+: rounds ∧
        (∀ x ∈ made, (x.batch c).isSome = x.brings) ∧
        (o.infinite = false → made = rounds.take 1) ∧
        (o.infinite = true → o.maxBatches ≤ 0 → made = rounds) ∧
        (o.infinite = true → 0 < o.maxBatches →
          ((made.filterMap (Round.batch c)).length : Int) =
              min o.maxBatches (rounds.countP Round.brings) ∧
            ∀ before, before <+: made → before ≠ made →
              ((before.filterMap (Round.batch c)).length : Int) < o.maxBatches)) ∧
    ∀ (cdc : Extension ι) (fuel : Nat) (w : World ι),
      Ends (run cdc c o fuel) w
        (fun n u => ∃ handled, n = (handled.length : Int) ∧
          delivered c u.trace = delivered c w.trace ++ handled ∧
          committed u.trace = committed w.trace ++ handled)
        (fun _ _ => True) := by
  refine ⟨?_,?_⟩
  · intro s rounds unset undisturbed
    refine ⟨demand o 0 rounds,?_,demand_initial o 0 rounds,fun x _ => batch_isSome c x,
      fun finite => demand_finite finite 0 rounds,
      fun infinite unlimited => demand_unlimited infinite unlimited 0 rounds,?_⟩
    · have ready : Ready (ι := ι) o 0 { around := s } := Or.inl ⟨rfl,rfl⟩
      rw [consumed_ready opened patient rounds undisturbed unset ready, tally_rounds]
      simp [tally]
    · intro infinite limited
      simpa [batches_length] using demand_limited infinite limited limited rounds
  · intro cdc fuel w
    refine ends_mono (ends_run_books cdc c o fuel ⟨rfl,rfl⟩) ?_ (fun _ _ h => h)
    rintro n u ⟨handled,same,books⟩
    exact ⟨handled,same,books.delivered,books.committed⟩

/-- Nothing, a row, and a row more than the limit of one batch asks for. -/
def threeRounds : List (Round Unit) :=
  [{ turn := { outcome := .ok [] } },{ turn := { outcome := .ok [⟨some 1,some 1,1,()⟩] } },
    { turn := { outcome := .ok [⟨some 2,some 2,2,()⟩] } }]

theorem threeRounds_undisturbed : ∀ x ∈ threeRounds, x.Undisturbed := by
  intro x member
  have silent : ∀ m : Moment, m = {} → m.Silent := by
    rintro m rfl
    exact ⟨rfl,rfl⟩
  simp only [threeRounds, List.mem_cons, List.not_mem_nil, or_false] at member
  rcases member with rfl | rfl | rfl <;>
    exact ⟨rfl,fun m h => silent m (by simpa using h)⟩

theorem one_batch_of_three : ∃ made : List (Round Unit),
    (tally (threeRounds.foldl (consume .orders { maxBatches := 1 }) {}).log).asked = made.length ∧
      made <+: threeRounds ∧ ((made.filterMap (Round.batch .orders)).length : Int) = 1 := by
  obtain ⟨made,counted,before,_,_,_,limited⟩ :=
    (batches_exactly .orders { maxBatches := 1 } rfl rfl).1 {} threeRounds ⟨rfl,rfl⟩
      threeRounds_undisturbed
  exact ⟨made,congrArg Tally.asked counted,before,(limited rfl (by decide)).1⟩

end CdcGenerator
