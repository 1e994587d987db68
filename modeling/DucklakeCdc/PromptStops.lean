import DucklakeCdc.Budgets
import DucklakeCdc.SinkDelivery

/-!
How soon `run` ends once its `stop_event` is set: the loop looks at the event before each
listen and after an empty one, so what may still come is at most one listen with its
retries, the delivery of the batch it brings and the commit with its retries.
-/
namespace CdcDelivery
open Programs CdcBatch CdcDatabase CdcRetry CdcLoop
variable {ι : Type}

def calls : RetryPolicy → Nat
  | .retryOnTransient maxAttempts _ => maxAttempts.toNat
  | .noRetry => 1

def handling (c : Consumer) : Nat := c.sinks.length + calls c.retryPolicy

/-- The steps left when the event is set right after a check: the listen, the clock twice,
    the batch and the next check. -/
def stopSteps (c : Consumer) (retry : Option RetryPolicy) : Nat :=
  calls (c.effectiveRetry retry) + handling c + 3

/-- The event is set by a step with at least `behind` others after it. Once it is set, no more
    than `most` of those are taken, and `left` are still allowed. -/
structure Allowed (most behind left : Nat) (w : World ι) : Prop where
  within : left ≤ most
  spent : w.stopSet = true → behind + left ≤ w.script.length + most
  awaited : w.stopSet = false → ∃ before act after, w.script = before ++ act :: after ∧
    act.setsStop = true ∧ behind ≤ after.length

section
variable {most behind left less : Nat} {w : World ι}

theorem allowed_le (h : Allowed most behind left w) (fewer : less ≤ left) :
    Allowed most behind less w where
  within := fewer.trans h.within
  spent set_ := (Nat.add_le_add_left fewer behind).trans (h.spent set_)
  awaited := h.awaited

theorem allowed_meet {act : Act ι} {rest : List (Act ι)} (h : Allowed most behind left w)
    (script : w.script = act :: rest) (within : less ≤ most)
    (paid : w.stopSet = true → less + 1 ≤ left) :
    Allowed most behind less ({ w with script := rest }.meet act) := by
  refine ⟨within,?_,?_⟩
  · intro _
    rw [meet_script]
    show behind + less ≤ rest.length + most
    cases set_ : w.stopSet with
    | true =>
      have spent := h.spent set_
      have enough := paid set_
      rw [script, List.length_cons] at spent
      omega
    | false =>
      obtain ⟨before,stop,after,split,_,long⟩ := h.awaited set_
      rw [script] at split
      have lengths := congrArg List.length split
      rw [List.length_cons, List.length_append, List.length_cons] at lengths
      omega
  · intro unset
    have unset' : (w.stopSet || act.setsStop) = false := unset
    rw [Bool.or_eq_false_iff] at unset'
    obtain ⟨before,stop,after,split,sets,long⟩ := h.awaited unset'.1
    rw [meet_script]
    rw [script] at split
    cases before with
    | nil =>
      obtain ⟨rfl,rfl⟩ := List.cons.inj split
      rw [unset'.2] at sets
      contradiction
    | cons first before =>
      obtain ⟨rfl,rfl⟩ := List.cons.inj split
      exact ⟨before,stop,after,rfl,sets,long⟩

theorem allowed_record (event : Event ι) (h : Allowed most behind left w) :
    Allowed most behind left (w.record event) :=
  ⟨h.within,h.spent,h.awaited⟩

end

def allowance (most behind : Nat) : Allowance (World ι) where
  left := Allowed most behind
  less fewer h := allowed_le h fewer

section
variable {most behind : Nat} {w : World ι}

theorem costs_step : Costs (allowance most behind) 1 (step : Client ι (Act ι)) := by
  intro n w h
  apply ends_step
  · intro ended
    refine ⟨Nat.le_of_succ_le h.within,fun set_ => ?_,h.awaited⟩
    have spent := h.spent set_
    omega
  · exact fun act rest script =>
      allowed_meet h script (Nat.le_of_succ_le h.within) fun _ => Nat.le_refl _

theorem costs_readClock : Costs (allowance most behind) 1 (readClock : Client ι ℚ) :=
  costs_bind_free costs_step fun _ _ _ h => h

theorem ends_readClock_unset {left : Nat} (h : Allowed most behind left w) (unset : w.stopSet = false) :
    Ends readClock w (fun _ => Allowed most behind most) (fun _ => Allowed most behind 0) := by
  rw [readClock, ends_bind]
  apply ends_step
  · exact fun _ => allowed_le h (Nat.zero_le left)
  · exact fun act rest script => allowed_meet h script (Nat.le_refl most) fun set_ => by
      rw [unset] at set_
      contradiction

theorem costs_sleep (d : ℚ) : Costs (allowance most behind) 0 (sleep d : Client ι Unit) :=
  fun _ _ h => ⟨h.within,h.spent,h.awaited⟩

theorem costs_drainRequested (o : BatchOptions) :
    Costs (allowance most behind) 1 (drainRequested o : Client ι Bool) :=
  costs_ite (costs_bind_free costs_step fun _ _ _ h => h) (costs_mono (costs_pure false) (Nat.zero_le 1))

theorem costs_listenOp (cdc : Extension ι) (k : Int) :
    Costs (allowance most behind) 1 (listenOp cdc k) := by
  refine costs_bind_free costs_step ?_
  intro act n w h
  cases act.raises with
  | some e => exact h
  | none => exact allowed_record _ h

theorem costs_writeSink (i : Nat) (b : Batch ι) :
    Costs (allowance most behind) 1 (writeSink i b) := by
  refine costs_bind_free costs_step ?_
  intro act n w h
  rw [ends_bind, ends_modify]
  cases act.raises with
  | some e => exact allowed_record _ h
  | none => exact allowed_record _ h

theorem costs_deliverFrom (b : Batch ι) (sinks : List Sink) (i : Nat) :
    Costs (allowance most behind) sinks.length (deliverFrom b i sinks) := by
  induction sinks generalizing i with
  | nil => exact costs_pure ()
  | cons sink rest ih =>
    rw [List.length_cons, Nat.add_comm]
    refine costs_bind (costs_tryExcept (l := 0) (costs_writeSink i b) ?_) fun _ => ih (i + 1)
    exact fun e => costs_ite (costs_throw e) (costs_pure ())

theorem costs_commitOp (b : Batch ι) : Costs (allowance most behind) 1 (commitOp b) := by
  refine costs_bind_free costs_step ?_
  intro act n w h
  have answered : Allowed most behind n (World.commitAnswered w b act.toReply) :=
    ⟨h.within,h.spent,h.awaited⟩
  rw [ends_bind, ends_get, ends_bind, ends_set]
  cases (w.db.answer (.cdcCommit b.endSnapshot) act.toReply).1 <;> exact answered

end

section
variable {ε σ α : Type} [Failure ε] {A : Allowance σ} {k : Nat} {operation : EStateM ε σ α}

theorem costs_attempts {sleep : EStateM ε σ Unit} (op : Costs A k operation)
    (rest : Costs A 0 sleep) (n : Nat) : Costs A ((n + 1) * k) (attempts sleep operation n) := by
  induction n with
  | zero => exact costs_mono op (by omega)
  | succ left ih =>
    rw [attempts]
    refine costs_mono (costs_tryExcept op fun _ => costs_bind rest fun _ => ih) ?_
    rw [Nat.succ_mul (left + 1)]
    omega

theorem costs_policy {sleep : ℚ → EStateM ε σ Unit} (policy : RetryPolicy)
    (op : Costs A k operation) (rest : ∀ d, Costs A 0 (sleep d)) :
    Costs A (calls policy * k) (policy.run sleep operation) := by
  cases policy with
  | noRetry => exact costs_mono op (by rw [calls]; omega)
  | retryOnTransient maxAttempts baseSleep =>
    rw [RetryPolicy.run, retryOnTransient, calls]
    split
    · exact costs_mono (costs_throw _) (Nat.zero_le _)
    · have calls_ : (maxAttempts - 1).toNat + 1 = maxAttempts.toNat := by omega
      rw [← calls_]
      exact costs_attempts op (rest baseSleep) _

end

section
variable {behind left : Nat} {w : World ι} {cdc : Extension ι} {c : Consumer} {o : BatchOptions}

theorem ends_stopRequested_allowed {most : Nat} (given : o.stopEvent = true)
    (h : Allowed most behind (left + 1) w) :
    Ends (stopRequested o) w (fun stop u => stop = u.stopSet ∧ Allowed most behind left u)
      (fun _ => Allowed most behind left) := by
  rw [stopRequested, if_pos given, ends_bind]
  exact ends_mono (costs_step left w h) (fun _ _ hu => ⟨rfl,hu⟩) (fun _ _ hu => hu)

/-- From the check of the event on, a poll leaves enough for the batch that it gives, and the
    next check. -/
theorem ends_poll_allowed (given : o.stopEvent = true) (fuel : Nat) (g : Generator)
    (h : Allowed (stopSteps c o.retry) behind 1 w) :
    Ends (poll cdc c o fuel g) w
      (fun given => Allowed (stopSteps c o.retry) behind
        (if given.isSome then handling c + 1 else 0))
      (fun _ => Allowed (stopSteps c o.retry) behind 0) := by
  have none_left : ∀ {n : Nat} {u : World ι}, Allowed (stopSteps c o.retry) behind n u →
      Allowed (stopSteps c o.retry) behind 0 u := fun h => allowed_le h (Nat.zero_le _)
  have most : stopSteps c o.retry = calls (c.effectiveRetry o.retry) + handling c + 3 := rfl
  induction fuel generalizing g w with
  | zero => exact none_left h
  | succ fuel ih =>
    rw [poll, ends_bind]
    refine ends_mono (ends_stopRequested_allowed given h) ?_ (fun _ _ hu => hu)
    rintro stop w ⟨seen,h⟩
    rw [ends_ite]
    refine ⟨fun _ => h,fun unset => ?_⟩
    have unset' : w.stopSet = false := by
      rw [← seen]
      simpa using unset
    rw [ends_bind]
    refine ends_mono (ends_readClock_unset h unset') ?_ (fun _ _ hu => hu)
    intro listenStarted w h
    have whole : Allowed (stopSteps c o.retry) behind
        (handling c + 3 + calls (c.effectiveRetry o.retry) * 1) w := allowed_le h (by rw [most]; omega)
    rw [ends_bind]
    refine ends_mono (costs_policy _ (costs_listenOp cdc _) costs_sleep _ w whole) ?_
      (fun _ _ hu => none_left hu)
    intro rows w h
    rw [ends_bind]
    refine ends_mono (costs_readClock (handling c + 2) w h) ?_ (fun _ _ hu => none_left hu)
    intro listenEnded w h
    rw [ends_ite]
    constructor
    · intro _
      rw [ends_bind]
      refine ends_mono (ends_stopRequested_allowed given h) ?_ (fun _ _ hu => none_left hu)
      rintro stop w ⟨seen,h⟩
      rw [ends_ite]
      refine ⟨fun _ => none_left h,fun unset => ?_⟩
      have unset' : w.stopSet = false := by
        rw [← seen]
        simpa using unset
      rw [ends_ite]
      refine ⟨fun _ => none_left h,fun _ => ?_⟩
      rw [ends_bind]
      refine ends_mono (ends_readClock_unset h unset') ?_ (fun _ _ hu => hu)
      intro now w h
      have next : Allowed (stopSteps c o.retry) behind (1 + 1) w := allowed_le h (by rw [most]; omega)
      rw [ends_bind]
      refine ends_mono (costs_drainRequested o 1 w next) ?_ (fun _ _ hu => none_left hu)
      intro drain w h
      have returned := none_left h
      rw [ends_ite, ends_ite, ends_ite]
      exact ⟨fun _ => ⟨fun _ => returned,fun _ => ih _ h⟩,
        fun _ => ⟨fun _ => returned,fun _ => ih _ h⟩⟩
    · intro _
      rw [ends_bind]
      refine ends_mono (costs_readClock (handling c + 1) w h) ?_ (fun _ _ hu => none_left hu)
      intro lastActivity w h
      rw [ends_bind, buildRows, ends_bind, ends_get]
      cases buildBatch c.name (some w.db.live) w.wall rows with
      | none => exact none_left h
      | some batch => exact h

theorem costs_handled {most : Nat} (acc : Int) (b : Batch ι) :
    Costs (allowance most behind) (handling c) (do
      deliver c b
      commit c b
      pure (acc + 1)) := by
  refine costs_bind (costs_deliverFrom b c.sinks 0) fun _ => costs_bind_free ?_ fun _ => costs_pure _
  exact costs_mono (costs_policy c.retryPolicy (costs_commitOp b) costs_sleep)
    (Nat.mul_one _).le

theorem ends_forRest_allowed (given : o.stopEvent = true) (fuel : Nat)
    (now : Option (Batch ι × Generator)) (acc : Int)
    (h : Allowed (stopSteps c o.retry) behind (if now.isSome then handling c + 1 else 0) w) :
    Ends (forRest cdc c o (fun delivered batch => do
        deliver c batch
        commit c batch
        pure (delivered + 1)) fuel now acc) w
      (fun _ => Allowed (stopSteps c o.retry) behind 0)
      (fun _ => Allowed (stopSteps c o.retry) behind 0) := by
  have none_left : ∀ {n : Nat} {u : World ι}, Allowed (stopSteps c o.retry) behind n u →
      Allowed (stopSteps c o.retry) behind 0 u := fun h => allowed_le h (Nat.zero_le _)
  induction fuel generalizing now acc w with
  | zero =>
    cases now with
    | none => exact h
    | some _ => exact none_left h
  | succ fuel ih =>
    cases now with
    | none => exact h
    | some now =>
      obtain ⟨batch,g⟩ := now
      have enough : Allowed (stopSteps c o.retry) behind (1 + handling c) w :=
        allowed_le h (Nat.add_comm _ _).le
      rw [forRest, ends_bind]
      refine ends_mono (costs_handled acc batch 1 w enough) ?_ (fun _ _ hu => none_left hu)
      intro acc' u h
      rw [ends_bind, resume, ends_ite, ends_ite]
      have over_ : Ends (forRest cdc c o (fun delivered batch => do
          deliver c batch
          commit c batch
          pure (delivered + 1)) fuel none acc') u
          (fun _ => Allowed (stopSteps c o.retry) behind 0)
          (fun _ => Allowed (stopSteps c o.retry) behind 0) := ih none acc' (none_left h)
      refine ⟨fun _ => over_,fun _ => ⟨fun _ => over_,fun _ => ?_⟩⟩
      exact ends_mono (ends_poll_allowed given fuel _ h) (fun now v hv => ih now acc' hv)
        (fun _ _ hv => hv)

theorem ends_forBatches_allowed (given : o.stopEvent = true) (fuel : Nat)
    (h : Allowed (stopSteps c o.retry) behind 2 w) :
    Ends (forBatches cdc c o (fun delivered batch => do
        deliver c batch
        commit c batch
        pure (delivered + 1 : Int)) fuel 0) w
      (fun _ => Allowed (stopSteps c o.retry) behind 0)
      (fun _ => Allowed (stopSteps c o.retry) behind 0) := by
  rw [forBatches, ends_bind, batches, ends_bind, requireOpen, ends_ite]
  refine ⟨fun _ => ?_,fun _ => allowed_le h (Nat.zero_le 2)⟩
  rw [ends_pure, ends_bind]
  refine ends_mono (costs_readClock 1 w h) ?_ (fun _ _ hu => allowed_le hu (Nat.zero_le 1))
  intro started u hu
  exact ends_mono (ends_poll_allowed given fuel _ hu)
    (fun now v hv => ends_forRest_allowed given fuel now 0 hv) (fun _ _ hv => hv)

theorem ends_run_allowed (given : o.stopEvent = true) (fuel : Nat)
    (h : Allowed (stopSteps c o.retry) behind 2 w) :
    Ends (run cdc c o fuel) w (fun _ => Allowed (stopSteps c o.retry) behind 0)
      (fun _ => Allowed (stopSteps c o.retry) behind 0) := by
  have nothing := allowed_le h (Nat.zero_le 2)
  rw [run, ends_bind, requireOpen, ends_ite]
  refine ⟨fun _ => ?_,fun _ => nothing⟩
  rw [ends_pure, ends_ite]
  refine ⟨fun _ => nothing,fun _ => ?_⟩
  rw [ends_bind, ends_modify]
  let polite : BatchOptions := { o with drainEvent := false, drainIdleTimeout := 2 }
  have given' : polite.stopEvent = true := given
  have begun : Allowed (stopSteps c polite.retry) behind 2 (w.record .started) :=
    allowed_record _ h
  exact ends_forBatches_allowed given' fuel begun

end

/-- Once the stop event of an execution is set, however many sinks raise and calls are
    retried, it ends after no more than `stopSteps` further steps. -/
theorem run_stops_soon (cdc : Extension ι) (c : Consumer) (w : World ι) (x : Execution ι)
    (given : x.options.stopEvent = true) (before after : List (Act ι)) (act : Act ι)
    (script : x.script = before ++ act :: after) (sets : act.setsStop = true) :
    after.length ≤ (execute cdc c w x).script.length + stopSteps c x.options.retry := by
  have start : Allowed (stopSteps c x.options.retry) after.length 2 (World.restart w x) := {
    within := by rw [stopSteps]; omega
    spent := fun set_ => by cases set_
    awaited := fun _ => ⟨before,act,after,script,sets,Nat.le_refl _⟩ }
  have done : Allowed (stopSteps c x.options.retry) after.length 0 (execute cdc c w x) :=
    ends_final _ (ends_run_allowed given x.fuel start)
  cases set_ : (execute cdc c w x).stopSet with
  | true => exact done.spent set_
  | false =>
    obtain ⟨before',_,after',split,_,long⟩ := done.awaited set_
    rw [split, List.length_append, List.length_cons]
    omega

def everything : Extension Nat := ⟨fun log _ _ _ => log.newest⟩

def singleTry : Consumer :=
  { Consumer.orders with sinks := [⟨"sink",true⟩], retryPolicy := .noRetry }

def eightSteps : List (Act Nat) := List.replicate 8 {}

/-- The event is set right after the first check. -/
def stoppedLate : Execution Nat where
  options := { stopEvent := true }
  fuel := 3
  script := [{},{}] ++ { setsStop := true } :: eightSteps

theorem stopped_late_stops :
    let w := World.initial (SnapshotLog.land (.bare 0) [7]) 0
    eightSteps.length ≤ (execute everything singleTry w stoppedLate).script.length +
      stopSteps singleTry stoppedLate.options.retry :=
  run_stops_soon everything singleTry _ stoppedLate rfl [{},{}] eightSteps { setsStop := true } rfl rfl

example :
    let w := World.initial (SnapshotLog.land (.bare 0) [7]) 0
    (execute everything singleTry w stoppedLate).script.length = 2 ∧
      eightSteps.length = 2 + stopSteps singleTry stoppedLate.options.retry := by
  decide +kernel

end CdcDelivery
