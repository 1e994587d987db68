import DucklakeCdc.SinkDelivery

/-!
The health of a worker as `CDCApp.stats` reports it. `run` counts the batches it has
delivered in a local variable, and `_run_loop` publishes the count when `run` returns.
The moment of an observation is where the script of the run ends.
-/
namespace CdcHealth
open Programs CdcBatch CdcDatabase CdcRetry CdcLoop DeliveryProtocol CdcDelivery
variable {ι : Type}

structure Worker (ι : Type) where
  world : World ι
  running : Bool
  startedAt : Option Int
  finishedAt : Option Int := none
  delivered : Int := 0
  lastError : Option Exc := none

structure ConsumerHealth where
  name : String
  kind : String
  running : Bool
  startedAt : Option Int
  finishedAt : Option Int
  deliveredBatches : Int
  lastError : Option ExcClass
  deriving DecidableEq

def health (c : Consumer) (w : Worker ι) : ConsumerHealth where
  name := c.name
  kind := c.kind.className
  running := w.running
  startedAt := w.startedAt
  finishedAt := w.finishedAt
  deliveredBatches := w.delivered
  lastError := w.lastError.map Exc.cls

def loopOptions (infinite : Bool) (maxSnapshots : Int) : BatchOptions where
  infinite := infinite
  maxSnapshots := maxSnapshots
  stopEvent := true

/-- `_run_loop` up to the moment of the observation; without one more step of the script
    the thread is still running. -/
def runLoop (cdc : Extension ι) (c : Consumer) (infinite : Bool) (maxSnapshots : Int)
    (fuel : Nat) (w : World ι) : Worker ι :=
  match (run cdc c (loopOptions infinite maxSnapshots) fuel).run w with
  | .ok delivered t =>
    { world := t, running := false, startedAt := some w.wall, finishedAt := some t.wall,
      delivered := delivered }
  | .error (.raised e) t =>
    { world := t, running := false, startedAt := some w.wall, finishedAt := some t.wall,
      lastError := some e }
  | .error .crashed t => { world := t, running := true, startedAt := some w.wall }

def isReturned : Event ι → Bool
  | .commitCalled _ _ none => true
  | _ => false

def commits (trace : List (Event ι)) : Nat := trace.countP isReturned

/-- The thread has ended, and not by an exception. -/
def FinishedWell (w : Worker ι) : Prop := w.finishedAt.isSome = true ∧ w.lastError = none

/-- The count that `stats` reports is the number of commits that have returned since. -/
def Accurate (c : Consumer) (before : World ι) (w : Worker ι) : Prop :=
  (health c w).deliveredBatches = (commits w.world.trace : Int) - commits before.trace

def Counted (n : Int) (w : World ι) : Prop := (commits w.trace : Int) = n

variable {n : Int} {w : World ι}

theorem counted_record {event : Event ι} (h : Counted n w) (silent : isReturned event = false) :
    Counted n (w.record event) := by
  simpa [Counted, commits, World.record, silent] using h

theorem ambient_counted : Ambient (ι := ι) (Counted n) := by
  apply ambient_of
  · intro w items h
    have landed : Counted n (w.record (.landed (w.log.newest + 1) items)) := counted_record h rfl
    exact landed
  · exact fun w _ _ _ _ _ h => h

theorem keeps_writeSink (i : Nat) (b : Batch ι) : Keeps (Counted n) (writeSink i b) := by
  intro w h
  rw [writeSink, ends_bind]
  apply ends_mono (keeps_step ambient_counted w h) _ (fun _ _ hu => hu)
  intro act u hu
  have written : Counted n (u.record (.wrote i b act.raises)) := counted_record hu rfl
  rw [ends_bind, ends_modify]
  revert written
  cases act.raises with
  | none => exact fun written => written
  | some e => exact fun written => written

theorem keeps_deliverFrom (b : Batch ι) (i : Nat) (sinks : List Sink) :
    Keeps (Counted n) (deliverFrom b i sinks) := by
  induction sinks generalizing i with
  | nil => exact leads_pure _
  | cons sink rest ih =>
    intro w h
    rw [deliverFrom, ends_bind, ends_tryExcept]
    have later : ∀ u, Counted n u → Ends (deliverFrom b (i + 1) rest) u
        (fun _ => Counted n) (fun _ => Counted n) := fun u hu => ih (i + 1) u hu
    apply ends_mono (keeps_writeSink i b w h) (fun _ u hu => later u hu)
    intro e u hu
    split
    · rw [ends_ite]
      exact ⟨fun _ => hu,fun _ => later u hu⟩
    · exact hu

theorem commits_answered (b : Batch ι) (reply : Reply) :
    commits (World.commitAnswered w b reply).trace = commits w.trace +
      if (w.db.answer (.cdcCommit b.endSnapshot) reply).1 = none then 1 else 0 := by
  simp only [World.commitAnswered, World.record, commits, List.countP_append,
    List.countP_singleton]
  cases (w.db.answer (.cdcCommit b.endSnapshot) reply).1 <;> simp [isReturned]

theorem ends_commitOp (b : Batch ι) (h : Counted n w) :
    Ends (commitOp b) w (fun _ => Counted (n + 1)) (fun _ => Counted n) := by
  rw [commitOp, ends_bind]
  apply ends_step (fun _ => h)
  intro act rest script
  have kept := ambient_counted.meet w rest act script h
  have answered := commits_answered (w := { w with script := rest }.meet act) b act.toReply
  rw [ends_bind, ends_get, ends_bind, ends_set]
  cases raised : (({ w with script := rest }.meet act).db.answer (.cdcCommit b.endSnapshot)
    act.toReply).1 with
  | none =>
    rw [raised, if_pos rfl] at answered
    simp only [Counted] at kept
    simp only [ends_pure, Counted, answered]
    omega
  | some e =>
    rw [raised, if_neg (by simp)] at answered
    simp only [Counted] at kept
    simp only [ends_throwExc, Counted, answered]
    omega

theorem ends_commit (c : Consumer) (b : Batch ι) (h : Counted n w) :
    Ends (commit c b) w (fun _ => Counted (n + 1)) (fun _ => Counted n) :=
  ends_policy c.retryPolicy (fun _ hu => ends_commitOp b hu) (ends_sleep ambient_counted) w h

/-- The loop of `run` has delivered as many batches as commits have returned. -/
theorem ends_run (cdc : Extension ι) (c : Consumer) (o : BatchOptions) (fuel : Nat)
    (h : Counted n w) :
    Ends (run cdc c o fuel) w (fun delivered => Counted (n + delivered)) (fun _ _ => True) := by
  rw [run, ends_bind]
  apply ends_mono (keeps_requireOpen c w h) _ (fun _ _ _ => trivial)
  intro _ u h
  rw [ends_ite]
  refine ⟨fun _ => trivial,fun _ => ?_⟩
  rw [ends_bind, ends_modify]
  have polling : ∀ delivered : Int, Polling cdc c { o with drainEvent := false, drainIdleTimeout := 2 }
      (Counted (ι := ι) (n + delivered)) (fun _ => Counted (n + delivered))
      (Counted (n + delivered)) (Counted (n + delivered)) := by
    intro delivered
    apply polling_of_offers ambient_counted (fun _ => ambient_counted)
    · exact fun v k wish hv => counted_record hv rfl
    · exact fun v k wish now b hv _ => counted_record hv rfl
  apply ends_forBatches_acc (fun _ _ => True) polling (fun _ _ _ _ => trivial)
  · intro delivered b v hv _
    rw [ends_bind]
    apply ends_mono (keeps_deliverFrom b 0 c.sinks v hv) _ (fun _ _ _ => trivial)
    intro _ x hx
    rw [ends_bind]
    apply ends_mono (ends_commit c b hx) _ (fun _ _ _ => trivial)
    intro _ y hy
    rw [Int.add_assoc] at hy
    exact hy
  · rw [Int.add_zero]
    exact counted_record h rfl

theorem accurate_iff {c : Consumer} {w : World ι} {worker : Worker ι}
    (unpublished : worker.delivered = 0) :
    Accurate c w worker ↔ commits worker.world.trace = commits w.trace := by
  simp only [Accurate, health, unpublished]
  omega

/-- What `stats` reports is right if and only if the thread has ended by itself, or no
    commit has returned in it. -/
theorem delivered_accurate_iff (cdc : Extension ι) (c : Consumer) (infinite : Bool)
    (maxSnapshots : Int) (fuel : Nat) (w : World ι) :
    let worker := runLoop cdc c infinite maxSnapshots fuel w
    Accurate c w worker ↔
      FinishedWell worker ∨ commits worker.world.trace = commits w.trace := by
  have counted := ends_run cdc c (loopOptions infinite maxSnapshots) fuel
    (w := w) (n := commits w.trace) rfl
  intro worker
  obtain ⟨delivered,t,ended,counted⟩ | ⟨stop,t,ended,_⟩ := ends_cases counted
  · simp only [Counted] at counted
    have well : FinishedWell worker := by simp [worker, runLoop, ended, FinishedWell]
    refine ⟨fun _ => Or.inl well,fun _ => ?_⟩
    simp only [Accurate, health, worker, runLoop, ended]
    omega
  · have unpublished : worker.delivered = 0 := by
      cases stop <;> simp [worker, runLoop, ended]
    have unwell : ¬ FinishedWell worker := by
      cases stop <;> simp [worker, runLoop, ended, FinishedWell]
    rw [accurate_iff unpublished]
    exact ⟨Or.inr,fun either => either.resolve_left unwell⟩

def afterOneBatch : World Nat where
  log := (SnapshotLog.bare 0).land [7]
  db := { start := 0 }
  script := [{},{},{},{},{},{},{},{}]

theorem count_not_published : ¬ ∀ (cdc : Extension Nat) (c : Consumer) (infinite : Bool)
    (maxSnapshots : Int) (fuel : Nat) (w : World Nat),
    Accurate c w (runLoop cdc c infinite maxSnapshots fuel w) := by
  intro all
  have accurate := all ⟨fun log _ _ _ => log.newest⟩
    { Consumer.orders with sinks := [⟨"stdout",true⟩] } true 100 4 afterOneBatch
  revert accurate
  unfold Accurate
  decide +kernel

end CdcHealth
