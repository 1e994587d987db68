import DucklakeCdc.SinkDelivery

/-!
Draining (`batches` with a `drain_event`): the loop goes on polling until the event is set
and it has been idle long enough. The idle time counts from before the event, so the
loop may return on an empty listen older than the last upstream commit: it has drained
exactly when nothing landed after the last listen.
-/
namespace CdcDrain
open Programs CdcBatch CdcDatabase CdcRetry CdcLoop CdcDelivery
variable {ι : Type}

/-- Whenever rows lie beyond the cursor, a listen returns some of them. -/
structure PromptExtension (ι : Type) extends Extension ι where
  prompt : ∀ (log : SnapshotLog ι) (cursor k wish : Int), (∃ row ∈ log.rows, cursor < row.1) →
    log.between cursor (min (windowEnd log cursor k wish) log.newest) ≠ []

def drainOptions (maxSnapshots : Int) (drainIdleTimeout : ℚ) (stopEvent : Bool)
    (retry : Option RetryPolicy) : BatchOptions where
  infinite := true
  maxBatches := 0
  idleTimeout := 0
  drainEvent := true
  maxSnapshots := maxSnapshots
  drainIdleTimeout := drainIdleTimeout
  stopEvent := stopEvent
  retry := retry

/-- The caller commits every batch and asks for the next one. -/
def drain (cdc : Extension ι) (c : Consumer) (o : BatchOptions) (fuel : Nat) : Client ι Unit :=
  forBatches cdc c o (fun _ batch => commit c batch) fuel ()

def Drained (w : World ι) : Prop := ∀ row ∈ w.log.rows, row.1 ≤ w.cursor

def isListened : Event ι → Bool
  | .listened _ => true
  | _ => false

def bringsRows : Event ι → Bool
  | .landed _ items => !items.isEmpty
  | _ => false

/-- No upstream commit with rows has come after the last listen. -/
def QuietSinceListen (trace : List (Event ι)) : Prop :=
  ∀ event ∈ trace.reverse.takeWhile (fun event => !isListened event), bringsRows event = false

def StopNever (w : World ι) : Prop :=
  w.stopSet = false ∧ ∀ act ∈ w.script, act.setsStop = false

/-- Every upstream commit comes before the drain event is set. -/
def UpstreamFirst : Bool → List (Act ι) → Prop
  | _, [] => True
  | set_, act :: rest =>
    (set_ = true → act.lands = []) ∧ UpstreamFirst (set_ || act.setsDrain) rest

variable {w : World ι}

theorem quiet_listened (trace : List (Event ι)) (rows : List (Row ι)) :
    QuietSinceListen (trace ++ [.listened rows]) := by
  simp [QuietSinceListen, isListened]

theorem quiet_landed (trace : List (Event ι)) (snapshot : Int) (items : List ι) :
    QuietSinceListen (trace ++ [.landed snapshot items]) ↔
      items = [] ∧ QuietSinceListen trace := by
  simp [QuietSinceListen, isListened, bringsRows]

def Behind (w : World ι) : Prop := w.cursor ≤ w.log.newest

theorem ambient_behind : Ambient (Behind (ι := ι)) := by
  refine ambient_of ?_ (fun _ _ _ _ _ _ h => h)
  intro w items h
  have := h
  simp only [Behind, World.cursor, World.land, SnapshotLog.land] at this ⊢
  omega

theorem ambient_stopNever : Ambient (StopNever (ι := ι)) where
  meet w rest act script h := by
    obtain ⟨unset,never⟩ := h
    rw [script] at never
    refine ⟨by simp [World.meet, unset, never act List.mem_cons_self],?_⟩
    rw [meet_script]
    exact fun other member => never other (List.mem_cons_of_mem act member)
  clock w t h := h

theorem drained_land (items : List ι) (behind : Behind w) :
    Drained (w.land items) ↔ items = [] ∧ Drained w := by
  constructor
  · intro drained
    refine ⟨?_,fun row member => drained row (List.mem_append_left _ member)⟩
    by_contra some_
    obtain ⟨item,member⟩ := List.exists_mem_of_ne_nil items some_
    have := drained (w.log.newest + 1,item)
      (List.mem_append_right _ (List.mem_map.mpr ⟨item,member,rfl⟩))
    simp only [Behind, World.cursor, World.land] at this behind
    omega
  · intro facts row member
    obtain ⟨rfl,drained⟩ := facts
    exact drained row (by simpa [World.land, SnapshotLog.land] using member)

def Caught (w : World ι) : Prop := Behind w ∧ (Drained w ↔ QuietSinceListen w.trace)

theorem ambient_caught : Ambient (Caught (ι := ι)) := by
  refine ambient_of ?_ (fun _ _ _ _ _ _ h => h)
  intro w items facts
  obtain ⟨behind,same⟩ := facts
  have landed : Behind (w.land items) := by
    simp only [Behind, World.cursor, World.land, SnapshotLog.land] at behind ⊢
    omega
  refine ⟨landed,?_⟩
  rw [drained_land items behind, same]
  exact (quiet_landed w.trace _ items).symm

theorem behind_committed {b : Batch ι} {reply : Reply} (below : b.endSnapshot ≤ w.log.newest)
    (h : Behind w) : Behind (World.commitAnswered w b reply) := by
  have moved := Database.visible_answer w.db b.endSnapshot reply
  simp only [Behind, World.cursor, World.commitAnswered, World.record] at h ⊢
  omega

def Following (w : World ι) : Prop := Behind w ∧ StopNever w

theorem drain_polling (cdc : PromptExtension ι) (c : Consumer) (maxSnapshots : Int)
    (drainIdleTimeout : ℚ) (stopEvent : Bool) (retry : Option RetryPolicy) :
    Polling cdc.toExtension c (drainOptions maxSnapshots drainIdleTimeout stopEvent retry)
      Following (fun b w => b.endSnapshot ≤ w.log.newest) (fun w => Caught w ∧ StopNever w)
      (fun w => Drained w ↔ QuietSinceListen w.trace) where
  ambient := ambient_and ambient_behind ambient_stopNever
  ambientReady b := ambient_of
    (fun w items (h : b.endSnapshot ≤ w.log.newest) => by
      simp only [World.land, SnapshotLog.land]
      omega) (fun _ _ _ _ _ _ h => h)
  ambientIdle := ambient_and ambient_caught ambient_stopNever
  listened _ _ _ h := h
  empty u k wish h none_ := by
    refine ⟨⟨h.1,iff_of_true ?_ (quiet_listened _ _)⟩,h.2⟩
    intro row member
    by_contra beyond
    have some_ := cdc.prompt u.log u.cursor k wish ⟨row,member,by
      simpa [World.record, World.cursor] using beyond⟩
    apply some_
    simpa [nextRows, windowRows, SnapshotLog.between] using none_
  built u k wish now b h built := (isWindow_of_nextRows built).below
  again _ h := ⟨h.1.1,h.2⟩
  returned _ h := h.1.2
  stopped w h _ set_ := by
    rw [h.2.1] at set_
    contradiction
  finished w _ no := by
    rcases no with once | enough
    · simp [drainOptions] at once
    · simp [drainOptions] at enough

/-- When the generator returns by itself, every row of the log is at or below the cursor
    if and only if no upstream commit with rows came after its last listen. -/
theorem drained_iff_quiet (cdc : PromptExtension ι) (c : Consumer) (maxSnapshots : Int)
    (drainIdleTimeout : ℚ) (stopEvent : Bool) (retry : Option RetryPolicy) (fuel : Nat)
    (w : World ι) (behind : w.cursor ≤ w.log.newest) (never : StopNever w) :
    Ends (drain cdc.toExtension c (drainOptions maxSnapshots drainIdleTimeout stopEvent retry) fuel)
      w (fun _ u => Drained u ↔ QuietSinceListen u.trace) (fun _ _ => True) := by
  refine ends_forBatches (fun _ _ => True)
    (drain_polling cdc c maxSnapshots drainIdleTimeout stopEvent retry)
    (fun _ _ _ => trivial) ?_ fuel () w ⟨behind,never⟩
  intro _ b u following below
  have kept : Keeps (fun v => Following v ∧ b.endSnapshot ≤ v.log.newest) (commit c b) := by
    have amb : Ambient (fun v : World ι => Following v ∧ b.endSnapshot ≤ v.log.newest) :=
      ambient_and (ambient_and ambient_behind ambient_stopNever)
        ((drain_polling cdc c maxSnapshots drainIdleTimeout stopEvent retry).ambientReady b)
    refine keeps_policy c.retryPolicy (keeps_commitOp amb ?_) (ends_sleep amb)
    intro v reply facts
    obtain ⟨⟨behind,never⟩,below⟩ := facts
    exact ⟨⟨behind_committed below behind,never⟩,below⟩
  exact ends_mono (kept u ⟨following,below⟩) (fun _ _ hv => hv.1) (fun _ _ _ => trivial)

def allAtOnce : PromptExtension Nat where
  windowEnd log _ _ _ := log.newest
  prompt log cursor k wish beyond := by
    obtain ⟨row,member,above⟩ := beyond
    rw [SnapshotLog.between_ne_nil_iff]
    exact ⟨row,member,above,by simpa using log.bounded row member⟩

/-- A snapshot lands, is listened to and committed; three seconds after the listen that finds
    nothing more the drain event is set. -/
def oneSnapshot : World Nat where
  log := .bare 0
  db := { start := 0 }
  script := [{},{ lands := [[7]] },{},{},{},{},{},{},{},{ elapsed := 3 },{ setsDrain := true }]

-- The runs below are computed by the kernel alone.
attribute [local irreducible] drain

theorem oneSnapshot_drained :
    returnsWith (drain allAtOnce.toExtension .orders (drainOptions 100 2 false none) 3) oneSnapshot
      (fun u => decide (u.log.rows = [(1,7)] ∧ u.cursor = 1)) = true := by decide +kernel

theorem drained_iff_quiet_one_snapshot :
    Ends (drain allAtOnce.toExtension .orders (drainOptions 100 2 false none) 3) oneSnapshot
        (fun _ u => Drained u ↔ QuietSinceListen u.trace) (fun _ _ => True) ∧
      returnsWith (drain allAtOnce.toExtension .orders (drainOptions 100 2 false none) 3) oneSnapshot
        (fun u => decide (u.log.rows = [(1,7)] ∧ u.cursor = 1)) = true :=
  ⟨drained_iff_quiet allAtOnce .orders 100 2 false none 3 oneSnapshot (by decide)
    ⟨rfl,by simp [oneSnapshot]⟩,oneSnapshot_drained⟩

/-- A snapshot lands after an empty listen, then the drain event is set; three seconds
    have passed since the loop began. -/
def lateSnapshot : World Nat :=
  { oneSnapshot with script := [{},{},{},{},{ elapsed := 3, lands := [[7]] },{ setsDrain := true }] }

theorem drain_may_miss_rows :
    ¬ ∀ (cdc : PromptExtension Nat) (c : Consumer) (maxSnapshots : Int) (drainIdleTimeout : ℚ)
      (fuel : Nat) (w : World Nat), w.cursor ≤ w.log.newest → StopNever w →
      UpstreamFirst w.drainSet w.script →
      Ends (drain cdc.toExtension c (drainOptions maxSnapshots drainIdleTimeout false none) fuel) w
        (fun _ u => Drained u) (fun _ _ => True) := by
  intro all
  have drained := all allAtOnce .orders 100 2 3 lateSnapshot (by decide)
    ⟨rfl,by decide⟩ (by simp [lateSnapshot, oneSnapshot, UpstreamFirst])
  have missed : returnsWith
      (drain allAtOnce.toExtension .orders (drainOptions 100 2 false none) 3) lateSnapshot
      (fun u => u.log.rows.any fun row => decide (u.cursor < row.1)) = true := by decide +kernel
  obtain ⟨_,u,all_,some_⟩ := ends_returnsWith drained missed
  obtain ⟨row,member,beyond⟩ := List.any_eq_true.mp some_
  have := all_ row member
  simp only [decide_eq_true_eq] at beyond
  omega

end CdcDrain
