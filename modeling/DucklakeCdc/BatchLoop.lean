import DucklakeCdc.AdaptiveWindow
import DucklakeCdc.BatchBuilding
import DucklakeCdc.Database
import DucklakeCdc.SnapshotLog

/-!
The listen loop of a consumer (`_ConsumerBase.batches`, `listen`, `read`) against an
upstream log and the database of its cursor. A script resolves what the client does not decide:
before each of its steps other parties may land snapshots, set an event or let time
pass, and the call of the step may raise. Where the script ends, the process stops.
-/
namespace CdcLoop
open Programs CdcBatch CdcDatabase CdcRetry CdcWindow

/-- What surrounds one step of the client, and how the call of the step is met. `wish` is
    the window end the extension leans to in a listen. -/
structure Act (ι : Type) extends Reply where
  lands : List (List ι) := []
  setsStop : Bool := false
  setsDrain : Bool := false
  elapsed : ℚ := 0
  wall : Int := 0
  wish : Int := 0

inductive Event (ι : Type) where
  | started
  | landed (snapshot : Int) (items : List ι)
  | listened (rows : List (Row ι))
  | wrote (sink : Nat) (batch : Batch ι) (raised : Option Exc)
  | commitCalled (batch : Batch ι) (moved : Bool) (raised : Option Exc)
  deriving DecidableEq

structure World (ι : Type) where
  log : SnapshotLog ι
  db : Database ι
  clock : ℚ := 0
  wall : Int := 0
  stopSet : Bool := false
  drainSet : Bool := false
  trace : List (Event ι) := []
  script : List (Act ι) := []

abbrev Client (ι : Type) := EStateM Stop (World ι)

/-- The window end the extension chooses for a cursor and a `max_snapshots`, given what
    it leans to. No snapshot past the newest is ever inside a window. -/
structure Extension (ι : Type) where
  windowEnd : SnapshotLog ι → Int → Int → Int → Int

inductive ConsumerKind where
  | dml | ddl
  deriving DecidableEq, Repr

inductive ConsumerMode where
  | ticks | changes
  deriving DecidableEq, Repr

structure Sink where
  name : String
  required : Bool
  deriving DecidableEq, Repr

structure Consumer where
  name : String
  kind : ConsumerKind
  mode : ConsumerMode := .ticks
  sinks : List Sink := []
  retryPolicy : RetryPolicy := .default
  opened : Bool := false

def Consumer.orders : Consumer := { name := "orders", kind := .dml, opened := true }

structure BatchOptions where
  infinite : Bool := true
  maxBatches : Int := 0
  maxSnapshots : Int := 100
  idleTimeout : ℚ := 0
  stopEvent : Bool := false
  drainEvent : Bool := false
  drainIdleTimeout : ℚ := 2
  retry : Option RetryPolicy := none

section
variable {ι : Type}

def World.cursor (w : World ι) : Int := w.db.visible

def World.record (w : World ι) (event : Event ι) : World ι :=
  { w with trace := w.trace ++ [event] }

def World.land (w : World ι) (items : List ι) : World ι :=
  { w with
    log := w.log.land items
    trace := w.trace ++ [.landed (w.log.newest + 1) items] }

def World.meet (w : World ι) (act : Act ι) : World ι :=
  let landed := act.lands.foldl World.land w
  { landed with
    stopSet := w.stopSet || act.setsStop
    drainSet := w.drainSet || act.setsDrain
    clock := w.clock + max 0 act.elapsed
    wall := act.wall }

/-- Every step of the client waits for the script; without one the process is gone. -/
def step : Client ι (Act ι) := do
  let w ← get
  match w.script with
  | [] => throw .crashed
  | act :: rest =>
    set ({ w with script := rest }.meet act)
    pure act

def sleep (seconds : ℚ) : Client ι Unit :=
  modify fun w => { w with clock := w.clock + max 0 seconds }

def readClock : Client ι ℚ := do
  let _ ← step
  let w ← get
  pure w.clock

def windowRows (log : SnapshotLog ι) (lo hi : Int) : List (Row ι) :=
  (log.rows.filter (SnapshotLog.inWindow lo hi)).map fun row =>
    ⟨some (lo + 1),some hi,row.1,row.2⟩

def nextRows (cdc : Extension ι) (w : World ι) (maxSnapshots wish : Int) : List (Row ι) :=
  windowRows w.log w.cursor (min (cdc.windowEnd w.log w.cursor maxSnapshots wish) w.log.newest)

def listenOp (cdc : Extension ι) (maxSnapshots : Int) : Client ι (List (Row ι)) := do
  let act ← step
  match act.raises with
  | some e => throwExc e
  | none =>
    let w ← get
    let rows := nextRows cdc w maxSnapshots act.wish
    set (w.record (.listened rows))
    pure rows

def Consumer.readFunction (c : Consumer) : String :=
  match c.kind, c.mode with
  | .dml, .changes => "cdc_dml_changes_read"
  | .dml, .ticks => "cdc_dml_ticks_read"
  | .ddl, .changes => "cdc_ddl_changes_read"
  | .ddl, .ticks => "cdc_ddl_ticks_read"

def readWindowError (c : Consumer) : Exc := .raised .valueError
  s!"{c.readFunction}: start_snapshot and end_snapshot must both be provided when either is set"

def readOp (cdc : Extension ι) (c : Consumer) (maxSnapshots : Int)
    (startSnapshot endSnapshot : Option Int) : Client ι (List (Row ι)) :=
  match startSnapshot, endSnapshot with
  | none, none => listenOp cdc maxSnapshots
  | some start, some stop => do
    let act ← step
    match act.raises with
    | some e => throwExc e
    | none =>
      let w ← get
      let rows := windowRows w.log (start - 1) stop
      set (w.record (.listened rows))
      pure rows
  | _, _ => throwExc (readWindowError c)

def ConsumerKind.className : ConsumerKind → String
  | .dml => "DMLConsumer"
  | .ddl => "DDLConsumer"

def notOpenError (c : Consumer) : Exc := .raised .runtimeError
  s!"{c.kind.className}.run() must be called inside a `with consumer:` block"

def requireOpen (c : Consumer) : Client ι Unit :=
  if c.opened then pure () else throwExc (notOpenError c)

def Consumer.effectiveRetry (c : Consumer) (retry : Option RetryPolicy) : RetryPolicy :=
  retry.getD c.retryPolicy

def emptyRowsError : Exc := .raised .valueError "min() iterable argument is empty"

def buildRows (c : Consumer) (rows : List (Row ι)) : Client ι (Batch ι) := do
  let w ← get
  match buildBatch c.name (some w.db.live) w.wall rows with
  | some batch => pure batch
  | none => throwExc emptyRowsError

def fetch (c : Consumer) (retry : Option RetryPolicy) (operation : Client ι (List (Row ι))) :
    Client ι (Option (Batch ι)) := do
  requireOpen c
  let rows ← (c.effectiveRetry retry).run sleep operation
  if rows.isEmpty then pure none
  else do
    let batch ← buildRows c rows
    pure (some batch)

def listen (cdc : Extension ι) (c : Consumer) (maxSnapshots : Int)
    (retry : Option RetryPolicy) : Client ι (Option (Batch ι)) :=
  fetch c retry (listenOp cdc maxSnapshots)

def read (cdc : Extension ι) (c : Consumer) (maxSnapshots : Int)
    (startSnapshot endSnapshot : Option Int) (retry : Option RetryPolicy) :
    Client ι (Option (Batch ι)) :=
  fetch c retry (readOp cdc c maxSnapshots startSnapshot endSnapshot)

structure Generator where
  yielded : Int
  lastActivity : ℚ
  adaptiveWindow : Option AdaptiveWindow

def Generator.request (g : Generator) (o : BatchOptions) : Int :=
  (g.adaptiveWindow.map AdaptiveWindow.current).getD o.maxSnapshots

def Generator.observeEmpty (g : Generator) : Generator :=
  { g with adaptiveWindow := g.adaptiveWindow.map AdaptiveWindow.observeEmpty }

def Generator.observeBatch (g : Generator) (rowCount : Int) (batch : Batch ι) (elapsedMs : ℚ) :
    Generator :=
  { g with
    adaptiveWindow := g.adaptiveWindow.map fun window =>
      window.observeBatch rowCount (max 1 (batch.endSnapshot - batch.startSnapshot + 1))
        elapsedMs }

def stopRequested (o : BatchOptions) : Client ι Bool :=
  if o.stopEvent then do
    let _ ← step
    let w ← get
    pure w.stopSet
  else pure false

def drainRequested (o : BatchOptions) : Client ι Bool :=
  if o.drainEvent then do
    let _ ← step
    let w ← get
    pure w.drainSet
  else pure false

/-- The loop of `batches` up to its next yield; `none` is its return. -/
def poll (cdc : Extension ι) (c : Consumer) (o : BatchOptions) :
    Nat → Generator → Client ι (Option (Batch ι × Generator))
  | 0, _ => throw .crashed
  | fuel + 1, g => do
    let stop ← stopRequested o
    if stop then pure none
    else do
      let listenStarted ← readClock
      let rows ← (c.effectiveRetry o.retry).run sleep (listenOp cdc (g.request o))
      let listenEnded ← readClock
      if rows.isEmpty then do
        let stop ← stopRequested o
        if stop then pure none
        else if !o.infinite then pure none
        else do
          let now ← readClock
          let idleFor := now - g.lastActivity
          let drain ← drainRequested o
          if drain then
            if idleFor ≥ o.drainIdleTimeout then pure none
            else poll cdc c o fuel g.observeEmpty
          else if o.idleTimeout > 0 ∧ idleFor ≥ o.idleTimeout then pure none
          else poll cdc c o fuel g.observeEmpty
      else do
        let lastActivity ← readClock
        let batch ← buildRows c rows
        let seen := g.observeBatch rows.length batch ((listenEnded - listenStarted) * 1000)
        pure (some (batch, { seen with lastActivity := lastActivity }))

def batches (cdc : Extension ι) (c : Consumer) (o : BatchOptions) (fuel : Nat) :
    Client ι (Option (Batch ι × Generator)) := do
  requireOpen c
  let started ← readClock
  let adaptive := if c.kind = .dml then some (AdaptiveWindow.new o.maxSnapshots) else none
  poll cdc c o fuel ⟨0,started,adaptive⟩

/-- The `next` that resumes the generator after a yield. -/
def resume (cdc : Extension ι) (c : Consumer) (o : BatchOptions) (fuel : Nat) (g : Generator) :
    Client ι (Option (Batch ι × Generator)) :=
  if !o.infinite then pure none
  else if o.maxBatches > 0 ∧ g.yielded + 1 ≥ o.maxBatches then pure none
  else poll cdc c o fuel { g with yielded := g.yielded + 1 }

def forRest {α : Type} (cdc : Extension ι) (c : Consumer) (o : BatchOptions)
    (body : α → Batch ι → Client ι α) :
    Nat → Option (Batch ι × Generator) → α → Client ι α
  | _, none, acc => pure acc
  | 0, some _, _ => throw .crashed
  | fuel + 1, some (batch, g), acc => do
    let acc ← body acc batch
    let given ← resume cdc c o fuel g
    forRest cdc c o body fuel given acc

def forBatches {α : Type} (cdc : Extension ι) (c : Consumer) (o : BatchOptions)
    (body : α → Batch ι → Client ι α) (fuel : Nat) (acc : α) : Client ι α := do
  let given ← batches cdc c o fuel
  forRest cdc c o body fuel given acc

/-- Facts that other parties' doings between two steps leave alone. -/
structure Ambient (inv : World ι → Prop) : Prop where
  meet : ∀ w rest act, w.script = act :: rest → inv w → inv ({ w with script := rest }.meet act)
  clock : ∀ w t, inv w → inv { w with clock := t }

theorem ambient_of {inv : World ι → Prop} (land : ∀ w items, inv w → inv (w.land items))
    (other : ∀ w script clock wall stop drain, inv w →
      inv { w with script := script, clock := clock, wall := wall, stopSet := stop,
                   drainSet := drain }) : Ambient inv where
  meet w rest act _ h := by
    have landed : ∀ (items : List (List ι)) (u : World ι), inv u → inv (items.foldl World.land u) := by
      intro items
      induction items with
      | nil => exact fun _ hu => hu
      | cons first rest ih => exact fun u hu => ih _ (land u first hu)
    exact other _ _ _ _ _ _ (landed act.lands _ (other w rest w.clock w.wall w.stopSet w.drainSet h))
  clock w t h := other w w.script t w.wall w.stopSet w.drainSet h

theorem foldl_land {β : Type} (f : World ι → β) (same : ∀ u items, f (u.land items) = f u)
    (items : List (List ι)) (w : World ι) : f (items.foldl World.land w) = f w := by
  induction items generalizing w with
  | nil => rfl
  | cons first rest ih => exact (ih (w.land first)).trans (same w first)

@[simp] theorem meet_db (w : World ι) (act : Act ι) : (w.meet act).db = w.db :=
  foldl_land World.db (fun _ _ => rfl) act.lands w

@[simp] theorem meet_script (w : World ι) (act : Act ι) : (w.meet act).script = w.script :=
  foldl_land World.script (fun _ _ => rfl) act.lands w

theorem ambient_db (P : Database ι → Prop) : Ambient (fun w => P w.db) where
  meet w rest act _ h := by rwa [meet_db]
  clock w t h := h

theorem ambient_and {inv inv' : World ι → Prop} (a : Ambient inv) (b : Ambient inv') :
    Ambient (fun w => inv w ∧ inv' w) where
  meet w rest act script h := ⟨a.meet w rest act script h.1,b.meet w rest act script h.2⟩
  clock w t h := ⟨a.clock w t h.1,b.clock w t h.2⟩

variable {inv : World ι → Prop} {w : World ι}

theorem ends_step {ok : Act ι → World ι → Prop} {err : Stop → World ι → Prop}
    (crash : w.script = [] → err .crashed w)
    (go : ∀ act rest, w.script = act :: rest → ok act ({ w with script := rest }.meet act)) :
    Ends step w ok err := by
  simp only [step, ends_bind, ends_get]
  cases script : w.script with
  | nil => exact crash script
  | cons act rest => exact go act rest script

theorem ends_sleep (amb : Ambient inv) (d : ℚ) (w : World ι) (h : inv w) :
    Ends (sleep d) w (fun _ => inv) (fun _ _ => False) := amb.clock w _ h

theorem keeps_step (amb : Ambient inv) : Keeps inv (step : Client ι (Act ι)) :=
  fun w h => ends_step (fun _ => h) fun act rest script => amb.meet w rest act script h

theorem keeps_readClock (amb : Ambient inv) : Keeps inv (readClock : Client ι ℚ) :=
  leads_bind (keeps_step amb) fun _ _ h => h

theorem ends_stopRequested (amb : Ambient inv) (o : BatchOptions) (h : inv w) :
    Ends (stopRequested o) w
      (fun stop u => inv u ∧ (stop = true → o.stopEvent = true ∧ u.stopSet = true))
      (fun _ => inv) := by
  rw [stopRequested, ends_ite]
  refine ⟨fun given => ?_,fun _ => ⟨h,fun no => by cases no⟩⟩
  rw [ends_bind]
  exact ends_mono (keeps_step amb w h) (fun _ u hu => ⟨hu,fun set_ => ⟨given,set_⟩⟩) (fun _ _ hu => hu)

theorem keeps_drainRequested (amb : Ambient inv) (o : BatchOptions) :
    Keeps inv (drainRequested o : Client ι Bool) :=
  leads_ite (leads_bind (keeps_step amb) fun _ _ h => h) (leads_pure false)

theorem keeps_requireOpen (c : Consumer) : Keeps inv (requireOpen c) :=
  leads_ite (leads_pure _) (keeps_throw _)

theorem ends_listenOp (amb : Ambient inv) {cdc : Extension ι} {k : Int}
    {ok : List (Row ι) → World ι → Prop} {err : Stop → World ι → Prop} (h : inv w)
    (listened : ∀ u wish, inv u →
      ok (nextRows cdc u k wish) (u.record (.listened (nextRows cdc u k wish))))
    (raised : ∀ e u, inv u → err e u) : Ends (listenOp cdc k) w ok err := by
  rw [listenOp, ends_bind]
  apply ends_step (fun _ => raised _ _ h)
  intro act rest script
  have kept := amb.meet w rest act script h
  cases act.raises with
  | some e => exact raised _ _ kept
  | none => exact listened _ act.wish kept

theorem ends_fetch {c : Consumer} {operation : Client ι (List (Row ι))}
    {good : Batch ι → World ι → Prop} (amb : Ambient inv) (retry : Option RetryPolicy)
    (op : ∀ u, inv u → Ends operation u
      (fun rows v => inv v ∧
        ∀ now b, buildBatch c.name (some v.db.live) now rows = some b → good b v)
      (fun _ => inv)) (w : World ι) (h : inv w) :
    Ends (fetch c retry operation) w (fun given u => inv u ∧ ∀ b, given = some b → good b u)
      (fun _ => inv) := by
  rw [fetch, ends_bind]
  refine ends_mono (keeps_requireOpen c w h) ?_ (fun _ _ hu => hu)
  intro _ w h
  rw [ends_bind]
  refine ends_mono (ends_policy _ op (ends_sleep amb) w h) ?_ (fun _ _ hu => hu)
  intro rows u facts
  obtain ⟨hu,goodRows⟩ := facts
  rw [ends_ite]
  refine ⟨fun _ => ⟨hu,fun _ no => by cases no⟩,fun _ => ?_⟩
  rw [ends_bind, buildRows, ends_bind, ends_get]
  cases built : buildBatch c.name (some u.db.live) u.wall rows with
  | none => exact hu
  | some batch =>
    refine ⟨hu,?_⟩
    intro b same
    cases same
    exact goodRows _ _ built

/-- What holds around the polls of a loop: `inv` between its steps, `ready` of the batch
    in hand, `idle` from an empty listen on, `quit` when the generator has returned. -/
structure Polling (cdc : Extension ι) (c : Consumer) (o : BatchOptions) (inv : World ι → Prop)
    (ready : Batch ι → World ι → Prop) (idle quit : World ι → Prop) : Prop where
  ambient : Ambient inv
  ambientReady : ∀ b, Ambient (ready b)
  ambientIdle : Ambient idle
  listened : ∀ u k wish, inv u → inv (u.record (.listened (nextRows cdc u k wish)))
  empty : ∀ u k wish, inv u → nextRows cdc u k wish = [] →
    idle (u.record (.listened (nextRows cdc u k wish)))
  built : ∀ u k wish now b, inv u →
    buildBatch c.name (some u.db.live) now (nextRows cdc u k wish) = some b →
    ready b (u.record (.listened (nextRows cdc u k wish)))
  again : ∀ w, idle w → inv w
  returned : ∀ w, idle w → quit w
  stopped : ∀ w, inv w → o.stopEvent = true → w.stopSet = true → quit w
  finished : ∀ w, inv w → o.infinite = false ∨ o.maxBatches > 0 → quit w

section
variable {cdc : Extension ι} {c : Consumer} {o : BatchOptions} {ready : Batch ι → World ι → Prop}
  {idle quit : World ι → Prop}

def Given (inv : World ι → Prop) (ready : Batch ι → World ι → Prop) (quit : World ι → Prop)
    (given : Option (Batch ι × Generator)) (w : World ι) : Prop :=
  match given with
  | none => quit w
  | some (b, _) => inv w ∧ ready b w

structure InFlight (c : Consumer) (inv : World ι → Prop) (ready : Batch ι → World ι → Prop)
    (idle : World ι → Prop) (rows : List (Row ι)) (w : World ι) : Prop where
  inv : inv w
  idle : rows = [] → idle w
  ready : ∀ now b, buildBatch c.name (some w.db.live) now rows = some b → ready b w

theorem ambient_inFlight (polling : Polling cdc c o inv ready idle quit) (rows : List (Row ι)) :
    Ambient (InFlight c inv ready idle rows) where
  meet w rest act script h := {
    inv := polling.ambient.meet w rest act script h.inv
    idle := fun empty => polling.ambientIdle.meet w rest act script (h.idle empty)
    ready := by
      intro now b built
      rw [meet_db] at built
      exact (polling.ambientReady b).meet w rest act script (h.ready now b built) }
  clock w t h := {
    inv := polling.ambient.clock w t h.inv
    idle := fun empty => polling.ambientIdle.clock w t (h.idle empty)
    ready := fun now b built => (polling.ambientReady b).clock w t (h.ready now b built) }

theorem ends_listened (polling : Polling cdc c o inv ready idle quit) (retry : Option RetryPolicy)
    (k : Int) (w : World ι) (h : inv w) :
    Ends ((c.effectiveRetry retry).run sleep (listenOp cdc k)) w
      (InFlight c inv ready idle) (fun _ => inv) := by
  refine ends_policy _ ?_ (ends_sleep polling.ambient) w h
  intro u hu
  refine ends_listenOp polling.ambient hu ?_ (fun _ _ hv => hv)
  intro v wish hv
  exact ⟨polling.listened v k wish hv,polling.empty v k wish hv,
    fun now b built => polling.built v k wish now b hv built⟩

theorem ends_buildRows {rows : List (Row ι)} (h : InFlight c inv ready idle rows w) :
    Ends (buildRows c rows) w (fun b u => inv u ∧ ready b u) (fun _ => inv) := by
  rw [buildRows, ends_bind, ends_get]
  cases built : buildBatch c.name (some w.db.live) w.wall rows with
  | none => exact h.inv
  | some batch => exact ⟨h.inv,h.ready _ _ built⟩

theorem ends_listen (polling : Polling cdc c o inv ready idle quit) (k : Int)
    (retry : Option RetryPolicy) (w : World ι) (h : inv w) :
    Ends (listen cdc c k retry) w (fun given u => inv u ∧ ∀ b, given = some b → ready b u)
      (fun _ => inv) := by
  refine ends_fetch polling.ambient retry ?_ w h
  intro u hu
  refine ends_listenOp polling.ambient hu ?_ (fun _ _ hv => hv)
  intro v wish hv
  exact ⟨polling.listened v k wish hv,fun now b built => polling.built v k wish now b hv built⟩

theorem ends_poll (polling : Polling cdc c o inv ready idle quit) (fuel : Nat) (g : Generator)
    (w : World ι) (h : inv w) :
    Ends (poll cdc c o fuel g) w (Given inv ready quit) (fun _ => inv) := by
  induction fuel generalizing g w with
  | zero => exact h
  | succ fuel ih =>
    rw [poll, ends_bind]
    refine ends_mono (ends_stopRequested polling.ambient o h) ?_ (fun _ _ hu => hu)
    intro stop w facts
    obtain ⟨h,stopped⟩ := facts
    rw [ends_ite]
    refine ⟨fun set_ => polling.stopped w h (stopped set_).1 (stopped set_).2,fun _ => ?_⟩
    rw [ends_bind]
    refine ends_mono (keeps_readClock polling.ambient w h) ?_ (fun _ _ hu => hu)
    intro listenStarted w h
    rw [ends_bind]
    refine ends_mono (ends_listened polling o.retry _ w h) ?_ (fun _ _ hu => hu)
    intro rows w flight
    rw [ends_bind]
    refine ends_mono (keeps_readClock (ambient_inFlight polling rows) w flight) ?_
      (fun _ _ hu => hu.inv)
    intro listenEnded w flight
    rw [ends_ite]
    constructor
    · intro isEmpty
      have quiet := flight.idle (List.isEmpty_iff.mp isEmpty)
      have left : ∀ u, idle u → inv u := polling.again
      rw [ends_bind]
      refine ends_mono (ends_stopRequested polling.ambientIdle o quiet) ?_ (fun _ u hu => left u hu)
      intro stop w facts
      obtain ⟨quiet,_⟩ := facts
      rw [ends_ite]
      refine ⟨fun _ => polling.returned w quiet,fun _ => ?_⟩
      rw [ends_ite]
      refine ⟨fun _ => polling.returned w quiet,fun _ => ?_⟩
      rw [ends_bind]
      refine ends_mono (keeps_readClock polling.ambientIdle w quiet) ?_ (fun _ u hu => left u hu)
      intro now w quiet
      rw [ends_bind]
      refine ends_mono (keeps_drainRequested polling.ambientIdle o w quiet) ?_
        (fun _ u hu => left u hu)
      intro drain w quiet
      have returned := polling.returned w quiet
      have polled := fun g => ih g w (left w quiet)
      rw [ends_ite, ends_ite, ends_ite]
      exact ⟨fun _ => ⟨fun _ => returned,fun _ => polled _⟩,
        fun _ => ⟨fun _ => returned,fun _ => polled _⟩⟩
    · intro _
      rw [ends_bind]
      refine ends_mono (keeps_readClock (ambient_inFlight polling rows) w flight) ?_
        (fun _ _ hu => hu.inv)
      intro lastActivity w flight
      rw [ends_bind]
      exact ends_mono (ends_buildRows flight) (fun _ _ hu => hu) (fun _ _ hu => hu)

theorem ends_batches (polling : Polling cdc c o inv ready idle quit) (fuel : Nat) (w : World ι)
    (h : inv w) : Ends (batches cdc c o fuel) w (Given inv ready quit) (fun _ => inv) := by
  rw [batches, ends_bind]
  refine ends_mono (keeps_requireOpen c w h) ?_ (fun _ _ hu => hu)
  intro _ w h
  rw [ends_bind]
  exact ends_mono (keeps_readClock polling.ambient w h)
    (fun _ u hu => ends_poll polling fuel _ u hu) (fun _ _ hu => hu)

theorem ends_resume (polling : Polling cdc c o inv ready idle quit) (fuel : Nat) (g : Generator)
    (w : World ι) (h : inv w) :
    Ends (resume cdc c o fuel g) w (Given inv ready quit) (fun _ => inv) := by
  rw [resume, ends_ite, ends_ite]
  refine ⟨fun once => polling.finished w h (Or.inl (by simpa using once)),fun _ => ⟨?_,?_⟩⟩
  · exact fun enough => polling.finished w h (Or.inr enough.1)
  · exact fun _ => ends_poll polling fuel _ w h

/-- The rule of `for batch in batches` with what the loop has computed so far: a body
    that keeps `inv` on batches that are ready, or raises with `bad`, makes a loop that
    ends with `quit` or `bad`. -/
theorem ends_forBatches_acc {α : Type} {body : α → Batch ι → Client ι α}
    {inv idle quit : α → World ι → Prop} {ready : α → Batch ι → World ι → Prop}
    (bad : Stop → World ι → Prop)
    (polling : ∀ acc, Polling cdc c o (inv acc) (ready acc) (idle acc) (quit acc))
    (weaken : ∀ acc stop w, inv acc w → bad stop w)
    (handled : ∀ acc b w, inv acc w → ready acc b w → Ends (body acc b) w inv bad)
    (fuel : Nat) (acc : α) (w : World ι) (h : inv acc w) :
    Ends (forBatches cdc c o body fuel acc) w quit bad := by
  have rest : ∀ (fuel : Nat) (given : Option (Batch ι × Generator)) (acc : α) (w : World ι),
      Given (inv acc) (ready acc) (quit acc) given w →
      Ends (forRest cdc c o body fuel given acc) w quit bad := by
    intro fuel
    induction fuel with
    | zero =>
      intro given acc w h
      cases given with
      | none => exact h
      | some _ => exact weaken acc _ w h.1
    | succ fuel ih =>
      intro given acc w h
      cases given with
      | none => exact h
      | some given =>
        obtain ⟨batch,g⟩ := given
        rw [forRest, ends_bind]
        refine ends_mono (handled acc batch w h.1 h.2) ?_ (fun _ _ hu => hu)
        intro acc' u hu
        rw [ends_bind]
        exact ends_mono (ends_resume (polling acc') fuel g u hu)
          (fun given v hv => ih given acc' v hv) (fun stop v hv => weaken acc' stop v hv)
  rw [forBatches, ends_bind]
  exact ends_mono (ends_batches (polling acc) fuel w h)
    (fun given u hu => rest fuel given acc u hu) (fun stop u hu => weaken acc stop u hu)

theorem ends_forBatches {α : Type} {body : α → Batch ι → Client ι α} (bad : Stop → World ι → Prop)
    (polling : Polling cdc c o inv ready idle quit) (weaken : ∀ stop w, inv w → bad stop w)
    (handled : ∀ acc b w, inv w → ready b w → Ends (body acc b) w (fun _ => inv) bad)
    (fuel : Nat) (acc : α) (w : World ι) (h : inv w) :
    Ends (forBatches cdc c o body fuel acc) w (fun _ => quit) bad :=
  ends_forBatches_acc bad (fun _ => polling) (fun _ => weaken) handled fuel acc w h

theorem polling_of_offers (amb : Ambient inv) (ambReady : ∀ b, Ambient (ready b))
    (listened : ∀ u k wish, inv u → inv (u.record (.listened (nextRows cdc u k wish))))
    (built : ∀ u k wish now b, inv u →
      buildBatch c.name (some u.db.live) now (nextRows cdc u k wish) = some b →
      ready b (u.record (.listened (nextRows cdc u k wish)))) :
    Polling cdc c o inv ready inv inv where
  ambient := amb
  ambientReady := ambReady
  ambientIdle := amb
  listened := listened
  empty u k wish h _ := listened u k wish h
  built := built
  again _ h := h
  returned _ h := h
  stopped _ h _ _ := h
  finished _ h _ := h

end

/-- The batch of the window after `cursor` up to its end, as the log has it. -/
structure IsWindow (log : SnapshotLog ι) (cursor : Int) (b : Batch ι) : Prop where
  start : b.startSnapshot = cursor + 1
  forward : cursor < b.endSnapshot
  below : b.endSnapshot ≤ log.newest
  items : b.items = log.between cursor b.endSnapshot

theorem isWindow_land {log : SnapshotLog ι} {cursor : Int} {b : Batch ι} (items : List ι)
    (h : IsWindow log cursor b) : IsWindow (log.land items) cursor b where
  start := h.start
  forward := h.forward
  below := by
    have := h.below
    simp only [SnapshotLog.land]
    omega
  items := by rw [SnapshotLog.between_land log items h.below]; exact h.items

theorem windowRows_bounds {log : SnapshotLog ι} {lo hi : Int} {row : Row ι}
    (member : row ∈ windowRows log lo hi) : row.first = lo + 1 ∧ row.last = hi := by
  obtain ⟨_,_,rfl⟩ := List.mem_map.mp member
  exact ⟨rfl,rfl⟩

theorem built_of_windowRows {log : SnapshotLog ι} {lo hi : Int} {name : String}
    {conn : Option Nat} {now : Int} {b : Batch ι}
    (built : buildBatch name conn now (windowRows log lo hi) = some b) :
    b.startSnapshot = lo + 1 ∧ b.endSnapshot = hi ∧ b.items = log.between lo hi ∧
      log.between lo hi ≠ [] ∧ b.connection = conn := by
  have items : (windowRows log lo hi).map Row.item = log.between lo hi := by
    simp [windowRows, SnapshotLog.between]
  by_cases empty : windowRows log lo hi = []
  · simp [empty, buildBatch] at built
  · obtain ⟨b',built',start,stop,content,bound⟩ := @build_of_window ι name conn now _ (lo + 1) hi
      empty (fun _ h => (windowRows_bounds h).1) (fun _ h => (windowRows_bounds h).2)
    obtain rfl : b' = b := Option.some.inj (built'.symm.trans built)
    refine ⟨start,stop,content.trans items,?_,bound⟩
    rw [← items]
    simpa using empty

theorem isWindow_of_nextRows {cdc : Extension ι} {u : World ι} {k wish : Int} {name : String}
    {conn : Option Nat} {now : Int} {b : Batch ι}
    (built : buildBatch name conn now (nextRows cdc u k wish) = some b) :
    IsWindow u.log u.cursor b := by
  obtain ⟨start,stop,items,nonempty,_⟩ := built_of_windowRows built
  obtain ⟨row,_,above,below⟩ := SnapshotLog.between_ne_nil_iff.mp nonempty
  refine ⟨start,by omega,by omega,?_⟩
  rw [items, stop]

end
end CdcLoop
