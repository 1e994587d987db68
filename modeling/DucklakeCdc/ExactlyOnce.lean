import DucklakeCdc.BatchTransaction

/-!
Exactly-once delivery through `batch.transaction()`. A caller asks for batches, hands
its most recent one to a transaction that writes the batch's items, tries again after
a failure or goes on, and may close, reopen or crash between any two steps. What is
durable in the sink is what the durable cursor has passed, each item once.
-/
namespace CdcExactlyOnce
open Programs CdcBatch CdcDatabase CdcRetry CdcLoop CdcTransaction
variable {ι : Type}

inductive TxStatement (ι : Type) where
  | execute (items : List ι)
  | executemany (items : List ι)

def TxStatement.items : TxStatement ι → List ι
  | .execute items => items
  | .executemany items => items

def TxStatement.run : TxStatement ι → TxClient ι Unit
  | .execute items => CdcTransaction.execute items
  | .executemany items => CdcTransaction.executemany items

/-- A body that writes exactly the items it is given; it may raise at its end, and a
    statement that raises ends it. -/
structure Body (items : List ι) where
  statements : List (TxStatement ι)
  exact_ : (statements.flatMap TxStatement.items).Perm items
  raises : Option Exc := none

def runStatements : List (TxStatement ι) → TxClient ι Unit
  | [] => pure ()
  | stmt :: rest => do
    stmt.run
    runStatements rest

def Body.run {items : List ι} (body : Body items) : TxClient ι Unit := do
  runStatements body.statements
  match body.raises with
  | some e => throwExc e
  | none => pure ()

/-- `recent` is the last batch obtained, until its `with` block has succeeded. -/
structure Caller (ι : Type) where
  world : World ι
  recent : Option (Batch ι) := none
  generator : Option (BatchOptions × Generator) := none

inductive Action (ι : Type) where
  | listen (maxSnapshots : Int) (retry : Option RetryPolicy)
  | batches (o : BatchOptions) (fuel : Nat)
  | next (fuel : Nat)
  | process (body : (b : Batch ι) → Body b.items)
  | reopen (keepsConnection : Bool)

abbrev Calls (ι : Type) := EStateM Stop (Caller ι)

def onClient {α : Type} (p : Client ι α) : Calls ι α :=
  within Caller.world (fun s w => { s with world := w }) p

def receive (o : BatchOptions) (given : Option (Batch ι × Generator)) : Calls ι Unit :=
  match given with
  | none => pure ()
  | some (b, g) => modify fun s => { s with recent := some b, generator := some (o, g) }

def Caller.reconnect (s : Caller ι) : Caller ι where
  world := { s.world with db := s.world.db.reconnect }
  recent := s.recent

def perform (cdc : Extension ι) (c : Consumer) : Action ι → Calls ι Unit
  | .listen k retry => do
    let given ← onClient (CdcLoop.listen cdc c k retry)
    match given with
    | none => pure ()
    | some b => modify fun s => { s with recent := some b }
  | .batches o fuel => do
    modify fun s => { s with generator := none }
    let given ← onClient (CdcLoop.batches cdc c o fuel)
    receive o given
  | .next fuel => do
    let s ← get
    match s.generator with
    | none => pure ()
    | some (o, g) => do
      modify fun s => { s with generator := none }
      let given ← onClient (CdcLoop.resume cdc c o fuel g)
      receive o given
  | .process body => do
    let s ← get
    match s.recent with
    | none => pure ()
    | some b => do
      onClient (withTransaction c b (body b).run)
      modify fun s => { s with recent := none }
  | .reopen keepsConnection =>
    if keepsConnection then pure () else modify Caller.reconnect

/-- An action with all that the process meets in it; where that ends before the action
    does, the process crashes and is started again. -/
structure Turn (ι : Type) where
  action : Action ι
  script : List (Act ι)

def Caller.turn (cdc : Extension ι) (c : Consumer) (s : Caller ι) (t : Turn ι) : Caller ι :=
  match (perform cdc c t.action).run { s with world := { s.world with script := t.script } } with
  | .ok _ u => u
  | .error (.raised _) u => u
  | .error .crashed u => { u.reconnect with recent := none }

def turns (cdc : Extension ι) (c : Consumer) (s : Caller ι) (ts : List (Turn ι)) : Caller ι :=
  ts.foldl (Caller.turn cdc c) s

def Caller.initial (log : SnapshotLog ι) (start : Int) : Caller ι where
  world := { log := log, db := { start := start } }

/-- The sink holds what the durable cursor has passed. -/
structure Settled (start : Int) (w : World ι) : Prop where
  ahead : start ≤ w.db.durable
  behind : w.db.durable = start ∨ w.db.durable ≤ w.log.newest
  holds : w.db.sink.Perm (w.log.between start w.db.durable)

def Current (b : Batch ι) (w : World ι) : Prop := IsWindow w.log w.db.durable b

variable {start : Int} {b : Batch ι} {w : World ι}

theorem ambient_settled : Ambient (Settled (ι := ι) start) := by
  refine ambient_of ?_ (fun _ _ _ _ _ _ h => ⟨h.ahead,h.behind,h.holds⟩)
  intro w items h
  refine ⟨h.ahead,?_,?_⟩
  · rcases h.behind with same | below
    · exact Or.inl same
    · right
      simp only [World.land, SnapshotLog.land]
      omega
  · have unchanged : (w.log.land items).between start w.db.durable =
        w.log.between start w.db.durable := by
      rcases h.behind with same | below
      · rw [same, SnapshotLog.between_self, SnapshotLog.between_self]
      · exact SnapshotLog.between_land w.log items below
    simpa only [World.land, unchanged] using h.holds

theorem ambient_current (b : Batch ι) : Ambient (Current b) :=
  ambient_of (fun _ items h => isWindow_land items h) (fun _ _ _ _ _ _ h => h)

/-- Durably nothing has happened since `b`, obtained on connection `conn`, became due. -/
def Held (start : Int) (b : Batch ι) (conn : Nat) (w : World ι) : Prop :=
  Settled start w ∧ Current b w ∧ conn ≤ w.db.live

theorem ambient_held {conn : Nat} : Ambient (Held start b conn) :=
  ambient_and ambient_settled (ambient_and (ambient_current b) (ambient_db (conn ≤ ·.live)))

theorem held_transaction {conn : Nat} (h : Held start b conn w) (still : Option (Transaction ι)) :
    Held start b conn (World.withDb w { w.db with transaction := still }) :=
  ⟨⟨h.1.ahead,h.1.behind,h.1.holds⟩,h.2⟩

def Pending (conn : Nat) (P : Commit ι → Prop) (db : Database ι) : Prop :=
  db.live = conn ∧ ∃ t, db.transaction = some t ∧ P t.pending

def Working (start : Int) (b : Batch ι) (conn : Nat) (P : Commit ι → Prop) (w : World ι) : Prop :=
  Held start b conn w ∧ Pending conn P w.db

theorem ambient_working {conn : Nat} {P : Commit ι → Prop} :
    Ambient (Working start b conn P) := ambient_and ambient_held (ambient_db (Pending conn P))

theorem ends_change {conn : Nat} {P : Commit ι → Prop} {change : Commit ι}
    (h : Working start b conn P w) :
    Ends (executeOn conn (.change change)) w
      (fun _ => Working start b conn fun p => ∃ before, P before ∧ p = before.then change)
      (fun _ => Working start b conn fun p => P p ∨ ∃ before, P before ∧ p = before.then change) := by
  apply ends_executeOn_of_ambient ambient_working h
  · intro _ u facts
    obtain ⟨held,live,t,open_,pending⟩ := facts
    exact ⟨held,live,t,open_,Or.inl pending⟩
  · intro u reply e db facts _ answer
    obtain ⟨held,live,t,open_,pending⟩ := facts
    rcases Database.answer_change_inside change reply open_ with
      ⟨_,done⟩ | ⟨e',t',failed,either⟩
    · rw [done] at answer
      cases answer
    · rw [failed] at answer
      cases answer
      refine ⟨held_transaction held _,live,t',rfl,?_⟩
      rcases either with same | more
      · exact Or.inl (same ▸ pending)
      · exact Or.inr ⟨_,pending,more⟩
  · intro u reply db facts _ answer
    obtain ⟨held,live,t,open_,pending⟩ := facts
    rcases Database.answer_change_inside change reply open_ with
      ⟨_,done⟩ | ⟨e',t',failed,either⟩
    · rw [done] at answer
      cases answer
      exact ⟨held_transaction held _,live,_,rfl,_,pending,rfl⟩
    · rw [failed] at answer
      cases answer

/-- The batch in hand is due on connection `conn`, unless a transaction is stuck there. -/
def Due (start : Int) (b : Batch ι) (conn : Nat) (w : World ι) : Prop :=
  Settled start w ∧ conn ≤ w.db.live ∧
    (w.db.live = conn → w.db.transaction = none → Current b w)

theorem ambient_due {conn : Nat} : Ambient (Due start b conn) where
  meet w rest act script h := by
    refine ⟨ambient_settled.meet w rest act script h.1,?_,fun live idle => ?_⟩
    · rw [meet_db]
      exact h.2.1
    · rw [meet_db] at live idle
      exact (ambient_current b).meet w rest act script (h.2.2 live idle)
  clock w t h := ⟨ambient_settled.clock w t h.1,h.2.1,fun live idle => h.2.2 live idle⟩

theorem due_of_held {conn : Nat} (h : Held start b conn w) : Due start b conn w :=
  ⟨h.1,h.2.2,fun _ _ => h.2.1⟩

theorem ends_begin {conn : Nat} (h : Due start b conn w) :
    Ends (executeOn conn .begin) w (fun _ => Working start b conn fun p => p = {})
      (fun _ => Due start b conn) := by
  apply ends_executeOn_of_ambient ambient_due h (fun _ _ hu => hu)
  · intro u reply e db facts live answer
    obtain ⟨settled,opened,due⟩ := facts
    rcases Database.answer_begin u.db reply with
      ⟨_,done⟩ | ⟨e',still,failed,stays⟩
    · rw [done] at answer
      cases answer
    · rw [failed] at answer
      cases answer
      refine ⟨⟨settled.ahead,settled.behind,settled.holds⟩,opened,fun _ none_ => ?_⟩
      have idle : u.db.transaction = none := by
        by_contra open_
        exact stays open_ none_
      exact due live idle
  · intro u reply db facts live answer
    obtain ⟨settled,opened,due⟩ := facts
    rcases Database.answer_begin u.db reply with
      ⟨idle,done⟩ | ⟨e',still,failed,_⟩
    · rw [done] at answer
      cases answer
      exact ⟨held_transaction ⟨settled,due live idle,opened⟩ _,live,_,rfl,rfl⟩
    · rw [failed] at answer
      cases answer

theorem ends_rollback {conn : Nat} (h : Held start b conn w) :
    Ends (executeOn conn .rollback) w (fun _ => Held start b conn) (fun _ => Held start b conn) := by
  apply ends_executeOn_of_ambient ambient_held h (fun _ _ hu => hu)
  · intro u reply e db held _ answer
    obtain ⟨raised,still,after⟩ := Database.answer_rollback u.db reply
    rw [after] at answer
    cases answer
    exact held_transaction held still
  · intro u reply db held _ answer
    obtain ⟨raised,still,after⟩ := Database.answer_rollback u.db reply
    rw [after] at answer
    cases answer
    exact held_transaction held still

theorem settled_commit {conn : Nat} {p : Commit ι} (h : Held start b conn w)
    (writes : p.writes.Perm b.items)
    (advance : p.advance = some b.endSnapshot) (still : Option (Transaction ι)) :
    Settled start
      (World.withDb w { w.db with commits := w.db.commits ++ [p], transaction := still }) := by
  obtain ⟨settled,current,_⟩ := h
  have forward := current.forward
  have durable : (World.withDb w { w.db with
      commits := w.db.commits ++ [p], transaction := still }).db.durable = b.endSnapshot := by
    simp [World.withDb, Database.durable, advance]
  refine ⟨?_,?_,?_⟩
  · rw [durable]
    have := settled.ahead
    omega
  · rw [durable]
    exact Or.inr current.below
  · rw [durable]
    have sink : (World.withDb w { w.db with
        commits := w.db.commits ++ [p], transaction := still }).db.sink =
        w.db.sink ++ p.writes := by simp [World.withDb, Database.sink]
    rw [sink]
    refine (List.Perm.append settled.holds (writes.trans ?_)).trans
      (SnapshotLog.between_split w.log settled.ahead (Int.le_of_lt forward))
    rw [current.items]

theorem ends_commit {conn : Nat} (h : Working start b conn
      (fun p => p.writes.Perm b.items ∧ p.advance = some b.endSnapshot) w) :
    Ends (executeOn conn .commit) w (fun _ => Settled start) (fun _ => Held start b conn) := by
  apply ends_executeOn_of_ambient ambient_working h (fun _ _ hu => hu.1)
  · intro u reply e db facts _ answer
    obtain ⟨held,_⟩ := facts
    rcases Database.answer_commit u.db reply with
      ⟨t,_,done⟩ | ⟨e',still,failed⟩
    · rw [done] at answer
      cases answer
    · rw [failed] at answer
      cases answer
      exact held_transaction held still
  · intro u reply db facts _ answer
    obtain ⟨held,_,t,open_,pending⟩ := facts
    rcases Database.answer_commit u.db reply with
      ⟨t',open',done⟩ | ⟨e',still,failed⟩
    · rw [done] at answer
      cases answer
      obtain rfl : t = t' := Option.some.inj (open_.symm.trans open')
      exact settled_commit held pending.1 pending.2 none
    · rw [failed] at answer
      cases answer

def InSession (b : Batch ι) (conn : Nat) (fact : World ι → Prop) (s : Session ι) : Prop :=
  (s.tx.connection = conn ∧ s.tx.endSnapshot = b.endSnapshot) ∧ fact s.world

def Wrote (start : Int) (b : Batch ι) (conn : Nat) (done : List ι) : Session ι → Prop :=
  InSession b conn (Working start b conn fun p => p = { writes := done })

variable {conn : Nat} {s : Session ι}

theorem ends_execute {done items : List ι} (h : Wrote start b conn done s) :
    Ends (execute items) s (fun _ => Wrote start b conn (done ++ items))
      (fun _ => InSession b conn (Held start b conn)) := by
  obtain ⟨same,working⟩ := h
  rw [execute, ends_bind, ends_get, onWorld, ends_within, same.1]
  refine ends_mono (ends_change working) ?_ (fun _ u hu => ⟨same,hu.1⟩)
  intro _ u facts
  obtain ⟨held,live,t,open_,before,rfl,pending⟩ := facts
  exact ⟨same,held,live,t,open_,pending⟩

theorem ends_executemany {done items : List ι} (h : Wrote start b conn done s) :
    Ends (executemany items) s (fun _ => Wrote start b conn (done ++ items))
      (fun _ => InSession b conn (Held start b conn)) := by
  induction items generalizing done s with
  | nil => simpa [executemany] using h
  | cons item rest ih =>
    rw [executemany, ends_bind]
    refine ends_mono (ends_execute h) ?_ (fun _ _ hu => hu)
    intro _ u hu
    simpa using ih hu

theorem ends_statement {done : List ι} (stmt : TxStatement ι) (h : Wrote start b conn done s) :
    Ends stmt.run s (fun _ => Wrote start b conn (done ++ stmt.items))
      (fun _ => InSession b conn (Held start b conn)) := by
  cases stmt with
  | execute items => exact ends_execute h
  | executemany items => exact ends_executemany h

theorem ends_runStatements {done : List ι} (stmts : List (TxStatement ι))
    (h : Wrote start b conn done s) :
    Ends (runStatements stmts) s
      (fun _ => Wrote start b conn (done ++ stmts.flatMap TxStatement.items))
      (fun _ => InSession b conn (Held start b conn)) := by
  induction stmts generalizing done s with
  | nil => simpa [runStatements] using h
  | cons stmt rest ih =>
    rw [runStatements, ends_bind]
    refine ends_mono (ends_statement stmt h) ?_ (fun _ _ hu => hu)
    intro _ u hu
    simpa using ih hu

theorem ends_body (body : Body b.items) (h : Wrote start b conn [] s) :
    Ends body.run s
      (fun _ => InSession b conn (Working start b conn fun p =>
        p.writes.Perm b.items ∧ p.advance = none))
      (fun _ => InSession b conn (Held start b conn)) := by
  rw [Body.run, ends_bind]
  refine ends_mono (ends_runStatements body.statements h) ?_ (fun _ _ hu => hu)
  intro _ u facts
  obtain ⟨same,held,live,t,open_,pending⟩ := facts
  cases body.raises with
  | some e => exact ⟨same,held⟩
  | none => exact ⟨same,held,live,t,open_,by rw [pending]; exact ⟨body.exact_,rfl⟩⟩

theorem ends_rollbackQuietly (h : InSession b conn (Held start b conn) s) :
    Ends rollbackQuietly s (fun _ => InSession b conn (Held start b conn))
      (fun _ => InSession b conn (Held start b conn)) := by
  obtain ⟨same,held⟩ := h
  rw [rollbackQuietly, ends_bind, ends_get, ends_tryExcept, onWorld, ends_within, same.1]
  refine ends_mono (ends_rollback held) (fun _ u hu => ⟨same,hu⟩) ?_
  intro e u hu
  split
  · exact ⟨same,hu⟩
  · exact ⟨same,hu⟩

theorem ends_commitWithin (c : Consumer) (h : Working start b conn
      (fun p => p.writes.Perm b.items ∧ p.advance = none) w) :
    Ends (commitSnapshotWithin c conn b.endSnapshot) w
      (fun _ => Working start b conn fun p =>
        p.writes.Perm b.items ∧ p.advance = some b.endSnapshot)
      (fun _ => Held start b conn) := by
  let inv : World ι → Prop := Working start b conn fun p =>
    p.writes.Perm b.items ∧ (p.advance = none ∨ p.advance = some b.endSnapshot)
  have advanced : ∀ before : Commit ι, before.writes.Perm b.items →
      (before.then { advance := some b.endSnapshot }).writes.Perm b.items := by
    intro before writes
    simpa [Commit.then] using writes
  have op : ∀ u, inv u → Ends (executeOn conn (.cdcCommit b.endSnapshot)) u
      (fun _ => Working start b conn fun p =>
        p.writes.Perm b.items ∧ p.advance = some b.endSnapshot) (fun _ => inv) := by
    intro u hu
    apply ends_mono (ends_change hu)
    · intro _ v facts
      obtain ⟨held,live,t,open_,before,⟨writes,_⟩,pending⟩ := facts
      exact ⟨held,live,t,open_,by rw [pending]; exact ⟨advanced before writes,rfl⟩⟩
    · rintro _ v ⟨held,live,t,open_,still | ⟨before,⟨writes,_⟩,pending⟩⟩
      · exact ⟨held,live,t,open_,still⟩
      · exact ⟨held,live,t,open_,by rw [pending]; exact ⟨advanced before writes,Or.inr rfl⟩⟩
  obtain ⟨held,live,t,open_,writes,none_⟩ := h
  exact ends_mono (ends_policy c.retryPolicy op (ends_sleep ambient_working) w
    ⟨held,live,t,open_,writes,Or.inl none_⟩) (fun _ _ hu => hu) (fun _ _ hu => hu.1)

theorem ends_exit_raised {c : Consumer} {e : Exc} (h : InSession b conn (Held start b conn) s) :
    Ends (exit c (some e)) s (fun _ => InSession b conn (Held start b conn))
      (fun _ => InSession b conn (Held start b conn)) := by
  rw [exit, ends_bind, ends_modify]
  exact ends_rollbackQuietly h

theorem ends_exit {c : Consumer} (h : InSession b conn (Working start b conn fun p =>
      p.writes.Perm b.items ∧ p.advance = none) s) :
    Ends (exit c none) s (fun _ => InSession b conn (Settled start))
      (fun _ => InSession b conn (Held start b conn)) := by
  obtain ⟨⟨connection,endSnapshot,state⟩,world⟩ := s
  obtain ⟨same,working⟩ := h
  obtain rfl : connection = conn := same.1
  obtain rfl : endSnapshot = b.endSnapshot := same.2
  let closed : World ι → Session ι := fun u => ⟨⟨connection,b.endSnapshot,.closed⟩,u⟩
  have failed : ∀ e u, Held start b connection u →
      if caughtByException e then
        Ends (do rollbackQuietly; throw e : TxClient ι Unit) (closed u)
          (fun _ => InSession b connection (Settled start))
          (fun _ => InSession b connection (Held start b connection))
      else InSession b connection (Held start b connection) (closed u) := by
    intro e u held
    split
    · rw [ends_bind]
      exact ends_mono (ends_rollbackQuietly ⟨⟨rfl,rfl⟩,held⟩) (fun _ _ hu => hu) (fun _ _ hu => hu)
    · exact ⟨⟨rfl,rfl⟩,held⟩
  rw [exit, ends_bind, ends_modify, ends_tryExcept, ends_bind, ends_get, ends_bind, onWorld,
    ends_within]
  refine ends_mono (ends_commitWithin c working) ?_ failed
  intro _ u advanced
  rw [onWorld, ends_within]
  exact ends_mono (ends_commit advanced) (fun _ _ hu => ⟨⟨rfl,rfl⟩,hu⟩) failed

theorem ends_enter (fresh : s.tx.state = .fresh) (h : InSession b conn (Due start b conn) s) :
    Ends enter s (fun _ => Wrote start b conn []) (fun _ => InSession b conn (Due start b conn)) := by
  obtain ⟨same,due⟩ := h
  rw [enter, ends_bind, ends_get, ends_ite]
  refine ⟨fun used => absurd fresh used,fun _ => ?_⟩
  rw [ends_bind, onWorld, ends_within, same.1]
  exact ends_mono (ends_begin due) (fun _ _ hu => ⟨same,hu⟩) (fun _ _ hu => ⟨same,hu⟩)

/-- One `with` block on the batch in hand: it settles the batch or leaves it due. -/
theorem ends_withTransaction {c : Consumer} (body : Body b.items)
    (bound : b.connection = some conn) (due : Due start b conn w) :
    Ends (withTransaction c b body.run) w (fun _ => Settled start) (fun _ => Due start b conn) := by
  have stays : ∀ u, InSession b conn (Held start b conn) u → Due start b conn u.world :=
    fun u hu => due_of_held hu.2
  rw [withTransaction, bound]
  simp only [ends_within, ends_bind, ends_tryExcept, ends_pure]
  refine ends_mono (ends_enter rfl ⟨⟨rfl,rfl⟩,due⟩) ?_ (fun _ _ hu => hu.2)
  intro _ s wrote
  apply ends_mono (ends_body body wrote)
  · intro _ u working
    exact ends_mono (ends_exit working) (fun _ _ hu => hu.2) (fun _ v hv => stays v hv)
  · intro e u held
    split
    · cases seen : Failure.python e with
      | none => simp_all [caughtByBaseException]
      | some e' =>
        exact ends_mono (ends_exit_raised held) (fun _ v hv => stays v hv)
          (fun _ v hv => stays v hv)
    · exact stays u held

def Kept (start : Int) (recent : Option (Batch ι)) (w : World ι) : Prop :=
  Settled start w ∧ ∀ b conn, recent = some b → b.connection = some conn → Due start b conn w

theorem ambient_kept {recent : Option (Batch ι)} : Ambient (Kept start recent) where
  meet w rest act script h := ⟨ambient_settled.meet w rest act script h.1,
    fun b conn is_ bound => ambient_due.meet w rest act script (h.2 b conn is_ bound)⟩
  clock w t h := ⟨ambient_settled.clock w t h.1,
    fun b conn is_ bound => ambient_due.clock w t (h.2 b conn is_ bound)⟩

theorem kept_congr {recent : Option (Batch ι)} {u : World ι} (h : Kept start recent w)
    (log : u.log = w.log) (db : u.db = w.db) : Kept start recent u := by
  have settled : Settled start w → Settled start u := by
    intro facts
    obtain ⟨ahead,behind,holds⟩ := facts
    exact ⟨by rwa [db],by rwa [db, log],by rwa [db, log]⟩
  refine ⟨settled h.1,fun b conn is_ bound => ?_⟩
  obtain ⟨before,opened,due⟩ := h.2 b conn is_ bound
  exact ⟨settled before,by rwa [db],by rwa [Current, db, log]⟩

theorem kept_polling {cdc : Extension ι} {c : Consumer} {o : BatchOptions}
    {recent : Option (Batch ι)} :
    Polling cdc c o (Kept start recent) (fun b => Kept start (some b)) (Kept start recent)
      (Kept start recent) := by
  refine polling_of_offers ambient_kept (fun _ => ambient_kept)
    (fun u k wish h => kept_congr h rfl rfl) ?_
  intro u k wish now b h built
  refine kept_congr (w := u) ⟨h.1,?_⟩ rfl rfl
  intro b' conn same bound
  cases same
  obtain ⟨_,_,_,_,own⟩ := built_of_windowRows built
  obtain rfl : u.db.live = conn := Option.some.inj (own.symm.trans bound)
  refine ⟨h.1,Nat.le_refl _,fun _ idle => ?_⟩
  have window := isWindow_of_nextRows built
  rw [World.cursor, Database.visible_autocommit idle] at window
  exact window

def Sound (start : Int) (s : Caller ι) : Prop := Kept start s.recent s.world

theorem sound_receive {o : BatchOptions} {given : Option (Batch ι × Generator)} {s : Caller ι}
    (h : Given (Kept start s.recent) (fun b => Kept start (some b)) (Kept start s.recent) given
      s.world) :
    Ends (receive o given) s (fun _ => Sound start) (fun _ => Sound start) := by
  cases given with
  | none => exact h
  | some given =>
    obtain ⟨b,g⟩ := given
    exact h.2

theorem settled_reconnect (h : Settled start w) :
    Settled start { w with db := w.db.reconnect } := ⟨h.ahead,h.behind,h.holds⟩

theorem sound_reconnect {s : Caller ι} (h : Sound start s) : Sound start s.reconnect := by
  refine ⟨settled_reconnect h.1,fun b conn is_ bound => ?_⟩
  obtain ⟨settled,opened,_⟩ := h.2 b conn is_ bound
  have newer : s.reconnect.world.db.live = s.world.db.live + 1 := rfl
  refine ⟨settled_reconnect settled,?_,fun live => ?_⟩
  · omega
  · omega

theorem keeps_perform (start : Int) (cdc : Extension ι) (c : Consumer) (action : Action ι) :
    Keeps (Sound start) (perform cdc c action) := by
  intro s h
  cases action with
  | listen k retry =>
    rw [perform, ends_bind, onClient, ends_within]
    refine ends_mono (ends_listen (o := {}) kept_polling k retry _ h) ?_ (fun _ _ hu => hu)
    intro given u facts
    obtain ⟨kept,ready⟩ := facts
    cases given with
    | none => exact kept
    | some b => exact ready b rfl
  | batches o fuel =>
    rw [perform, ends_bind, ends_modify, ends_bind, onClient, ends_within]
    exact ends_mono (ends_batches kept_polling fuel _ h)
      (fun _ _ hu => sound_receive hu) (fun _ _ hu => hu)
  | next fuel =>
    rw [perform, ends_bind, ends_get]
    cases s.generator with
    | none => exact h
    | some generator =>
      obtain ⟨o,g⟩ := generator
      simp only
      rw [ends_bind, ends_modify, ends_bind, onClient, ends_within]
      exact ends_mono (ends_resume kept_polling fuel g _ h)
        (fun _ _ hu => sound_receive hu) (fun _ _ hu => hu)
  | process body =>
    rw [perform, ends_bind, ends_get]
    cases recent : s.recent with
    | none => exact h
    | some b =>
      rw [Sound, recent] at h
      simp only
      rw [ends_bind, onClient, ends_within]
      have block : Ends (withTransaction c b (body b).run) s.world (fun _ => Settled start)
          (fun _ => Kept start (some b)) := by
        cases bound : b.connection with
        | none =>
          rw [withTransaction, bound]
          exact h
        | some conn =>
          refine ends_mono (ends_withTransaction (body b) bound (h.2 b conn rfl bound))
            (fun _ _ hu => hu) (fun _ u due => ⟨due.1,?_⟩)
          intro b' conn' same bound'
          cases same
          obtain rfl : conn = conn' := Option.some.inj (bound.symm.trans bound')
          exact due
      apply ends_mono block
      · exact fun _ u settled => ⟨settled,fun _ _ no => by cases no⟩
      · intro _ u kept
        rw [Sound, recent]
        exact kept
  | reopen keepsConnection =>
    rw [perform, ends_ite]
    exact ⟨fun _ => h,fun _ => sound_reconnect h⟩

theorem sound_turn (cdc : Extension ι) (c : Consumer) (t : Turn ι) {s : Caller ι}
    (h : Sound start s) : Sound start (Caller.turn cdc c s t) := by
  have kept := keeps_perform start cdc c t.action
    { s with world := { s.world with script := t.script } } (kept_congr h rfl rfl)
  rw [Caller.turn]
  obtain ⟨_,_,run,sound⟩ | ⟨e,_,run,sound⟩ := ends_cases kept
  · rw [run]
    exact sound
  · rw [run]
    cases e with
    | raised e => exact sound
    | crashed => exact ⟨settled_reconnect sound.1,fun _ _ no => by cases no⟩

theorem sound_turns (cdc : Extension ι) (c : Consumer) (ts : List (Turn ι)) {s : Caller ι}
    (h : Sound start s) : Sound start (turns cdc c s ts) := by
  induction ts generalizing s with
  | nil => exact h
  | cons t rest ih => exact ih (sound_turn cdc c t h)

/-- Whatever raises and wherever the process stops, the sink durably holds the items of
    the snapshots the durable cursor has passed, each once. -/
theorem transactions_exactly_once (cdc : Extension ι) (c : Consumer) (log : SnapshotLog ι)
    (start : Int) (ts : List (Turn ι)) :
    let s := turns cdc c (Caller.initial log start) ts
    s.world.db.sink.Perm (s.world.log.between start s.world.db.durable) := by
  have initial : Sound start (Caller.initial log start) := by
    refine ⟨⟨Int.le_refl _,Or.inl rfl,?_⟩,fun _ _ no => by cases no⟩
    rw [show (Caller.initial log start).world.db.durable = start from rfl,
      SnapshotLog.between_self]
    exact List.Perm.refl []
  exact (sound_turns cdc c ts initial).1.holds

end CdcExactlyOnce
