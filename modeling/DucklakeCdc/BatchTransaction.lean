import DucklakeCdc.BatchLoop

/-!
The transaction of a batch (`BatchTransaction`): BEGIN on the batch's connection, the
caller's statements, and on exit either ROLLBACK or `cdc_commit` and COMMIT. Statements
are not checked against the object's state; only `__enter__` is.
-/
namespace CdcTransaction
open Programs CdcBatch CdcDatabase CdcRetry CdcLoop
variable {ι : Type}

inductive TransactionState where
  | fresh | opened | closed
  deriving DecidableEq, Repr

structure BatchTransaction where
  connection : Nat
  endSnapshot : Int
  state : TransactionState := .fresh
  deriving DecidableEq, Repr

structure Session (ι : Type) where
  tx : BatchTransaction
  world : World ι

abbrev TxClient (ι : Type) := EStateM Stop (Session ι)

def onWorld {α : Type} (p : Client ι α) : TxClient ι α :=
  within Session.world (fun s w => { s with world := w }) p

def executeOn (connection : Nat) (stmt : Statement ι) : Client ι Unit := do
  let act ← step
  let w ← get
  let (raised, db) := w.db.answerOn connection stmt act.toReply
  set { w with db := db }
  match raised with
  | some e => throwExc e
  | none => pure ()

def commitSnapshotWithin (c : Consumer) (connection : Nat) (snapshot : Int) : Client ι Unit :=
  c.retryPolicy.run sleep (executeOn connection (.cdcCommit snapshot))

def execute (items : List ι) : TxClient ι Unit := do
  let s ← get
  onWorld (executeOn s.tx.connection (.write items))

def executemany : List ι → TxClient ι Unit
  | [] => pure ()
  | item :: rest => do
    execute [item]
    executemany rest

def singleUseError : Exc := .raised .runtimeError "BatchTransaction is single-use"

def enter : TxClient ι Unit := do
  let s ← get
  if s.tx.state ≠ .fresh then throwExc singleUseError
  else do
    onWorld (executeOn s.tx.connection .begin)
    modify fun s => { s with tx := { s.tx with state := .opened } }

/-- `ROLLBACK`, with its own `Exception` swallowed. -/
def rollbackQuietly : TxClient ι Unit := do
  let s ← get
  tryExcept caughtByException (onWorld (executeOn s.tx.connection .rollback)) fun _ => pure ()

/-- `c` is the consumer that built the batch; its retry policy runs the `cdc_commit`. -/
def exit (c : Consumer) (raised : Option Exc) : TxClient ι Unit := do
  modify fun s => { s with tx := { s.tx with state := .closed } }
  match raised with
  | some _ => rollbackQuietly
  | none =>
    tryExcept caughtByException
      (do
        let s ← get
        onWorld (commitSnapshotWithin c s.tx.connection s.tx.endSnapshot)
        onWorld (executeOn s.tx.connection .commit))
      fun e => do
        rollbackQuietly
        throw e

def noConnectionError : Exc := .raised .runtimeError
  ("batch.transaction() requires the batch to be created by an open consumer; " ++
    "this batch has no bound connection")

def withTransaction (c : Consumer) (batch : Batch ι) (body : TxClient ι Unit) : Client ι Unit :=
  match batch.connection with
  | none => throwExc noConnectionError
  | some connection =>
    within (Session.mk ⟨connection,batch.endSnapshot,.fresh⟩) (fun _ s => s.world) do
      enter
      let raised ← tryExcept caughtByBaseException (do body; pure none)
        fun e => pure (Failure.python e)
      exit c raised
      match raised with
      | some e => throwExc e
      | none => pure ()

def World.withDb (w : World ι) (db : Database ι) : World ι := { w with db := db }

variable {w : World ι} {conn : Nat} {stmt : Statement ι} {ok : Unit → World ι → Prop}
  {err : Stop → World ι → Prop}

theorem ends_executeOn (crash : w.script = [] → err .crashed w)
    (closed : ∀ act rest e, w.script = act :: rest → conn ≠ w.db.live →
      err (.raised e) ({ w with script := rest }.meet act))
    (failed : ∀ act rest e db, w.script = act :: rest → conn = w.db.live →
      w.db.answer stmt act.toReply = (some e, db) →
      err (.raised e) (World.withDb ({ w with script := rest }.meet act) db))
    (done : ∀ act rest db, w.script = act :: rest → conn = w.db.live →
      w.db.answer stmt act.toReply = (none, db) →
      ok () (World.withDb ({ w with script := rest }.meet act) db)) :
    Ends (executeOn conn stmt) w ok err := by
  rw [executeOn, ends_bind]
  apply ends_step crash
  intro act rest script
  rw [ends_bind, ends_get, meet_db]
  by_cases live : conn = w.db.live
  · rw [Database.answerOn, if_pos live]
    rcases answer : w.db.answer stmt act.toReply with ⟨failure,db⟩
    cases failure with
    | some e => exact failed act rest e db script live answer
    | none => exact done act rest db script live answer
  · rw [Database.answerOn, if_neg live]
    have unchanged : ∀ u : World ι, u.db = w.db → World.withDb u w.db = u := by
      intro u same
      rw [← same]
      rfl
    have raised := closed act rest (act.raises.getD act.refusal) script live
    rw [← unchanged _ (meet_db { w with script := rest } act)] at raised
    exact raised

theorem ends_executeOn_of_ambient {inv : World ι → Prop} (amb : Ambient inv) (h : inv w)
    (raised : ∀ e u, inv u → err e u)
    (failed : ∀ u reply e db, inv u → u.db.live = conn →
      u.db.answer stmt reply = (some e, db) → err (.raised e) (World.withDb u db))
    (done : ∀ u reply db, inv u → u.db.live = conn →
      u.db.answer stmt reply = (none, db) → ok () (World.withDb u db)) :
    Ends (executeOn conn stmt) w ok err := by
  apply ends_executeOn (fun _ => raised _ _ h)
  · exact fun act rest e script _ => raised _ _ (amb.meet w rest act script h)
  · intro act rest e db script live answer
    exact failed _ _ e db (amb.meet w rest act script h) (by simp [live]) (by simpa using answer)
  · intro act rest db script live answer
    exact done _ _ db (amb.meet w rest act script h) (by simp [live]) (by simpa using answer)

end CdcTransaction
