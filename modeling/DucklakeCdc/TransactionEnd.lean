import DucklakeCdc.BatchTransaction

/-!
The end of a batch's transaction (`BatchTransaction.__exit__`) for every outcome of the
body, of `cdc_commit` and of COMMIT. Its `except Exception` around the last two does not
see what is no `Exception`, and the transaction then stays open.
-/
namespace CdcTransactionEnd
open Programs CdcBatch CdcDatabase CdcRetry CdcLoop CdcTransaction
variable {ι : Type}

/-- BEGIN went through, and since then the body has executed statements through the object
    or, short of ending the transaction, on its connection; whatever they met. -/
inductive Begun : Session ι → Prop where
  | enter {s t : Session ι} (entered : CdcTransaction.enter.run s = .ok () t) : Begun t
  | meets {s : Session ι} (h : Begun s) (script : List (Act ι)) :
      Begun { s with world := { s.world with script := script } }
  | execute {s : Session ι} (h : Begun s) (items : List ι) :
      Begun (finalState (CdcTransaction.execute items) s)
  | executemany {s : Session ι} (h : Begun s) (items : List ι) :
      Begun (finalState (CdcTransaction.executemany items) s)
  | connection {s : Session ι} (h : Begun s) (made : Commit ι) :
      Begun (finalState (onWorld (executeOn s.tx.connection (.change made))) s)

/-- The statements of `__exit__` after a body that completed. -/
def settle (c : Consumer) : TxClient ι Unit := do
  let s ← get
  onWorld (commitSnapshotWithin c s.tx.connection s.tx.endSnapshot)
  onWorld (executeOn s.tx.connection .commit)

def closedObject (s : Session ι) : Session ι := { s with tx := { s.tx with state := .closed } }

def Advanced (s u : Session ι) : Prop :=
  ∃ commit, u.world.db.commits = s.world.db.commits ++ [commit] ∧
    commit.advance = some s.tx.endSnapshot

/-- The body completed; the retried `cdc_commit` or the COMMIT raises past
    `except Exception`, with the transaction still open. -/
def CutShort (c : Consumer) (raised : Option Exc) (s : Session ι) : Prop :=
  raised = none ∧ ∃ e u, (settle c).run (closedObject s) = .error (.raised e) u ∧
    e.isException = false ∧ u.world.db.transaction ≠ none

def Inside (s : Session ι) : Prop :=
  s.tx.connection = s.world.db.live ∧ ∃ t, s.world.db.transaction = some t

section
variable {s : Session ι} {w : World ι} {commits : List (Commit ι)} {live : Nat} {stop : Int}

def Holding (commits : List (Commit ι)) (live : Nat) (db : Database ι) : Prop :=
  db.commits = commits ∧ db.live = live ∧ ∃ t, db.transaction = some t

theorem ends_enter (s : Session ι) : Ends enter s (fun _ => Inside) (fun _ _ => True) := by
  rw [enter, ends_bind, ends_get]
  split
  · trivial
  · rw [ends_bind, onWorld, ends_within]
    apply ends_executeOn
    · exact fun _ => trivial
    · exact fun _ _ _ _ _ => trivial
    · exact fun _ _ _ _ _ _ _ => trivial
    · intro act rest db _ conn answer
      rw [ends_modify]
      rcases Database.answer_begin s.world.db act.toReply with ⟨_,done⟩ | ⟨e,still,failed,_⟩
      · rw [done] at answer
        cases answer
        exact ⟨conn,_,rfl⟩
      · rw [failed] at answer
        cases answer

theorem ends_rollbackQuietly {u : Session ι}
    (succeeds : returns (onWorld (executeOn u.tx.connection .rollback)) u = true) :
    Ends rollbackQuietly u
      (fun _ v => v.world.db.transaction = none ∧ v.world.db.commits = u.world.db.commits)
      (fun _ _ => False) := by
  have ended : Ends (onWorld (executeOn u.tx.connection .rollback)) u
      (fun _ v => v.world.db.transaction = none ∧ v.world.db.commits = u.world.db.commits)
      (fun _ _ => True) := by
    rw [onWorld, ends_within]
    apply ends_executeOn
    · exact fun _ => trivial
    · exact fun _ _ _ _ _ => trivial
    · exact fun _ _ _ _ _ _ _ => trivial
    · intro act rest db _ _ answer
      unfold Database.answer at answer
      split at answer
      · rename_i after _ performed
        cases answer
        obtain ⟨t,_,rfl⟩ := Option.map_eq_some_iff.mp performed
        exact ⟨rfl,rfl⟩
      · cases answer
      · cases answer
  rw [rollbackQuietly, ends_bind, ends_get, ends_tryExcept]
  apply ends_mono (ends_and ended ends_returns)
  · exact fun _ _ facts => facts.1
  · intro e v facts
    rw [succeeds] at facts
    cases facts.2

end

/-! A batch of `orders` that ends at snapshot 1 -/

def interrupted : Exc := .raised .keyboardInterrupt ""

end CdcTransactionEnd
